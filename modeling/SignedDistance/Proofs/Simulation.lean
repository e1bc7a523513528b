import SignedDistance.Command.Reply
import SignedDistance.Proofs.Decimal.Text
import SignedDistance.Proofs.Overflow
import SignedDistance.Proofs.Pieces
import SignedDistance.Proofs.Settings

set_option autoImplicit false

/-! # Simulations extend each other

A start leads to a body for every count of steps, up to the first step that fails. A simulation has
a row for each of those bodies that it comes to, and a line of text for each row. A longer
simulation comes to the bodies of a shorter one first, so that its table begins with the other. -/

namespace SignedDistance

/-! ## Steps in a row -/

namespace Integrator

/-- A body after `k` steps, or the fault of the first of them that fails. -/
def after (integrator : Integrator) (field : Field) (dt : Float32) (body : Body) :
    ℕ → Except Fault Body
  | 0 => .ok body
  | k + 1 => do (integrator.step field (← integrator.after field dt body k) dt).result

variable {integrator : Integrator} {field : Field} {dt : Float32} {body b : Body} {fault : Fault}
  {k n : ℕ}

/-- The first of the steps may be taken apart instead of the last one. -/
theorem after_succ (integrator : Integrator) (field : Field) (dt : Float32) (body : Body) (k : ℕ) :
    integrator.after field dt body (k + 1) =
      (integrator.step field body dt).result >>= fun b => integrator.after field dt b k := by
  induction k with
  | zero => exact (bind_pure _).symm
  | succ k ih =>
    rw [after, ih, bind_assoc]
    rfl

theorem after_succ_eq_error (hok : integrator.after field dt body k = .ok b)
    (hstep : (integrator.step field b dt).result = .error fault) :
    integrator.after field dt body (k + 1) = .error fault := by
  rw [after, bind_eq_error_iff]
  exact .inr ⟨b, hok, hstep⟩

/-- A step that has failed is not got over. -/
theorem after_eq_error_of_le (h : integrator.after field dt body k = .error fault) (hkn : k ≤ n) :
    integrator.after field dt body n = .error fault := by
  induction n, hkn using Nat.le_induction with
  | base => exact h
  | succ n _ ih =>
    rw [after, ih]
    rfl

/-- There is a step that fails first. -/
theorem exists_step_eq_error (h : integrator.after field dt body n = .error fault) :
    ∃ k < n, ∃ b, integrator.after field dt body k = .ok b ∧
      (integrator.step field b dt).result = .error fault := by
  induction n with
  | zero => cases h
  | succ n ih =>
    rw [after, bind_eq_error_iff] at h
    rcases h with h | ⟨b, hb, hstep⟩
    · obtain ⟨k, hk, hfails⟩ := ih h
      exact ⟨k, hk.trans n.lt_succ_self, hfails⟩
    · exact ⟨n, n.lt_succ_self, b, hb, hstep⟩

end Integrator

/-! ## Settings of a run -/

/-- The default settings, unless a file is named. -/
def Settings.given (file contents : Option String) : Except SettingsError Settings :=
  match file with
  | none => .ok .default
  | some name => Settings.load name contents

theorem Integrator.checked_eq_ok {settings : Settings} (h : settings.validate = .ok ()) :
    Integrator.checked settings.movement settings.tracing =
      .ok ⟨settings.movement, settings.tracing⟩ := by
  obtain ⟨htracing, hmovement⟩ := seq_eq_ok_iff.1 h
  rw [Integrator.checked, hmovement, htracing]
  rfl

namespace Command

/-! ## Bodies on the way -/

section Bodies

variable {integrator : Integrator} {field : Field} {dt : Float32} {body b : Body} {fault : Fault}
  {k n m : ℕ}

theorem getElem?_bodies (integrator : Integrator) (field : Field) (dt : Float32) (body : Body)
    (n k : ℕ) : (bodies integrator field dt body n).1[k]? =
      if k ≤ n then (integrator.after field dt body k).toOption else none := by
  induction n generalizing body k with
  | zero => cases k <;> rfl
  | succ n ih =>
    rw [bodies]
    cases hstep : (integrator.step field body dt).result with
    | error fault =>
      cases k with
      | zero => rfl
      | succ k =>
        rw [integrator.after_succ, hstep]
        exact (ite_self _).symm
    | ok next =>
      cases k with
      | zero => rfl
      | succ k =>
        rw [integrator.after_succ, hstep, List.getElem?_cons_succ, ih]
        simp [bind, Except.bind]

theorem bodies_snd_eq_some_iff : (bodies integrator field dt body n).2 = some fault ↔
    integrator.after field dt body n = .error fault := by
  induction n generalizing body with
  | zero => simp [bodies, Integrator.after]
  | succ n ih =>
    rw [bodies, integrator.after_succ]
    cases hstep : (integrator.step field body dt).result with
    | error fault => simp [bind, Except.bind]
    | ok next => exact ih

theorem bodies_snd_eq_none_iff : (bodies integrator field dt body n).2 = none ↔
    ∃ b, integrator.after field dt body n = .ok b := by
  rw [Option.eq_none_iff_forall_ne_some]
  simp only [ne_eq, bodies_snd_eq_some_iff]
  cases integrator.after field dt body n with
  | error fault => simp
  | ok b => simp

/-- **A longer path begins with a shorter one.** -/
theorem bodies_fst_prefix (h : n ≤ m) :
    (bodies integrator field dt body n).1 <+: (bodies integrator field dt body m).1 := by
  rw [List.prefix_iff_getElem?]
  intro k hk
  have hget := List.getElem?_eq_getElem hk
  rw [getElem?_bodies] at hget ⊢
  split_ifs at hget with hkn
  rwa [if_pos (hkn.trans h)]

/-- A path has come to an end at the last step, or where the next one fails. -/
theorem length_bodies (hkn : k ≤ n) (hok : integrator.after field dt body k = .ok b)
    (hend : k = n ∨ ∃ fault, integrator.after field dt body (k + 1) = .error fault) :
    (bodies integrator field dt body n).1.length = k + 1 := by
  have hlast : (bodies integrator field dt body n).1[k]? = some b := by
    rw [getElem?_bodies, if_pos hkn, hok]
    rfl
  have hbehind : (bodies integrator field dt body n).1[k + 1]? = none := by
    rw [getElem?_bodies]
    rcases hend with rfl | ⟨fault, hfault⟩
    · exact if_neg k.lt_succ_self.not_ge
    · rw [hfault]
      exact ite_self _
  exact Nat.le_antisymm (List.getElem?_eq_none_iff.1 hbehind)
    (List.getElem?_eq_some_iff.1 hlast).1

end Bodies

/-! ## Lines -/

namespace Reply

variable {ls : List String}

theorem lines_append (ls ls' : List String) : lines (ls ++ ls') = lines ls ++ lines ls' := by
  rw [lines, List.map_append, String.join_append]
  rfl

/-- Every line has its end behind it, and nothing stands behind the last. -/
theorem lines_eq_intercalate (ls : List String) :
    lines ls = (String.singleton '\n').intercalate (ls ++ [""]) := by
  induction ls with
  | nil => rfl
  | cons l ls ih =>
    have hne : ls ++ [""] ≠ [] := List.append_ne_nil_of_right_ne_nil _ (List.cons_ne_nil _ _)
    rw [lines, List.map_cons, String.join_cons, ← lines, ih, List.cons_append,
      String.intercalate_cons_of_ne_nil hne]
    rfl

theorem pieces_lines (hls : ∀ l ∈ ls, '\n' ∉ l.toList) : pieces '\n' (lines ls) = ls ++ [""] := by
  rw [lines_eq_intercalate]
  refine pieces_intercalate (List.append_ne_nil_of_right_ne_nil _ (List.cons_ne_nil _ _)) ?_
  intro l hl
  rcases List.mem_append.1 hl with hl | hl
  · exact hls l hl
  · rw [List.mem_singleton.1 hl]
    exact List.not_mem_nil

end Reply

/-! ## Rows -/

theorem vectorText_eq (v : Vec3) : vectorText v = "(" ++ Single.fixedText 4 v.x ++ ", " ++
    Single.fixedText 4 v.y ++ ", " ++ Single.fixedText 4 v.z ++ ")" := rfl

theorem row_eq (step position velocity : String) : row step position velocity =
    alignRight 5 step ++ "  " ++ alignRight 30 position ++ "  " ++ alignRight 30 velocity := rfl

theorem not_mem_fixedText {c : Char} (hc : c.isWhitespace = true) (a : Float32) :
    c ∉ (Single.fixedText 4 a).toList := fun h => by
  cases hc.symm.trans (Single.not_isWhitespace_fixedText 3 a c h)

theorem not_mem_toString {c : Char} (hc : isDecimalDigit c = false) (k : ℕ) :
    c ∉ (toString k).toList := fun h => by
  rw [toList_toString] at h
  cases hc.symm.trans (isDecimalDigit_of_mem_toDigits h)

theorem newline_not_mem_vectorText (v : Vec3) : '\n' ∉ (vectorText v).toList := by
  simp [vectorText_eq, not_mem_fixedText (c := '\n') rfl]

theorem newline_not_mem_alignRight {width : ℕ} {text : String} (h : '\n' ∉ text.toList) :
    '\n' ∉ (alignRight width text).toList := by
  simp [alignRight, toList_pushn, h]

theorem newline_not_mem_row {step position velocity : String} (hstep : '\n' ∉ step.toList)
    (hposition : '\n' ∉ position.toList) (hvelocity : '\n' ∉ velocity.toList) :
    '\n' ∉ (row step position velocity).toList := by
  simp [row_eq, newline_not_mem_alignRight, hstep, hposition, hvelocity]

theorem newline_not_mem_bodyRow (b : Body) (k : ℕ) : '\n' ∉ (bodyRow b k).toList :=
  newline_not_mem_row (not_mem_toString rfl k) (newline_not_mem_vectorText _)
    (newline_not_mem_vectorText _)

/-! ## What a row shows -/

/-- The lanes of a vector with four places, as they stand in its text. -/
def vectorEntries (v : Vec3) : List String :=
  ["(" ++ Single.fixedText 4 v.x ++ ",", Single.fixedText 4 v.y ++ ",",
    Single.fixedText 4 v.z ++ ")"]

/-- A row shows the count of steps, then where the body is and how it moves. -/
def Shows (text : String) (step : ℕ) (body : Body) : Prop :=
  entries text =
    toString step :: (vectorEntries body.position.toVec3 ++ vectorEntries body.velocity)

/-- Blanks in front do not show. -/
theorem entries_pushn_append (n : ℕ) (text : String) :
    entries ("".pushn ' ' n ++ text) = entries text := by
  induction n with
  | zero => rfl
  | succ n ih =>
    have hsplit : "".pushn ' ' (n + 1) ++ text = "" ++ " " ++ ("".pushn ' ' n ++ text) := by
      rw [← String.toList_inj]
      simp [toList_pushn, List.replicate_succ]
    rw [hsplit, entries_append_blank_append, entries_empty, List.nil_append, ih]

theorem entries_vectorText (v : Vec3) : entries (vectorText v) = vectorEntries v := by
  have htext : vectorText v = "(" ++ Single.fixedText 4 v.x ++ "," ++ " " ++
      (Single.fixedText 4 v.y ++ "," ++ " " ++ (Single.fixedText 4 v.z ++ ")")) := by
    rw [vectorText_eq, ← String.toList_inj]
    simp
  have hnumber : ∀ a, ' ' ∉ (Single.fixedText 4 a).toList := not_mem_fixedText rfl
  rw [htext, entries_append_blank_append, entries_append_blank_append, entries_of_not_mem,
    entries_of_not_mem, entries_of_not_mem]
  · rfl
  all_goals simp [hnumber]

theorem entries_row (step position velocity : String) :
    entries (row step position velocity) =
      entries step ++ (entries position ++ entries velocity) := by
  have htext : row step position velocity = alignRight 5 step ++ " " ++ ("" ++ " " ++
      (alignRight 30 position ++ " " ++ ("" ++ " " ++ alignRight 30 velocity))) := by
    rw [row_eq, ← String.toList_inj]
    simp
  simp only [htext, entries_append_blank_append, entries_empty, List.nil_append, alignRight,
    entries_pushn_append]

theorem shows_bodyRow (b : Body) (k : ℕ) : Shows (bodyRow b k) k b := by
  have hstep : entries (toString k) = [toString k] :=
    entries_of_not_mem Nat.repr_ne_empty (not_mem_toString rfl k)
  rw [Shows, bodyRow, entries_row, hstep, entries_vectorText, entries_vectorText]
  rfl

/-! ## Tables -/

/-- A text is the table of the first `count` bodies: a header and a row for each, which shows it,
    every one on a line of its own. -/
def Tabulates (state : ℕ → Except Fault Body) (count : ℕ) (text : String) : Prop :=
  ∃ rows : List String, rows.length = count ∧
    (∀ k < count, ∃ b, state k = .ok b ∧ rows[k]? = some (bodyRow b k) ∧ Shows (bodyRow b k) k b) ∧
    pieces '\n' text = row "step" "position" "velocity" :: (rows ++ [""])

section Tables

variable {integrator : Integrator} {field : Field} {dt : Float32} {body : Body} {n m : ℕ}

theorem output_simulation : (simulation integrator field body dt n).output =
    Reply.lines (row "step" "position" "velocity" ::
      (bodies integrator field dt body n).1.mapIdx fun i b => bodyRow b i) := by
  unfold simulation
  rcases bodies integrator field dt body n with ⟨path, _ | fault⟩ <;> rfl

theorem tabulates_simulation (integrator : Integrator) (field : Field) (dt : Float32) (body : Body)
    (n : ℕ) : Tabulates (integrator.after field dt body)
      (bodies integrator field dt body n).1.length
      (simulation integrator field body dt n).output := by
  refine ⟨(bodies integrator field dt body n).1.mapIdx fun i b => bodyRow b i, List.length_mapIdx,
    fun k hk => ?_, ?_⟩
  · have hget := List.getElem?_eq_getElem hk
    refine ⟨(bodies integrator field dt body n).1[k], ?_, by rw [List.getElem?_mapIdx, hget]; rfl,
      shows_bodyRow _ _⟩
    rw [getElem?_bodies] at hget
    split_ifs at hget
    cases hstate : integrator.after field dt body k with
    | error fault =>
      rw [hstate] at hget
      cases hget
    | ok b =>
      rw [hstate] at hget
      exact congrArg Except.ok (Option.some.inj hget)
  · rw [output_simulation, Reply.pieces_lines, List.cons_append]
    intro l hl
    rcases List.mem_cons.1 hl with rfl | hl
    · exact newline_not_mem_row (by decide) (by decide) (by decide)
    · obtain ⟨k, hk, rfl⟩ := List.mem_mapIdx.1 hl
      exact newline_not_mem_bodyRow _ _

theorem output_simulation_extends (h : n ≤ m) : ∃ rest,
    (simulation integrator field body dt m).output =
      (simulation integrator field body dt n).output ++ rest := by
  obtain ⟨more, hmore⟩ : (bodies integrator field dt body n).1 <+:
    (bodies integrator field dt body m).1 := bodies_fst_prefix h
  rw [output_simulation, output_simulation, ← hmore, List.mapIdx_append, ← List.cons_append,
    Reply.lines_append]
  exact ⟨_, rfl⟩

theorem status_simulation_eq_zero_iff : (simulation integrator field body dt n).status = 0 ↔
    ∃ b, integrator.after field dt body n = .ok b := by
  rw [← bodies_snd_eq_none_iff, simulation]
  rcases bodies integrator field dt body n with ⟨path, _ | fault⟩ <;> simp

theorem status_simulation_eq_iff : (simulation integrator field body dt n).status = 101 ↔
    ∃ fault, integrator.after field dt body n = .error fault := by
  simp only [← bodies_snd_eq_some_iff, simulation]
  rcases bodies integrator field dt body n with ⟨path, _ | fault⟩ <;> simp

end Tables

/-! ## Runs -/

theorem Invocation.reply_eq (i : Invocation) (contents : Option String) : i.reply contents =
    match Settings.given i.settings contents, Demo.program with
    | .error e, _ => .failure e.message
    | .ok _, .error e => .failure e.message
    | .ok settings, .ok scene => i.query.reply settings scene :=
  rfl

theorem Query.reply_simulate {settings : Settings} (hvalid : settings.validate = .ok ())
    (scene : Program) (position velocity : Vec3) (dt : Float32) (n : UInt32) :
    (Query.simulate position velocity dt n).reply settings scene =
      simulation ⟨settings.movement, settings.tracing⟩ scene.distance ⟨.ofVec3 position, velocity⟩
        dt n.toNat := by
  rw [Query.reply, Integrator.checked_eq_ok hvalid]

end Command

end SignedDistance
