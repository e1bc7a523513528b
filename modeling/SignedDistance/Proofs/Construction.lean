import SignedDistance.Proofs.Validation
import SignedDistance.Program.Shape

set_option autoImplicit false

/-! # Putting programs together

The combinators put streams one behind the other and work out a depth without running the
validator. That they never need it is shown here: the programs of trees are closed under every one
of them, a combination being the program of the combined tree and a motion that of the moved tree,
and the program of a tree passes. -/

namespace SignedDistance

/-! ## What is built -/

namespace Program

theorem combineChecked_eq_ok {c : Combination} {p q r : Program}
    (h : combineChecked c p q = .ok r) : r = combine c p q := by
  rw [combineChecked] at h
  split at h
  · split at h
    · exact (Except.ok.inj h).symm
    · cases h
  · exact (Except.ok.inj h).symm

theorem plane_eq_ok {n : Vec3} {p : Program} (h : plane n = .ok p) :
    p = leaf (.plane n.normalize) := by
  rw [plane] at h
  split at h
  · exact (Except.ok.inj h).symm
  · cases h

theorem scale_eq_ok {factor : Float32} {p q : Program} (h : p.scale factor = .ok q) :
    ∃ ts, p.transforms.mapM (fun t : Transform => t.scale factor) = .ok ts ∧
      q = { p with transforms := ts } := by
  rw [scale] at h
  split at h
  · next ts hts => exact ⟨ts, hts, (Except.ok.inj h).symm⟩
  · cases h

end Program

/-- Whatever a primitive asks for, it is given a leaf in place. -/
theorem Primitive.program_eq_ok {l : Primitive} {p : Program} (h : l.program = .ok p) :
    p = Program.leaf l.solid := by
  cases l with
  | sphere | ellipsoid | box | cube | torus | cylinder | cone | coninder =>
    exact (Except.ok.inj h).symm
  | plane normal => exact Program.plane_eq_ok h
  | ground =>
    have hup : Vec3.normalize ⟨0, 0, 1⟩ = ⟨0, 0, 1⟩ := by decide +kernel
    rw [← Except.ok.inj h, Program.ground, hup, solid]

theorem Combination.joinPrograms_eq_ok {c : Combination} {p q r : Program}
    (h : c.joinPrograms p q = .ok r) : r = Program.combine c p q := by
  cases c with
  | union | inter | diff => exact (Except.ok.inj h).symm
  | blendUnion | blendInter | blendDiff => exact Program.combineChecked_eq_ok h

/-- To move a program is to move every leaf of it, and the words stay. -/
theorem Motion.moveProgram_eq_ok {m : Motion} {p q : Program} (h : m.moveProgram p = .ok q) :
    ∃ ts, p.transforms.mapM m.moveTransform = .ok ts ∧ q = { p with transforms := ts } := by
  cases m with
  | translate | rotate | rotateX | rotateY | rotateZ =>
    exact ⟨_, List.mapM_pure, (Except.ok.inj h).symm⟩
  | scale factor => exact Program.scale_eq_ok h

/-! ## Combinators on the programs of trees -/

namespace Assembly

theorem program_solid (s : Solid) : (solid s .identity).program = Program.leaf s := by
  rw [program, words_solid]
  rfl

theorem program_combine (c : Combination) (a b : Assembly) :
    (combine c a b).program = Program.combine c a.program b.program := by
  rw [program, words_combine]
  rfl

theorem program_flate (a : Assembly) (amount : Float32) :
    (flate a amount).program = a.program.flate amount := by
  rw [program, words_flate]
  rfl

section MapM

variable {ε : Type} {f : Transform → Except ε Transform} {e e' : Assembly}

theorem mapM_solid_eq_ok {s : Solid} {t : Transform} :
    (solid s t).mapM f = .ok e ↔ ∃ t', f t = .ok t' ∧ solid s t' = e := by
  rw [mapM, bind_eq_ok_iff]
  simp only [pure, Except.pure, Except.ok.injEq]

theorem mapM_combine_eq_ok {c : Combination} {a b : Assembly} :
    (combine c a b).mapM f = .ok e ↔
      ∃ a', a.mapM f = .ok a' ∧ ∃ b', b.mapM f = .ok b' ∧ combine c a' b' = e := by
  rw [mapM, bind_eq_ok_iff]
  simp only [bind_eq_ok_iff, pure, Except.pure, Except.ok.injEq]

theorem mapM_flate_eq_ok {a : Assembly} {amount : Float32} :
    (flate a amount).mapM f = .ok e ↔ ∃ a', a.mapM f = .ok a' ∧ flate a' amount = e := by
  rw [mapM, bind_eq_ok_iff]
  simp only [pure, Except.pure, Except.ok.injEq]

/-- Where a function accepts every transform of a tree, it moves the tree; the words and the need
    stay. -/
theorem exists_mapM (e : Assembly) {ts : List Transform} (h : e.transforms.mapM f = .ok ts) :
    ∃ e', e.mapM f = .ok e' ∧ e'.words = e.words ∧ e'.transforms = ts ∧ e'.need = e.need := by
  induction e generalizing ts with
  | solid s t =>
    rw [transforms, List.mapM_cons, bind_eq_ok_iff] at h
    obtain ⟨t', ht, h⟩ := h
    cases h
    exact ⟨_, mapM_solid_eq_ok.2 ⟨t', ht, rfl⟩, by rw [words_solid, words_solid], rfl, rfl⟩
  | combine c a b iha ihb =>
    rw [transforms, List.mapM_append, bind_eq_ok_iff] at h
    obtain ⟨tsa, htsa, h⟩ := h
    obtain ⟨tsb, htsb, h⟩ := bind_eq_ok_iff.1 h
    cases h
    obtain ⟨a', ha, hwordsa, rfl, hneeda⟩ := iha htsa
    obtain ⟨b', hb, hwordsb, rfl, hneedb⟩ := ihb htsb
    refine ⟨_, mapM_combine_eq_ok.2 ⟨a', ha, b', hb, rfl⟩, ?_, rfl, ?_⟩
    · rw [words_combine, words_combine, hwordsa, hwordsb]
    · rw [need, need, hneeda, hneedb]
  | flate a amount ih =>
    obtain ⟨a', ha, hwords, htransforms, hneed⟩ := ih h
    refine ⟨_, mapM_flate_eq_ok.2 ⟨a', ha, rfl⟩, ?_, htransforms, hneed⟩
    rw [words_flate, words_flate, hwords]

theorem exists_program_of_mapM {ts : List Transform} (h : e.transforms.mapM f = .ok ts) :
    ∃ e', e.mapM f = .ok e' ∧ e'.program = { e.program with transforms := ts } := by
  obtain ⟨e', he', hwords, htransforms, hneed⟩ := e.exists_mapM h
  refine ⟨e', he', ?_⟩
  rw [program, hwords, htransforms, hneed]
  rfl

end MapM

/-- Passing every transform through a function is to move the tree. -/
theorem exists_program_mapTransforms (f : Transform → Transform) (e : Assembly) :
    ∃ e', e.mapM (fun t => (.ok (f t) : Except InvalidScale Transform)) = .ok e' ∧
      e'.program = e.program.mapTransforms f :=
  exists_program_of_mapM List.mapM_pure

theorem exists_program_scale {factor : Float32} {e : Assembly} {p : Program}
    (h : e.program.scale factor = .ok p) :
    ∃ e', e.mapM (fun t => t.scale factor) = .ok e' ∧ e'.program = p := by
  obtain ⟨ts, hts, rfl⟩ := Program.scale_eq_ok h
  exact exists_program_of_mapM hts

end Assembly

/-! ## Sessions -/

/-- One successful call of a constructor or a combinator, with operands among the programs that
    are there already. -/
inductive Call (earlier : List Program) : Program → Prop
  | sphere (diameter : Float32) : Call earlier (.sphere diameter)
  | ellipsoid (dx dy dz : Float32) : Call earlier (.ellipsoid dx dy dz)
  | box (sx sy sz : Float32) : Call earlier (.box sx sy sz)
  | cube (size : Float32) : Call earlier (.cube size)
  | torus (major minor : Float32) : Call earlier (.torus major minor)
  | cylinder (diameter height : Float32) : Call earlier (.cylinder diameter height)
  | cone (diameter height : Float32) : Call earlier (.cone diameter height)
  | coninder (bottom top height : Float32) : Call earlier (.coninder bottom top height)
  | plane {n : Vec3} {p : Program} (h : Program.plane n = .ok p) : Call earlier p
  | ground : Call earlier .ground
  | ofParts {words : List Word} {transforms : List Transform} {depth : Nat} {p : Program}
      (h : Program.ofParts words transforms depth = .ok p) : Call earlier p
  | union {p q : Program} (hp : p ∈ earlier) (hq : q ∈ earlier) : Call earlier (p.union q)
  | inter {p q : Program} (hp : p ∈ earlier) (hq : q ∈ earlier) : Call earlier (p.inter q)
  | diff {p q : Program} (hp : p ∈ earlier) (hq : q ∈ earlier) : Call earlier (p.diff q)
  | blendUnion {p q r : Program} {t : Float32} (hp : p ∈ earlier) (hq : q ∈ earlier)
      (h : p.blendUnion q t = .ok r) : Call earlier r
  | blendInter {p q r : Program} {t : Float32} (hp : p ∈ earlier) (hq : q ∈ earlier)
      (h : p.blendInter q t = .ok r) : Call earlier r
  | blendDiff {p q r : Program} {t : Float32} (hp : p ∈ earlier) (hq : q ∈ earlier)
      (h : p.blendDiff q t = .ok r) : Call earlier r
  | flate {p : Program} (hp : p ∈ earlier) (amount : Float32) : Call earlier (p.flate amount)
  | mapTransforms {p : Program} (hp : p ∈ earlier) (f : Transform → Transform) :
      Call earlier (p.mapTransforms f)
  | translate {p : Program} (hp : p ∈ earlier) (offset : Vec3) : Call earlier (p.translate offset)
  | rotate {p : Program} (hp : p ∈ earlier) (q : Quat) : Call earlier (p.rotate q)
  | rotateX {p : Program} (hp : p ∈ earlier) (angle : Float32) : Call earlier (p.rotateX angle)
  | rotateY {p : Program} (hp : p ∈ earlier) (angle : Float32) : Call earlier (p.rotateY angle)
  | rotateZ {p : Program} (hp : p ∈ earlier) (angle : Float32) : Call earlier (p.rotateZ angle)
  | scale {p r : Program} {factor : Float32} (hp : p ∈ earlier) (h : p.scale factor = .ok r) :
      Call earlier r

/-- The programs of a finite sequence of calls, the last one first. Each call may use any of the
    programs before it, as often as it likes. -/
inductive Session : List Program → Prop
  | start : Session []
  | call {earlier : List Program} {p : Program} (h : Session earlier) (hcall : Call earlier p) :
      Session (p :: earlier)

/-- Programs of trees come from programs of trees. -/
theorem Call.exists_assembly {earlier : List Program} {p : Program} (h : Call earlier p)
    (hearlier : ∀ q ∈ earlier, ∃ e : Assembly, q = e.program) : ∃ e : Assembly, p = e.program := by
  have hleaf (s : Solid) : ∃ e : Assembly, Program.leaf s = e.program :=
    ⟨.solid s .identity, (Assembly.program_solid s).symm⟩
  have hcombine (c : Combination) {q r : Program} (hq : q ∈ earlier) (hr : r ∈ earlier) :
      ∃ e : Assembly, Program.combine c q r = e.program := by
    obtain ⟨a, rfl⟩ := hearlier q hq
    obtain ⟨b, rfl⟩ := hearlier r hr
    exact ⟨.combine c a b, (Assembly.program_combine c a b).symm⟩
  have hmap (f : Transform → Transform) {q : Program} (hq : q ∈ earlier) :
      ∃ e : Assembly, q.mapTransforms f = e.program := by
    obtain ⟨a, rfl⟩ := hearlier q hq
    obtain ⟨e, -, he⟩ := a.exists_program_mapTransforms f
    exact ⟨e, he.symm⟩
  cases h with
  | sphere | ellipsoid | box | cube | torus | cylinder | cone | coninder | ground =>
    exact hleaf _
  | plane h =>
    rw [Program.plane_eq_ok h]
    exact hleaf _
  -- nothing is known of these parts but that they passed
  | ofParts h => exact Program.exists_assembly_of_ofParts h
  | union hq hr | inter hq hr | diff hq hr => exact hcombine _ hq hr
  | blendUnion hq hr h | blendInter hq hr h | blendDiff hq hr h =>
    rw [Program.combineChecked_eq_ok h]
    exact hcombine _ hq hr
  | @flate q hq amount =>
    obtain ⟨a, rfl⟩ := hearlier q hq
    exact ⟨.flate a amount, (a.program_flate amount).symm⟩
  | mapTransforms hq f => exact hmap f hq
  | translate hq | rotate hq | rotateX hq | rotateY hq | rotateZ hq => exact hmap _ hq
  | @scale q _ factor hq h =>
    obtain ⟨a, rfl⟩ := hearlier q hq
    obtain ⟨e, -, he⟩ := Assembly.exists_program_scale h
    exact ⟨e, he.symm⟩

/-- Every program of a session is the program of a tree. -/
theorem Session.exists_assembly {programs : List Program} (h : Session programs) :
    ∀ p ∈ programs, ∃ e : Assembly, p = e.program := by
  induction h with
  | start => exact fun p hp => absurd hp List.not_mem_nil
  | call h hcall ih =>
    intro p hp
    rcases List.mem_cons.1 hp with rfl | hp
    · exact hcall.exists_assembly ih
    · exact ih p hp

/-- **Every program of a session passes**, and its parts put it together again. -/
theorem Session.validate_of_mem {programs : List Program} (h : Session programs) {p : Program}
    (hp : p ∈ programs) :
    p.validate = .ok () ∧ Program.ofParts p.words p.transforms p.depth = .ok p := by
  obtain ⟨e, rfl⟩ := h.exists_assembly p hp
  exact ⟨checkWords_assembly e, Program.ofParts_assembly e⟩

/-- One program used three times, the deeper operand on the right, and all of it scaled. -/
theorem Session.validate_of_mem_scaled :
    ∃ (a b p : Program), a = Program.sphere 2 ∧ b = a.union (a.union a) ∧ b.scale 2 = .ok p ∧
      Session [p, b, a.union a, a] ∧ p.validate = .ok () ∧
      Program.ofParts p.words p.transforms p.depth = .ok p := by
  have ha : Session [Program.sphere 2] := .call .start (.sphere 2)
  have hpair := Session.call ha (.union (.head _) (.head _))
  have hnested := Session.call hpair (.union (.tail _ (.head _)) (.head _))
  obtain ⟨p, hscale⟩ : ∃ p, ((Program.sphere 2).union
      ((Program.sphere 2).union (Program.sphere 2))).scale 2 = .ok p := ⟨_, rfl⟩
  have hscaled := Session.call hnested (.scale (.head _) hscale)
  exact ⟨_, _, p, rfl, rfl, hscale, hscaled, hscaled.validate_of_mem (.head _)⟩

end SignedDistance
