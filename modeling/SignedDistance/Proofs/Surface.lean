import Mathlib.Order.Basic
import Mathlib.Tactic.SplitIfs
import SignedDistance.March.Surface
import SignedDistance.Proofs.Rounds

set_option autoImplicit false

/-! # Where rays end

A ray is told by the samples that it would take if it went on for ever: each is as far behind the
one before as that one has found free. The ray itself takes them up to the first one that ends it,
and it is cut off if there is none among as many as it may take. -/

namespace SignedDistance.Surface

/-- What a ray is asked for. -/
structure Query where
  config : TraceConfig
  field : Field
  start : Vec3
  stop : Vec3

namespace Query

variable (q : Query)

/-! ## Samples -/

def dir : Vec3 := (q.stop - q.start).normalizeOrZero

/-- The distance of a sample from the start. -/
def travel : Nat → Float32
  | 0 => 0
  | k + 1 => travel k + q.field (q.start + q.dir.scale (travel k))

def point (k : Nat) : Vec3 := q.start + q.dir.scale (q.travel k)

def sample (k : Nat) : Float32 := q.field (q.point k)

/-- The sample is on a surface. -/
def Found (k : Nat) : Prop := q.sample k ≤ q.config.hitEpsilon

/-- The sample is far from every surface, or all samples are the same. -/
def Misses (k : Nat) : Prop := q.config.farStep < q.sample k ∨ q.dir.isZero = true

/-- The sample ends a ray. -/
def Ends (k : Nat) : Prop := q.Found k ∨ q.Misses k

/-- The sample is taken: there is room for it, and none before it ends the ray. -/
def Takes (k : Nat) : Prop := k < q.config.maxSteps.toNat ∧ ∀ j < k, ¬q.Ends j

/-- The ray before a sample. -/
def ray : Nat → Ray
  | 0 => ⟨q.start, 0, 0⟩
  | k + 1 => ⟨q.point k, q.travel (k + 1), k + 1⟩

theorem ray_travel (k : Nat) : (q.ray k).travel = q.travel k := by cases k <;> rfl

theorem ray_steps (k : Nat) : (q.ray k).steps = k := by cases k <;> rfl

variable {q} {j k : Nat}

/-- A sample that ends a ray is the last one taken. -/
theorem Takes.lt_succ_iff (h : q.Takes k) (hends : q.Ends k) (j : Nat) :
    j < k + 1 ↔ q.Takes j := by
  have hiff := lt_succ_iff_of_first (j := j) h.2 hends
  exact ⟨fun hj => ⟨Nat.lt_of_lt_of_le hj h.1, hiff.1 hj⟩, fun hj => hiff.2 hj.2⟩

/-! ## Rounds -/

variable (q)

instance (k : Nat) : Decidable (q.Found k) := inferInstanceAs (Decidable (_ ≤ _))

instance (k : Nat) : Decidable (q.Misses k) := inferInstanceAs (Decidable (_ ∨ _))

/-- A round takes the next sample. -/
theorem round_ray (k : Nat) : round q.config q.field q.start q.dir (q.ray k) =
    if q.Found k then .answer ⟨true, q.point k, q.travel k, k + 1⟩
    else if q.Misses k then .answer ⟨false, q.point k, q.travel k, k + 1⟩
    else .goOn (q.ray (k + 1)) := by
  have hmisses : (decide (q.config.farStep < q.sample k) || q.dir.isZero) = true ↔ q.Misses k := by
    rw [Bool.or_eq_true, decide_eq_true_iff, Misses]
  cases k <;> exact if_congr Iff.rfl rfl (if_congr hmisses rfl rfl)

theorem unrolls : Unrolls (round q.config q.field q.start q.dir) q.ray q.Ends where
  answer k h := by
    rw [round_ray]
    split_ifs with hfound hmisses
    · exact ⟨_, rfl⟩
    · exact ⟨_, rfl⟩
    · exact absurd h (not_or.2 ⟨hfound, hmisses⟩)
  goOn k h := by
    rw [round_ray, if_neg (not_or.1 h).1, if_neg (not_or.1 h).2]

/-! ## Results -/

/-- How a ray ends: on a surface, without one, or cut off behind its last sample. -/
inductive Result : Hit × List Event → Prop
  | found {k : Nat} (takes : q.Takes k) (found : q.Found k) :
      Result (⟨true, q.point k, q.travel k, k + 1⟩, [])
  | missed {k : Nat} (takes : q.Takes k) (off : ¬q.Found k) (misses : q.Misses k) :
      Result (⟨false, q.point k, q.travel k, k + 1⟩, [])
  | gaveUp (goesOn : ∀ k < q.config.maxSteps.toNat, ¬q.Ends k) :
      Result (⟨false, (q.ray q.config.maxSteps.toNat).point, q.travel q.config.maxSteps.toNat,
        q.config.maxSteps.toNat⟩, [.traceGaveUp q.start q.stop (q.travel q.config.maxSteps.toNat)
          q.config.maxSteps.toNat])

theorem trace_result : q.Result (trace q.config q.field q.start q.stop) := by
  unfold trace
  extract_lets dir
  cases hrounds : rounds (round q.config q.field q.start dir) q.config.maxSteps.toNat
      ⟨q.start, 0, 0⟩ with
  | answer hit =>
    obtain ⟨k, hk, hbefore, hround⟩ := q.unrolls.rounds_eq_answer_iff.1 hrounds
    rw [round_ray] at hround
    split_ifs at hround with hfound hmisses
    · cases hround
      exact .found ⟨hk, hbefore⟩ hfound
    · cases hround
      exact .missed ⟨hk, hbefore⟩ hfound hmisses
  | goOn ray =>
    obtain ⟨rfl, hgoesOn⟩ := q.unrolls.rounds_eq_goOn_iff.1 hrounds
    simp only [ray_travel, ray_steps]
    exact .gaveUp hgoesOn

/-- How many samples a ray takes, and whether it gives up. -/
structure Lasts (result : Hit × List Event) : Prop where
  /-- The samples taken are counted. -/
  steps : ∀ k, k < result.1.steps ↔ q.Takes k
  gaveUp_iff : result.2 = [.traceGaveUp q.start q.stop (q.travel q.config.maxSteps.toNat)
      q.config.maxSteps.toNat] ↔ ∀ k < q.config.maxSteps.toNat, ¬q.Ends k
  quiet_iff : result.2 = [] ↔ ∃ k < q.config.maxSteps.toNat, q.Ends k

/-- What the samples say about a ray. -/
structure Tells (result : Hit × List Event) : Prop extends q.Lasts result where
  hit_iff : result.1.hit = true ↔ ∃ k, q.Takes k ∧ q.Found k
  /-- The first surface is the one reported. -/
  hit : ∀ k, q.Takes k → q.Found k → result.1 = ⟨true, q.point k, q.travel k, k + 1⟩
  miss : result.1.hit = false → (∀ k < result.1.steps, ¬q.Found k) ∧
    ((∃ k, result.1.steps = k + 1 ∧ q.config.farStep < q.sample k) ∨
      (q.dir.isZero = true ∧ result.1.steps = 1) ∨ result.1.steps = q.config.maxSteps.toNat)

variable {q}

theorem Takes.lasts (h : q.Takes k) (hends : q.Ends k) (hit : Bool) (point : Vec3)
    (travel : Float32) : q.Lasts (⟨hit, point, travel, k + 1⟩, []) where
  steps := h.lt_succ_iff hends
  gaveUp_iff := iff_of_false (List.cons_ne_nil _ _).symm fun hgoesOn => hgoesOn k h.1 hends
  quiet_iff := iff_of_true rfl ⟨k, h.1, hends⟩

end Query

/-- **A ray finds the first surface that it samples**, whatever the field answers: it hits if one of
    its samples is on a surface and none before that one ends it, and it gives up exactly if no
    sample ends it. -/
theorem trace_finds_first (q : Query) : q.Tells (trace q.config q.field q.start q.stop) := by
  have hresult := q.trace_result
  generalize trace q.config q.field q.start q.stop = result at hresult
  cases hresult with
  | @found k takes found =>
    exact {
      toLasts := takes.lasts (.inl found) _ _ _
      hit_iff := iff_of_true rfl ⟨k, takes, found⟩
      hit := fun j hj hfound => by rw [eq_of_first hj.2 (.inl hfound) takes.2 (.inl found)]
      miss := fun hmiss => by cases hmiss }
  | @missed k takes off misses =>
    have hnone {j : Nat} (hj : q.Takes j) : ¬q.Found j := fun hfound =>
      off (eq_of_first hj.2 (.inl hfound) takes.2 (.inr misses) ▸ hfound)
    refine {
      toLasts := takes.lasts (.inr misses) _ _ _
      hit_iff := iff_of_false Bool.false_ne_true fun ⟨j, hj, hfound⟩ => hnone hj hfound
      hit := fun j hj hfound => absurd hfound (hnone hj)
      miss := fun _ => ⟨fun j hj => hnone ((takes.lt_succ_iff (.inr misses) j).1 hj), ?_⟩ }
    rcases misses with hfar | hzero
    · exact .inl ⟨k, rfl, hfar⟩
    · -- all samples of such a ray end it, so this is the first one
      obtain rfl : k = 0 := by
        by_contra hk
        exact takes.2 0 (Nat.pos_of_ne_zero hk) (.inr (.inr hzero))
      exact .inr (.inl ⟨hzero, rfl⟩)
  | gaveUp goesOn =>
    have hnone {j : Nat} (hj : q.Takes j) : ¬q.Found j := fun hfound => goesOn j hj.1 (.inl hfound)
    exact {
      steps := fun j => ⟨fun hj => ⟨hj, fun i hi => goesOn i (Nat.lt_trans hi hj)⟩, And.left⟩
      gaveUp_iff := iff_of_true rfl goesOn
      quiet_iff := iff_of_false (List.cons_ne_nil _ _) fun ⟨k, hk, hends⟩ => goesOn k hk hends
      hit_iff := iff_of_false Bool.false_ne_true fun ⟨j, hj, hfound⟩ => hnone hj hfound
      hit := fun j hj hfound => absurd hfound (hnone hj)
      miss := fun _ => ⟨fun j hj hfound => goesOn j hj (.inl hfound), .inr (.inr rfl)⟩ }

/-- **The point of a ray is at the distance that it reports, unless it gave up.** The distance of a
    ray that gave up is one step further, by as much as its last sample has found free. -/
theorem trace_point (q : Query) :
    let result := trace q.config q.field q.start q.stop
    (result.2 = [] → result.1.point = q.start + q.dir.scale result.1.travel) ∧
    (result.2 ≠ [] → q.config.maxSteps ≠ 0 → ∃ travel,
      result.1.point = q.start + q.dir.scale travel ∧
        result.1.travel = travel + q.field result.1.point) ∧
    (q.config.maxSteps = 0 → result.1 = ⟨false, q.start, 0, 0⟩) := by
  intro result
  have hresult : q.Result result := q.trace_result
  have hcap : q.config.maxSteps = 0 ↔ q.config.maxSteps.toNat = 0 := UInt32.toNat_inj.symm
  clear_value result
  cases hresult with
  | found takes | missed takes =>
    have hroom : q.config.maxSteps.toNat ≠ 0 := Nat.ne_of_gt (Nat.zero_lt_of_lt takes.1)
    exact ⟨fun _ => rfl, fun h => absurd rfl h, fun h => absurd (hcap.1 h) hroom⟩
  | gaveUp =>
    refine ⟨fun h => absurd h (List.cons_ne_nil _ _), fun _ hroom => ?_, fun hnone => ?_⟩
    · obtain ⟨k, hk⟩ := Nat.exists_eq_succ_of_ne_zero (mt hcap.2 hroom)
      rw [hk]
      exact ⟨q.travel k, rfl, rfl⟩
    · rw [hcap.1 hnone]
      rfl

/-- One sample, from which there is still a way to go: the point is the start, but the distance is
    one. -/
theorem trace_point_behind :
    let q : Query := ⟨{ TraceConfig.default with maxSteps := 1 }, .constant 1, .zero, ⟨1, 0, 0⟩⟩
    let hit := (trace q.config q.field q.start q.stop).1
    q.config.validate = .ok () ∧ hit.point.x = 0 ∧ (q.start + q.dir.scale hit.travel).x = 1 := by
  refine ⟨rfl, ?_, ?_⟩ <;> decide +kernel

end SignedDistance.Surface
