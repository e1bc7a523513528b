import SignedDistance.Proofs.Gradient
import SignedDistance.Proofs.Travel

set_option autoImplicit false

/-! # Where paths end

A path is told by the samples that it would take if it went on for ever. A sample near a surface is
no more than a reason to look where the body is heading: only one from which the surface is
approached ends the path there, and from any other the body goes on. The path takes its samples up
to the first one that ends it, and it is cut off if there is none among as many as it may take. -/

namespace SignedDistance

theorem Single.greatest_zero_beq_zero_iff {a : Float32} :
    (greatest a 0 == 0) = true ↔ ¬0 < a := by
  rcases number?_cases a with ⟨ha, -⟩ | ⟨y, hy, hya⟩
  · rw [greatest_of_isNaN ha]
    exact iff_of_true (by decide +kernel) (not_lt_of_isNaN_right ha)
  · have hmax : Denotes (greatest a 0) (max y 0) := by
      rw [← number?_eq_some, number?_greatest, hya, denotes_zero.number?_eq, Option.merge_some_some]
    rw [hmax.beq_iff denotes_zero, denotes_zero.lt_iff hy, not_lt, max_eq_right_iff]

namespace Travel

/-- What a path is asked for. -/
structure Query where
  config : TraceConfig
  field : Field
  start : Vec3
  direction : Vec3
  maxTravel : Float32
  margin : Float32

/-- A body at height one that falls to the ground. -/
def Query.falling (maxTravel margin : Float32) : Query :=
  ⟨.default, .slopeZ 1, ⟨0, 0, 1⟩, ⟨0, 0, -1⟩, maxTravel, margin⟩

namespace Query

variable (q : Query)

/-! ## Samples -/

def dir : Vec3 := q.direction.normalizeOrZero

/-- How far the skin of a body at a point is from every surface. -/
def clearance (p : Vec3) : Float32 := q.field p - q.margin

/-- How far the body goes on from a point: as far as its skin is clear, or away from a surface that
    it leaves. -/
def stride (p : Vec3) : Float32 :=
  if q.clearance p ≤ q.config.hitEpsilon then
    Single.greatest (q.clearance p + q.margin).abs q.config.hitEpsilon
  else q.clearance p

/-- The distance of a sample from the start, with no regard to how far the body may go. -/
def travel : Nat → Float32
  | 0 => 0
  | k + 1 => travel k + q.stride (q.start + q.dir.scale (travel k))

def point (k : Nat) : Vec3 := q.start + q.dir.scale (q.travel k)

def sample (k : Nat) : Float32 := q.clearance (q.point k)

/-- The skin is on a surface that the body approaches. -/
def Touches (k : Nat) : Prop :=
  q.sample k ≤ q.config.hitEpsilon ∧ (q.field.gradient (q.point k)).dot q.dir < 0

/-- The sample is far from every surface. -/
def Far (k : Nat) : Prop :=
  ¬q.sample k ≤ q.config.hitEpsilon ∧ q.config.farStep < q.sample k

/-- The sample leads up to the limit, or past it. -/
def Arrives (k : Nat) : Prop := q.maxTravel + q.margin ≤ q.travel (k + 1)

/-- The sample ends a path. -/
def Ends (k : Nat) : Prop := q.Touches k ∨ q.Far k ∨ q.Arrives k

/-- There is a way to go. -/
def Moves : Prop := q.dir.isZero = false ∧ 0 < q.maxTravel

/-- The sample is taken: there is a way to go and room for it, and no sample before it ends the
    path. -/
def Takes (k : Nat) : Prop := q.Moves ∧ k < q.config.maxSteps.toNat ∧ ∀ j < k, ¬q.Ends j

instance (k : Nat) : Decidable (q.Touches k) := inferInstanceAs (Decidable (_ ∧ _))

instance (k : Nat) : Decidable (q.Far k) := inferInstanceAs (Decidable (_ ∧ _))

instance (k : Nat) : Decidable (q.Arrives k) := inferInstanceAs (Decidable (_ ≤ _))

instance : Decidable q.Moves := inferInstanceAs (Decidable (_ ∧ _))

/-! ## Rounds -/

/-- A round takes the next sample. -/
theorem round_path (k : Nat) :
    round q.config q.field q.start q.dir q.maxTravel q.margin ⟨q.travel k, k⟩ =
      if q.Touches k then .answer ⟨true, Single.least (q.travel k) q.maxTravel, k + 1⟩
      else if q.Far k then
        .answer ⟨false, Single.least (q.travel k + q.sample k) q.maxTravel, k + 1⟩
      else if q.Arrives k then .answer ⟨false, q.maxTravel, k + 1⟩
      else .goOn ⟨q.travel (k + 1), k + 1⟩ := by
  have hround : round q.config q.field q.start q.dir q.maxTravel q.margin ⟨q.travel k, k⟩ =
      if q.sample k ≤ q.config.hitEpsilon then
        if (q.field.gradient (q.point k)).dot q.dir < 0 then
          .answer ⟨true, Single.least (q.travel k) q.maxTravel, k + 1⟩
        else advance q.maxTravel (q.maxTravel + q.margin)
          (q.travel k + Single.greatest (q.sample k + q.margin).abs q.config.hitEpsilon) (k + 1)
      else if q.config.farStep < q.sample k then
        .answer ⟨false, Single.least (q.travel k + q.sample k) q.maxTravel, k + 1⟩
      else advance q.maxTravel (q.maxTravel + q.margin) (q.travel k + q.sample k) (k + 1) := rfl
  have hadvance : advance q.maxTravel (q.maxTravel + q.margin) (q.travel (k + 1)) (k + 1) =
      if q.Arrives k then .answer ⟨false, q.maxTravel, k + 1⟩
      else .goOn ⟨q.travel (k + 1), k + 1⟩ := rfl
  rw [hround]
  by_cases hnear : q.sample k ≤ q.config.hitEpsilon
  · have hstride : q.travel (k + 1) = q.travel k +
        Single.greatest (q.sample k + q.margin).abs q.config.hitEpsilon :=
      congrArg (q.travel k + ·) (if_pos hnear)
    have hfar : ¬q.Far k := fun h => h.1 hnear
    rw [if_pos hnear, if_neg hfar, ← hstride, hadvance]
    exact if_congr (and_iff_right hnear).symm rfl rfl
  · have hstride : q.travel (k + 1) = q.travel k + q.sample k :=
      congrArg (q.travel k + ·) (if_neg hnear)
    have htouch : ¬q.Touches k := fun h => hnear h.1
    rw [if_neg hnear, if_neg htouch, ← hstride, hadvance]
    exact if_congr (and_iff_right hnear).symm rfl rfl

theorem unrolls : Unrolls (round q.config q.field q.start q.dir q.maxTravel q.margin)
    (fun k => ⟨q.travel k, k⟩) q.Ends where
  answer k h := by
    rw [round_path]
    split_ifs with htouch hfar harrive
    · exact ⟨_, rfl⟩
    · exact ⟨_, rfl⟩
    · exact ⟨_, rfl⟩
    · exact absurd h (by simp [Ends, htouch, hfar, harrive])
  goOn k h := by
    simp only [Ends, not_or] at h
    rw [round_path, if_neg h.1, if_neg h.2.1, if_neg h.2.2]

/-! ## Results -/

/-- How a path ends: without a sample, on a surface, far from every surface, at the limit, or cut
    off behind its last sample. -/
inductive Result : Travel × List Event → Prop
  | still (still : ¬q.Moves) : Result (⟨false, 0, 0⟩, [])
  | touched {k : Nat} (takes : q.Takes k) (touches : q.Touches k) :
      Result (⟨true, Single.least (q.travel k) q.maxTravel, k + 1⟩, [])
  | far {k : Nat} (takes : q.Takes k) (untouched : ¬q.Touches k) (far : q.Far k) :
      Result (⟨false, Single.least (q.travel k + q.sample k) q.maxTravel, k + 1⟩, [])
  | arrived {k : Nat} (takes : q.Takes k) (untouched : ¬q.Touches k) (arrives : q.Arrives k) :
      Result (⟨false, q.maxTravel, k + 1⟩, [])
  | gaveUp (moves : q.Moves) (goesOn : ∀ k < q.config.maxSteps.toNat, ¬q.Ends k) :
      Result (⟨false, Single.least (q.travel q.config.maxSteps.toNat) q.maxTravel,
        q.config.maxSteps.toNat⟩, [.travelGaveUp q.start q.direction
          (q.travel q.config.maxSteps.toNat) q.config.maxSteps.toNat])

theorem moves_iff :
    ¬(q.dir.isZero || Single.greatest q.maxTravel 0 == 0) = true ↔ q.Moves := by
  rw [Bool.or_eq_true, Single.greatest_zero_beq_zero_iff, not_or, not_not, Bool.not_eq_true, Moves]

theorem travelTrace_result : q.Result
    (travelTrace q.config q.field q.start q.direction q.maxTravel q.margin) := by
  unfold travelTrace
  extract_lets dir maxTravel round
  split_ifs with hstill
  · exact .still fun hmoves => q.moves_iff.2 hmoves hstill
  have hmoves : q.Moves := q.moves_iff.1 hstill
  have hmax : maxTravel = q.maxTravel := Single.greatest_eq_left
    (Single.isNaN_right_of_le (Single.le_of_lt hmoves.2))
    (Single.not_lt_of_le (Single.le_of_lt hmoves.2))
  have hround : round = Travel.round q.config q.field q.start q.dir q.maxTravel q.margin :=
    congrArg (Travel.round q.config q.field q.start q.dir · q.margin) hmax
  cases hrounds : rounds round q.config.maxSteps.toNat ⟨0, 0⟩ with
  | answer travel =>
    rw [hround] at hrounds
    obtain ⟨k, hk, hbefore, hanswer⟩ := q.unrolls.rounds_eq_answer_iff.1 hrounds
    have htakes : q.Takes k := ⟨hmoves, hk, hbefore⟩
    rw [round_path] at hanswer
    split_ifs at hanswer with htouches hfar harrives
    · cases hanswer
      exact .touched htakes htouches
    · cases hanswer
      exact .far htakes htouches hfar
    · cases hanswer
      exact .arrived htakes htouches harrives
  | goOn path =>
    rw [hround] at hrounds
    obtain ⟨rfl, hgoesOn⟩ := q.unrolls.rounds_eq_goOn_iff.1 hrounds
    rw [hmax]
    exact .gaveUp hmoves hgoesOn

/-- How many samples a path takes, and whether it gives up. -/
structure Lasts (result : Travel × List Event) : Prop where
  /-- The samples taken are counted. -/
  steps : ∀ k, k < result.1.steps ↔ q.Takes k
  steps_eq_zero_iff : result.1.steps = 0 ↔
    q.dir.isZero = true ∨ ¬0 < q.maxTravel ∨ q.config.maxSteps = 0
  gaveUp_iff : result.2 = [.travelGaveUp q.start q.direction (q.travel q.config.maxSteps.toNat)
      q.config.maxSteps.toNat] ↔ q.Moves ∧ ∀ k < q.config.maxSteps.toNat, ¬q.Ends k
  quiet_iff : result.2 = [] ↔ ¬q.Moves ∨ ∃ k < q.config.maxSteps.toNat, q.Ends k
  /-- A path with no way to go is none at all. -/
  still : ¬q.Moves → result = (⟨false, 0, 0⟩, [])

/-- What the samples say about a path. -/
structure Tells (result : Travel × List Event) : Prop extends q.Lasts result where
  /-- A touch is the first one, and it is before the limit unless its distance has been lost. -/
  hit : result.1.hit = true → ∃ k, result.1.steps = k + 1 ∧ q.Touches k ∧ (∀ j < k, ¬q.Touches j) ∧
    (q.travel k = 0 ∨ (q.travel k).isNaN = true ∨ q.travel k < q.maxTravel + q.margin) ∧
      result.1.travel = Single.least (q.travel k) q.maxTravel
  miss : result.1.hit = false → ∀ k < result.1.steps, ¬q.Touches k
  /-- A path that touches nothing gets to the limit, or far from every surface, or gives up. -/
  miss_travel : result.1.hit = false → q.Moves →
    (∃ k, result.1.steps = k + 1 ∧ q.Arrives k ∧ result.1.travel = q.maxTravel) ∨
    (∃ k, result.1.steps = k + 1 ∧ q.Far k ∧
      result.1.travel = Single.least (q.travel k + q.sample k) q.maxTravel) ∨
    ((∀ k < q.config.maxSteps.toNat, ¬q.Ends k) ∧
      result.1.travel = Single.least (q.travel q.config.maxSteps.toNat) q.maxTravel)

variable {q} {k : Nat}

/-- A sample that ends a path is the last one taken. -/
theorem Takes.lt_succ_iff (h : q.Takes k) (hends : q.Ends k) (j : Nat) :
    j < k + 1 ↔ q.Takes j := by
  have hiff := lt_succ_iff_of_first (j := j) h.2.2 hends
  exact ⟨fun hj => ⟨h.1, Nat.lt_of_lt_of_le hj h.2.1, hiff.1 hj⟩, fun hj => hiff.2 hj.2.2⟩

/-- A sample that is taken lies before the limit, if it lies anywhere. -/
theorem Takes.travel_lt_limit (h : q.Takes k) (hmargin : 0 ≤ q.margin)
    (hplace : (q.travel k).isNaN = false) : q.travel k < q.maxTravel + q.margin := by
  have hlimit := Single.lt_of_lt_of_le h.1.2
    (Single.le_add_right (Single.le_of_lt h.1.2) hmargin)
  cases k with
  | zero => exact hlimit
  | succ k =>
    by_contra hlt
    have harrives : q.Arrives k :=
      Single.le_of_not_lt (Single.isNaN_right_of_le (Single.le_of_lt hlimit)) hplace hlt
    exact h.2.2 k k.lt_succ_self (.inr (.inr harrives))

/-- No sample touches a surface if the last one does not. -/
theorem Takes.not_touches (h : q.Takes k) (hk : ¬q.Touches k) : ∀ j < k + 1, ¬q.Touches j := by
  intro j hj htouches
  rcases Nat.lt_succ_iff_lt_or_eq.1 hj with hlt | rfl
  · exact h.2.2 j hlt (.inl htouches)
  · exact hk htouches

theorem lasts_of_still (h : ¬q.Moves) : q.Lasts (⟨false, 0, 0⟩, []) where
  steps j := iff_of_false (Nat.not_lt_zero j) fun htakes => h htakes.1
  steps_eq_zero_iff := by
    rw [Moves, not_and_or, Bool.not_eq_false] at h
    exact iff_of_true rfl (h.imp_right .inl)
  gaveUp_iff := iff_of_false (List.cons_ne_nil _ _).symm fun hmoves => h hmoves.1
  quiet_iff := iff_of_true rfl (.inl h)
  still _ := rfl

theorem Takes.lasts (h : q.Takes k) (hends : q.Ends k) (hit : Bool) (travel : Float32) :
    q.Lasts (⟨hit, travel, k + 1⟩, []) where
  steps := h.lt_succ_iff hends
  steps_eq_zero_iff := by
    refine iff_of_false k.succ_ne_zero ?_
    rintro (hzero | hstill | hnone)
    · exact absurd hzero (Bool.eq_false_iff.1 h.1.1)
    · exact hstill h.1.2
    · exact absurd h.2.1 (by rw [hnone]; exact Nat.not_lt_zero k)
  gaveUp_iff := iff_of_false (List.cons_ne_nil _ _).symm fun hgoesOn => hgoesOn.2 k h.2.1 hends
  quiet_iff := iff_of_true rfl (.inr ⟨k, h.2.1, hends⟩)
  still hstill := absurd h.1 hstill

theorem lasts_of_goesOn (hmoves : q.Moves) (h : ∀ k < q.config.maxSteps.toNat, ¬q.Ends k)
    (hit : Bool) (travel : Float32) : q.Lasts (⟨hit, travel, q.config.maxSteps.toNat⟩,
      [.travelGaveUp q.start q.direction (q.travel q.config.maxSteps.toNat)
        q.config.maxSteps.toNat]) where
  steps j := ⟨fun hj => ⟨hmoves, hj, fun i hi => h i (hi.trans hj)⟩, fun hj => hj.2.1⟩
  steps_eq_zero_iff := by
    have hcap : q.config.maxSteps = 0 ↔ q.config.maxSteps.toNat = 0 := UInt32.toNat_inj.symm
    simp [hcap, hmoves.1, hmoves.2]
  gaveUp_iff := iff_of_true rfl ⟨hmoves, h⟩
  quiet_iff := iff_of_false (List.cons_ne_nil _ _) (by
    rintro (hstill | ⟨k, hk, hends⟩)
    · exact hstill hmoves
    · exact h k hk hends)
  still hstill := absurd hmoves hstill

end Query

/-- **The verdict on a path is the verdict of its samples**, whatever the field answers: it hits at
    the first sample that touches a surface, and it gives up exactly if no sample ends it. -/
theorem travelTrace_tells (q : Query) (h : 0 ≤ q.margin) :
    q.Tells (travelTrace q.config q.field q.start q.direction q.maxTravel q.margin) := by
  have hresult := q.travelTrace_result
  generalize travelTrace q.config q.field q.start q.direction q.maxTravel q.margin = result
    at hresult
  cases hresult with
  | still still =>
    exact {
      toLasts := Query.lasts_of_still still
      hit := fun hhit => by cases hhit
      miss := fun _ k hk => absurd hk k.not_lt_zero
      miss_travel := fun _ hmoves => absurd hmoves still }
  | @touched k takes touches =>
    exact {
      toLasts := takes.lasts (.inl touches) _ _
      hit := fun _ => ⟨k, rfl, touches, fun j hj htouches => takes.2.2 j hj (.inl htouches),
        .inr (Bool.eq_false_or_eq_true _ |>.imp_right (takes.travel_lt_limit h)), rfl⟩
      miss := fun hmiss => by cases hmiss
      miss_travel := fun hmiss => by cases hmiss }
  | @far k takes untouched far =>
    exact {
      toLasts := takes.lasts (.inr (.inl far)) _ _
      hit := fun hhit => by cases hhit
      miss := fun _ => takes.not_touches untouched
      miss_travel := fun _ _ => .inr (.inl ⟨k, rfl, far, rfl⟩) }
  | @arrived k takes untouched arrives =>
    exact {
      toLasts := takes.lasts (.inr (.inr arrives)) _ _
      hit := fun hhit => by cases hhit
      miss := fun _ => takes.not_touches untouched
      miss_travel := fun _ _ => .inl ⟨k, rfl, arrives, rfl⟩ }
  | gaveUp moves goesOn =>
    exact {
      toLasts := Query.lasts_of_goesOn moves goesOn _ _
      hit := fun hhit => by cases hhit
      miss := fun _ k hk htouches => goesOn k hk (.inl htouches)
      miss_travel := fun _ _ => .inr (.inr ⟨goesOn, rfl⟩) }

theorem travelTrace_tells_falling :
    let q := Query.falling 5 0.125
    let result := travelTrace q.config q.field q.start q.direction q.maxTravel q.margin
    0 ≤ q.margin ∧ q.Tells result ∧ result.1.hit = true ∧
      ∃ k, result.1.steps = k + 1 ∧ q.Touches k ∧ ∀ j < k, ¬q.Touches j := by
  intro q result
  have hmargin : 0 ≤ q.margin := by decide +kernel
  have hhit : result.1.hit = true := by decide +kernel
  have htells : q.Tells result := travelTrace_tells q hmargin
  obtain ⟨k, hsteps, htouches, hfirst, -⟩ := htells.hit hhit
  exact ⟨hmargin, htells, hhit, k, hsteps, htouches, hfirst⟩

/-! ## Touches within the limit -/

/-- A sample whose distance is a NaN has no place. -/
theorem Query.lost_point {q : Query} {k : Nat} (h : (q.travel k).isNaN = true) :
    (q.point k).Lost where
  x := Single.isNaN_add (.inr (Single.isNaN_mul (.inr h)))
  y := Single.isNaN_add (.inr (Single.isNaN_mul (.inr h)))
  z := Single.isNaN_add (.inr (Single.isNaN_mul (.inr h)))

/-- A touch is somewhere. -/
theorem Query.Touches.isNaN_travel {q : Query} {k : Nat} (h : q.Touches k) :
    (q.travel k).isNaN = false := by
  rw [← Bool.not_eq_true]
  exact fun hnan => Field.gradient_dot_not_neg_of_lost (Query.lost_point hnan) q.dir h.2

/-- A sample that is taken is not behind the start. -/
theorem Query.Takes.travel_not_neg {q : Query} {k : Nat} (h : q.Takes k)
    (hconfig : q.config.validate = .ok ()) : ¬q.travel k < 0 := by
  have hmax : 0 ≤ q.maxTravel := Single.le_of_lt h.1.2
  have hreached := q.unrolls.rounds_eq_goOn_iff.2 ⟨rfl, h.2.2⟩
  exact (sound_path (TraceConfig.hitEpsilon_nonneg hconfig) hmax hreached).1

/-- **A touch is before the limit**, which is the maximum and the margin. Up to the maximum the
    body is where the travel reported takes it, and behind it the travel reported is the maximum. -/
theorem travelTrace_touch_before_limit (q : Query) (hconfig : q.config.validate = .ok ())
    (hmargin : 0 ≤ q.margin)
    (hhit : (travelTrace q.config q.field q.start q.direction q.maxTravel q.margin).1.hit = true) :
    let result := (travelTrace q.config q.field q.start q.direction q.maxTravel q.margin).1
    ∃ k, result.steps = k + 1 ∧ q.Touches k ∧ 0 ≤ q.travel k ∧
      q.travel k < q.maxTravel + q.margin ∧
      (q.travel k ≤ q.maxTravel → result.travel = q.travel k ∧
        q.point k = q.start + q.dir.scale result.travel) ∧
      (q.maxTravel < q.travel k → result.travel = q.maxTravel) := by
  have hresult := q.travelTrace_result
  generalize travelTrace q.config q.field q.start q.direction q.maxTravel q.margin = result
    at hresult hhit
  cases hresult with
  | still | far | arrived | gaveUp => cases hhit
  | @touched k takes touches =>
    have hplace := touches.isNaN_travel
    have hnonneg : 0 ≤ q.travel k :=
      Single.le_of_not_lt Single.denotes_zero.isNaN hplace (takes.travel_not_neg hconfig)
    refine ⟨k, rfl, touches, hnonneg, takes.travel_lt_limit hmargin hplace, fun hle => ?_,
      fun hlt => Single.least_eq_right hlt⟩
    have htravel : Single.least (q.travel k) q.maxTravel = q.travel k :=
      Single.least_eq_left hplace (Single.not_lt_of_le hle)
    refine ⟨htravel, ?_⟩
    rw [Query.point]
    exact congrArg (q.start + q.dir.scale ·) htravel.symm

theorem travelTrace_touch_before_limit_falling :
    let q := Query.falling 5 0.125
    let result := (travelTrace q.config q.field q.start q.direction q.maxTravel q.margin).1
    q.config.validate = .ok () ∧ 0 ≤ q.margin ∧ result.hit = true ∧
      ∃ k, result.steps = k + 1 ∧ q.Touches k ∧ 0 ≤ q.travel k ∧
        q.travel k < q.maxTravel + q.margin ∧ result.travel = q.travel k := by
  intro q result
  have hconfig : TraceConfig.default.validate = .ok () := rfl
  have hmargin : 0 ≤ q.margin := by decide +kernel
  have hhit : result.hit = true := by decide +kernel
  obtain ⟨k, hsteps, htouches, hnonneg, hlimit, hwithin, -⟩ :=
    travelTrace_touch_before_limit q hconfig hmargin hhit
  obtain rfl : k = 1 := Nat.succ.inj (hsteps.symm.trans (by decide +kernel))
  exact ⟨hconfig, hmargin, hhit, 1, hsteps, htouches, hnonneg, hlimit,
    (hwithin (by decide +kernel)).1⟩

/-- The maximum does not bound a touch: with a margin of one half, a body that is to fall by one
    quarter touches the ground at one half. -/
theorem travelTrace_touch_past_maximum :
    let q := Query.falling 0.25 0.5
    let result := (travelTrace q.config q.field q.start q.direction q.maxTravel q.margin).1
    q.config.validate = .ok () ∧ 0 < q.maxTravel ∧ 0 ≤ q.margin ∧ result.hit = true ∧
      result.steps = 2 ∧ q.Touches 1 ∧ q.maxTravel < q.travel 1 ∧
        (q.point 1).z = 0.5 ∧ (q.start + q.dir.scale result.travel).z = 0.75 := by
  refine ⟨rfl, ?_, ?_, ?_, ?_, ?_, ?_, ?_, ?_⟩ <;> decide +kernel

end Travel

end SignedDistance
