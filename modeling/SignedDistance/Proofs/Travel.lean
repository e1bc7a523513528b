import SignedDistance.March.Travel
import SignedDistance.Proofs.Number.Single
import SignedDistance.Proofs.Rounds
import SignedDistance.Proofs.Settings

set_option autoImplicit false

/-! # Bounds on travel

A path is never below zero: every round goes on by more than the hit threshold. Its distance may
become a NaN, but then no comparison with the limit holds, and the least of it and the maximum is
the maximum. -/

namespace SignedDistance

namespace Travel

variable {config : TraceConfig} {maxTravel limit travel : Float32} {steps : Nat}

/-- What a round of a sound path comes to: a distance up to the maximum, or a path that is not
    below zero. -/
def Sound (maxTravel : Float32) (steps : Nat) : Progress Travel Path → Prop
  | .answer t => 0 ≤ t.travel ∧ t.travel ≤ maxTravel ∧ t.steps = steps
  | .goOn path => ¬path.travel < 0 ∧ path.steps = steps

theorem sound_least (hit : Bool) (hmax : 0 ≤ maxTravel) (h : ¬travel < 0) :
    Sound maxTravel steps (.answer ⟨hit, Single.least travel maxTravel, steps⟩) :=
  ⟨Single.nonneg_least h hmax, Single.least_le_right (Single.isNaN_right_of_le hmax), rfl⟩

theorem sound_advance (hmax : 0 ≤ maxTravel) (h : ¬travel < 0) :
    Sound maxTravel steps (advance maxTravel limit travel steps) := by
  unfold advance
  split
  · exact ⟨hmax, Single.le_refl (Single.isNaN_right_of_le hmax), rfl⟩
  · exact ⟨h, rfl⟩

/-- A round takes one sample and does not go back. -/
theorem sound_round (heps : 0 ≤ config.hitEpsilon) (hmax : 0 ≤ maxTravel) (field : Field)
    (start dir : Vec3) (margin : Float32) {path : Path} (h : ¬path.travel < 0) :
    Sound maxTravel (path.steps + 1) (round config field start dir maxTravel margin path) := by
  unfold round
  extract_lets point d steps limit away
  have haway : ¬away < 0 := Single.not_lt_of_le
    (Single.le_trans heps (Single.le_greatest_right (Single.isNaN_right_of_le heps)))
  split_ifs with hnear htouch hfar
  · exact sound_least true hmax h
  · exact sound_advance hmax (Single.add_not_lt_zero h haway)
  all_goals
    -- the sample is above the threshold or a NaN
    have hd : ¬d < 0 := fun hlt => hnear (Single.le_trans (Single.le_of_lt hlt) heps)
  · exact sound_least false hmax (Single.add_not_lt_zero h hd)
  · exact sound_advance hmax (Single.add_not_lt_zero h hd)

/-- A path that has been reached after `n` rounds has taken `n` samples. -/
theorem sound_path (heps : 0 ≤ config.hitEpsilon) (hmax : 0 ≤ maxTravel) {field : Field}
    {start dir : Vec3} {margin : Float32} {n : Nat} {path : Path}
    (h : rounds (round config field start dir maxTravel margin) n ⟨0, 0⟩ = .goOn path) :
    ¬path.travel < 0 ∧ path.steps = n := by
  refine rounds_invariant (I := fun n path => ¬path.travel < 0 ∧ path.steps = n) ?_ ?_ h
  · exact ⟨Single.not_lt_of_le (Single.le_refl Single.denotes_zero.isNaN), rfl⟩
  · rintro n path path' ⟨hpath, rfl⟩ hround
    have hsound := sound_round heps hmax field start dir margin hpath
    rwa [hround] at hsound

end Travel

open Travel in
theorem travelTrace_mem {config : TraceConfig} (heps : 0 ≤ config.hitEpsilon) (field : Field)
    (start direction : Vec3) (maxTravel margin : Float32) :
    let result := (travelTrace config field start direction maxTravel margin).1
    0 ≤ result.travel ∧ result.travel ≤ Single.greatest maxTravel 0 ∧
      result.steps ≤ config.maxSteps.toNat := by
  have hmax : 0 ≤ Single.greatest maxTravel 0 :=
    Single.le_greatest_right Single.denotes_zero.isNaN
  unfold travelTrace
  extract_lets dir limit round result
  subst result
  split_ifs
  · exact ⟨Single.le_refl Single.denotes_zero.isNaN, hmax, Nat.zero_le _⟩
  cases hrounds : rounds round config.maxSteps.toNat ⟨0, 0⟩ with
  | answer travel =>
    obtain ⟨n, hn, path, hreached, hround⟩ := rounds_eq_answer_iff.1 hrounds
    obtain ⟨hpath, hsteps⟩ := sound_path heps hmax hreached
    have hsound : Sound limit (path.steps + 1) (round path) :=
      sound_round heps hmax field start dir margin hpath
    rw [hround, hsteps] at hsound
    exact ⟨hsound.1, hsound.2.1, hsound.2.2.trans_le hn⟩
  | goOn path =>
    obtain ⟨hpath, hsteps⟩ := sound_path heps hmax hrounds
    have hsound : Sound limit path.steps (.answer ⟨false, _, path.steps⟩) :=
      sound_least false hmax hpath
    exact ⟨hsound.1, hsound.2.1, hsteps.le⟩

/-- **Travel is bounded for every field**, whatever it answers: it is a number between zero and the
    maximum, and takes no more samples than there may be. -/
theorem travelTrace_bounded {config : TraceConfig} (h : config.validate = .ok ()) (field : Field)
    (start direction : Vec3) (maxTravel margin : Float32) :
    let result := (travelTrace config field start direction maxTravel margin).1
    result.travel.isNaN = false ∧ 0 ≤ result.travel ∧
      result.travel ≤ Single.greatest maxTravel 0 ∧ result.steps ≤ config.maxSteps.toNat := by
  intro result
  have hmem : 0 ≤ result.travel ∧ _ :=
    travelTrace_mem (TraceConfig.hitEpsilon_nonneg h) field start direction maxTravel margin
  exact ⟨Single.isNaN_right_of_le hmem.1, hmem⟩

theorem travelTrace_bounded_constant_nan : TraceConfig.default.validate = .ok () ∧
    let result := (travelTrace .default (.constant (0 / 0)) .zero ⟨1, 0, 0⟩ 5 0.125).1
    result.travel.isNaN = false ∧ 0 ≤ result.travel ∧ result.travel ≤ Single.greatest 5 0 ∧
      result.steps ≤ 1000 :=
  ⟨rfl, travelTrace_bounded rfl _ _ _ _ _⟩

end SignedDistance
