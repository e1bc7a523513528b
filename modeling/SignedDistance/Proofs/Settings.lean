import SignedDistance.March.Config
import SignedDistance.Movement.Config
import SignedDistance.Proofs.Number.Single
import SignedDistance.Proofs.Walk

set_option autoImplicit false

/-! # Settings in range

Settings pass their check if every value passes its own, so each conjunct below is one value. -/

namespace SignedDistance

namespace Parameter

variable {name : String} {value : Float32} {count : UInt32}

theorem positive_eq_ok_iff :
    positive name value = .ok () ↔ Single.isPositiveFinite value = true := by
  unfold positive
  split <;> simp_all

theorem nonNegative_eq_ok_iff :
    nonNegative name value = .ok () ↔ 0 ≤ value ∧ value.isFinite = true := by
  rw [← Bool.and_eq_true_iff.trans (and_congr_left' (decide_eq_true_iff))]
  unfold nonNegative
  split <;> simp_all

theorem unitInterval_eq_ok_iff :
    unitInterval name value = .ok () ↔ 0 ≤ value ∧ value ≤ 1 := by
  unfold unitInterval
  split <;> simp_all

theorem atLeastOne_eq_ok_iff : atLeastOne name count = .ok () ↔ count ≠ 0 := by
  unfold atLeastOne
  split <;> simp_all

end Parameter

/-- A check that precedes others. -/
theorem seq_eq_ok_iff {ε α : Type} {x : Except ε Unit} {y : Except ε α} {a : α} :
    (x >>= fun _ => y) = .ok a ↔ x = .ok () ∧ y = .ok a := by
  rw [bind_eq_ok_iff]
  exact ⟨fun ⟨_, hx, hy⟩ => ⟨hx, hy⟩, fun ⟨hx, hy⟩ => ⟨(), hx, hy⟩⟩

theorem TraceConfig.validate_eq_ok_iff {c : TraceConfig} : c.validate = .ok () ↔
    Single.isPositiveFinite c.hitEpsilon = true ∧ Single.isPositiveFinite c.farStep = true ∧
      Single.isPositiveFinite c.shadowMinStep = true ∧ c.maxSteps ≠ 0 := by
  rw [validate, seq_eq_ok_iff, seq_eq_ok_iff, seq_eq_ok_iff, Parameter.positive_eq_ok_iff,
    Parameter.positive_eq_ok_iff, Parameter.positive_eq_ok_iff, Parameter.atLeastOne_eq_ok_iff]

theorem TraceConfig.hitEpsilon_nonneg {c : TraceConfig} (h : c.validate = .ok ()) :
    0 ≤ c.hitEpsilon :=
  Single.le_of_lt (Single.isPositiveFinite_iff.1 (validate_eq_ok_iff.1 h).1).1

theorem MovementConfig.validate_eq_ok_iff {c : MovementConfig} : c.validate = .ok () ↔
    (0 ≤ c.overshoot ∧ c.overshoot.isFinite = true) ∧
      (0 ≤ c.minTravel ∧ c.minTravel.isFinite = true) ∧ (0 ≤ c.skin ∧ c.skin.isFinite = true) ∧
      (0 ≤ c.glancingDamping ∧ c.glancingDamping ≤ 1) ∧
      (0 ≤ c.headOnDamping ∧ c.headOnDamping ≤ 1) ∧ c.maxIterations ≠ 0 := by
  rw [validate, seq_eq_ok_iff, seq_eq_ok_iff, seq_eq_ok_iff, seq_eq_ok_iff, seq_eq_ok_iff,
    Parameter.nonNegative_eq_ok_iff, Parameter.nonNegative_eq_ok_iff,
    Parameter.nonNegative_eq_ok_iff, Parameter.unitInterval_eq_ok_iff,
    Parameter.unitInterval_eq_ok_iff, Parameter.atLeastOne_eq_ok_iff]

end SignedDistance
