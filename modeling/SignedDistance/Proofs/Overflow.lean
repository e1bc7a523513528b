import SignedDistance.Proofs.Movement

set_option autoImplicit false

/-! # When a movement step fails

Positions do not saturate: a sum that does not fit is a fault. That is the only fault of a step, and
it is reached by an iteration whose advance leads out of the range of positions. -/

namespace SignedDistance

/-! ## Sums that do not fit -/

namespace Fixed

/-- The sum does not fit in 64 signed bits. -/
def Overflows (a b : Fixed) : Prop :=
  a.raw + b.raw < -9223372036854775808 ∨ 9223372036854775807 < a.raw + b.raw

variable {a b : Fixed} {fault : Fault}

theorem overflows_iff : a.Overflows b ↔ ¬Fits (a.raw + b.raw) := by
  rw [Overflows, Fits]
  omega

theorem add_eq_error_iff : a.add b = .error fault ↔ fault = .addition ∧ a.Overflows b := by
  rw [overflows_iff]
  exact checked_eq_error_iff

end Fixed

/-- The sum of some lane does not fit. -/
def FixedVec.Overflows (v w : FixedVec) : Prop :=
  v.x.Overflows w.x ∨ v.y.Overflows w.y ∨ v.z.Overflows w.z

theorem FixedVec.add_eq_error_iff {v w : FixedVec} {fault : Fault} :
    v.add w = .error fault ↔ fault = .addition ∧ v.Overflows w :=
  zipLanes_eq_error_iff fun _ _ _ => Fixed.add_eq_error_iff

/-! ## Steps -/

open Movement

namespace Integrator

variable {integrator : Integrator} {field : Field} {body : Body} {dt : Float32} {n : Nat}
  {flight : Flight} {fault : Fault}

theorem Flies.step_eq_faulty (h : integrator.Flies field body dt n flight)
    (hn : n < integrator.movement.maxIterations.toNat)
    (hstarted : integrator.movement.minTravel < flight.remaining)
    (hfault : destination integrator field flight = .error fault) :
    integrator.step field body dt =
      ⟨.error fault, flight.events ++ (path integrator field flight).2⟩ := by
  have hround : round integrator field flight =
      .answer (.faulty fault (flight.events ++ (path integrator field flight).2)) := by
    rw [round_eq, if_pos hstarted, hfault]
  rw [step_eq_conclude h.moving h.forward,
    rounds_eq_answer_iff.2 ⟨n, hn, flight, h.reached, hround⟩]
  rfl

/-- **A step fails only where a position overflows**: on the advance of one of its iterations. -/
theorem step_fails_iff (integrator : Integrator) (field : Field) (body : Body) (dt : Float32)
    (fault : Fault) :
    (integrator.step field body dt).result = .error fault ↔
      fault = .addition ∧ ∃ n flight, integrator.Flies field body dt n flight ∧
        n < integrator.movement.maxIterations.toNat ∧
          integrator.movement.minTravel < flight.remaining ∧
            flight.position.Overflows
              (.ofVec3 (flight.direction.scale (advance integrator field flight))) := by
  constructor
  · intro h
    have hends := step_ends integrator field body dt
    generalize integrator.step field body dt = outcome at h hends
    cases hends with
    | still => cases h
    | spent => cases h
    | capped => cases h
    | faulty hflies hn hstarted hfault =>
      cases h
      obtain ⟨rfl, hoverflows⟩ := FixedVec.add_eq_error_iff.1 hfault
      exact ⟨rfl, _, _, hflies, hn, hstarted, hoverflows⟩
  · rintro ⟨rfl, n, flight, hflies, hn, hstarted, hoverflows⟩
    rw [hflies.step_eq_faulty hn hstarted (FixedVec.add_eq_error_iff.2 ⟨rfl, hoverflows⟩)]

/-- Settings in range and finite numbers are no protection: a body at the end of the range that
    moves on fails. -/
theorem step_fails_past_greatest : default.movement.validate = .ok () ∧
    default.tracing.validate = .ok () ∧ Vec3.isFinite ⟨1, 0, 0⟩ = true ∧
      (1 : Float32).isFinite = true ∧
        (default.step (.constant 1000) ⟨⟨.greatest, .zero, .zero⟩, ⟨1, 0, 0⟩⟩ 1).result =
          .error .addition := by
  refine ⟨rfl, rfl, rfl, rfl, ?_⟩
  decide +kernel

end Integrator

end SignedDistance
