import SignedDistance.March.Surface
import SignedDistance.Proofs.Movement

set_option autoImplicit false

/-! # Caps only cut

A ray, a path and a movement step are loops with a cap. No round of theirs looks at the cap, so a
loop that ends of its own accord ends the same way under every greater cap. What tells that it did
is the log, since a loop that is cut off says so. A step may also end on exactly its last iteration,
and then it is cut off with nothing left to do: the events stay the same, too. -/

namespace SignedDistance

/-- The settings with another cap on the samples. -/
def TraceConfig.capped (config : TraceConfig) (cap : UInt32) : TraceConfig :=
  { config with maxSteps := cap }

/-- The settings with another cap on the iterations. -/
def Integrator.capped (integrator : Integrator) (cap : UInt32) : Integrator :=
  { integrator with movement := { integrator.movement with maxIterations := cap } }

/-- Whether a movement step has been cut off with a budget left. -/
def Event.isMovementCapped : Event → Bool
  | .movementCapped .. => true
  | _ => false

variable {config : TraceConfig} {field : Field} {n m : UInt32}

/-! ## Rays and paths -/

theorem TraceConfig.maxSteps_capped (config : TraceConfig) (cap : UInt32) :
    (config.capped cap).maxSteps = cap := rfl

theorem Surface.round_capped (config : TraceConfig) (cap : UInt32) :
    round (config.capped cap) = round config := rfl

theorem Travel.round_capped (config : TraceConfig) (cap : UInt32) :
    round (config.capped cap) = round config := rfl

/-- A ray that does not give up under one cap is the same under every greater cap. -/
theorem trace_capped {start stop : Vec3} (hnm : n ≤ m)
    (h : (trace (config.capped n) field start stop).2 = []) :
    trace (config.capped m) field start stop = trace (config.capped n) field start stop := by
  have hcap := UInt32.le_iff_toNat_le.1 hnm
  simp only [trace, Surface.round_capped, TraceConfig.maxSteps_capped] at h ⊢
  cases hrounds : rounds (Surface.round config field start (stop - start).normalizeOrZero) n.toNat
    ⟨start, 0, 0⟩ with
  | answer hit => rw [rounds_answer_mono hrounds hcap]
  | goOn ray =>
    rw [hrounds] at h
    cases h

/-- So is a path. -/
theorem travelTrace_capped {start direction : Vec3} {maxTravel margin : Float32} (hnm : n ≤ m)
    (h : (travelTrace (config.capped n) field start direction maxTravel margin).2 = []) :
    travelTrace (config.capped m) field start direction maxTravel margin =
      travelTrace (config.capped n) field start direction maxTravel margin := by
  have hcap := UInt32.le_iff_toNat_le.1 hnm
  simp only [travelTrace, Travel.round_capped, TraceConfig.maxSteps_capped] at h ⊢
  split_ifs at h ⊢ with hstill
  · rfl
  cases hrounds : rounds (Travel.round config field start direction.normalizeOrZero
    (Single.greatest maxTravel 0) margin) n.toNat ⟨0, 0⟩ with
  | answer travel => rw [rounds_answer_mono hrounds hcap]
  | goOn path =>
    rw [hrounds] at h
    cases h

/-! ## Movement steps -/

open Movement

namespace Integrator

variable {integrator : Integrator} {body : Body} {dt : Float32} {k : Nat} {flight : Flight}

/-- A flight that a step comes to under one cap it comes to under every greater cap. -/
theorem Flies.capped (h : (integrator.capped n).Flies field body dt k flight) (hnm : n ≤ m) :
    (integrator.capped m).Flies field body dt k flight :=
  ⟨h.moving, h.forward, h.within.trans (UInt32.le_iff_toNat_le.1 hnm), h.reached⟩

/-- **A step whose budget is spent ends there**, whether or not iterations are left. -/
theorem Flies.step_eq_spent (h : integrator.Flies field body dt k flight)
    (hspent : ¬integrator.movement.minTravel < flight.remaining) :
    integrator.step field body dt = ⟨.ok (flight.land body.velocity), flight.events⟩ := by
  rw [step_eq_conclude h.moving h.forward]
  rcases h.within.eq_or_lt with heq | hlt
  · rw [← heq, h.reached, conclude, if_neg hspent, List.append_nil]
  · have hround : Movement.round integrator field flight = .answer (.spent flight) := by
      rw [round_eq, if_neg hspent]
    rw [rounds_eq_answer_iff.2 ⟨k, hlt, flight, h.reached, hround⟩]
    rfl

/-- A step that does not say that it was cut off ends the same way under every greater cap, also
    if the body is at rest or a position does not fit. -/
theorem step_capped (hnm : n ≤ m)
    (h : ∀ e ∈ ((integrator.capped n).step field body dt).events, e.isMovementCapped = false) :
    (integrator.capped m).step field body dt = (integrator.capped n).step field body dt := by
  by_cases hstill : Single.isPositiveFinite body.velocity.length = true → dt ≤ 0
  · rw [step_eq_still hstill, step_eq_still hstill]
  obtain ⟨hmoving, hforward⟩ := Classical.not_imp.1 hstill
  have hconclude (cap : UInt32) : (integrator.capped cap).step field body dt =
      integrator.conclude body
        (rounds (Movement.round integrator field) cap.toNat (integrator.takeoff body dt)) :=
    step_eq_conclude hmoving hforward
  cases hrounds : rounds (Movement.round integrator field) n.toNat (integrator.takeoff body dt) with
  | answer ending =>
    rw [hconclude, hconclude, hrounds, rounds_answer_mono hrounds (UInt32.le_iff_toNat_le.1 hnm)]
  | goOn flight =>
    by_cases hstarted : integrator.movement.minTravel < flight.remaining
    · rw [hconclude, hrounds, conclude, if_pos hstarted] at h
      cases h _ (List.mem_append_right _ (List.mem_singleton_self _))
    · have hflies : (integrator.capped n).Flies field body dt n.toNat flight :=
        ⟨hmoving, hforward, le_rfl, hrounds⟩
      rw [hflies.step_eq_spent hstarted, (hflies.capped hnm).step_eq_spent hstarted]

end Integrator

/-! ## Greater caps -/

/-- What is the same under the caps `n` and `m`: whatever was not cut off under `n`. -/
structure CapOnlyCuts (n m : UInt32) : Prop where
  ray : ∀ (config : TraceConfig) (field : Field) (start stop : Vec3),
    (trace (config.capped n) field start stop).2 = [] →
      trace (config.capped m) field start stop = trace (config.capped n) field start stop
  path : ∀ (config : TraceConfig) (field : Field) (start direction : Vec3)
    (maxTravel margin : Float32),
    (travelTrace (config.capped n) field start direction maxTravel margin).2 = [] →
      travelTrace (config.capped m) field start direction maxTravel margin =
        travelTrace (config.capped n) field start direction maxTravel margin
  /-- The budget of the step is spent after `k` of its iterations, possibly the last one. -/
  step_of_spent : ∀ (integrator : Integrator) (field : Field) (body : Body) (dt : Float32) (k : Nat)
    (flight : Flight), (integrator.capped n).Flies field body dt k flight →
      ¬integrator.movement.minTravel < flight.remaining →
        (integrator.capped m).step field body dt = (integrator.capped n).step field body dt
  /-- The step does not say that it was cut off. -/
  step_of_quiet : ∀ (integrator : Integrator) (field : Field) (body : Body) (dt : Float32),
    (∀ e ∈ ((integrator.capped n).step field body dt).events, e.isMovementCapped = false) →
      (integrator.capped m).step field body dt = (integrator.capped n).step field body dt

/-- **Caps only cut**: a greater one never changes an answer or a log. -/
theorem capOnlyCuts_of_le (h : n ≤ m) : CapOnlyCuts n m where
  ray _ _ _ _ := trace_capped h
  path _ _ _ _ _ _ := travelTrace_capped h
  step_of_spent _ _ _ _ _ _ hflies hspent := by
    rw [hflies.step_eq_spent hspent, (hflies.capped h).step_eq_spent hspent]
  step_of_quiet _ _ _ _ := Integrator.step_capped h

/-- A ray and a path that end on exactly their last sample, and a step that ends on exactly its
    last iteration: none of them has to be cut off to end there. -/
theorem capOnlyCuts_of_le_exact :
    (2 : UInt32) ≤ 1000 ∧ (1 : UInt32) ≤ 100 ∧ CapOnlyCuts 2 1000 ∧ CapOnlyCuts 1 100 ∧
    (trace (TraceConfig.default.capped 2) (.octahedron 1) ⟨3, 0, 0⟩ ⟨0, 0, 0⟩).2 = [] ∧
    (travelTrace (TraceConfig.default.capped 2) (.octahedron 1) ⟨3, 0, 0⟩ ⟨-1, 0, 0⟩ 5 0.125).2 =
      [] ∧
    ∃ flight, (Integrator.default.capped 1).Flies (.constant 1000) ⟨.zero, ⟨1, 0, 0⟩⟩ 1 1 flight ∧
      ¬Integrator.default.movement.minTravel < flight.remaining := by
  have hspent : (match rounds (Movement.round Integrator.default (.constant 1000)) 1
      (Integrator.default.takeoff ⟨.zero, ⟨1, 0, 0⟩⟩ 1) with
      | .goOn flight => !decide (Integrator.default.movement.minTravel < flight.remaining)
      | .answer _ => false) = true := by decide +kernel
  refine ⟨by decide, by decide, capOnlyCuts_of_le (by decide), capOnlyCuts_of_le (by decide),
    by decide +kernel, by decide +kernel, ?_⟩
  split at hspent
  · next flight hreached =>
    refine ⟨flight, ⟨by decide +kernel, by decide +kernel, by decide, hreached⟩, ?_⟩
    rwa [Bool.not_eq_true', decide_eq_false_iff_not] at hspent
  · cases hspent

end SignedDistance
