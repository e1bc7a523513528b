import SignedDistance.Movement.Step
import SignedDistance.Proofs.Fixed.Range
import SignedDistance.Proofs.Travel

set_option autoImplicit false

/-! # What a movement step keeps up

A step is told by the flights that it comes to: the one it takes off with and the one after every
iteration. An iteration spends a part of the budget and, at a bounce, a part of the speed, so that
neither ever rises; the look-ahead is in the budget but is not travelled. -/

namespace SignedDistance

/-! ## Positions -/

namespace Fixed

/-- A number is converted by way of doubles; neither zero nor a NaN leaves anything of it. -/
theorem ofSingle_eq_zero {x : Float32}
    (h : x.toModel.unpack = .notANumber ∨ ∃ s, x.toModel.unpack = .zero s) : ofSingle x = zero := by
  change ofRawDouble (Double.ofParts (reformat .binary64 x.toModel.unpack) * 65536) = zero
  rcases h with h | ⟨s, h⟩
  · rw [h]
    rfl
  · rw [h]
    cases s <;> rfl

theorem ofSingle_mul_zero (b : Float32) {a : Float32} (h : Single.Denotes a 0) :
    ofSingle (b * a) = zero :=
  ofSingle_eq_zero (Single.mul_zero_cases b h)

theorem add_zero (a : Fixed) : a.add zero = .ok a := add_eq_ok_iff.2 (Int.add_zero a.raw).symm

end Fixed

theorem FixedVec.add_zero (v : FixedVec) : v.add zero = .ok v :=
  zipLanes_eq_ok_iff.2 ⟨v.x.add_zero, v.y.add_zero, v.z.add_zero⟩

/-- A vector scaled by zero is no way at all, whatever its lanes are. -/
theorem FixedVec.ofVec3_scale_zero (v : Vec3) {a : Float32} (h : Single.Denotes a 0) :
    ofVec3 (v.scale a) = zero := by
  rw [ofVec3, Vec3.scale, Fixed.ofSingle_mul_zero _ h, Fixed.ofSingle_mul_zero _ h,
    Fixed.ofSingle_mul_zero _ h]
  rfl

/-! ## Iterations -/

/-- The speed and the budget at a moment of a step. -/
structure Reading where
  speed : Float32
  remaining : Float32

/-- Neither rises from the first reading to the second. -/
def Reading.Falls (first second : Reading) : Prop :=
  second.speed ≤ first.speed ∧ second.remaining ≤ first.remaining

theorem Reading.Falls.trans {r₁ r₂ r₃ : Reading} (h : r₁.Falls r₂) (h' : r₂.Falls r₃) :
    r₁.Falls r₃ :=
  ⟨Single.le_trans h'.1 h.1, Single.le_trans h'.2 h.2⟩

/-- A later reading in place of the last one. -/
theorem Reading.pairwise_replace {rs : List Reading} {r r' : Reading}
    (h : (rs ++ [r]).Pairwise Falls) (hr : r.Falls r') : (rs ++ [r']).Pairwise Falls := by
  obtain ⟨hbefore, -, hlast⟩ := List.pairwise_append.1 h
  refine List.pairwise_append.2 ⟨hbefore, List.pairwise_singleton _ _, fun q hq q' hq' => ?_⟩
  rw [List.mem_singleton.1 hq']
  exact (hlast q hq r (List.mem_singleton_self r)).trans hr

/-- A later reading behind the last one. -/
theorem Reading.pairwise_concat {rs : List Reading} {r r' : Reading}
    (h : (rs ++ [r]).Pairwise Falls) (hr : r.Falls r') : (rs ++ [r] ++ [r']).Pairwise Falls := by
  obtain ⟨-, -, hlast⟩ := List.pairwise_append.1 h
  refine List.pairwise_append.2 ⟨h, List.pairwise_singleton _ _, fun q hq q' hq' => ?_⟩
  rw [List.mem_singleton.1 hq']
  rcases List.mem_append.1 hq with hq | hq
  · exact (hlast q hq r (List.mem_singleton_self r)).trans hr
  · rwa [List.mem_singleton.1 hq]

/-- What a bounce reports. -/
def Event.reading? : Event → Option Reading
  | .bounce _ _ speed remaining => some ⟨speed, remaining⟩
  | _ => none

namespace Movement

variable (integrator : Integrator) (field : Field) (flight : Flight)

/-- How far a body may travel in its next iteration, and what is reported on the way. -/
def path : Travel × List Event :=
  travelTrace integrator.tracing field flight.position.toVec3 flight.direction flight.remaining
    integrator.movement.skin

/-- How far the body goes. -/
def advance : Float32 :=
  Single.greatest (Single.least (path integrator field flight).1.travel
    (flight.remaining - integrator.movement.overshoot)) 0

/-- Where it comes to. -/
def destination : Except Fault FixedVec :=
  flight.position.add (.ofVec3 (flight.direction.scale (advance integrator field flight)))

/-- The body at its destination, before a bounce. -/
def moved (position : FixedVec) : Flight :=
  { flight with
    position
    remaining := flight.remaining - (path integrator field flight).1.travel
    events := flight.events ++ (path integrator field flight).2 }

theorem round_eq : round integrator field flight =
    if integrator.movement.minTravel < flight.remaining then
      match destination integrator field flight with
      | .error fault => .answer (.faulty fault (flight.events ++ (path integrator field flight).2))
      | .ok position =>
        .goOn (if (path integrator field flight).1.hit then
          bounce integrator.movement field (moved integrator field flight position)
          else moved integrator field flight position)
    else .answer (.spent flight) := rfl

variable {integrator field flight} {next : Flight}

/-- What the bounces so far have reported. -/
def Flight.readings (flight : Flight) : List Reading := flight.events.filterMap Event.reading?

def Flight.reading (flight : Flight) : Reading := ⟨flight.speed, flight.remaining⟩

theorem readings_path (integrator : Integrator) (field : Field) (flight : Flight) :
    (path integrator field flight).2.filterMap Event.reading? = [] := by
  unfold path travelTrace
  extract_lets dir limit round
  split_ifs
  · rfl
  · cases rounds round integrator.tracing.maxSteps.toNat ⟨0, 0⟩ <;> rfl

/-- A bounce costs speed and nothing else. -/
theorem bounce_spec (config : MovementConfig) (field : Field) (flight : Flight) :
    (bounce config field flight).position = flight.position ∧
      (bounce config field flight).remaining = flight.remaining ∧
      (∃ damping ∈ [config.glancingDamping, config.headOnDamping],
        (bounce config field flight).speed = flight.speed * damping) ∧
      (bounce config field flight).readings =
        flight.readings ++ [(bounce config field flight).reading] := by
  refine ⟨rfl, rfl, ?_, ?_⟩
  · unfold bounce
    extract_lets gradient flat
    split_ifs
    · exact ⟨_, List.mem_cons_self, rfl⟩
    · exact ⟨_, List.mem_cons_of_mem _ List.mem_cons_self, rfl⟩
  · exact List.filterMap_append

/-- How an iteration goes on: to its destination, and with a bounce there or without one. -/
theorem round_goOn_cases (h : round integrator field flight = .goOn next) :
    integrator.movement.minTravel < flight.remaining ∧ ∃ position,
      destination integrator field flight = .ok position ∧
        next = if (path integrator field flight).1.hit then
          bounce integrator.movement field (moved integrator field flight position)
          else moved integrator field flight position := by
  by_cases hstarted : integrator.movement.minTravel < flight.remaining
  · rw [round_eq, if_pos hstarted] at h
    cases hdestination : destination integrator field flight with
    | error fault =>
      rw [hdestination] at h
      cases h
    | ok position =>
      rw [hdestination] at h
      cases h
      exact ⟨hstarted, position, rfl, rfl⟩
  · rw [round_eq, if_neg hstarted] at h
    cases h

/-- What an iteration that goes on has done. -/
structure Iterates (integrator : Integrator) (field : Field) (flight next : Flight) : Prop where
  started : integrator.movement.minTravel < flight.remaining
  position : destination integrator field flight = .ok next.position
  remaining : next.remaining = flight.remaining - (path integrator field flight).1.travel
  bounced : next.speed = flight.speed ∧ next.readings = flight.readings ∨
    (∃ damping ∈ [integrator.movement.glancingDamping, integrator.movement.headOnDamping],
      next.speed = flight.speed * damping) ∧ next.readings = flight.readings ++ [next.reading]

theorem iterates_of_round (h : round integrator field flight = .goOn next) :
    Iterates integrator field flight next := by
  obtain ⟨hstarted, position, hdestination, hnext⟩ := round_goOn_cases h
  have hreadings : (moved integrator field flight position).readings = flight.readings := by
    rw [Flight.readings, moved, List.filterMap_append, readings_path, List.append_nil]
    rfl
  split_ifs at hnext
  · obtain ⟨hposition, hremaining, hspeed, hbounce⟩ :=
      bounce_spec integrator.movement field (moved integrator field flight position)
    rw [hnext]
    exact ⟨hstarted, hposition ▸ hdestination, hremaining, .inr ⟨hspeed, hreadings ▸ hbounce⟩⟩
  · rw [hnext]
    exact ⟨hstarted, hdestination, rfl, .inl ⟨rfl, hreadings⟩⟩

/-- How an iteration ends a step. -/
theorem round_answer_cases {ending : Ending} (h : round integrator field flight = .answer ending) :
    ¬integrator.movement.minTravel < flight.remaining ∧ ending = .spent flight ∨
      integrator.movement.minTravel < flight.remaining ∧
        ∃ fault, destination integrator field flight = .error fault ∧
          ending = .faulty fault (flight.events ++ (path integrator field flight).2) := by
  by_cases hstarted : integrator.movement.minTravel < flight.remaining
  · rw [round_eq, if_pos hstarted] at h
    cases hdestination : destination integrator field flight with
    | error fault =>
      rw [hdestination] at h
      cases h
      exact .inr ⟨hstarted, fault, rfl, rfl⟩
    | ok position =>
      rw [hdestination] at h
      cases h
  · rw [round_eq, if_neg hstarted] at h
    cases h
    exact .inl ⟨hstarted, rfl⟩

/-! ## One iteration -/

/-- A speed and a budget that are finite and not negative. -/
structure Flight.Sound (flight : Flight) : Prop where
  speed_nonneg : 0 ≤ flight.speed
  speed_finite : flight.speed.isFinite = true
  remaining_nonneg : 0 ≤ flight.remaining
  remaining_finite : flight.remaining.isFinite = true

theorem Flight.Sound.falls_self (h : flight.Sound) : flight.reading.Falls flight.reading :=
  ⟨Single.le_refl (Single.isNaN_right_of_le h.speed_nonneg),
    Single.le_refl (Single.isNaN_right_of_le h.remaining_nonneg)⟩

theorem path_mem (htracing : integrator.tracing.validate = .ok ()) (field : Field)
    (h : flight.Sound) :
    0 ≤ (path integrator field flight).1.travel ∧
      (path integrator field flight).1.travel ≤ flight.remaining := by
  obtain ⟨hlower, hupper, -⟩ := travelTrace_mem (TraceConfig.hitEpsilon_nonneg htracing) field
    flight.position.toVec3 flight.direction flight.remaining integrator.movement.skin
  have hself := Single.le_refl (Single.isNaN_right_of_le h.remaining_nonneg)
  exact ⟨hlower, Single.le_trans hupper (Single.greatest_le hself h.remaining_nonneg)⟩

theorem advance_mem (htracing : integrator.tracing.validate = .ok ()) (h : flight.Sound) :
    0 ≤ advance integrator field flight ∧
      advance integrator field flight ≤ (path integrator field flight).1.travel := by
  obtain ⟨hlower, -⟩ := path_mem htracing field h
  exact ⟨Single.le_greatest_right Single.denotes_zero.isNaN,
    Single.greatest_le (Single.least_le_left (Single.isNaN_right_of_le hlower)) hlower⟩

/-- **The look-ahead is not travelled.** -/
theorem destination_of_le (hmovement : integrator.movement.validate = .ok ()) (h : flight.Sound)
    (hle : flight.remaining ≤ integrator.movement.overshoot) :
    destination integrator field flight = .ok flight.position := by
  obtain ⟨-, hfinite⟩ := (MovementConfig.validate_eq_ok_iff.1 hmovement).1
  have hnone := Single.sub_le_zero h.remaining_nonneg hfinite hle
  have hleast := Single.least_le_right (a := (path integrator field flight).1.travel)
    (Single.isNaN_left_of_le hnone)
  have hupper : advance integrator field flight ≤ 0 :=
    Single.greatest_le (Single.le_trans hleast hnone) (Single.le_refl Single.denotes_zero.isNaN)
  have hlower : 0 ≤ advance integrator field flight :=
    Single.le_greatest_right Single.denotes_zero.isNaN
  rw [destination, FixedVec.ofVec3_scale_zero _ (Single.denotes_zero_of_le hlower hupper),
    FixedVec.add_zero]

theorem damping_mem (hmovement : integrator.movement.validate = .ok ()) {damping : Float32}
    (h : damping ∈ [integrator.movement.glancingDamping, integrator.movement.headOnDamping]) :
    0 ≤ damping ∧ damping ≤ 1 := by
  obtain ⟨-, -, -, hglancing, hheadOn, -⟩ := MovementConfig.validate_eq_ok_iff.1 hmovement
  rw [List.mem_pair] at h
  rcases h with rfl | rfl
  · exact hglancing
  · exact hheadOn

/-- An iteration takes nothing but a part of the budget and a part of the speed. -/
theorem Iterates.sound (hmovement : integrator.movement.validate = .ok ())
    (htracing : integrator.tracing.validate = .ok ()) (h : flight.Sound)
    (hnext : Iterates integrator field flight next) :
    next.Sound ∧ flight.reading.Falls next.reading := by
  obtain ⟨htravel₀, htravel⟩ := path_mem htracing field h
  have hremaining : 0 ≤ next.remaining ∧ next.remaining ≤ flight.remaining :=
    hnext.remaining ▸ Single.sub_mem h.remaining_finite htravel₀ htravel
  have hspeed : 0 ≤ next.speed ∧ next.speed ≤ flight.speed := by
    rcases hnext.bounced with ⟨heq, -⟩ | ⟨⟨damping, hdamping, heq⟩, -⟩
    · rw [heq]
      exact ⟨h.speed_nonneg, Single.le_refl (Single.isNaN_right_of_le h.speed_nonneg)⟩
    · obtain ⟨hlower, hupper⟩ := damping_mem hmovement hdamping
      rw [heq]
      exact Single.mul_mem h.speed_finite h.speed_nonneg hlower hupper
  exact ⟨⟨hspeed.1, Single.isFinite_of_le hspeed.1 hspeed.2 h.speed_finite, hremaining.1,
    Single.isFinite_of_le hremaining.1 hremaining.2 h.remaining_finite⟩, hspeed.2, hremaining.2⟩

end Movement

/-! ## Whole steps -/

open Movement

namespace Integrator

/-- The flight that a step begins with. -/
def takeoff (integrator : Integrator) (body : Body) (dt : Float32) : Flight :=
  let speed := body.velocity.length
  ⟨body.position, body.velocity.unscale speed, speed,
    speed * dt + integrator.movement.overshoot, 0, []⟩

/-- The step of a body is in `flight` after `n` iterations. -/
structure Flies (integrator : Integrator) (field : Field) (body : Body) (dt : Float32) (n : Nat)
    (flight : Flight) : Prop where
  moving : Single.isPositiveFinite body.velocity.length = true
  forward : ¬dt ≤ 0
  within : n ≤ integrator.movement.maxIterations.toNat
  reached : rounds (round integrator field) n (integrator.takeoff body dt) = .goOn flight

/-- How a step ends: without an iteration, with the budget spent, with the iterations used up, or
    with a position that does not fit. -/
inductive Ends (integrator : Integrator) (field : Field) (body : Body) (dt : Float32) :
    Outcome → Prop
  | still (h : Single.isPositiveFinite body.velocity.length = true → dt ≤ 0) :
      Ends integrator field body dt ⟨.ok body, []⟩
  | spent {n : Nat} {flight : Flight} (h : integrator.Flies field body dt n flight)
      (spent : ¬integrator.movement.minTravel < flight.remaining) :
      Ends integrator field body dt ⟨.ok (flight.land body.velocity), flight.events⟩
  | capped {flight : Flight}
      (h : integrator.Flies field body dt integrator.movement.maxIterations.toNat flight)
      (events : List Event) (quiet : events.filterMap Event.reading? = []) :
      Ends integrator field body dt ⟨.ok (flight.land body.velocity), flight.events ++ events⟩
  | faulty {n : Nat} {flight : Flight} (h : integrator.Flies field body dt n flight)
      (hn : n < integrator.movement.maxIterations.toNat)
      (started : integrator.movement.minTravel < flight.remaining) {fault : Fault}
      (position : destination integrator field flight = .error fault) :
      Ends integrator field body dt
        ⟨.error fault, flight.events ++ (path integrator field flight).2⟩

variable {integrator : Integrator} {field : Field} {body : Body} {dt : Float32} {m n : Nat}
  {flight flight' : Flight}

/-- What becomes of the iterations of a step. -/
def conclude (integrator : Integrator) (body : Body) : Progress Ending Flight → Outcome
  | .answer (.spent flight) => ⟨.ok (flight.land body.velocity), flight.events⟩
  | .answer (.faulty fault events) => ⟨.error fault, events⟩
  | .goOn flight =>
    let capped : List Event :=
      if integrator.movement.minTravel < flight.remaining then
        [.movementCapped flight.position flight.remaining flight.bounces]
      else []
    ⟨.ok (flight.land body.velocity), flight.events ++ capped⟩

theorem step_eq_conclude (hmoving : Single.isPositiveFinite body.velocity.length = true)
    (hforward : ¬dt ≤ 0) :
    integrator.step field body dt = integrator.conclude body
      (rounds (round integrator field) integrator.movement.maxIterations.toNat
        (integrator.takeoff body dt)) := by
  unfold step
  extract_lets speed movement start
  rw [if_neg (by simp [speed, hmoving, hforward])]
  change _ = integrator.conclude body (rounds _ movement.maxIterations.toNat start)
  rcases rounds (round integrator field) movement.maxIterations.toNat start with
    (flight | ⟨fault, events⟩) | flight <;> rfl

theorem step_eq_still (h : Single.isPositiveFinite body.velocity.length = true → dt ≤ 0) :
    integrator.step field body dt = ⟨.ok body, []⟩ := by
  unfold step
  extract_lets speed
  rw [if_pos]
  simpa [speed, or_iff_not_imp_left] using h

theorem step_ends (integrator : Integrator) (field : Field) (body : Body) (dt : Float32) :
    integrator.Ends field body dt (integrator.step field body dt) := by
  by_cases hstill : Single.isPositiveFinite body.velocity.length = true → dt ≤ 0
  · rw [step_eq_still hstill]
    exact .still hstill
  obtain ⟨hmoving, hforward⟩ := Classical.not_imp.1 hstill
  rw [step_eq_conclude hmoving hforward]
  cases hrounds : rounds (round integrator field) integrator.movement.maxIterations.toNat
    (integrator.takeoff body dt) with
  | answer ending =>
    obtain ⟨n, hn, flight, hreached, hround⟩ := rounds_eq_answer_iff.1 hrounds
    have hflies : integrator.Flies field body dt n flight := ⟨hmoving, hforward, hn.le, hreached⟩
    obtain ⟨hspent, rfl⟩ | ⟨hstarted, fault, hfault, rfl⟩ := round_answer_cases hround
    · exact .spent hflies hspent
    · exact .faulty hflies hn hstarted hfault
  | goOn flight =>
    refine .capped ⟨hmoving, hforward, le_rfl, hrounds⟩ _ ?_
    split_ifs <;> rfl

/-- From a sound flight on, neither the speed nor the budget rises. -/
theorem sound_rounds (hmovement : integrator.movement.validate = .ok ())
    (htracing : integrator.tracing.validate = .ok ()) (h : flight.Sound)
    (hrounds : rounds (round integrator field) n flight = .goOn flight') :
    flight'.Sound ∧ flight.reading.Falls flight'.reading := by
  refine rounds_invariant (I := fun _ f => f.Sound ∧ flight.reading.Falls f.reading) ?_ ?_ hrounds
  · exact ⟨h, h.falls_self⟩
  · rintro _ f₁ f₂ ⟨hf₁, hfalls⟩ hround
    obtain ⟨hf₂, hfalls'⟩ := (iterates_of_round hround).sound hmovement htracing hf₁
    exact ⟨hf₂, hfalls.trans hfalls'⟩

/-- A flight with no more than the look-ahead left stays where it is. -/
theorem position_rounds (hmovement : integrator.movement.validate = .ok ())
    (htracing : integrator.tracing.validate = .ok ()) (h : flight.Sound)
    (hrest : flight.remaining ≤ integrator.movement.overshoot)
    (hrounds : rounds (round integrator field) n flight = .goOn flight') :
    flight'.position = flight.position := by
  refine (rounds_invariant (I := fun _ f => f.Sound ∧
    f.remaining ≤ integrator.movement.overshoot ∧ f.position = flight.position) ?_ ?_ hrounds).2.2
  · exact ⟨h, hrest, rfl⟩
  · rintro _ f₁ f₂ ⟨hf₁, hrest₁, hposition⟩ hround
    have hiterates := iterates_of_round hround
    obtain ⟨hf₂, hfalls⟩ := hiterates.sound hmovement htracing hf₁
    have hsame := hiterates.position
    rw [destination_of_le hmovement hf₁ hrest₁] at hsame
    exact ⟨hf₂, Single.le_trans hfalls.2 hrest₁, (Except.ok.inj hsame) ▸ hposition⟩

/-- Bounces report a speed and a budget that the flight after them does not exceed. -/
theorem readings_rounds (hmovement : integrator.movement.validate = .ok ())
    (htracing : integrator.tracing.validate = .ok ()) (h : flight.Sound)
    (hreadings : (flight.readings ++ [flight.reading]).Pairwise Reading.Falls)
    (hrounds : rounds (round integrator field) n flight = .goOn flight') :
    (flight'.readings ++ [flight'.reading]).Pairwise Reading.Falls := by
  refine (rounds_invariant
    (I := fun _ f => f.Sound ∧ (f.readings ++ [f.reading]).Pairwise Reading.Falls)
    ?_ ?_ hrounds).2
  · exact ⟨h, hreadings⟩
  · rintro _ f₁ f₂ ⟨hf₁, hpairs⟩ hround
    have hiterates := iterates_of_round hround
    obtain ⟨hf₂, hfalls⟩ := hiterates.sound hmovement htracing hf₁
    have hnow := Reading.pairwise_replace hpairs hfalls
    refine ⟨hf₂, ?_⟩
    rcases hiterates.bounced with ⟨-, heq⟩ | ⟨-, heq⟩
    · rwa [heq]
    · rw [heq]
      exact Reading.pairwise_concat hnow hf₂.falls_self

theorem Flies.rounds_eq (h : integrator.Flies field body dt m flight)
    (h' : integrator.Flies field body dt n flight') (hle : m ≤ n) :
    rounds (round integrator field) (n - m) flight = .goOn flight' := by
  rw [← rounds_add_of_goOn h.reached, Nat.add_sub_cancel' hle]
  exact h'.reached

/-- No flight comes after one whose iteration ends the step. -/
theorem Flies.le_of_round_eq_answer (h : integrator.Flies field body dt m flight)
    (h' : integrator.Flies field body dt n flight') {ending : Ending}
    (hround : round integrator field flight' = .answer ending) : m ≤ n := by
  by_contra hlt
  have hanswer : rounds (round integrator field) (m - n) flight' = .answer ending :=
    rounds_eq_answer_iff.2 ⟨0, Nat.sub_pos_of_lt (not_le.1 hlt), flight', rfl, hround⟩
  rw [h'.rounds_eq h (not_le.1 hlt).le] at hanswer
  cases hanswer

theorem Flies.iterates (h : integrator.Flies field body dt n flight)
    (h' : integrator.Flies field body dt (n + 1) flight') :
    Iterates integrator field flight flight' :=
  iterates_of_round (by rw [← rounds_succ_of_goOn h.reached, h'.reached])

theorem takeoff_sound (hmovement : integrator.movement.validate = .ok ())
    (hmoving : Single.isPositiveFinite body.velocity.length = true) (hforward : ¬dt ≤ 0)
    (hbudget : (body.velocity.length * dt + integrator.movement.overshoot).isFinite = true) :
    (integrator.takeoff body dt).Sound := by
  obtain ⟨hspeed, hfinite⟩ := Single.isPositiveFinite_iff.1 hmoving
  obtain ⟨hovershoot, -⟩ := (MovementConfig.validate_eq_ok_iff.1 hmovement).1
  have hlength : ¬body.velocity.length * dt < 0 := Single.mul_not_lt_zero
    (Single.not_lt_of_le (Single.le_of_lt hspeed)) (mt Single.le_of_lt hforward)
  have hsum := Single.add_not_lt_zero hlength (Single.not_lt_of_le hovershoot)
  obtain ⟨x, hx⟩ := Single.isFinite_iff.1 hbudget
  exact ⟨Single.le_of_lt hspeed, hfinite,
    Single.le_of_not_lt Single.denotes_zero.isNaN hx.isNaN hsum, hbudget⟩

/-- What a step may count on while it has a budget: neither the budget nor the speed ever rises,
    and the look-ahead is not travelled. -/
structure Dissipates (integrator : Integrator) (field : Field) (body : Body) (dt : Float32) :
    Prop where
  remaining_mem : ∀ {n flight}, integrator.Flies field body dt n flight →
    0 ≤ flight.remaining ∧
      flight.remaining ≤ body.velocity.length * dt + integrator.movement.overshoot
  remaining_falls : ∀ {m n flight flight'}, integrator.Flies field body dt m flight →
    integrator.Flies field body dt n flight' → m ≤ n → flight'.remaining ≤ flight.remaining
  speed_mem : ∀ {n flight}, integrator.Flies field body dt n flight →
    0 ≤ flight.speed ∧ flight.speed ≤ body.velocity.length
  speed_falls : ∀ {m n flight flight'}, integrator.Flies field body dt m flight →
    integrator.Flies field body dt n flight' → m ≤ n → flight'.speed ≤ flight.speed
  /-- So do the readings that the bounces of the step report. -/
  readings_fall :
    ((integrator.step field body dt).events.filterMap Event.reading?).Pairwise Reading.Falls
  advance_mem : ∀ {n flight}, integrator.Flies field body dt n flight →
    0 ≤ advance integrator field flight ∧
      advance integrator field flight ≤ (path integrator field flight).1.travel
  /-- The advance is what an iteration moves the body by. -/
  position_eq : ∀ {n flight flight'}, integrator.Flies field body dt n flight →
    integrator.Flies field body dt (n + 1) flight' →
      flight.position.add (.ofVec3 (flight.direction.scale (advance integrator field flight))) =
        .ok flight'.position
  /-- A flight with no more than the look-ahead left stays where it is. -/
  position_stays : ∀ {m n flight flight'}, integrator.Flies field body dt m flight →
    flight.remaining ≤ integrator.movement.overshoot →
      integrator.Flies field body dt n flight' → m ≤ n → flight'.position = flight.position
  /-- So does the body that the step results in. -/
  result_stays : ∀ {m flight}, integrator.Flies field body dt m flight →
    flight.remaining ≤ integrator.movement.overshoot →
      ∃ body', (integrator.step field body dt).result = .ok body' ∧
        body'.position = flight.position

/-- The body that a step results in is where a flight that stays where it is has come to. -/
theorem result_of_stays (h : integrator.Flies field body dt m flight)
    (hstays : ∀ {n flight'}, integrator.Flies field body dt n flight' → m ≤ n →
      flight'.position = flight.position ∧
        destination integrator field flight' = .ok flight.position) :
    ∃ body', (integrator.step field body dt).result = .ok body' ∧
      body'.position = flight.position := by
  have hends := step_ends integrator field body dt
  generalize integrator.step field body dt = outcome at hends
  cases hends with
  | still hstill => exact absurd (hstill h.moving) h.forward
  | spent h' hspent =>
    have hle := h.le_of_round_eq_answer h' (by rw [round_eq, if_neg hspent])
    exact ⟨_, rfl, (hstays h' hle).1⟩
  | capped h' events hquiet => exact ⟨_, rfl, (hstays h' h.within).1⟩
  | faulty h' hn hstarted hfault =>
    have hle := h.le_of_round_eq_answer h' (by rw [round_eq, if_pos hstarted, hfault])
    rw [(hstays h' hle).2] at hfault
    cases hfault

/-- The readings of a step are those of one of its flights. -/
theorem readings_step (integrator : Integrator) (field : Field) (body : Body) (dt : Float32) :
    (integrator.step field body dt).events.filterMap Event.reading? = [] ∨
      ∃ n flight, integrator.Flies field body dt n flight ∧
        (integrator.step field body dt).events.filterMap Event.reading? = flight.readings := by
  have hends := step_ends integrator field body dt
  generalize integrator.step field body dt = outcome at hends
  cases hends with
  | still => exact .inl rfl
  | spent h => exact .inr ⟨_, _, h, rfl⟩
  | capped h events hquiet =>
    exact .inr ⟨_, _, h, by rw [List.filterMap_append, hquiet, List.append_nil]; rfl⟩
  | faulty h =>
    exact .inr ⟨_, _, h, by rw [List.filterMap_append, readings_path, List.append_nil]; rfl⟩

/-- **Neither the budget nor the speed of a step ever rises**, whatever the field answers. -/
theorem step_dissipates (hmovement : integrator.movement.validate = .ok ())
    (htracing : integrator.tracing.validate = .ok ()) (field : Field) (body : Body) (dt : Float32)
    (hbudget : (body.velocity.length * dt + integrator.movement.overshoot).isFinite = true) :
    integrator.Dissipates field body dt := by
  have htakeoff {n flight} (h : integrator.Flies field body dt n flight) :
      (integrator.takeoff body dt).Sound :=
    takeoff_sound hmovement h.moving h.forward hbudget
  have hsound {n flight} (h : integrator.Flies field body dt n flight) :
      flight.Sound ∧ (integrator.takeoff body dt).reading.Falls flight.reading :=
    sound_rounds hmovement htracing (htakeoff h) h.reached
  have hfalls {m n flight flight'} (h : integrator.Flies field body dt m flight)
      (h' : integrator.Flies field body dt n flight') (hle : m ≤ n) :
      flight.reading.Falls flight'.reading :=
    (sound_rounds hmovement htracing (hsound h).1 (h.rounds_eq h' hle)).2
  have hstays {m n flight flight'} (h : integrator.Flies field body dt m flight)
      (hrest : flight.remaining ≤ integrator.movement.overshoot)
      (h' : integrator.Flies field body dt n flight') (hle : m ≤ n) :
      flight'.position = flight.position :=
    position_rounds hmovement htracing (hsound h).1 hrest (h.rounds_eq h' hle)
  have hreadings : ((integrator.step field body dt).events.filterMap Event.reading?).Pairwise
      Reading.Falls := by
    obtain hnone | ⟨n, flight, h, heq⟩ := readings_step integrator field body dt
    · rw [hnone]
      exact .nil
    · rw [heq]
      exact (List.pairwise_append.1 (readings_rounds hmovement htracing (htakeoff h)
        (List.pairwise_singleton _ _) h.reached)).1
  exact
    { remaining_mem := fun h => ⟨(hsound h).1.remaining_nonneg, (hsound h).2.2⟩
      remaining_falls := fun h h' hle => (hfalls h h' hle).2
      speed_mem := fun h => ⟨(hsound h).1.speed_nonneg, (hsound h).2.1⟩
      speed_falls := fun h h' hle => (hfalls h h' hle).1
      readings_fall := hreadings
      advance_mem := fun h => advance_mem htracing (hsound h).1
      position_eq := fun h h' => (h.iterates h').position
      position_stays := hstays
      result_stays := fun h hrest => result_of_stays h fun h' hle =>
        ⟨hstays h hrest h' hle, by
          rw [← hstays h hrest h' hle]
          exact destination_of_le hmovement (hsound h').1
            (Single.le_trans (hfalls h h' hle).2 hrest)⟩ }

theorem step_dissipates_falling :
    let body : Body := ⟨⟨.zero, .zero, .one⟩, ⟨0, 0, -4⟩⟩
    default.movement.validate = .ok () ∧ default.tracing.validate = .ok () ∧
      (body.velocity.length * 1 + default.movement.overshoot).isFinite = true ∧
        ((default.step (.slopeZ 1) body 1).events.filterMap Event.reading?).length = 1 ∧
          default.Dissipates (.slopeZ 1) body 1 := by
  have hbudget : (Vec3.length ⟨0, 0, -4⟩ * 1 + default.movement.overshoot).isFinite = true := by
    decide +kernel
  exact ⟨rfl, rfl, hbudget, by decide +kernel, step_dissipates rfl rfl _ _ _ hbudget⟩

end Integrator

end SignedDistance
