import SignedDistance.Proofs.Movement
import SignedDistance.Proofs.Number.Alike
import SignedDistance.Proofs.Number.Range

set_option autoImplicit false

/-! # How a movement step turns a body

A bounce reflects the direction of a body about a horizontal normal, or reverses it where there is
no such normal. The third lane of a horizontal normal is zero, and it stays zero whatever the normal
is scaled by, as long as that is finite; a reflection therefore never touches the third lane of the
direction, and only reversals do. The bounces of a step are kept as a list of contacts, and what a
step makes of the direction and the speed is read off that list. -/

namespace SignedDistance

/-! ## Contacts -/

/-- What a bounce depends on: the direction a body comes in with and the gradient where it is. -/
structure Contact where
  incoming : Vec3
  gradient : Vec3

namespace Contact

variable (c : Contact)

/-- What is left of the gradient in the horizontal plane. -/
def flat : Vec3 := ⟨c.gradient.x, c.gradient.y, 0⟩

/-- Whether there is a normal to be reflected about. -/
def glances : Bool := 0 < c.flat.lengthSquared

/-- How often a reflection takes the normal away from the direction. -/
def reach : Float32 := 2 * c.incoming.dot c.flat.normalize

def outgoing : Vec3 :=
  if c.glances then c.incoming - c.flat.normalize.scale c.reach else -c.incoming

def damping (config : MovementConfig) : Float32 :=
  if c.glances then config.glancingDamping else config.headOnDamping

variable {c}

/-- **A reflection leaves the third lane as it is**, up to the sign of zero. -/
theorem outgoing_z_of_glances (h : c.glances = true) (hfinite : c.reach.isFinite = true) :
    Single.Alike c.outgoing.z c.incoming.z := by
  have hnormal : Single.Denotes c.flat.normalize.z 0 :=
    Single.denotes_zero_mul_inv_sqrt (of_decide_eq_true h)
  obtain ⟨x, hx⟩ := Single.isFinite_iff.1 hfinite
  have hpart : Single.Denotes (c.flat.normalize.z * c.reach) 0 :=
    Single.denotes_zero_mul hnormal hx
  rw [outgoing, if_pos h]
  exact hpart.alike_sub c.incoming.z

theorem outgoing_of_not_glances (h : c.glances = false) : c.outgoing = -c.incoming := by
  rw [outgoing, if_neg (by rw [h]; exact Bool.false_ne_true)]

end Contact

/-- How many contacts have no normal to be reflected about. -/
def headOns (cs : List Contact) : Nat := cs.countP fun c => !c.glances

/-- A lane that has been reversed some number of times. -/
def reversed (z : Float32) (n : Nat) : Float32 := if Even n then z else -z

theorem reversed_succ (z : Float32) (n : Nat) : reversed z (n + 1) = -reversed z n := by
  unfold reversed
  by_cases h : Even n
  · rw [if_pos h, if_neg (by simpa [Nat.even_add_one] using h)]
  · rw [if_neg h, if_pos (by simpa [Nat.even_add_one] using h), Single.neg_neg]

namespace Movement

variable (integrator : Integrator) (field : Field)

/-- What the next iteration of a flight bounces off, if it does. -/
def contact? (flight : Flight) : Option Contact :=
  match destination integrator field flight with
  | .ok position =>
    if (path integrator field flight).1.hit then
      some ⟨flight.direction, field.gradient position.toVec3⟩
    else none
  | .error _ => none

/-- What the first `n` iterations from a flight on bounce off, in order. -/
def contacts : Nat → Flight → List Contact
  | 0, _ => []
  | n + 1, flight =>
    match round integrator field flight with
    | .answer _ => []
    | .goOn next => (contact? integrator field flight).toList ++ contacts n next

variable {integrator field} {flight next : Flight} {n : Nat} {c : Contact}

theorem bounce_turns (config : MovementConfig) (field : Field) (flight : Flight) :
    let c : Contact := ⟨flight.direction, field.gradient flight.position.toVec3⟩
    (bounce config field flight).direction = c.outgoing ∧
      (bounce config field flight).speed = flight.speed * c.damping config ∧
        (bounce config field flight).bounces = flight.bounces + 1 := by
  intro c
  have hglances : c.glances = true ↔ 0 < c.flat.lengthSquared := decide_eq_true_iff
  unfold bounce Contact.outgoing Contact.damping
  extract_lets gradient flat
  have hflat : c.flat = flat := rfl
  simp only [hglances, hflat]
  split_ifs
  · exact ⟨rfl, rfl, trivial⟩
  · exact ⟨rfl, rfl, trivial⟩

/-- What an iteration makes of the direction, the speed and the count of bounces. -/
structure Turned (config : MovementConfig) (flight next : Flight) (contact : Option Contact) :
    Prop where
  direction : next.direction = contact.elim flight.direction Contact.outgoing
  speed : next.speed = contact.elim flight.speed fun c => flight.speed * c.damping config
  bounces : next.bounces = flight.bounces + contact.toList.length
  incoming : ∀ c ∈ contact, c.incoming = flight.direction

theorem turned_of_round (h : round integrator field flight = .goOn next) :
    Turned integrator.movement flight next (contact? integrator field flight) := by
  obtain ⟨-, position, hdestination, hnext⟩ := round_goOn_cases h
  rw [contact?, hdestination]
  dsimp only
  split_ifs at hnext ⊢
  · obtain ⟨hdirection, hspeed, hbounces⟩ :=
      bounce_turns integrator.movement field (moved integrator field flight position)
    rw [hnext]
    exact ⟨hdirection, hspeed, hbounces, fun c hc => by cases hc; rfl⟩
  · rw [hnext]
    exact ⟨rfl, rfl, rfl, fun c hc => by cases hc⟩

/-! ## Lists of contacts -/

theorem contacts_of_answer {ending : Ending} (h : round integrator field flight = .answer ending)
    (n : Nat) : contacts integrator field n flight = [] := by
  cases n with
  | zero => rfl
  | succ n => rw [contacts, h]

theorem contacts_add_of_goOn (h : rounds (round integrator field) n flight = .goOn next) (m : Nat) :
    contacts integrator field (n + m) flight =
      contacts integrator field n flight ++ contacts integrator field m next := by
  induction n generalizing flight with
  | zero =>
    cases h
    rw [Nat.zero_add]
    rfl
  | succ n ih =>
    rw [Nat.add_right_comm, contacts, contacts]
    rw [rounds] at h
    cases hround : round integrator field flight with
    | answer ending =>
      rw [hround] at h
      cases h
    | goOn next =>
      rw [hround] at h
      dsimp only
      rw [ih h, List.append_assoc]

theorem contacts_succ_of_goOn {flight' : Flight}
    (h : rounds (round integrator field) n flight = .goOn flight')
    (hround : round integrator field flight' = .goOn next) :
    contacts integrator field (n + 1) flight =
      contacts integrator field n flight ++ (contact? integrator field flight').toList := by
  have hone : contacts integrator field 1 flight' = (contact? integrator field flight').toList := by
    rw [contacts, hround]
    exact List.append_nil _
  rw [contacts_add_of_goOn h, hone]

/-- The bounces and the speed of a flight come of its contacts. -/
theorem bounces_rounds {flight' : Flight}
    (h : rounds (round integrator field) n flight = .goOn flight') :
    flight'.bounces = flight.bounces + (contacts integrator field n flight).length ∧
      flight'.speed = (contacts integrator field n flight).foldl
        (fun speed c => speed * c.damping integrator.movement) flight.speed := by
  induction n generalizing flight' with
  | zero =>
    cases h
    exact ⟨rfl, rfl⟩
  | succ n ih =>
    obtain ⟨f, hf, hround⟩ := rounds_succ_eq_goOn_iff.1 h
    obtain ⟨hbounces, hspeed⟩ := ih hf
    have hturned := turned_of_round hround
    rw [contacts_succ_of_goOn hf hround, hturned.bounces, hturned.speed, List.length_append,
      List.foldl_append, ← hspeed, hbounces, Nat.add_assoc]
    refine ⟨rfl, ?_⟩
    cases contact? integrator field f <;> rfl

/-- **So does the third lane of its direction**: it is reversed by every head-on bounce, and by
    nothing else. -/
theorem direction_z_rounds {flight' : Flight}
    (h : rounds (round integrator field) n flight = .goOn flight')
    (hfinite : ∀ c ∈ contacts integrator field n flight,
      c.glances = true → c.reach.isFinite = true) :
    Single.Alike flight'.direction.z
      (reversed flight.direction.z (headOns (contacts integrator field n flight))) := by
  induction n generalizing flight' with
  | zero =>
    cases h
    rfl
  | succ n ih =>
    obtain ⟨f, hf, hround⟩ := rounds_succ_eq_goOn_iff.1 h
    have hturned := turned_of_round hround
    rw [contacts_succ_of_goOn hf hround] at hfinite ⊢
    have hbefore := ih hf fun c hc => hfinite c (List.mem_append_left _ hc)
    rw [headOns, List.countP_append, ← headOns, hturned.direction]
    cases hcontact : contact? integrator field f with
    | none => exact hbefore
    | some c =>
      rw [hcontact] at hfinite
      have hincoming := hturned.incoming c hcontact
      cases hglances : c.glances with
      | true =>
        have hz := Contact.outgoing_z_of_glances hglances
          (hfinite c (List.mem_append_right _ (List.mem_singleton_self c)) hglances)
        rw [hincoming] at hz
        simpa [hglances] using hz.trans hbefore
      | false =>
        have hz : c.outgoing.z = -f.direction.z := by
          rw [Contact.outgoing_of_not_glances hglances, hincoming]
          rfl
        simpa [hglances, reversed_succ, hz] using hbefore.neg

end Movement

/-! ## Whole steps -/

open Movement

namespace Integrator

/-- What a step bounces off, in order. -/
def contacts (integrator : Integrator) (field : Field) (body : Body) (dt : Float32) :
    List Contact :=
  if Single.isPositiveFinite body.velocity.length && !decide (dt ≤ 0) then
    Movement.contacts integrator field integrator.movement.maxIterations.toNat
      (integrator.takeoff body dt)
  else []

variable {integrator : Integrator} {field : Field} {body body' : Body} {dt : Float32} {n : Nat}
  {flight flight' : Flight}

/-- A flight with no iteration to come has met all that its step meets. -/
theorem Flies.contacts_eq (h : integrator.Flies field body dt n flight)
    (hlast : n = integrator.movement.maxIterations.toNat ∨
      ∃ ending, Movement.round integrator field flight = .answer ending) :
    integrator.contacts field body dt =
      Movement.contacts integrator field n (integrator.takeoff body dt) := by
  rw [contacts, if_pos (by simp [h.moving, h.forward])]
  rcases hlast with rfl | ⟨ending, hround⟩
  · rfl
  · rw [← Nat.add_sub_cancel' h.within, contacts_add_of_goOn h.reached, contacts_of_answer hround,
      List.append_nil]

theorem Flies.turned {c : Option Contact} (h : integrator.Flies field body dt n flight)
    (h' : integrator.Flies field body dt (n + 1) flight')
    (hc : contact? integrator field flight = c) : Turned integrator.movement flight flight' c :=
  hc ▸ turned_of_round (by rw [← rounds_succ_of_goOn h.reached, h'.reached])

/-- The body of a step is that of a flight which has met all that the step meets, unless the step
    has no flights. -/
theorem result_cases (h : (integrator.step field body dt).result = .ok body') :
    integrator.contacts field body dt = [] ∧ body' = body ∨
      ∃ n flight, integrator.Flies field body dt n flight ∧
        integrator.contacts field body dt =
          Movement.contacts integrator field n (integrator.takeoff body dt) ∧
        body' = flight.land body.velocity := by
  have hends := step_ends integrator field body dt
  generalize integrator.step field body dt = outcome at h hends
  cases hends with
  | still hstill =>
    cases h
    refine .inl ⟨if_neg ?_, rfl⟩
    simpa using hstill
  | @spent n flight hflies hspent =>
    cases h
    refine .inr ⟨n, flight, hflies, hflies.contacts_eq (.inr ⟨.spent flight, ?_⟩), rfl⟩
    rw [round_eq, if_neg hspent]
  | @capped flight hflies events hquiet =>
    cases h
    exact .inr ⟨_, flight, hflies, hflies.contacts_eq (.inl rfl), rfl⟩
  | faulty => cases h

/-- How a step turns a body, told by its contacts. -/
structure Turns (integrator : Integrator) (field : Field) (body : Body) (dt : Float32) : Prop where
  straight : ∀ {n flight flight'}, integrator.Flies field body dt n flight →
    integrator.Flies field body dt (n + 1) flight' → contact? integrator field flight = none →
      flight'.direction = flight.direction ∧ flight'.speed = flight.speed
  /-- A bounce with a horizontal normal leaves the third lane as it is. -/
  glancing : ∀ {n flight flight' c}, integrator.Flies field body dt n flight →
    integrator.Flies field body dt (n + 1) flight' → contact? integrator field flight = some c →
      c.glances = true → c.reach.isFinite = true →
        Single.Alike flight'.direction.z flight.direction.z
  /-- A bounce without one reverses all lanes. -/
  headOn : ∀ {n flight flight' c}, integrator.Flies field body dt n flight →
    integrator.Flies field body dt (n + 1) flight' → contact? integrator field flight = some c →
      c.glances = false → flight'.direction = -flight.direction
  direction_z : ∀ {n flight}, integrator.Flies field body dt n flight →
    (∀ c ∈ Movement.contacts integrator field n (integrator.takeoff body dt),
      c.glances = true → c.reach.isFinite = true) →
        Single.Alike flight.direction.z (reversed (body.velocity.unscale body.velocity.length).z
          (headOns (Movement.contacts integrator field n (integrator.takeoff body dt))))
  speed_eq : ∀ {n flight}, integrator.Flies field body dt n flight →
    flight.speed = (Movement.contacts integrator field n (integrator.takeoff body dt)).foldl
      (fun speed c => speed * c.damping integrator.movement) body.velocity.length
  bounces_eq : ∀ {n flight}, integrator.Flies field body dt n flight →
    flight.bounces = (Movement.contacts integrator field n (integrator.takeoff body dt)).length
  /-- A step that meets nothing keeps the velocity, bit by bit. -/
  velocity_stays : ∀ {body'}, (integrator.step field body dt).result = .ok body' →
    integrator.contacts field body dt = [] → body'.velocity = body.velocity
  /-- Any other ends with the direction and the speed of a flight that has met all there was. -/
  velocity_eq : ∀ {body'}, (integrator.step field body dt).result = .ok body' →
    integrator.contacts field body dt ≠ [] → ∃ n flight, integrator.Flies field body dt n flight ∧
      Movement.contacts integrator field n (integrator.takeoff body dt) =
        integrator.contacts field body dt ∧
      body'.velocity = flight.direction.scale flight.speed

/-- **Vertical motion is reversed or kept, never redirected.** -/
theorem step_turns (integrator : Integrator) (field : Field) (body : Body) (dt : Float32) :
    integrator.Turns field body dt := by
  have hbounces {n flight} (h : integrator.Flies field body dt n flight) :
      flight.bounces =
        (Movement.contacts integrator field n (integrator.takeoff body dt)).length :=
    (bounces_rounds h.reached).1.trans (Nat.zero_add _)
  constructor
  case straight =>
    intro n flight flight' h h' hnone
    have hturned := h.turned h' hnone
    exact ⟨hturned.direction, hturned.speed⟩
  case glancing =>
    intro n flight flight' c h h' hsome hglances hfinite
    have hturned := h.turned h' hsome
    have hz := Contact.outgoing_z_of_glances hglances hfinite
    rw [hturned.incoming c rfl] at hz
    rwa [hturned.direction]
  case headOn =>
    intro n flight flight' c h h' hsome hglances
    have hturned := h.turned h' hsome
    rw [hturned.direction, ← hturned.incoming c rfl]
    exact Contact.outgoing_of_not_glances hglances
  case direction_z => exact fun h hfinite => direction_z_rounds h.reached hfinite
  case speed_eq => exact fun h => (bounces_rounds h.reached).2
  case bounces_eq => exact hbounces
  case velocity_stays =>
    intro body' hresult hnone
    obtain ⟨-, rfl⟩ | ⟨n, flight, h, heq, rfl⟩ := result_cases hresult
    · rfl
    · rw [Flight.land, if_pos]
      rw [hbounces h, ← heq, hnone, List.length_nil]
  case velocity_eq =>
    intro body' hresult hsome
    obtain ⟨hnone, -⟩ | ⟨n, flight, h, heq, rfl⟩ := result_cases hresult
    · exact absurd hnone hsome
    · refine ⟨n, flight, h, heq.symm, ?_⟩
      rw [Flight.land, if_neg]
      rwa [hbounces h, ← heq, List.length_eq_zero_iff]

/-- Off a wall, off the floor and off the wall again: a reversal between two reflections. -/
theorem step_turns_room :
    let room : Field := fun p => Single.least (3 - p.x) p.z
    let body : Body := ⟨.ofVec3 ⟨2, 0, 2⟩, ⟨4, 0, -3⟩⟩
    (default.contacts room body 1).map Contact.glances = [true, false, true] ∧
      (∀ c ∈ default.contacts room body 1, c.glances = true → c.reach.isFinite = true) ∧
        default.Turns room body 1 := by
  intro room body
  have hcontacts : (default.contacts room body 1).map Contact.glances = [true, false, true] ∧
      ∀ c ∈ default.contacts room body 1, c.glances = true → c.reach.isFinite = true := by
    decide +kernel
  exact ⟨hcontacts.1, hcontacts.2, step_turns _ _ _ _⟩

end Integrator

end SignedDistance
