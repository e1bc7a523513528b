import SignedDistance.March.Rounds

set_option autoImplicit false

/-! # What holds after some rounds

A loop with a cap is reasoned about through the states that it comes to: a state is reached after
`n` rounds if those rounds go on to it. What every round keeps up holds of every state reached, and
an answer is the answer of the round after one of them. -/

namespace SignedDistance

variable {ρ σ : Type} {round : σ → Progress ρ σ} {n m : Nat} {s s' : σ} {r : ρ}

/-- Rounds after rounds that went on. -/
theorem rounds_add_of_goOn (h : rounds round n s = .goOn s') (m : Nat) :
    rounds round (n + m) s = rounds round m s' := by
  induction n generalizing s with
  | zero =>
    cases h
    rw [Nat.zero_add]
  | succ n ih =>
    rw [Nat.add_right_comm]
    rw [rounds] at h ⊢
    cases hround : round s with
    | answer r =>
      rw [hround] at h
      cases h
    | goOn s₁ =>
      rw [hround] at h
      exact ih h

theorem rounds_succ_of_goOn (h : rounds round n s = .goOn s') :
    rounds round (n + 1) s = round s' := by
  rw [rounds_add_of_goOn h, rounds]
  cases round s' <;> rfl

/-- Rounds that have gone on did so from one state to the next. -/
theorem rounds_succ_eq_goOn_iff : rounds round (n + 1) s = .goOn s' ↔
    ∃ s₁, rounds round n s = .goOn s₁ ∧ round s₁ = .goOn s' := by
  cases hn : rounds round n s with
  | answer r =>
    rw [rounds_answer_mono hn n.le_succ]
    simp
  | goOn s₁ =>
    rw [rounds_succ_of_goOn hn]
    simp

/-- **What every round keeps up holds of every state reached.** -/
theorem rounds_invariant {I : Nat → σ → Prop} (h₀ : I 0 s)
    (hround : ∀ n s₁ s₂, I n s₁ → round s₁ = .goOn s₂ → I (n + 1) s₂)
    (h : rounds round n s = .goOn s') : I n s' := by
  induction n generalizing s' with
  | zero =>
    cases h
    exact h₀
  | succ n ih =>
    obtain ⟨s₁, hn, hs₁⟩ := rounds_succ_eq_goOn_iff.1 h
    exact hround n s₁ s' (ih hn) hs₁

/-- **An answer is the answer of a round after a state reached.** -/
theorem rounds_eq_answer_iff : rounds round n s = .answer r ↔
    ∃ k < n, ∃ s', rounds round k s = .goOn s' ∧ round s' = .answer r := by
  constructor
  · intro h
    induction n with
    | zero => cases h
    | succ n ih =>
      cases hn : rounds round n s with
      | answer r' =>
        obtain ⟨k, hk, hreached⟩ := ih (by rw [hn, ← h, rounds_answer_mono hn n.le_succ])
        exact ⟨k, by omega, hreached⟩
      | goOn s' =>
        rw [rounds_succ_of_goOn hn] at h
        exact ⟨n, n.lt_succ_self, s', hn, h⟩
  · rintro ⟨k, hk, s', hs', hround⟩
    exact rounds_answer_mono (by rw [rounds_succ_of_goOn hs', hround]) hk

/-! ## Loops told in advance -/

section First

variable {Ends : Nat → Prop} {j k : Nat}

/-- The first round that ends a loop is the last one played. -/
theorem lt_succ_iff_of_first (hk : ∀ i < k, ¬Ends i) (hends : Ends k) :
    j < k + 1 ↔ ∀ i < j, ¬Ends i := by
  rw [Nat.lt_succ_iff]
  constructor
  · intro hj i hi
    exact hk i (Nat.lt_of_lt_of_le hi hj)
  · intro hj
    exact Nat.le_of_not_lt fun hlt => hj k hlt hends

/-- A loop ends once. -/
theorem eq_of_first (hj : ∀ i < j, ¬Ends i) (hjends : Ends j) (hk : ∀ i < k, ¬Ends i)
    (hkends : Ends k) : j = k := by
  rcases Nat.lt_trichotomy j k with hlt | heq | hlt
  · exact absurd hjends (hk j hlt)
  · exact heq
  · exact absurd hkends (hj k hlt)

end First

/-- The states of a loop are told in advance, and so are the rounds that end it. -/
structure Unrolls (round : σ → Progress ρ σ) (states : Nat → σ) (Ends : Nat → Prop) : Prop where
  answer : ∀ k, Ends k → ∃ r, round (states k) = .answer r
  goOn : ∀ k, ¬Ends k → round (states k) = .goOn (states (k + 1))

namespace Unrolls

variable {states : Nat → σ} {Ends : Nat → Prop}

/-- **Rounds go on as long as none of them ends the loop.** -/
theorem rounds_eq_goOn_iff (h : Unrolls round states Ends) :
    rounds round n (states 0) = .goOn s ↔ s = states n ∧ ∀ k < n, ¬Ends k := by
  induction n generalizing s with
  | zero => simp [rounds, eq_comm]
  | succ n ih =>
    rw [rounds_succ_eq_goOn_iff]
    simp only [ih]
    constructor
    · rintro ⟨_, ⟨rfl, hbefore⟩, hround⟩
      have hn : ¬Ends n := fun hends => by
        obtain ⟨r, hr⟩ := h.answer n hends
        rw [hr] at hround
        cases hround
      rw [h.goOn n hn] at hround
      cases hround
      exact ⟨rfl, fun k hk => (Nat.lt_succ_iff_lt_or_eq.1 hk).elim (hbefore k) (· ▸ hn)⟩
    · rintro ⟨rfl, hbefore⟩
      exact ⟨_, ⟨rfl, fun k hk => hbefore k (by omega)⟩, h.goOn n (hbefore n n.lt_succ_self)⟩

/-- **The first round that ends the loop gives the answer.** -/
theorem rounds_eq_answer_iff (h : Unrolls round states Ends) :
    rounds round n (states 0) = .answer r ↔
      ∃ k < n, (∀ j < k, ¬Ends j) ∧ round (states k) = .answer r := by
  rw [SignedDistance.rounds_eq_answer_iff]
  simp only [h.rounds_eq_goOn_iff]
  constructor
  · rintro ⟨k, hk, _, ⟨rfl, hbefore⟩, hround⟩
    exact ⟨k, hk, hbefore, hround⟩
  · rintro ⟨k, hk, hbefore, hround⟩
    exact ⟨k, hk, _, ⟨rfl, hbefore⟩, hround⟩

end Unrolls

end SignedDistance
