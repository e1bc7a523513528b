set_option autoImplicit false

/-! # Rounds

Every query below is a loop with a cap: a round either ends the loop with an answer or leaves a
state for the next round, and after a given number of rounds the loop is cut off. Keeping the cap
apart from the rounds is what makes it harmless: an answer that was found under one cap is the
answer under every greater cap. -/

namespace SignedDistance

/-- What a round comes to: an answer, or a state to go on from. -/
inductive Progress (ρ σ : Type) where
  | answer (r : ρ)
  | goOn (s : σ)

/-- Play at most the given number of rounds. -/
@[specialize] def rounds {ρ σ : Type} (round : σ → Progress ρ σ) : Nat → σ → Progress ρ σ
  | 0, s => .goOn s
  | n + 1, s =>
    match round s with
    | .answer r => .answer r
    | .goOn s => rounds round n s

/-- A greater cap does not change an answer. -/
theorem rounds_answer_mono {ρ σ : Type} {round : σ → Progress ρ σ} {n m : Nat} {s : σ} {r : ρ}
    (h : rounds round n s = .answer r) (hnm : n ≤ m) : rounds round m s = .answer r := by
  induction n generalizing m s with
  | zero => simp [rounds] at h
  | succ n ih =>
    obtain ⟨k, rfl⟩ : ∃ k, m = k + 1 := ⟨m - 1, by omega⟩
    simp only [rounds] at h ⊢
    cases hr : round s with
    | answer r' => simpa [hr] using h
    | goOn s' =>
      rw [hr] at h
      exact ih h (by omega)

end SignedDistance
