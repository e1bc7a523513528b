import SignedDistance.Fixed.Vector
import SignedDistance.Proofs.Walk
import Mathlib

set_option autoImplicit false

/-! # The range of fixed-point numbers

A number is as good as its raw value: numbers are ordered by it, and every integer that fits is the
raw value of one. What is exact or faulty succeeds with the exact integer if that fits, and what
saturates is the exact integer if that fits and never farther from any number than it. So a
statement about arithmetic comes down to one about integers. -/

namespace SignedDistance

namespace Fixed

variable {a b c : Fixed} {m n : ℤ} {f fault : Fault}

/-! ## Order -/

instance : PartialOrder Fixed where
  le a b := (a.order b).isLE = true
  le_refl _ := Int.isLE_compare.2 le_rfl
  le_trans _ _ _ hab hbc :=
    Int.isLE_compare.2 ((Int.isLE_compare.1 hab).trans (Int.isLE_compare.1 hbc))
  le_antisymm _ _ hab hba :=
    ext_raw (le_antisymm (Int.isLE_compare.1 hab) (Int.isLE_compare.1 hba))

theorem le_iff_raw : a ≤ b ↔ a.raw ≤ b.raw := Int.isLE_compare

theorem lt_iff_raw : a < b ↔ a.raw < b.raw := by
  rw [lt_iff_le_not_ge, le_iff_raw, le_iff_raw, ← lt_iff_le_not_ge]

/-! ## Integers that fit -/

/-- The integer fits in 64 signed bits. -/
def Fits (n : ℤ) : Prop := -2 ^ 63 ≤ n ∧ n < 2 ^ 63

instance (n : ℤ) : Decidable (Fits n) := inferInstanceAs (Decidable (_ ∧ _))

theorem fits_raw (a : Fixed) : Fits a.raw := by
  have hlower := a.lower
  have hupper := a.upper
  constructor <;> omega

/-- What lies between two raw values fits. -/
theorem fits_of_mem (h : n ∈ Set.uIcc a.raw b.raw) : Fits n := by
  obtain ⟨hla, hua⟩ := a.fits_raw
  obtain ⟨hlb, hub⟩ := b.fits_raw
  rw [Set.mem_uIcc] at h
  constructor <;> omega

/-! ## Saturation -/

theorem raw_saturate_eq_iff : (saturate n).raw = n ↔ Fits n := by
  rw [raw_saturate, Fits]
  omega

theorem saturate_raw (a : Fixed) : saturate a.raw = a := ext_raw (raw_saturate_eq_iff.2 a.fits_raw)

theorem saturate_mono : Monotone saturate := by
  intro m n h
  rw [le_iff_raw, raw_saturate, raw_saturate]
  omega

/-- Saturation brings an integer no farther from any number. -/
theorem abs_raw_saturate_sub_le (n : ℤ) (a : Fixed) :
    |(saturate n).raw - a.raw| ≤ |n - a.raw| := by
  obtain ⟨hlower, hupper⟩ := a.fits_raw
  rw [Int.abs_eq_natAbs, Int.abs_eq_natAbs, raw_saturate]
  omega

/-! ## Exact or faulty -/

/-- If there is a result, it is the number of the exact integer. -/
theorem checked_eq_ok_iff : checked f n = .ok a ↔ a.raw = n := by
  rw [checked]
  split
  · rw [Except.ok.injEq]
    exact ⟨fun h => by rw [← h], fun h => ext_raw h.symm⟩
  · rename_i hn
    simp only [reduceCtorEq, false_iff]
    intro h
    exact hn ⟨h ▸ a.lower, h ▸ a.upper⟩

theorem checked_eq_error_iff : checked f n = .error fault ↔ fault = f ∧ ¬Fits n := by
  rw [checked, Fits]
  split
  · simp only [reduceCtorEq, false_iff]
    omega
  · rw [Except.error.injEq, eq_comm]
    refine (and_iff_left ?_).symm
    omega

theorem add_eq_ok_iff : a.add b = .ok c ↔ c.raw = a.raw + b.raw := checked_eq_ok_iff

theorem sub_eq_ok_iff : a.sub b = .ok c ↔ c.raw = a.raw - b.raw := checked_eq_ok_iff

theorem neg_eq_ok_iff : a.neg = .ok b ↔ b.raw = -a.raw := checked_eq_ok_iff

theorem exists_raw_eq (h : Fits n) : ∃ a : Fixed, a.raw = n :=
  ⟨saturate n, raw_saturate_eq_iff.2 h⟩

end Fixed

/-! ## Lane by lane -/

namespace FixedVec

variable {f : Fixed → Fixed → Except Fault Fixed} {u v w : FixedVec}

theorem ext_raw (hx : v.x.raw = w.x.raw) (hy : v.y.raw = w.y.raw) (hz : v.z.raw = w.z.raw) :
    v = w := by
  cases v
  cases w
  rw [mk.injEq]
  exact ⟨Fixed.ext_raw hx, Fixed.ext_raw hy, Fixed.ext_raw hz⟩

theorem zipLanes_eq_ok_iff : zipLanes f v w = .ok u ↔
    f v.x w.x = .ok u.x ∧ f v.y w.y = .ok u.y ∧ f v.z w.z = .ok u.z := by
  simp only [zipLanes, bind_eq_ok_iff]
  constructor
  · rintro ⟨x, hx, y, hy, z, hz, h⟩
    cases h
    exact ⟨hx, hy, hz⟩
  · rintro ⟨hx, hy, hz⟩
    exact ⟨u.x, hx, u.y, hy, u.z, hz, rfl⟩

/-- If there is only one fault that a lane can have, it is also the only one of the vector. -/
theorem zipLanes_eq_error_iff {g fault : Fault} {Fails : Fixed → Fixed → Prop}
    (hf : ∀ a b e, f a b = .error e ↔ e = g ∧ Fails a b) :
    zipLanes f v w = .error fault ↔
      fault = g ∧ (Fails v.x w.x ∨ Fails v.y w.y ∨ Fails v.z w.z) := by
  -- a lane that does not fail leaves the decision to the next one
  have hok (a b : Fixed) (p : Prop) : (∃ c, f a b = .ok c ∧ p) ↔ ¬Fails a b ∧ p := by
    cases h : f a b with
    | error e => simp [((hf a b e).1 h).2]
    | ok c =>
      have hnot : ¬Fails a b := by
        intro hfails
        rw [(hf a b g).2 ⟨rfl, hfails⟩] at h
        cases h
      simp [hnot]
  simp only [zipLanes, bind_eq_error_iff, hf, hok, pure, Except.pure, reduceCtorEq, and_false]
  tauto

end FixedVec

end SignedDistance
