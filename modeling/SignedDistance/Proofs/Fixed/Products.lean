import SignedDistance.Proofs.Dot
import SignedDistance.Proofs.Fixed.Range

set_option autoImplicit false

/-! # Products and quotients in fixed point

A product is rounded down and a quotient toward zero, and both are moved into range. Each of the
three steps keeps the order, so a product by a fixed number and a quotient by one are monotone, or
antitone if that number is negative.

A product undoes a quotient, and a quotient a product, up to what was cut off on the way. Rounding
toward zero leaves a remainder on the side of the dividend; that, and one unit more for rounding
down, is all that is lost. -/

namespace SignedDistance

/-! ## Rounded integers -/

/-- What rounding a quotient toward zero leaves over is on the side of the dividend, is no more than
    it, and is less than the divisor. -/
theorem exists_remainder (n : ℤ) {d : ℤ} (hd : d ≠ 0) :
    ∃ r, n.tdiv d * d + r = n ∧ r ∈ Set.uIcc 0 n ∧ |r| < |d| := by
  have habs := Int.natAbs_tmod n d
  have hle := Nat.mod_le n.natAbs d.natAbs
  have hlt := Nat.mod_lt n.natAbs (Int.natAbs_pos.2 hd)
  refine ⟨n.tmod d, Int.tdiv_mul_add_tmod n d, ?_, ?_⟩
  · rw [Set.mem_uIcc]
    rcases le_total 0 n with hn | hn
    · have hnonneg := Int.tmod_nonneg d hn
      omega
    · have hnonneg := Int.tmod_nonneg d (Int.neg_nonneg_of_nonpos hn)
      rw [Int.neg_tmod] at hnonneg
      omega
  · rw [Int.abs_eq_natAbs, Int.abs_eq_natAbs]
    omega

theorem tdiv_monotone {d : ℤ} (hd : 0 < d) : Monotone fun n : ℤ => n.tdiv d :=
  fun _ _ h => Int.tdiv_le_tdiv hd h

theorem tdiv_antitone {d : ℤ} (hd : d < 0) : Antitone fun n : ℤ => n.tdiv d := by
  intro m n h
  have hneg := tdiv_monotone (Int.neg_pos_of_neg hd) h
  simp only [Int.tdiv_neg] at hneg
  exact neg_le_neg_iff.1 hneg

namespace Fixed

variable {a b c : Fixed}

theorem ediv_unit_monotone : Monotone fun n : ℤ => n / unit :=
  fun _ _ h => Int.ediv_le_ediv (by decide) h

/-- A part of an integer, rounded down, is no farther from zero. -/
theorem abs_mul_ediv_unit_le (m : ℤ) {n : ℤ} (hn : |n| ≤ unit) : |m * n / unit| ≤ |m| := by
  have hle : |m * n| ≤ |m| * unit := by
    rw [abs_mul]
    exact mul_le_mul_of_nonneg_left hn (abs_nonneg m)
  obtain ⟨hlower, hupper⟩ := abs_le.1 hle
  refine abs_le.2 ⟨Int.le_ediv_of_mul_le (by decide) ?_, Int.ediv_le_of_le_mul (by decide) hupper⟩
  rwa [neg_mul]

/-- Dividing and multiplying back leads from an integer toward zero, by less than the divisor and
    one unit. -/
theorem mul_tdiv_spec (m : ℤ) {d : ℤ} (hd : d ≠ 0) :
    (m * unit).tdiv d * d / unit ∈ Set.uIcc 0 m ∧
      |m - (m * unit).tdiv d * d / unit| ≤ ⌈(|d| : ℚ) / unit⌉ := by
  obtain ⟨r, hr, hside, hlt⟩ := exists_remainder (m * unit) hd
  generalize (m * unit).tdiv d * d = p at hr
  have hmem : p / unit ∈ Set.uIcc 0 m := by
    rw [Set.mem_uIcc] at hside ⊢
    simp only [unit] at *
    omega
  refine ⟨hmem, ?_⟩
  -- what rounding down adds to the remainder is less than one unit
  have herror : (|m - p / unit| - 1) * unit < |d| := by
    rw [Set.mem_uIcc] at hside
    simp only [Int.abs_eq_natAbs, unit] at *
    omega
  rw [Int.le_ceil_iff, lt_div_iff₀ (by norm_num [unit])]
  exact_mod_cast herror

/-- Multiplying by one or more and dividing back is off by at most one. -/
theorem tdiv_mul_spec (m : ℤ) {d : ℤ} (hd : unit ≤ |d|) :
    |(m * d / unit * unit).tdiv d - m| ≤ 1 := by
  have hne : d ≠ 0 := abs_pos.1 (lt_of_lt_of_le (by decide) hd)
  obtain ⟨r, hr, -, hlt⟩ := exists_remainder (m * d / unit * unit) hne
  generalize (m * d / unit * unit).tdiv d = q at hr
  -- what rounding down and rounding toward zero cut off, in multiples of the divisor
  have hcut : |(q - m) * d| < 2 * |d| := by
    have hfloor : m * d % unit + m * d / unit * unit = m * d := Int.emod_add_ediv_mul _ _
    have hmod := Int.emod_nonneg (m * d) (show unit ≠ 0 by decide)
    have hmod' := Int.emod_lt_of_pos (m * d) (show 0 < unit by decide)
    have heq : (q - m) * d = -(m * d % unit) - r := by linarith
    rw [heq, abs_lt]
    obtain ⟨hlower, hupper⟩ := abs_lt.1 hlt
    constructor <;> linarith
  rw [abs_mul] at hcut
  have hlt2 := lt_of_mul_lt_mul_right hcut (abs_nonneg d)
  omega

/-! ## Products and quotients -/

/-- What comes of a division by another number than zero. -/
def quotient (a b : Fixed) : Fixed := saturate ((a.raw * unit).tdiv b.raw)

theorem div_eq_ok (a : Fixed) (hb : b ≠ zero) : a.div b = .ok (a.quotient b) :=
  if_neg fun h => hb (ext_raw h)

theorem raw_ne_zero (h : a ≠ zero) : a.raw ≠ 0 := fun hzero => h (ext_raw hzero)

/-- The exact product does not fit, and an end of the range stands in. -/
def ProductSaturates (a b : Fixed) : Prop := ¬Fits (a.raw * b.raw / unit)

/-- The exact quotient does not fit, and an end of the range stands in. -/
def QuotientSaturates (a b : Fixed) : Prop := ¬Fits ((a.raw * unit).tdiv b.raw)

instance (a b : Fixed) : Decidable (ProductSaturates a b) := inferInstanceAs (Decidable (¬_))

instance (a b : Fixed) : Decidable (QuotientSaturates a b) := inferInstanceAs (Decidable (¬_))

theorem raw_mul (h : ¬ProductSaturates a b) : (a.mul b).raw = a.raw * b.raw / unit :=
  raw_saturate_eq_iff.2 (not_not.1 h)

theorem raw_quotient (h : ¬QuotientSaturates a b) :
    (a.quotient b).raw = (a.raw * unit).tdiv b.raw :=
  raw_saturate_eq_iff.2 (not_not.1 h)

/-! ## Order -/

theorem mul_monotone (hc : zero ≤ c) : Monotone fun a : Fixed => a.mul c := by
  intro a b h
  refine saturate_mono (ediv_unit_monotone ?_)
  exact mul_le_mul_of_nonneg_right (le_iff_raw.1 h) (le_iff_raw.1 hc)

theorem mul_antitone (hc : c ≤ zero) : Antitone fun a : Fixed => a.mul c := by
  intro a b h
  refine saturate_mono (ediv_unit_monotone ?_)
  exact mul_le_mul_of_nonpos_right (le_iff_raw.1 h) (le_iff_raw.1 hc)

theorem mul_unit_le_mul_unit (h : a ≤ b) : a.raw * unit ≤ b.raw * unit :=
  mul_le_mul_of_nonneg_right (le_iff_raw.1 h) (by decide)

theorem quotient_monotone (hc : zero < c) : Monotone fun a : Fixed => a.quotient c :=
  fun _ _ h => saturate_mono (tdiv_monotone (lt_iff_raw.1 hc) (mul_unit_le_mul_unit h))

theorem quotient_antitone (hc : c < zero) : Antitone fun a : Fixed => a.quotient c :=
  fun _ _ h => saturate_mono (tdiv_antitone (lt_iff_raw.1 hc) (mul_unit_le_mul_unit h))

/-- A part of a number is no farther from zero, and neither is what saturation makes of it. -/
theorem abs_raw_mul_le (a : Fixed) (hc : |c.raw| ≤ unit) : |(a.mul c).raw| ≤ |a.raw| := by
  have hsaturate := abs_raw_saturate_sub_le (a.raw * c.raw / unit) zero
  have hzero : zero.raw = 0 := rfl
  rw [hzero, sub_zero, sub_zero] at hsaturate
  exact hsaturate.trans (abs_mul_ediv_unit_le a.raw hc)

/-- **Products and quotients by a number keep the order, or reverse it if the number is negative**,
    saturated or not, and a factor of at most one never raises a magnitude. -/
theorem mul_div_monotone (c : Fixed) :
    (zero ≤ c → Monotone fun a : Fixed => a.mul c) ∧
      (c ≤ zero → Antitone fun a : Fixed => a.mul c) ∧
      (zero < c → (∀ a : Fixed, a.div c = .ok (a.quotient c)) ∧
        Monotone fun a : Fixed => a.quotient c) ∧
      (c < zero → (∀ a : Fixed, a.div c = .ok (a.quotient c)) ∧
        Antitone fun a : Fixed => a.quotient c) ∧
      (|c.raw| ≤ unit → ∀ a : Fixed, |(a.mul c).raw| ≤ |a.raw|) :=
  ⟨mul_monotone, mul_antitone, fun hc => ⟨fun a => div_eq_ok a hc.ne', quotient_monotone hc⟩,
    fun hc => ⟨fun a => div_eq_ok a hc.ne, quotient_antitone hc⟩, fun hc a => abs_raw_mul_le a hc⟩

/-- The least number by minus one: its product and quotient saturate and are still in order. -/
theorem mul_div_monotone_minus_one :
    let c : Fixed := saturate (-unit)
    c < zero ∧ least.mul c = greatest ∧ greatest.quotient c ≤ least.quotient c ∧
      |(least.mul c).raw| ≤ |least.raw| := by
  intro c
  obtain ⟨-, -, -, hquotient, hmul⟩ := mul_div_monotone c
  have hc : c < zero := lt_iff_raw.2 (by decide)
  exact ⟨hc, by decide, (hquotient hc).2 (le_iff_raw.2 (by decide)), hmul (by decide) least⟩

/-! ## One after the other -/

/-- What is multiplied back from a quotient lies between zero and the dividend, so it fits. -/
theorem not_productSaturates_quotient (hb : b ≠ zero) (h : ¬QuotientSaturates a b) :
    ¬ProductSaturates (a.quotient b) b := by
  rw [ProductSaturates, not_not, raw_quotient h]
  exact fits_of_mem (a := zero) (mul_tdiv_spec a.raw (raw_ne_zero hb)).1

theorem raw_quotient_mul (hb : b ≠ zero) (h : ¬QuotientSaturates a b) :
    ((a.quotient b).mul b).raw = (a.raw * unit).tdiv b.raw * b.raw / unit := by
  rw [raw_mul (not_productSaturates_quotient hb h), raw_quotient h]

theorem abs_raw_mul_quotient_sub_le (hb : unit ≤ |b.raw|) (h : ¬ProductSaturates a b) :
    |((a.mul b).quotient b).raw - a.raw| ≤ 1 := by
  have hsaturate := abs_raw_saturate_sub_le (((a.mul b).raw * unit).tdiv b.raw) a
  refine hsaturate.trans ?_
  rw [raw_mul h]
  exact tdiv_mul_spec a.raw hb

theorem wide_mul_raw (a b : Fixed) : FixedVec.Wide (a.raw * b.raw) := by
  obtain ⟨hlower, hupper⟩ := abs_le.1 (abs_mul_raw_le a b)
  constructor <;> linarith

theorem wide_mul_unit (a : Fixed) : FixedVec.Wide (a.raw * unit) := wide_mul_raw a one

/-- **A product and a quotient by the same number undo each other up to what is cut off.** Neither
    is at fault, and what they compute on the way fits in 128 bits. A quotient that is multiplied
    back does not saturate and comes out toward zero, by at most as many raw units as the divisor
    has whole ones; a product by one or more that is divided back is off by at most one. -/
theorem mul_div_undo (a b : Fixed) (hb : b ≠ zero) :
    FixedVec.Wide (a.raw * b.raw) ∧ FixedVec.Wide (a.raw * unit) ∧
      (∀ c : Fixed, c.div b = .ok (c.quotient b)) ∧
      (¬QuotientSaturates a b →
        ¬ProductSaturates (a.quotient b) b ∧
          ((a.quotient b).mul b).raw ∈ Set.uIcc 0 a.raw ∧
          |a.raw - ((a.quotient b).mul b).raw| ≤ ⌈(|b.raw| : ℚ) / unit⌉ ∧
          (|b.raw| ≤ unit → |a.raw - ((a.quotient b).mul b).raw| ≤ 1)) ∧
      (unit ≤ |b.raw| → ¬ProductSaturates a b →
        |((a.mul b).quotient b).raw - a.raw| ≤ 1) := by
  refine ⟨wide_mul_raw a b, wide_mul_unit a, fun c => div_eq_ok c hb, fun h => ?_,
    abs_raw_mul_quotient_sub_le⟩
  obtain ⟨hmem, herror⟩ := mul_tdiv_spec a.raw (raw_ne_zero hb)
  rw [raw_quotient_mul hb h]
  refine ⟨not_productSaturates_quotient hb h, hmem, herror, fun hle => herror.trans ?_⟩
  rw [Int.ceil_le, Int.cast_one, div_le_one (by norm_num [unit])]
  exact_mod_cast hle

/-- Minus seven units over three and back is nearer to zero, minus seven units by three and back is
    exact. -/
theorem mul_div_undo_negative :
    let a : Fixed := saturate (-7)
    let b : Fixed := ofInt 3
    b ≠ zero ∧ ¬QuotientSaturates a b ∧ ¬ProductSaturates a b ∧ unit ≤ |b.raw| ∧
      ((a.quotient b).mul b).raw = -6 ∧
      |a.raw - ((a.quotient b).mul b).raw| ≤ ⌈(|b.raw| : ℚ) / unit⌉ ∧
      |((a.mul b).quotient b).raw - a.raw| ≤ 1 := by
  intro a b
  have hb : b ≠ zero := by decide
  have hquotient : ¬QuotientSaturates a b := by decide
  have hproduct : ¬ProductSaturates a b := by decide
  have hone : unit ≤ |b.raw| := by decide
  obtain ⟨-, -, -, hback, hforth⟩ := mul_div_undo a b hb
  exact ⟨hb, hquotient, hproduct, hone, by decide, (hback hquotient).2.2.1, hforth hone hproduct⟩

end Fixed

end SignedDistance
