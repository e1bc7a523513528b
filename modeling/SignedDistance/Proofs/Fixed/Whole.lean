import SignedDistance.Proofs.Fixed.Range

set_option autoImplicit false

/-! # Rounding to whole numbers

Whole numbers are the multiples of one. `floor` is the greatest of them that is not above a number
and `ceil` the least that is not below; above the last of them there is none, and the greatest
number stands in. `toInt` is the nearest integer, a half going to the even neighbour, and `round`
the number of that integer.

The fraction of a number is counted from below, also under zero, so the computation leans downward.
Nothing of this is left in the results: `floor`, `ceil` and `round` are the numbers of three
integers, and the third of them is told by its distance alone, which does not see the sign. -/

namespace SignedDistance

namespace Fixed

variable {a b : Fixed} {m n : ℤ}

/-! ## Whole numbers -/

/-- The number has no fraction. -/
def IsWhole (a : Fixed) : Prop := unit ∣ a.raw

theorem ofInt_monotone : Monotone ofInt := by
  intro m n h
  refine saturate_mono ?_
  exact mul_le_mul_of_nonneg_right h (by decide)

/-- The least number is whole; the greatest one is not. -/
theorem ofInt_isWhole (n : ℤ) : (ofInt n).IsWhole ∨ ofInt n = greatest := by
  rcases lt_or_ge n (2 ^ 47) with hlt | hge
  · left
    change unit ∣ (saturate (n * unit)).raw
    rw [raw_saturate]
    simp only [unit]
    omega
  · right
    refine ext_raw ?_
    change (saturate (n * unit)).raw = 2 ^ 63 - 1
    rw [raw_saturate]
    simp only [unit]
    omega

/-! ## Down and up -/

theorem floor_eq_ofInt (a : Fixed) : a.floor = ofInt (a.raw / unit) := by
  obtain ⟨hlower, hupper⟩ := a.fits_raw
  refine ext_raw ?_
  change a.raw - a.raw % unit = (saturate (a.raw / unit * unit)).raw
  rw [raw_saturate]
  simp only [unit]
  omega

theorem ceil_eq_ofInt (a : Fixed) : a.ceil = ofInt ((a.raw + (unit - 1)) / unit) := by
  obtain ⟨hlower, hupper⟩ := a.fits_raw
  refine ext_raw ?_
  change _ = (saturate ((a.raw + (unit - 1)) / unit * unit)).raw
  unfold ceil
  split
  · rw [raw_saturate]
    simp only [unit] at *
    omega
  · change (saturate (a.raw - a.raw % unit + unit)).raw = _
    rw [raw_saturate, raw_saturate]
    simp only [unit] at *
    omega

theorem floor_isWhole (a : Fixed) : a.floor.IsWhole := by
  change unit ∣ a.raw - a.raw % unit
  exact Int.dvd_self_sub_emod

theorem ceil_isWhole (a : Fixed) : a.ceil.IsWhole ∨ a.ceil = greatest := by
  rw [ceil_eq_ofInt]
  exact ofInt_isWhole _

theorem floor_le (a : Fixed) : a.floor ≤ a := by
  rw [le_iff_raw]
  change a.raw - a.raw % 65536 ≤ a.raw
  omega

/-- No whole number that is not above is greater. -/
theorem le_floor (hb : b.IsWhole) (h : b ≤ a) : b ≤ a.floor := by
  obtain ⟨k, hk⟩ := hb
  rw [le_iff_raw] at h ⊢
  change b.raw ≤ a.raw - a.raw % unit
  simp only [unit] at *
  omega

theorem le_ceil (a : Fixed) : a ≤ a.ceil := by
  obtain ⟨hlower, hupper⟩ := a.fits_raw
  rw [ceil_eq_ofInt, le_iff_raw]
  change a.raw ≤ (saturate ((a.raw + (unit - 1)) / unit * unit)).raw
  rw [raw_saturate]
  simp only [unit]
  omega

/-- No whole number that is not below is less. -/
theorem ceil_le (hb : b.IsWhole) (h : a ≤ b) : a.ceil ≤ b := by
  obtain ⟨k, hk⟩ := hb
  have hself : b = saturate (k * unit) := by rw [mul_comm, ← hk, saturate_raw]
  rw [le_iff_raw] at h
  rw [ceil_eq_ofInt, hself]
  refine ofInt_monotone ?_
  simp only [unit] at *
  omega

theorem floor_add_fract (a : Fixed) : a.floor.add a.fract = .ok a := by
  rw [add_eq_ok_iff]
  exact (sub_add_cancel a.raw _).symm

theorem fract_mem (a : Fixed) : zero ≤ a.fract ∧ a.fract < one := by
  rw [le_iff_raw, lt_iff_raw]
  exact ⟨Int.emod_nonneg a.raw (by decide), Int.emod_lt_of_pos a.raw (by decide)⟩

theorem floor_monotone : Monotone floor := fun a _ h =>
  le_floor a.floor_isWhole (a.floor_le.trans h)

theorem ceil_monotone : Monotone ceil := by
  intro a b h
  rcases b.ceil_isWhole with hwhole | hgreatest
  · exact ceil_le hwhole (h.trans b.le_ceil)
  · rw [hgreatest]
    exact le_iff_raw.2 a.ceil.upper

theorem floor_eq_self (h : a.IsWhole) : a.floor = a := le_antisymm a.floor_le (le_floor h le_rfl)

theorem ceil_eq_self (h : a.IsWhole) : a.ceil = a := le_antisymm (ceil_le h le_rfl) a.le_ceil

/-! ## To the nearest integer -/

theorem raw_half : half.raw = 32768 := rfl

/-- Every other integer is farther from the number, or as far and the given one is even. -/
def NearestEven (a : Fixed) (n : ℤ) : Prop :=
  ∀ m ≠ n, |a.raw - n * unit| < |a.raw - m * unit| ∨
    |a.raw - n * unit| = |a.raw - m * unit| ∧ Even n

/-- That is, it is nearer than one half, or one half away and even. -/
theorem nearestEven_iff : a.NearestEven n ↔
    |a.raw - n * unit| < half.raw ∨ |a.raw - n * unit| = half.raw ∧ Even n := by
  simp only [NearestEven, Int.abs_eq_natAbs, Int.even_iff, unit, raw_half]
  constructor
  · intro h
    -- the two neighbours are the only ones that can be as near
    have hbelow := h (n - 1) (by omega)
    have habove := h (n + 1) (by omega)
    omega
  · intro h m hm
    omega

theorem NearestEven.abs_sub_le (h : a.NearestEven n) : |a.raw - n * unit| ≤ half.raw := by
  rcases nearestEven_iff.1 h with hlt | ⟨heq, -⟩
  · exact hlt.le
  · exact heq.le

theorem NearestEven.unique (hm : a.NearestEven m) (hn : a.NearestEven n) : m = n := by
  by_contra hne
  -- two that are as near as each other would both be even, and so not be neighbours
  have hm' := hm n (Ne.symm hne)
  have hn' := hn m hne
  have hmle := hm.abs_sub_le
  have hnle := hn.abs_sub_le
  simp only [Int.abs_eq_natAbs, Int.even_iff, unit, raw_half] at *
  omega

/-- Distances do not see the sign. -/
theorem NearestEven.neg (h : a.NearestEven n) (hb : b.raw = -a.raw) : b.NearestEven (-n) := by
  have hdist : |b.raw - -n * unit| = |a.raw - n * unit| := by
    rw [hb, ← abs_neg]
    ring_nf
  rw [nearestEven_iff] at h ⊢
  rwa [hdist, even_neg]

/-- If the nearest integers were the wrong way round, both would be as near to the one number as to
    the other, and the numbers the same. -/
theorem NearestEven.le (hm : a.NearestEven m) (hn : b.NearestEven n) (h : a ≤ b) : m ≤ n := by
  rw [le_iff_raw] at h
  rcases h.eq_or_lt with heq | hlt
  · exact (hm.unique (ext_raw heq ▸ hn)).le
  · have hmle := hm.abs_sub_le
    have hnle := hn.abs_sub_le
    simp only [Int.abs_eq_natAbs, unit, raw_half] at *
    omega

theorem nearestEven_toInt (a : Fixed) : a.NearestEven a.toInt := by
  rw [nearestEven_iff]
  unfold toInt
  dsimp only
  split <;> simp only [Int.abs_eq_natAbs, Int.even_iff, unit, raw_half] at * <;> omega

theorem toInt_eq_iff : a.toInt = n ↔ a.NearestEven n :=
  ⟨fun h => h ▸ a.nearestEven_toInt, a.nearestEven_toInt.unique⟩

example : (saturate 32768).toInt = 0 ∧ (saturate 98304).toInt = 2 ∧
    (saturate (-32768)).toInt = 0 ∧ (saturate (-98304)).toInt = -2 := by decide

theorem toInt_neg (h : a ≠ least) : ∃ b, a.neg = .ok b ∧ b.toInt = -a.toInt := by
  have hfits : Fits (-a.raw) := by
    obtain ⟨hlower, hupper⟩ := a.fits_raw
    have hne : a.raw ≠ -2 ^ 63 := fun hraw => h (ext_raw hraw)
    constructor <;> omega
  obtain ⟨b, hb⟩ := exists_raw_eq hfits
  exact ⟨b, neg_eq_ok_iff.2 hb, toInt_eq_iff.2 (a.nearestEven_toInt.neg hb)⟩

theorem toInt_monotone : Monotone toInt := fun a b h =>
  a.nearestEven_toInt.le b.nearestEven_toInt h

/-- The integer fits, with the one that rounding up adds. -/
theorem abs_toInt_le (a : Fixed) : |a.toInt| ≤ 2 ^ 47 := by
  obtain ⟨hlower, hupper⟩ := a.fits_raw
  have hle := a.nearestEven_toInt.abs_sub_le
  simp only [Int.abs_eq_natAbs, unit, raw_half] at *
  omega

/-! ## To the nearest whole number -/

/-- The nearest integer is one of the two that the number lies between. -/
theorem toInt_eq (a : Fixed) : a.toInt = a.raw / unit ∨ a.toInt = (a.raw + (unit - 1)) / unit := by
  have hle := a.nearestEven_toInt.abs_sub_le
  simp only [Int.abs_eq_natAbs, unit, raw_half] at *
  omega

theorem round_eq (a : Fixed) : a.round = a.floor ∨ a.round = a.ceil := by
  rw [floor_eq_ofInt, ceil_eq_ofInt]
  exact a.toInt_eq.imp (congrArg ofInt) (congrArg ofInt)

/-- Saturation does not carry the nearest whole number away. -/
theorem abs_sub_round_le (a : Fixed) : |a.raw - a.round.raw| ≤ half.raw := by
  rw [abs_sub_comm]
  refine (abs_raw_saturate_sub_le (a.toInt * unit) a).trans ?_
  rw [abs_sub_comm]
  exact a.nearestEven_toInt.abs_sub_le

theorem round_monotone : Monotone round := ofInt_monotone.comp toInt_monotone

theorem round_eq_self (h : a.IsWhole) : a.round = a := by
  rcases a.round_eq with hround | hround
  · rw [hround, floor_eq_self h]
  · rw [hround, ceil_eq_self h]

/-- Once more changes nothing, also at the end of the range. -/
theorem ceil_ceil (a : Fixed) : a.ceil.ceil = a.ceil := by
  rcases a.ceil_isWhole with hwhole | hgreatest
  · exact ceil_eq_self hwhole
  · rw [hgreatest]
    decide

theorem round_round (a : Fixed) : a.round.round = a.round := by
  rcases ofInt_isWhole a.toInt with hwhole | hgreatest
  · exact round_eq_self hwhole
  · change (ofInt a.toInt).round = ofInt a.toInt
    rw [hgreatest]
    decide

/-- What the roundings of a number have to do with it and with each other. -/
structure Coherent (a : Fixed) : Prop where
  floor_isWhole : a.floor.IsWhole
  floor_le : a.floor ≤ a
  le_floor : ∀ b : Fixed, b.IsWhole → b ≤ a → b ≤ a.floor
  ceil_isWhole : a.ceil.IsWhole ∨ a.ceil = greatest
  le_ceil : a ≤ a.ceil
  ceil_le : ∀ b : Fixed, b.IsWhole → a ≤ b → a.ceil ≤ b
  floor_add_fract : a.floor.add a.fract = .ok a
  fract_mem : zero ≤ a.fract ∧ a.fract < one
  round_eq : a.round = a.floor ∨ a.round = a.ceil
  abs_sub_round_le : |a.raw - a.round.raw| ≤ half.raw
  toInt_eq_iff : ∀ n : ℤ, a.toInt = n ↔ a.NearestEven n
  abs_toInt_le : |a.toInt| ≤ 2 ^ 47
  toInt_neg : a ≠ least → ∃ b, a.neg = .ok b ∧ b.toInt = -a.toInt
  floor_floor : a.floor.floor = a.floor
  ceil_ceil : a.ceil.ceil = a.ceil
  round_round : a.round.round = a.round

theorem coherent (a : Fixed) : a.Coherent where
  floor_isWhole := a.floor_isWhole
  floor_le := a.floor_le
  le_floor := fun _ => le_floor
  ceil_isWhole := a.ceil_isWhole
  le_ceil := a.le_ceil
  ceil_le := fun _ => ceil_le
  floor_add_fract := a.floor_add_fract
  fract_mem := a.fract_mem
  round_eq := a.round_eq
  abs_sub_round_le := a.abs_sub_round_le
  toInt_eq_iff := fun _ => toInt_eq_iff
  abs_toInt_le := a.abs_toInt_le
  toInt_neg := toInt_neg
  floor_floor := floor_eq_self a.floor_isWhole
  ceil_ceil := a.ceil_ceil
  round_round := a.round_round

/-- **The roundings of every number agree with each other and keep the order**, up to both ends of
    the range. -/
theorem rounding_coherent : (∀ a : Fixed, a.Coherent) ∧
    Monotone floor ∧ Monotone ceil ∧ Monotone round ∧ Monotone toInt :=
  ⟨coherent, floor_monotone, ceil_monotone, round_monotone, toInt_monotone⟩

/-- Near the end of the range no whole number is above: the greatest number stands in, and the
    nearest integer is one for which there is no number. -/
theorem rounding_coherent_near_greatest :
    let a : Fixed := saturate (2 ^ 63 - 2)
    a ≠ least ∧ a.ceil = greatest ∧ a.round = greatest ∧ a.toInt = 2 ^ 47 ∧
      |a.raw - a.round.raw| ≤ half.raw ∧ ∃ b, a.neg = .ok b ∧ b.toInt = -2 ^ 47 := by
  intro a
  have h := rounding_coherent.1 a
  have hne : a ≠ least := by decide
  exact ⟨hne, by decide, by decide, by decide, h.abs_sub_round_le, h.toInt_neg hne⟩

end Fixed

end SignedDistance
