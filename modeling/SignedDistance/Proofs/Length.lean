import SignedDistance.Proofs.Dot
import SignedDistance.Proofs.Fixed.Range
import SignedDistance.Proofs.Number.Double

set_option autoImplicit false

/-! # Lengths and directions of positions

The length of a position is a square root in double precision. On the way from the exact sum of
squares to a whole number of units it is rounded three times: to a double, once more behind the
root, and to an integer. Up to lanes of `2 ^ 50` units the first two errors come to less than half a
unit, and so the length is off by less than one and is not less than any lane. Every lane over the
length is then in range. -/

namespace SignedDistance

open Float.Model (Format)

/-- A square root halves a relative error; it is enough here that it does not raise it. -/
theorem abs_sqrt_sub_sqrt_le {x y ε : ℝ} (hx : 0 ≤ x) (hε₀ : 0 ≤ ε) (hε₁ : ε ≤ 1)
    (h : |x - y| ≤ x * ε) : |√x - √y| ≤ √x * ε := by
  obtain ⟨hlower, hupper⟩ := abs_le.1 h
  have hsq : √x ^ 2 = x := Real.sq_sqrt hx
  have hroot := Real.sqrt_nonneg x
  have habove : √y ≤ √x * (1 + ε) := by
    refine Real.sqrt_le_iff.2 ⟨by positivity, ?_⟩
    rw [mul_pow, hsq]
    nlinarith [mul_nonneg hx hε₀, mul_nonneg (mul_nonneg hx hε₀) hε₀]
  have hbelow : √x * (1 - ε) ≤ √y := by
    refine Real.le_sqrt_of_sq_le ?_
    rw [mul_pow, hsq]
    nlinarith [mul_nonneg hx hε₀, mul_nonneg (mul_nonneg hx hε₀) (sub_nonneg.2 hε₁)]
  exact abs_le.2 ⟨by linarith, by linarith⟩

namespace FixedVec

variable {v : FixedVec}

/-! ## Roots in double precision -/

/-- The square root of an integer in double precision. -/
noncomputable def root (n : ℤ) : ℝ := nearest .binary64 √(nearest .binary64 n)

theorem root_nonneg (n : ℤ) : 0 ≤ root n := nearest_nonneg _ (Real.sqrt_nonneg _)

theorem sqrt_le_of_le {n : ℤ} (h : n ≤ 3 * 2 ^ 100) : √n ≤ 7 / 4 * 2 ^ 50 := by
  have hle : (n : ℝ) ≤ 3 * 2 ^ 100 := by exact_mod_cast h
  exact Real.sqrt_le_iff.2 ⟨by positivity, hle.trans (by norm_num)⟩

theorem abs_sqrt_sub_root_lt {n : ℤ} (hn : 0 ≤ n) (h : n ≤ 3 * 2 ^ 100) :
    |√n - root n| < 1 / 2 := by
  have hn₀ : (0 : ℝ) ≤ n := by exact_mod_cast hn
  have hcases : n = 0 ∨ (1 : ℝ) ≤ n := by
    rcases hn.eq_or_lt with hzero | hpos
    · exact .inl hzero.symm
    · exact .inr (by exact_mod_cast hpos)
  -- the error of the first rounding passes through the root, that of the second comes behind it
  rw [root]
  generalize hy : nearest .binary64 (n : ℝ) = y
  have hfirst : |√n - √y| ≤ √n * 2 ^ (-53 : ℤ) := by
    refine abs_sqrt_sub_sqrt_le hn₀ (by positivity) (by norm_num) ?_
    have herror := Double.abs_sub_nearest_le (x := n)
      (hcases.imp (fun h => by rw [h, Int.cast_zero]) fun h => h.trans (le_abs_self _))
    rwa [abs_of_nonneg hn₀, hy] at herror
  have hsecond : |√y - nearest .binary64 √y| ≤ √y * 2 ^ (-53 : ℤ) := by
    have herror := Double.abs_sub_nearest_le (x := √y) ?_
    · rwa [abs_of_nonneg (Real.sqrt_nonneg y)] at herror
    · refine hcases.imp (fun h => ?_) fun h => ?_
      · rw [← hy, h, Int.cast_zero, nearest_zero, Real.sqrt_zero]
      · have hmono := nearest_mono .binary64 h
        rw [nearest_eq_self Double.representable_one, hy] at hmono
        exact (Real.one_le_sqrt.2 hmono).trans (le_abs_self _)
  have hroot := sqrt_le_of_le h
  obtain ⟨hlower, hupper⟩ := abs_le.1 hfirst
  obtain ⟨hlower', hupper'⟩ := abs_le.1 hsecond
  -- either error comes to `7 / 32` and hardly more, and both of them to less than a half
  norm_num at hroot hlower hupper hlower' hupper'
  rw [abs_lt]
  constructor <;> linarith

/-- The root rounded to an integer. -/
noncomputable def wholeRoot (n : ℤ) : ℤ := round (root n)

theorem abs_sqrt_sub_wholeRoot_lt {n : ℤ} (hn : 0 ≤ n) (h : n ≤ 3 * 2 ^ 100) :
    |√n - wholeRoot n| < 1 := by
  have hroot := abs_sqrt_sub_root_lt hn h
  have hround := abs_sub_round (root n)
  calc |√n - wholeRoot n| ≤ |√n - root n| + |root n - wholeRoot n| := abs_sub_le _ _ _
    _ < 1 := by rw [wholeRoot]; linarith

/-- It is off by less than one. -/
theorem wholeRoot_spec {n : ℤ} (hn : 0 < n) (h : n ≤ 3 * 2 ^ 100) :
    0 < wholeRoot n ∧ (wholeRoot n - 1) ^ 2 < n ∧ n < (wholeRoot n + 1) ^ 2 := by
  obtain ⟨hlower, hupper⟩ := abs_lt.1 (abs_sqrt_sub_wholeRoot_lt hn.le h)
  have hsqrt : (1 : ℝ) ≤ √n := Real.one_le_sqrt.2 (by exact_mod_cast hn)
  have hpos : 0 < wholeRoot n := by
    have hroot := (abs_lt.1 (abs_sqrt_sub_root_lt hn.le h)).2
    rw [wholeRoot, round_eq, Int.floor_pos]
    linarith
  have hone : (1 : ℝ) ≤ wholeRoot n := by exact_mod_cast hpos
  refine ⟨hpos, ?_, ?_⟩
  · have hlt : (wholeRoot n - 1 : ℝ) < √n := by linarith
    exact_mod_cast (Real.lt_sqrt (by linarith)).1 hlt
  · have hlt : √n < (wholeRoot n + 1 : ℝ) := by linarith
    exact_mod_cast (Real.sqrt_lt' (by linarith)).1 hlt

/-! ## Lengths -/

/-- The bound under which a sum of squares fits and its root is told to one unit. -/
structure Near (v : FixedVec) : Prop where
  x : |v.x.raw| ≤ 2 ^ 50
  y : |v.y.raw| ≤ 2 ^ 50
  z : |v.z.raw| ≤ 2 ^ 50

/-- The units of a length. -/
noncomputable def units (v : FixedVec) : ℤ := round (root (v.exactDot v))

theorem Near.exactDot_le (h : v.Near) : v.exactDot v ≤ 3 * 2 ^ 100 := by
  have hsquare {n : ℤ} (hn : |n| ≤ 2 ^ 50) : n * n ≤ 2 ^ 100 := by
    rw [← abs_mul_abs_self]
    exact (mul_le_mul hn hn (abs_nonneg n) (by norm_num)).trans_eq (by norm_num)
  have hx := hsquare h.x
  have hy := hsquare h.y
  have hz := hsquare h.z
  rw [exactDot]
  omega

theorem Near.not_overflows (h : v.Near) : ¬v.DotOverflows v := by
  have hle := h.exactDot_le
  rw [dotOverflows_self_iff]
  omega

theorem Near.abs_sqrt_sub_root_lt (h : v.Near) :
    |√(v.exactDot v) - root (v.exactDot v)| < 1 / 2 :=
  FixedVec.abs_sqrt_sub_root_lt (exactDot_self_nonneg v) h.exactDot_le

theorem Near.abs_sqrt_sub_units_lt (h : v.Near) : |√(v.exactDot v) - v.units| < 1 :=
  abs_sqrt_sub_wholeRoot_lt (exactDot_self_nonneg v) h.exactDot_le

/-- A whole number up to the root is not rounded away: the length is not less than any lane. -/
theorem Near.abs_le_units (h : v.Near) {n : ℤ} (hn : n * n ≤ v.exactDot v) : |n| ≤ v.units := by
  have hroot := abs_lt.1 h.abs_sqrt_sub_root_lt
  have hsqrt : |(n : ℝ)| ≤ √(v.exactDot v) := Real.abs_le_sqrt (by rw [sq]; exact_mod_cast hn)
  rw [units, round_eq, Int.le_floor, Int.cast_abs]
  linarith

theorem Near.abs_lanes_le (h : v.Near) :
    |v.x.raw| ≤ v.units ∧ |v.y.raw| ≤ v.units ∧ |v.z.raw| ≤ v.units := by
  have hx := mul_self_nonneg v.x.raw
  have hy := mul_self_nonneg v.y.raw
  have hz := mul_self_nonneg v.z.raw
  refine ⟨h.abs_le_units ?_, h.abs_le_units ?_, h.abs_le_units ?_⟩ <;> rw [exactDot] <;> omega

theorem eq_zero_iff : v = zero ↔ v.x.raw = 0 ∧ v.y.raw = 0 ∧ v.z.raw = 0 := by
  constructor
  · rintro rfl
    exact ⟨rfl, rfl, rfl⟩
  · rintro ⟨hx, hy, hz⟩
    exact ext_raw hx hy hz

theorem Near.units_eq_zero_iff (h : v.Near) : v.units = 0 ↔ v = zero := by
  constructor
  · intro hzero
    obtain ⟨hx, hy, hz⟩ := h.abs_lanes_le
    rw [hzero] at hx hy hz
    exact eq_zero_iff.2 ⟨abs_nonpos_iff.1 hx, abs_nonpos_iff.1 hy, abs_nonpos_iff.1 hz⟩
  · rintro rfl
    have hroot := h.abs_sqrt_sub_root_lt
    have hzero : (zero : FixedVec).exactDot zero = 0 := rfl
    rw [hzero, Int.cast_zero, Real.sqrt_zero, zero_sub, abs_neg] at hroot
    rw [units, hzero, round_eq_zero_iff]
    exact ⟨by linarith [(abs_lt.1 hroot).1], (abs_lt.1 hroot).2⟩

/-- A length is off by less than one unit. -/
theorem Near.units_spec (h : v.Near) (hv : v ≠ zero) :
    0 < v.units ∧ (v.units - 1) ^ 2 < v.exactDot v ∧ v.exactDot v < (v.units + 1) ^ 2 := by
  refine wholeRoot_spec ((exactDot_self_nonneg v).lt_of_ne' fun hzero => hv ?_) h.exactDot_le
  rw [← h.units_eq_zero_iff, units, hzero]
  simp [root, nearest_zero]

theorem Near.units_le (h : v.Near) : v.units ≤ 2 ^ 51 := by
  have hlt := (abs_lt.1 h.abs_sqrt_sub_units_lt).1
  have hroot := sqrt_le_of_le h.exactDot_le
  have hle : (v.units : ℝ) ≤ 2 ^ 51 := by linarith
  exact_mod_cast hle

/-- The length is the square root in double precision, rounded to a whole number of units. -/
theorem Near.exists_length (h : v.Near) : ∃ l : Fixed, v.length = .ok l ∧ l.raw = v.units := by
  have hwide : |v.exactDot v| ≤ 2 ^ 128 := by
    rw [abs_of_nonneg (exactDot_self_nonneg v)]
    exact h.exactDot_le.trans (by norm_num)
  have hnonneg : (0 : ℝ) ≤ v.exactDot v := by exact_mod_cast exactDot_self_nonneg v
  have hsqrt := (Double.denotes_ofInt hwide).sqrt (nearest_nonneg _ hnonneg)
  have hunits := hsqrt.nearestInt_eq (root_nonneg _)
  refine ⟨.saturate v.units, ?_, ?_⟩
  · rw [length, rawDot_of_not_overflows h.not_overflows]
    change Except.ok (Fixed.ofExtended (Double.nearestInt _)) = _
    rw [hunits]
    rfl
  · have hle := h.units_le
    have hunits_nonneg := (abs_nonneg _).trans h.abs_lanes_le.1
    rw [Fixed.raw_saturate]
    omega

/-! ## Directions -/

/-- A lane `d` of a direction, for a lane `a` of the vector and the length `l`: their quotient
    without its fraction, at most one, and of the same sign as `a`. -/
structure Directs (a l d : Fixed) : Prop where
  raw_eq : d.raw = (a.raw * Fixed.unit).tdiv l.raw
  abs_le : |d.raw| ≤ Fixed.unit
  sign : d.raw = 0 ∨ d.raw.sign = a.raw.sign

theorem directs_zero : Directs .zero .zero .zero := ⟨rfl, by decide, .inl rfl⟩

/-- A number over one that is no nearer to zero comes to no more than one. -/
theorem abs_tdiv_le {a l : ℤ} (ha : |a| ≤ l) : |(a * Fixed.unit).tdiv l| ≤ Fixed.unit := by
  rw [Int.abs_eq_natAbs] at ha ⊢
  rw [Int.natAbs_tdiv, Int.natAbs_mul]
  have hle : a.natAbs * Fixed.unit.natAbs / l.natAbs ≤ Fixed.unit.natAbs := by
    refine Nat.div_le_of_le_mul (Nat.mul_le_mul_right _ ?_)
    omega
  exact Int.ofNat_le.2 hle

/-- So it is in range, and the quotient of the two tells it. -/
theorem exists_div {a l : Fixed} (hl : 0 < l.raw) (ha : |a.raw| ≤ l.raw) :
    ∃ d, a.div l = .ok d ∧ Directs a l d := by
  have hquotient := abs_tdiv_le ha
  have hraw : (Fixed.saturate ((a.raw * Fixed.unit).tdiv l.raw)).raw =
      (a.raw * Fixed.unit).tdiv l.raw := by
    have hbounds := abs_le.1 hquotient
    rw [Fixed.raw_saturate]
    simp only [Fixed.unit] at hbounds ⊢
    omega
  refine ⟨_, if_neg hl.ne', hraw, by rwa [hraw], ?_⟩
  rw [hraw]
  have hsign := Int.sign_tdiv (a.raw * Fixed.unit) l.raw
  split at hsign
  · exact .inl (Int.sign_eq_zero_iff_zero.1 hsign)
  · rw [Int.sign_mul, Int.sign_eq_one_of_pos hl, mul_one] at hsign
    exact .inr (hsign.trans (mul_one _))

/-- **Up to lanes of `2 ^ 50` units a vector is brought to unit length**: its length is told to one
    unit, and zero for no other vector than zero; the lanes of its direction are those of the vector
    over the length, at most one, and point the same way. -/
theorem normalize_accurate (v : FixedVec) (hx : |v.x.raw| ≤ 2 ^ 50) (hy : |v.y.raw| ≤ 2 ^ 50)
    (hz : |v.z.raw| ≤ 2 ^ 50) :
    ∃ direction length, v.normalize = .ok (direction, length) ∧
      (length.raw = 0 ↔ v = zero) ∧
      (v ≠ zero → 0 < length.raw ∧ (length.raw - 1) ^ 2 < v.exactDot v ∧
        v.exactDot v < (length.raw + 1) ^ 2) ∧
      Directs v.x length direction.x ∧ Directs v.y length direction.y ∧
      Directs v.z length direction.z := by
  have h : v.Near := ⟨hx, hy, hz⟩
  obtain ⟨l, hlength, hl⟩ := h.exists_length
  rw [normalize, hlength]
  by_cases hv : v = zero
  · have hzero : l = .zero := Fixed.ext_raw (hl.trans (h.units_eq_zero_iff.2 hv))
    subst hv
    exact ⟨zero, .zero, if_pos hzero, iff_of_true rfl rfl, absurd rfl,
      directs_zero, directs_zero, directs_zero⟩
  · obtain ⟨hpos, hlower, hupper⟩ := h.units_spec hv
    obtain ⟨hlex, hley, hlez⟩ := h.abs_lanes_le
    rw [← hl] at hpos hlower hupper hlex hley hlez
    obtain ⟨dx, hdx, hx⟩ := exists_div hpos hlex
    obtain ⟨dy, hdy, hy⟩ := exists_div hpos hley
    obtain ⟨dz, hdz, hz⟩ := exists_div hpos hlez
    have hne : l ≠ .zero := by
      rintro rfl
      exact lt_irrefl _ hpos
    have hdiv : v.div (splat l) = .ok ⟨dx, dy, dz⟩ := by
      rw [div, zipLanes]
      simp only [splat, hdx, hdy, hdz]
      rfl
    refine ⟨⟨dx, dy, dz⟩, l, ?_, iff_of_false hpos.ne' hv, fun _ => ⟨hpos, hlower, hupper⟩,
      hx, hy, hz⟩
    change (if l = .zero then _ else _) = _
    rw [if_neg hne, hdiv]
    rfl

/-- Lanes of both signs, the first as large as may be. -/
theorem normalize_accurate_far :
    let v : FixedVec := ⟨.saturate (2 ^ 50), .saturate (-3), .zero⟩
    |v.x.raw| ≤ 2 ^ 50 ∧ |v.y.raw| ≤ 2 ^ 50 ∧ |v.z.raw| ≤ 2 ^ 50 ∧
      ∃ direction length, v.normalize = .ok (direction, length) ∧ length.raw ≠ 0 := by
  have hx : |(Fixed.saturate (2 ^ 50)).raw| ≤ 2 ^ 50 := by decide
  have hy : |(Fixed.saturate (-3)).raw| ≤ 2 ^ 50 := by decide
  have hz : |Fixed.zero.raw| ≤ 2 ^ 50 := by decide
  obtain ⟨direction, length, hnormalize, hzero, -⟩ :=
    normalize_accurate ⟨.saturate (2 ^ 50), .saturate (-3), .zero⟩ hx hy hz
  exact ⟨hx, hy, hz, direction, length, hnormalize, mt hzero.1 (by decide)⟩

end FixedVec

end SignedDistance
