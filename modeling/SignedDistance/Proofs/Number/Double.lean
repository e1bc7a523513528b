import SignedDistance.Number.Precision
import SignedDistance.Proofs.Number.Division
import SignedDistance.Proofs.Number.Packing

set_option autoImplicit false

/-! # Doubles as numbers

Doubles are met on the way between integers and numbers in units: an integer is taken to double
precision, multiplied or divided by the unit or its root is drawn, and the result is rounded to an
integer again. Each of the first steps gives the double that is nearest to the exact result, or an
infinity if a product leaves the range, and the last one rounds to the nearest integer, a half going
away from zero. -/

namespace SignedDistance

open Float.Model (Format UnpackedFloat)
open Float.Model.UnpackedFloat (Sign)

/-! ## Halves away from zero -/

/-- The integer nearest to a real number, a half going away from zero. -/
noncomputable def roundAway (x : ℝ) : ℤ := if 0 ≤ x then round x else -round (-x)

theorem roundAway_of_nonneg {x : ℝ} (h : 0 ≤ x) : roundAway x = round x := if_pos h

theorem roundAway_neg (x : ℝ) : roundAway (-x) = -roundAway x := by
  rcases lt_trichotomy x 0 with hx | rfl | hx
  · simp [roundAway, hx.le, hx.not_ge]
  · simp [roundAway]
  · simp [roundAway, hx.le, hx.not_ge]

@[simp] theorem roundAway_intCast (n : ℤ) : roundAway n = n := by
  rw [roundAway]
  split
  · exact round_intCast n
  · rw [← Int.cast_neg, round_intCast, neg_neg]

theorem roundAway_signed {x : ℝ} (h : 0 ≤ x) (s : Sign) :
    roundAway (Unpacked.signed s x) = s.apply (round x) := by
  cases s with
  | negative => exact (roundAway_neg x).trans (congrArg Neg.neg (roundAway_of_nonneg h))
  | positive => exact roundAway_of_nonneg h

theorem monotone_round : Monotone (round : ℝ → ℤ) := by
  intro x y h
  rw [round_eq, round_eq]
  exact Int.floor_mono (add_le_add_left h _)

theorem roundAway_mono : Monotone roundAway := by
  intro x y h
  rcases le_or_gt 0 x with hx | hx
  · rw [roundAway_of_nonneg hx, roundAway_of_nonneg (hx.trans h)]
    exact monotone_round h
  rcases le_or_gt 0 y with hy | hy
  · -- zero is in between
    have hxz := monotone_round (neg_nonneg.2 hx.le)
    have hzy := monotone_round hy
    rw [round_zero] at hxz hzy
    rw [roundAway, if_neg hx.not_ge, roundAway_of_nonneg hy]
    omega
  · rw [roundAway, roundAway, if_neg hx.not_ge, if_neg hy.not_ge]
    exact neg_le_neg (monotone_round (neg_le_neg h))

namespace Double

/-- The double is a number, and `y` is that number. -/
def Denotes (a : Float) (y : EReal) : Prop := Unpacked.Holds .binary64 (parts a) y

variable {a b : Float} {x x' : ℝ} {y z : EReal} {u : UnpackedFloat} {n : ℤ}

theorem isFinite_iff : a.isFinite = true ↔ ∃ x : ℝ, Denotes a x :=
  ⟨Unpacked.exists_holds_of_isFinite (Unpacked.canonical_unpack _ _), fun ⟨_, h⟩ => h.isFinite⟩

theorem Denotes.nearest_eq (h : Denotes a x) : nearest .binary64 x = x :=
  Unpacked.Holds.nearest_eq h

theorem Denotes.representable (h : Denotes a x) : Representable .binary64 x :=
  h.nearest_eq ▸ representable_nearest .binary64 x

/-- Only numbers compare, and they do so as the numbers they stand for. -/
theorem exists_denotes_of_le (h : a ≤ b) : ∃ y z, Denotes a y ∧ Denotes b z ∧ y ≤ z := by
  change decide ((parts a).le (parts b) = true) = true at h
  rw [decide_eq_true_iff, UnpackedFloat.le, Option.any_eq_true] at h
  obtain ⟨o, ho, hle⟩ := h
  have hnumber : (parts a).compare (parts b) ≠ none := by simp [ho]
  have ha : (parts a).isNaN = false :=
    Bool.eq_false_iff.2 fun hnan => hnumber (Unpacked.compare_of_isNaN (.inl hnan))
  have hb : (parts b).isNaN = false :=
    Bool.eq_false_iff.2 fun hnan => hnumber (Unpacked.compare_of_isNaN (.inr hnan))
  obtain ⟨o', ho', hcompares⟩ := Unpacked.exists_compare (Unpacked.canonical_unpack _ _)
    (Unpacked.canonical_unpack _ _) ha hb
  obtain rfl : o' = o := Option.some.inj (ho'.symm.trans ho)
  refine ⟨_, _, Unpacked.holds_unpack ha, Unpacked.holds_unpack hb, ?_⟩
  rw [← not_lt, ← hcompares.eq_gt, ← Ordering.isLE_iff_ne_gt]
  exact hle

/-! ## The range of doubles -/

theorem binary64_bias_pos : 0 < Format.binary64.exponentBias := by decide

theorem representable_one : Representable .binary64 1 := ⟨1, 0, by decide, by decide, by norm_num⟩

theorem two_pow_lt_limit {k : ℕ} (hk : k < 1024) : (2 : ℝ) ^ k < limit .binary64 := by
  have hlimit : limit .binary64 = 2 ^ 1024 := by
    rw [limit, Nat.cast_pow]
    rfl
  rw [hlimit]
  exact pow_lt_pow_right₀ one_lt_two hk

theorem Denotes.lt_limit (ha : Denotes a x) : x < limit .binary64 := by
  have hfit := Unpacked.fit_value_unpack binary64_bias_pos a.toModel.valid
  have hvalue : Unpacked.value (.unpack .binary64 a.toModel.toBits.toBitVec) = x := ha.value
  rw [hvalue] at hfit
  by_contra hle
  rw [fit, if_pos (EReal.coe_le_coe_iff.2 (not_lt.1 hle))] at hfit
  exact EReal.top_ne_coe x hfit

/-- Packing loses nothing of a number in range. -/
theorem unpack_pack (hu : Unpacked.Holds .binary64 u x) (hx : |x| < limit .binary64) :
    UnpackedFloat.unpack .binary64 (UnpackedFloat.pack .binary64 u) = u :=
  Unpacked.unpack_pack binary64_bias_pos hu.canonical (by rw [hu.value, fit_coe hx])

theorem denotes_ofParts (hu : Unpacked.Holds .binary64 u x) (hx : |x| < limit .binary64) :
    Denotes (ofParts u) x := by
  have hparts : parts (ofParts u) = u := by
    change UnpackedFloat.unpack .binary64
      (UnpackedFloat.pack .binary64 (.unpack .binary64 (UnpackedFloat.pack .binary64 u))) = u
    rw [unpack_pack hu hx, unpack_pack hu hx]
  rw [Denotes, hparts]
  exact hu

/-- From one on no digits are missing. -/
theorem abs_sub_nearest_le (h : x = 0 ∨ 1 ≤ |x|) :
    |x - nearest .binary64 x| ≤ |x| * 2 ^ (-53 : ℤ) := by
  rcases h with rfl | hone
  · rw [nearest_zero, sub_zero, abs_zero, zero_mul]
  · refine abs_sub_nearest_le_mul (S := .binary64) (le_trans ?_ hone)
    exact zpow_le_one_of_nonpos₀ one_le_two (by decide)

/-! ## Integers and roots -/

/-- **The double of an integer is the nearest one.** -/
theorem denotes_ofInt (hn : |n| ≤ 2 ^ 128) : Denotes (ofInt n) (nearest .binary64 n : ℝ) := by
  have hholds := Unpacked.holds_normalize (S := .binary64) n 0 .positive
  rw [zpow_zero, mul_one] at hholds
  have hroom : Representable .binary64 (2 ^ 128) := ⟨1, 128, by decide, by decide, by norm_num⟩
  have hle : |nearest .binary64 (n : ℝ)| ≤ 2 ^ 128 := abs_nearest_le hroom (by exact_mod_cast hn)
  exact denotes_ofParts hholds (hle.trans_lt (two_pow_lt_limit (by decide)))

/-- **A square root is the double nearest to the exact one**, for which there is always room. -/
theorem Denotes.sqrt (ha : Denotes a x) (hx : 0 ≤ x) :
    Denotes a.sqrt (nearest .binary64 √x : ℝ) := by
  have hroot := Unpacked.holds_sqrt ha hx
  have hlt : |nearest .binary64 √x| < limit .binary64 := by
    rw [abs_of_nonneg (nearest_nonneg _ (Real.sqrt_nonneg x))]
    rcases le_total x 1 with hle | hle
    · have hroot_le : nearest .binary64 √x ≤ 1 :=
        nearest_le representable_one (Real.sqrt_le_one.2 hle)
      exact hroot_le.trans_lt (two_pow_lt_limit (k := 0) (by decide))
    · -- the root is no farther out than the number itself
      have hself : √x ≤ x := Real.sqrt_le_iff.2 ⟨hx, le_self_pow₀ hle two_ne_zero⟩
      have hmono := nearest_mono .binary64 hself
      rw [Unpacked.Holds.nearest_eq ha] at hmono
      exact hmono.trans_lt ha.lt_limit
  have hparts : parts a.sqrt = UnpackedFloat.sqrt .binary64 (parts a) := unpack_pack hroot hlt
  rw [Denotes, hparts]
  exact hroot

/-! ## Products and quotients -/

theorem denotes_of_parts {s : Sign} {m : ℕ} {e : ℤ} {hm : 0 < m}
    (h : parts a = .finite s m e hm) : Denotes a (s.apply m * 2 ^ e : ℝ) := by
  have hnan : (parts a).isNaN = false := by rw [h]; rfl
  have hholds := Unpacked.holds_unpack hnan
  refine ⟨hholds.canonical, hnan, ?_⟩
  rw [h, Unpacked.value_finite]

theorem denotes_unit : Denotes 65536 (65536 : ℝ) := by
  have h : parts 65536 = .finite .positive 4503599627370496 (-36) (by decide) := rfl
  convert denotes_of_parts h
  norm_num [Sign.apply]

/-- **A product with the unit is exact**, except that what is too large becomes an infinity. -/
theorem Denotes.mul_unit (ha : Denotes a y) :
    Denotes (a * 65536) (fit .binary64 (y * (65536 : ℝ))) := by
  have hpos : (0 : ℝ) < 65536 := by norm_num
  have hproduct : Unpacked.Holds .binary64
      (UnpackedFloat.mul .binary64 (parts a) (parts 65536)) (y * (65536 : ℝ)) := by
    induction y with
    | bot =>
      rw [Unpacked.Holds.eq_of_ne_zero ha (.bot _) EReal.bot_ne_zero, EReal.bot_mul_coe_of_pos hpos]
      exact .bot _
    | top =>
      rw [Unpacked.Holds.eq_of_ne_zero ha (.top _) EReal.top_ne_zero, EReal.top_mul_coe_of_pos hpos]
      exact .top _
    | coe x =>
      have hunit : (65536 : ℝ) = 2 ^ 16 := by norm_num
      have hexact := nearest_eq_self (ha.representable.mul_two_pow 16)
      rw [← hunit] at hexact
      rw [← EReal.coe_mul, ← hexact]
      exact Unpacked.holds_mul ha denotes_unit
  exact Unpacked.holds_unpack_pack binary64_bias_pos hproduct

theorem Denotes.div (ha : Denotes a x) (hb : Denotes b x') (hx' : x' ≠ 0) :
    Denotes (a / b) (fit .binary64 (nearest .binary64 (x / x') : ℝ)) :=
  Unpacked.holds_unpack_pack binary64_bias_pos (Unpacked.holds_div ha hb hx')

/-! ## To integers -/

theorem nearestNat_eq_round (m : ℕ) (e : ℤ) : (nearestNat m e : ℤ) = round (m * 2 ^ e : ℝ) := by
  cases e with
  | ofNat k =>
    rw [nearestNat, Nat.shiftLeft_eq, Int.ofNat_eq_natCast, zpow_natCast]
    exact_mod_cast (round_natCast (α := ℝ) (m * 2 ^ k)).symm
  | negSucc k =>
    have hsum : (m * 2 ^ Int.negSucc k + 1 / 2 : ℝ) = (m + 2 ^ k : ℕ) / (2 ^ (k + 1) : ℕ) := by
      rw [zpow_negSucc]
      push_cast
      rw [pow_succ]
      field_simp
    rw [nearestNat, Nat.shiftRight_eq_div_pow, round_eq, hsum,
      ← Int.natCast_floor_eq_floor (by positivity), Nat.floor_div_eq_div]
    rfl

/-- **The nearest integer**, a half going away from zero. -/
theorem Denotes.nearestInt_eq_roundAway (ha : Denotes a x) :
    nearestInt a = .whole (roundAway x) := by
  obtain ⟨-, hnan, hvalue⟩ := ha
  rw [nearestInt]
  generalize parts a = u at hnan hvalue ⊢
  rcases u with (_ | _) | _ | s | ⟨s, m, e, hm⟩
  · exact absurd hvalue (EReal.bot_ne_coe x)
  · exact absurd hvalue (EReal.top_ne_coe x)
  · exact absurd hnan Bool.noConfusion
  · rw [show x = ((0 : ℤ) : ℝ) by exact_mod_cast EReal.coe_eq_zero.1 hvalue.symm, roundAway_intCast]
  · have hnonneg : (0 : ℝ) ≤ m * 2 ^ e := by positivity
    rw [Unpacked.value_finite, EReal.coe_eq_coe_iff, ← Unpacked.signed_mul_zpow] at hvalue
    rw [← hvalue, roundAway_signed hnonneg, ← nearestNat_eq_round]

theorem Denotes.nearestInt_eq (ha : Denotes a x) (hx : 0 ≤ x) :
    nearestInt a = .whole (round x) := by
  rw [ha.nearestInt_eq_roundAway, roundAway_of_nonneg hx]

/-- Beyond the range of doubles there are infinities, and these are beyond all integers. -/
theorem Denotes.nearestInt_of_top (ha : Denotes a ⊤) : nearestInt a = .aboveAll := by
  rw [nearestInt, Unpacked.Holds.eq_of_ne_zero ha (.top _) EReal.top_ne_zero]

theorem Denotes.nearestInt_of_bot (ha : Denotes a ⊥) : nearestInt a = .belowAll := by
  rw [nearestInt, Unpacked.Holds.eq_of_ne_zero ha (.bot _) EReal.bot_ne_zero]

theorem nearestInt_of_isNaN (h : a.isNaN = true) : nearestInt a = .whole 0 := by
  have hnan : (parts a).isNaN = true := h
  rw [nearestInt]
  generalize parts a = u at hnan
  rcases u with _ | _ | _ | _
  · exact absurd hnan Bool.noConfusion
  · rfl
  · exact absurd hnan Bool.noConfusion
  · exact absurd hnan Bool.noConfusion

theorem isNaN_mul (h : a.isNaN = true ∨ b.isNaN = true) : (a * b).isNaN = true :=
  Unpacked.isNaN_unpack_pack _ (Unpacked.mul_of_isNaN _ h)

end Double

end SignedDistance
