import SignedDistance.Proofs.Number.Nearest

set_option autoImplicit false

/-! # What a float stands for

A float that is a number stands for an extended real number. A float is canonical if its digits are
as many as its format has room for, and then the comparison of exponents first and digits next is
the comparison of what the floats stand for. -/

namespace SignedDistance

open Float.Model (Format UnpackedFloat totalExponent)
open Float.Model.UnpackedFloat (Sign)

namespace Unpacked

variable {S : Format} {u v : UnpackedFloat} {y : EReal} {s : Sign} {m m' : ℕ} {e e' : ℤ}

/-- The number that a float stands for; a NaN stands for none, and zero is put in its place. -/
noncomputable def value : UnpackedFloat → EReal
  | .notANumber | .zero _ => 0
  | .infinity .positive => ⊤
  | .infinity .negative => ⊥
  | .finite s m e _ => (scaled (s.apply m) e : EReal)

theorem value_of_isNaN {u : UnpackedFloat} (h : u.isNaN = true) : value u = 0 := by
  cases u with
  | notANumber => rfl
  | _ => exact absurd h Bool.noConfusion

@[simp] theorem value_top : value (.infinity .positive) = ⊤ := rfl

@[simp] theorem value_bot : value (.infinity .negative) = ⊥ := rfl

@[simp] theorem value_zero (s : Sign) : value (.zero s) = 0 := rfl

theorem value_finite (s : Sign) (m : ℕ) (e : ℤ) (hm : 0 < m) :
    value (.finite s m e hm) = (s.apply m * 2 ^ e : ℝ) := rfl

/-! ## Canonical floats -/

/-- As many digits as there is room for. -/
def CanonicalDigits (S : Format) (m : ℕ) (e : ℤ) : Prop :=
  S.targetExponent (totalExponent m e) = e

/-- A float whose digits, if it has any, are as many as there is room for. -/
def Canonical (S : Format) : UnpackedFloat → Prop
  | .finite _ m e _ => CanonicalDigits S m e
  | _ => True

theorem CanonicalDigits.lt (h : CanonicalDigits S m e) : m < 2 ^ S.mantissaBits := by
  rcases Nat.eq_zero_or_pos m with rfl | hm
  · exact Nat.two_pow_pos _
  · rw [← Nat.log2_lt hm.ne']
    rw [CanonicalDigits, Format.targetExponent, totalExponent] at h
    omega

theorem CanonicalDigits.minExponent_le (h : CanonicalDigits S m e) : S.minExponent ≤ e :=
  (le_max_right _ _).trans_eq h

/-- Only with the smallest exponent there may be digits to spare. -/
theorem CanonicalDigits.le (h : CanonicalDigits S m e) (hm : 0 < m) (he : e ≠ S.minExponent) :
    2 ^ S.mantissaBitsWithoutImplicit ≤ m := by
  rw [← Nat.le_log2 hm.ne']
  rw [CanonicalDigits, Format.targetExponent, totalExponent, Format.mantissaBits] at h
  omega

theorem CanonicalDigits.representable (h : CanonicalDigits S m e) (s : Sign) :
    Representable S (s.apply m * 2 ^ e) := by
  refine ⟨s.apply m, e, ?_, h.minExponent_le, rfl⟩
  have habs : |s.apply m| = (m : ℤ) := by
    cases s with
    | negative => exact (abs_neg _).trans (Nat.abs_cast m)
    | positive => exact Nat.abs_cast m
  rw [habs]
  exact_mod_cast h.lt.le

/-! ## Comparison -/

/-- A greater exponent means a greater number, whatever the digits are. -/
theorem CanonicalDigits.mul_lt_mul (h : CanonicalDigits S m e) (h' : CanonicalDigits S m' e')
    (hm' : 0 < m') (hlt : e < e') : (m * 2 ^ e : ℝ) < m' * 2 ^ e' := by
  have hmin := h.minExponent_le
  have hbelow : (m : ℝ) < 2 ^ S.mantissaBits := mod_cast h.lt
  have habove : (2 : ℝ) ^ S.mantissaBitsWithoutImplicit ≤ m' := mod_cast h'.le hm' (by omega)
  calc (m * 2 ^ e : ℝ) < 2 ^ S.mantissaBits * 2 ^ e :=
        mul_lt_mul_of_pos_right hbelow (by positivity)
    _ = 2 ^ S.mantissaBitsWithoutImplicit * 2 ^ (e + 1) := by
        rw [Format.mantissaBits, pow_add, zpow_add₀ two_ne_zero]
        ring
    _ ≤ m' * 2 ^ e' :=
        mul_le_mul habove (zpow_le_zpow_right₀ one_le_two (by omega)) (by positivity)
          (by positivity)

/-- Exponents first and digits next. -/
theorem CanonicalDigits.compares (h : CanonicalDigits S m e) (h' : CanonicalDigits S m' e')
    (hm : 0 < m) (hm' : 0 < m') :
    ((compare e e').then (compare m m')).Compares (m * 2 ^ e : ℝ) (m' * 2 ^ e') := by
  rcases lt_trichotomy e e' with hlt | rfl | hlt
  · rw [compare_lt_iff_lt.2 hlt]
    exact h.mul_lt_mul h' hm' hlt
  · have hmono : StrictMono fun n : ℕ => (n * 2 ^ e : ℝ) :=
      Nat.strictMono_cast.mul_const (by positivity)
    rw [compare_eq_iff_eq.2 rfl, Ordering.eq_then]
    exact hmono.compares.2 (cmp_eq_compare m m' ▸ cmp_compares m m')
  · rw [compare_gt_iff_gt.2 hlt]
    exact h'.mul_lt_mul h hm hlt

theorem value_negative (m : ℕ) (e : ℤ) (hm : 0 < m) :
    value (.finite .negative m e hm) = -value (.finite .positive m e hm) := by
  rw [value_finite, value_finite, ← EReal.coe_neg, ← neg_mul]
  norm_cast

theorem value_positive_pos (m : ℕ) (e : ℤ) (hm : 0 < m) : 0 < value (.finite .positive m e hm) := by
  have h : (0 : ℝ) < m * 2 ^ e := by positivity
  exact EReal.coe_pos.2 h

theorem value_negative_neg (m : ℕ) (e : ℤ) (hm : 0 < m) :
    value (.finite .negative m e hm) < 0 := by
  rw [value_negative, EReal.neg_lt_comm, neg_zero]
  exact value_positive_pos m e hm

/-- **Floats compare as the numbers that they stand for**, if both are numbers. -/
theorem exists_compare (hu : Canonical S u) (hv : Canonical S v) (hu' : u.isNaN = false)
    (hv' : v.isNaN = false) : ∃ o, u.compare v = some o ∧ o.Compares (value u) (value v) := by
  rcases u with (_ | _) | _ | s | ⟨_ | _, m, e, hm⟩ <;>
    rcases v with (_ | _) | _ | s' | ⟨_ | _, m', e', hm'⟩
  all_goals first
    | exact absurd hu' Bool.noConfusion
    | exact absurd hv' Bool.noConfusion
    | refine ⟨_, rfl, ?_⟩
  -- only two numbers of one sign need their digits compared
  case finite.positive.finite.positive =>
    exact EReal.coe_strictMono.compares.2 (CanonicalDigits.compares hu hv hm hm')
  case finite.negative.finite.negative =>
    rw [value_negative, value_negative, EReal.neg_strictAnti.compares, Ordering.compares_swap]
    exact EReal.coe_strictMono.compares.2 (CanonicalDigits.compares hu hv hm hm')
  all_goals first
    | exact bot_lt_top
    | exact EReal.bot_lt_zero
    | exact EReal.zero_lt_top
    | exact EReal.bot_lt_coe _
    | exact EReal.coe_lt_top _
    | exact value_negative_neg _ _ _
    | exact value_positive_pos _ _ _
    | exact (value_negative_neg _ _ _).trans (value_positive_pos _ _ _)
    | rfl

theorem compare_of_isNaN (h : u.isNaN = true ∨ v.isNaN = true) : u.compare v = none := by
  rcases u with (_ | _) | _ | s | ⟨_ | _, m, e, hm⟩ <;>
    rcases v with (_ | _) | _ | s' | ⟨_ | _, m', e', hm'⟩ <;>
    first
    | rfl
    | exact h.elim Bool.noConfusion Bool.noConfusion

/-! ## Standing for a number -/

/-- A canonical float that stands for the number `y`. -/
structure Holds (S : Format) (u : UnpackedFloat) (y : EReal) : Prop where
  canonical : Canonical S u
  isNaN : u.isNaN = false
  value : value u = y

theorem Holds.top (S : Format) : Holds S (.infinity .positive) ⊤ := ⟨trivial, rfl, rfl⟩

theorem Holds.bot (S : Format) : Holds S (.infinity .negative) ⊥ := ⟨trivial, rfl, rfl⟩

theorem Holds.zero (S : Format) (s : Sign) : Holds S (.zero s) 0 := ⟨trivial, rfl, rfl⟩

theorem Holds.finite (h : CanonicalDigits S m e) (hm : 0 < m) (s : Sign) :
    Holds S (.finite s m e hm) (s.apply m * 2 ^ e : ℝ) := ⟨h, rfl, rfl⟩

theorem Holds.isFinite {x : ℝ} (h : Holds S u x) : u.isFinite = true := by
  obtain ⟨-, hnan, hvalue⟩ := h
  rcases u with (_ | _) | _ | s | ⟨s, m, e, hm⟩
  · exact absurd hvalue (EReal.bot_ne_coe x)
  · exact absurd hvalue (EReal.top_ne_coe x)
  · exact absurd hnan Bool.noConfusion
  · rfl
  · rfl

theorem exists_holds_of_isFinite (hu : Canonical S u) (h : u.isFinite = true) :
    ∃ x : ℝ, Holds S u x := by
  rcases u with _ | _ | s | ⟨s, m, e, hm⟩
  · exact absurd h Bool.noConfusion
  · exact absurd h Bool.noConfusion
  · exact ⟨0, Holds.zero S s⟩
  · exact ⟨_, Holds.finite hu hm s⟩

/-- Floats of one value compare as equal. -/
theorem Holds.compare_eq (hu : Holds S u y) (hv : Holds S v y) : u.compare v = some .eq := by
  obtain ⟨o, ho, hcompares⟩ := exists_compare hu.canonical hv.canonical hu.isNaN hv.isNaN
  rw [hu.value, hv.value] at hcompares
  rw [ho, hcompares.eq_eq.2 rfl]

theorem Holds.exists_eq_zero (h : Holds S u 0) : ∃ s, u = .zero s := by
  obtain ⟨-, hnan, hvalue⟩ := h
  rcases u with (_ | _) | _ | s | ⟨_ | _, m, e, hm⟩
  · exact absurd hvalue EReal.bot_ne_zero
  · exact absurd hvalue EReal.top_ne_zero
  · exact absurd hnan Bool.noConfusion
  · exact ⟨s, rfl⟩
  · exact absurd hvalue (value_negative_neg m e hm).ne
  · exact absurd hvalue (value_positive_pos m e hm).ne'

/-- Every number but zero has one canonical float. -/
theorem Holds.eq_of_ne_zero (hu : Holds S u y) (hv : Holds S v y) (hy : y ≠ 0) : u = v := by
  have hcompare := hu.compare_eq hv
  have hu' := hu.value
  have hv' := hv.value
  rcases u with (_ | _) | _ | s | ⟨_ | _, m, e, hm⟩ <;>
    rcases v with (_ | _) | _ | s' | ⟨_ | _, m', e', hm'⟩ <;>
    first
    | rfl
    | exact absurd hu'.symm hy
    | exact absurd hv'.symm hy
    | cases hcompare
    | skip
  -- two floats of one sign
  case finite.negative.finite.negative =>
    have hdigits : ((compare e e').then (compare m m')).swap = .eq := Option.some.inj hcompare
    rw [Ordering.swap_eq_eq, Ordering.then_eq_eq, compare_eq_iff_eq, compare_eq_iff_eq] at hdigits
    obtain ⟨rfl, rfl⟩ := hdigits
    rfl
  case finite.positive.finite.positive =>
    have hdigits : (compare e e').then (compare m m') = .eq := Option.some.inj hcompare
    rw [Ordering.then_eq_eq, compare_eq_iff_eq, compare_eq_iff_eq] at hdigits
    obtain ⟨rfl, rfl⟩ := hdigits
    rfl

end Unpacked

end SignedDistance
