import SignedDistance.Proofs.Fixed.Range
import SignedDistance.Proofs.Number.Precision

set_option autoImplicit false

/-! # Conversion from floats and back

A float becomes the number whose raw value is nearest to the float times the unit, a half going away
from zero, or the end of the range that it lies beyond. Nothing else is rounded on the way: the
product with the unit only moves the point, also that of the least floats, and where it leaves the
range of doubles it had left the range of numbers long before. In particular the conversion does not
depend on the precision of the float, and it keeps the order.

The way back divides by the unit and does round, once to a double and once more to a single. Raw
values with no more digits than the float has room for come through unchanged. -/

namespace SignedDistance

/-- Every other integer is farther from the number, or as far and nearer to zero. -/
def NearestAway (x : ℝ) (n : ℤ) : Prop :=
  ∀ m ≠ n, |x - n| < |x - m| ∨ |x - n| = |x - m| ∧ |m| < |n|

theorem nearestAway_neg_iff {x : ℝ} {n : ℤ} : NearestAway (-x) (-n) ↔ NearestAway x n := by
  have hdist (m : ℤ) : |-x - (-m : ℤ)| = |x - m| := by
    rw [← abs_neg]
    push_cast
    ring_nf
  constructor
  · intro h m hm
    have hneg := h (-m) (by omega)
    rwa [hdist, hdist, abs_neg, abs_neg] at hneg
  · intro h m hm
    have hneg := h (-m) (by omega)
    rwa [← hdist, ← hdist, neg_neg, abs_neg, ← abs_neg n] at hneg

theorem nearestAway_roundAway (x : ℝ) : NearestAway x (roundAway x) := by
  wlog hx : 0 ≤ x generalizing x
  · have hneg := this (-x) (by linarith)
    rwa [roundAway_neg, nearestAway_neg_iff] at hneg
  rw [roundAway_of_nonneg hx]
  obtain ⟨hlower, hupper⟩ := round_eq_iff.1 (rfl : round x = round x)
  intro m hm
  refine (round_le x m).lt_or_eq.imp_right fun heq => ⟨heq, ?_⟩
  -- of the others only the one below can be as near, and then the number is their middle
  have hmiddle : (2 * x : ℝ) = (round x + m : ℤ) := by
    rcases abs_eq_abs.1 heq with h | h
    · exact absurd (Int.cast_inj.1 (by linarith : (m : ℝ) = round x)) hm
    · push_cast
      linarith
  have hbelow : 2 * round x - 1 ≤ round x + m := by
    exact_mod_cast (by linarith : (2 * round x - 1 : ℝ) ≤ (round x + m : ℤ))
  have habove : round x + m < 2 * round x + 1 := by
    exact_mod_cast (by linarith : ((round x + m : ℤ) : ℝ) < 2 * round x + 1)
  have hnonneg : 0 ≤ round x + m := by
    exact_mod_cast (by linarith : (0 : ℝ) ≤ (round x + m : ℤ))
  simp only [Int.abs_eq_natAbs]
  omega

namespace Fixed

variable {y z : EReal}

/-! ## From extended real numbers -/

/-- The number whose raw value is nearest to an extended real number. -/
noncomputable def ofRaw (y : EReal) : Fixed :=
  if y = ⊤ then greatest else if y = ⊥ then least else saturate (roundAway y.toReal)

@[simp] theorem ofRaw_top : ofRaw ⊤ = greatest := if_pos rfl

@[simp] theorem ofRaw_bot : ofRaw ⊥ = least := by simp [ofRaw]

@[simp] theorem ofRaw_coe (x : ℝ) : ofRaw x = saturate (roundAway x) := by simp [ofRaw]

theorem ofRaw_intCast (n : ℤ) : ofRaw (n : ℝ) = saturate n := by simp

theorem le_greatest (a : Fixed) : a ≤ greatest := le_iff_raw.2 a.upper

theorem least_le (a : Fixed) : least ≤ a := le_iff_raw.2 a.lower

theorem ofRaw_mono : Monotone ofRaw := by
  intro y z h
  induction y with
  | bot => simp [least_le]
  | top => rw [top_le_iff.1 h]
  | coe x =>
    induction z with
    | bot => exact absurd h (not_le.2 (EReal.bot_lt_coe x))
    | top => simp [le_greatest]
    | coe z =>
      rw [ofRaw_coe, ofRaw_coe]
      exact saturate_mono (roundAway_mono (EReal.coe_le_coe_iff.1 h))

/-- Beyond the range of doubles every number has the raw value at the end of its range. -/
theorem ofRaw_fit (y : EReal) : ofRaw (fit .binary64 y) = ofRaw y := by
  have hlimit : ((9223372036854775808 : ℤ) : ℝ) ≤ limit .binary64 := by
    have hlt := Double.two_pow_lt_limit (k := 63) (by decide)
    norm_num at hlt ⊢
    exact hlt.le
  have hgreatest : ofRaw ((9223372036854775808 : ℤ) : ℝ) = greatest := by
    rw [ofRaw_intCast]
    decide
  have hleast : ofRaw ((-9223372036854775808 : ℤ) : ℝ) = least := by
    rw [ofRaw_intCast]
    decide
  rw [fit]
  split_ifs with htop hbot
  · refine (ofRaw_top.trans hgreatest.symm).trans (le_antisymm (ofRaw_mono ?_) ?_)
    · exact (EReal.coe_le_coe_iff.2 hlimit).trans htop
    · rw [hgreatest]
      exact le_greatest _
  · refine (ofRaw_bot.trans hleast.symm).trans (le_antisymm ?_ (ofRaw_mono ?_))
    · rw [hleast]
      exact least_le _
    · rw [Int.cast_neg]
      exact hbot.trans (EReal.coe_le_coe_iff.2 (neg_le_neg hlimit))
  · rfl

/-! ## From doubles -/

variable {a b : Float}

theorem ofRawDouble_eq (ha : Double.Denotes a y) : ofRawDouble a = ofRaw y := by
  rw [ofRawDouble]
  induction y with
  | bot => rw [ha.nearestInt_of_bot, ofRaw_bot, ofExtended]
  | top => rw [ha.nearestInt_of_top, ofRaw_top, ofExtended]
  | coe x => rw [ha.nearestInt_eq_roundAway, ofRaw_coe, ofExtended]

/-- **A double is rounded once**, and not before it counts units. -/
theorem ofDouble_eq (ha : Double.Denotes a y) : ofDouble a = ofRaw (y * (65536 : ℝ)) := by
  rw [ofDouble, ofRawDouble_eq ha.mul_unit, ofRaw_fit]

theorem ofDouble_of_isNaN (h : a.isNaN = true) : ofDouble a = zero := by
  rw [ofDouble, ofRawDouble, Double.nearestInt_of_isNaN (Double.isNaN_mul (.inl h))]
  rfl

/-! ## From floats of either precision -/

/-- How floats are read: the nearest raw value, the ends of the range for infinities, and zero for a
    NaN, in the order of the floats. -/
structure ReadsNearest {F : Type} [LE F] (Denotes : F → EReal → Prop) (isFinite isNaN : F → Bool)
    (read : F → Fixed) : Prop where
  finite : ∀ a, isFinite a = true →
    ∃ (x : ℝ) (n : ℤ), Denotes a x ∧ NearestAway (x * unit) n ∧ read a = saturate n
  top : ∀ a, Denotes a ⊤ → read a = greatest
  bot : ∀ a, Denotes a ⊥ → read a = least
  nan : ∀ a, isNaN a = true → read a = zero
  mono : ∀ a b, a ≤ b → read a ≤ read b

/-- What is read by the number that a float stands for is read alike in every precision. -/
theorem readsNearest_of_eq {F : Type} [LE F] {Denotes : F → EReal → Prop}
    {isFinite isNaN : F → Bool} {read : F → Fixed}
    (hread : ∀ a y, Denotes a y → read a = ofRaw (y * (65536 : ℝ)))
    (hfinite : ∀ a, isFinite a = true → ∃ x : ℝ, Denotes a x)
    (hnan : ∀ a, isNaN a = true → read a = zero)
    (hle : ∀ a b, a ≤ b → ∃ y z, Denotes a y ∧ Denotes b z ∧ y ≤ z) :
    ReadsNearest Denotes isFinite isNaN read where
  finite a ha := by
    obtain ⟨x, hx⟩ := hfinite a ha
    refine ⟨x, roundAway (x * unit), hx, nearestAway_roundAway _, ?_⟩
    rw [hread a x hx, ← EReal.coe_mul, ofRaw_coe]
    norm_num [unit]
  top a ha := by rw [hread a ⊤ ha, EReal.top_mul_coe_of_pos (by norm_num), ofRaw_top]
  bot a ha := by rw [hread a ⊥ ha, EReal.bot_mul_coe_of_pos (by norm_num), ofRaw_bot]
  nan := hnan
  mono a b h := by
    obtain ⟨y, z, hy, hz, hyz⟩ := hle a b h
    rw [hread a y hy, hread b z hz]
    refine ofRaw_mono (mul_le_mul_of_nonneg_right hyz ?_)
    exact EReal.coe_nonneg.2 (by norm_num)

theorem ofSingle_eq {a : Float32} (ha : Single.Denotes a y) :
    ofSingle a = ofRaw (y * (65536 : ℝ)) := ofDouble_eq ha.toDouble

example : (ofSingle (.ofBits 0xb7c00000)).raw = -2 := by decide +kernel

theorem readsNearest_ofDouble : ReadsNearest Double.Denotes Float.isFinite Float.isNaN ofDouble :=
  readsNearest_of_eq (fun _ _ => ofDouble_eq) (fun _ => Double.isFinite_iff.1)
    (fun _ => ofDouble_of_isNaN) fun _ _ => Double.exists_denotes_of_le

theorem readsNearest_ofSingle :
    ReadsNearest Single.Denotes Float32.isFinite Float32.isNaN ofSingle :=
  readsNearest_of_eq (fun _ _ => ofSingle_eq) (fun _ => Single.isFinite_iff.1)
    (fun _ h => ofDouble_of_isNaN (Single.isNaN_toDouble h)) fun _ _ => Single.exists_denotes_of_le

/-! ## There and back -/

variable {c : Fixed}

theorem abs_raw_div_le (c : Fixed) : |(c.raw / 65536 : ℝ)| ≤ 2 ^ 63 := by
  have hraw : |(c.raw : ℝ)| ≤ 2 ^ 63 := by
    obtain ⟨hlower, hupper⟩ := c.fits_raw
    exact_mod_cast abs_le.2 ⟨hlower, hupper.le⟩
  have hunit : |(65536 : ℝ)| = 65536 := abs_of_pos (by norm_num)
  rw [abs_div, hunit]
  exact (div_le_self (abs_nonneg _) (by norm_num)).trans hraw

/-- A raw value that doubles hold is only divided. -/
theorem denotes_toDouble (h : |c.raw| ≤ 2 ^ 53) :
    Double.Denotes c.toDouble (c.raw / 65536 : ℝ) := by
  have hraw : Representable .binary64 c.raw := ⟨c.raw, 0, h, by decide, by simp⟩
  have hquotient : Representable .binary64 (c.raw / 65536) :=
    ⟨c.raw, -16, h, by decide, by norm_num [div_eq_mul_inv]⟩
  have hdenotes := Double.denotes_ofInt (h.trans (by norm_num))
  rw [nearest_eq_self hraw] at hdenotes
  have hdiv := hdenotes.div Double.denotes_unit (by norm_num)
  rw [nearest_eq_self hquotient, fit_coe] at hdiv
  · exact hdiv
  · exact c.abs_raw_div_le.trans_lt (Double.two_pow_lt_limit (by decide))

/-- A raw value that is divided and multiplied by the unit is the same again. -/
theorem ofRaw_div_mul (c : Fixed) : ofRaw ((c.raw / 65536 : ℝ) * (65536 : ℝ)) = c := by
  rw [← EReal.coe_mul, div_mul_cancel₀ _ (by norm_num), ofRaw_intCast, saturate_raw]

theorem ofDouble_toDouble (h : |c.raw| ≤ 2 ^ 53) : ofDouble c.toDouble = c := by
  rw [ofDouble_eq (denotes_toDouble h), ofRaw_div_mul]

/-- The same raw value, if singles hold it, is also only divided. -/
theorem denotes_toSingle (h : |c.raw| ≤ 2 ^ 24) :
    Single.Denotes c.toSingle (c.raw / 65536 : ℝ) := by
  have hquotient : Representable .binary32 (c.raw / 65536) :=
    ⟨c.raw, -16, h, by decide, by norm_num [div_eq_mul_inv]⟩
  have hdouble := denotes_toDouble (c := c) (h.trans (by norm_num))
  have hsingle := hdouble.toSingle
  rwa [Single.rounded_coe (c.abs_raw_div_le.trans (by norm_num)), nearest_eq_self hquotient]
    at hsingle

theorem ofSingle_toSingle (h : |c.raw| ≤ 2 ^ 24) : ofSingle c.toSingle = c := by
  rw [ofSingle_eq (denotes_toSingle h), ofRaw_div_mul]

/-- **Floats become the nearest numbers**, in double and in single precision alike, and numbers that
    have become floats without loss come back as they were. -/
theorem conversion_nearest :
    ReadsNearest Double.Denotes Float.isFinite Float.isNaN ofDouble ∧
    ReadsNearest Single.Denotes Float32.isFinite Float32.isNaN ofSingle ∧
    (∀ (a : Float32) (b : Float) (y : EReal),
      Single.Denotes a y → Double.Denotes b y → ofSingle a = ofDouble b) ∧
    (∀ c : Fixed, |c.raw| ≤ 2 ^ 53 → ofDouble c.toDouble = c) ∧
    ∀ c : Fixed, |c.raw| ≤ 2 ^ 24 → ofSingle c.toSingle = c :=
  ⟨readsNearest_ofDouble, readsNearest_ofSingle,
    fun _ _ _ ha hb => (ofSingle_eq ha).trans (ofDouble_eq hb).symm,
    fun _ => ofDouble_toDouble, fun _ => ofSingle_toSingle⟩

/-- One and a half units below zero, infinity, and the last raw values that come back. -/
theorem conversion_nearest_ends :
    let a : Float32 := .ofBits 0xb7c00000
    let c : Fixed := saturate (2 ^ 53)
    let d : Fixed := saturate (-2 ^ 24)
    (a.isFinite = true ∧ ∃ (x : ℝ) (n : ℤ),
      Single.Denotes a x ∧ NearestAway (x * unit) n ∧ ofSingle a = saturate n) ∧
    (Double.Denotes (1 / 0) ⊤ ∧ ofDouble (1 / 0) = greatest) ∧
    (|c.raw| ≤ 2 ^ 53 ∧ ofDouble c.toDouble = c) ∧
    (|d.raw| ≤ 2 ^ 24 ∧ ofSingle d.toSingle = d) := by
  intro a c d
  obtain ⟨hdouble, hsingle, -, hc, hd⟩ := conversion_nearest
  have hfinite : a.isFinite = true := by decide +kernel
  have htop : Double.Denotes (1 / 0) ⊤ := by
    have hparts : Double.parts (1 / 0) = .infinity .positive := rfl
    rw [Double.Denotes, hparts]
    exact .top _
  have hc' : |c.raw| ≤ 2 ^ 53 := by decide
  have hd' : |d.raw| ≤ 2 ^ 24 := by decide
  exact ⟨⟨hfinite, hsingle.finite a hfinite⟩, ⟨htop, hdouble.top _ htop⟩, ⟨hc', hc c hc'⟩,
    ⟨hd', hd d hd'⟩⟩

end Fixed

end SignedDistance
