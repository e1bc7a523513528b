import SignedDistance.Number.Single
import SignedDistance.Proofs.Number.Division
import SignedDistance.Proofs.Number.Packing

set_option autoImplicit false

/-! # Singles as numbers

What single-precision operations do, said of the extended real numbers that their operands stand
for. Comparisons compare those numbers, and a sum or a product is the exact one, rounded once.
A NaN stands for no number, and nothing holds between it and any other single. -/

namespace SignedDistance.Single

open Float.Model (Format UnpackedFloat)
open Float.Model.UnpackedFloat

/-- The number of single precision that is nearest, or an infinity if there is no room for it. -/
noncomputable def rounded (y : EReal) : EReal := fit .binary32 (nearestExt .binary32 y)

theorem rounded_mono : Monotone rounded :=
  fun _ _ hle => fit_mono _ (nearestExt_mono _ hle)

/-- The single is a number, and `y` is that number. -/
def Denotes (a : Float32) (y : EReal) : Prop := Unpacked.Holds .binary32 a.toModel.unpack y

variable {a b c : Float32} {x y z : EReal}

theorem Denotes.isNaN (h : Denotes a y) : a.isNaN = false := Unpacked.Holds.isNaN h

theorem exists_denotes (h : a.isNaN = false) : ∃ y, Denotes a y := ⟨_, Unpacked.holds_unpack h⟩

theorem Denotes.unique (hy : Denotes a y) (hz : Denotes a z) : y = z :=
  hy.value.symm.trans hz.value

theorem binary32_bias_pos : 0 < Format.binary32.exponentBias := by decide

theorem Denotes.rounded_eq (h : Denotes a y) : rounded y = y := by
  have hfit := Unpacked.fit_value_unpack binary32_bias_pos a.toModel.valid
  rw [rounded, Unpacked.Holds.nearestExt_eq h, ← h.value]
  exact hfit

theorem Denotes.nearest_eq {x : ℝ} (h : Denotes a x) : nearest .binary32 x = x :=
  Unpacked.Holds.nearest_eq h

theorem isFinite_iff : a.isFinite = true ↔ ∃ x : ℝ, Denotes a x :=
  ⟨Unpacked.exists_holds_of_isFinite (Unpacked.canonical_unpack _ _), fun ⟨_, h⟩ => h.isFinite⟩

/-- Singles with the same parts are the same. -/
theorem eq_of_unpack_eq (h : a.toModel.unpack = b.toModel.unpack) : a = b :=
  Float32.toBits_inj.1 (UInt32.toBitVec_inj.1
    ((unpack_inj_of_valid a.toModel.valid b.toModel.valid).1 h))

/-- Singles that stand for one number are the same, unless they are zeros. -/
theorem Denotes.eq_of_ne_zero (ha : Denotes a y) (hb : Denotes b y) (hy : y ≠ 0) : a = b :=
  eq_of_unpack_eq (Unpacked.Holds.eq_of_ne_zero ha hb hy)

/-! ## Order -/

theorem lt_iff_compare : a < b ↔ a.toModel.unpack.compare b.toModel.unpack = some .lt := by
  change decide (a.toModel.unpack.lt b.toModel.unpack = true) = true ↔ _
  rw [decide_eq_true_iff, UnpackedFloat.lt, beq_iff_eq]

theorem le_iff_compare :
    a ≤ b ↔ ∃ o, a.toModel.unpack.compare b.toModel.unpack = some o ∧ o ≠ .gt := by
  change decide (a.toModel.unpack.le b.toModel.unpack = true) = true ↔ _
  rw [decide_eq_true_iff, UnpackedFloat.le, Option.any_eq_true]
  simp only [Ordering.isLE_iff_ne_gt]

theorem Denotes.exists_compare (ha : Denotes a y) (hb : Denotes b z) :
    ∃ o, a.toModel.unpack.compare b.toModel.unpack = some o ∧ o.Compares y z := by
  obtain ⟨o, ho, hcompares⟩ :=
    Unpacked.exists_compare ha.canonical hb.canonical ha.isNaN hb.isNaN
  rw [ha.value, hb.value] at hcompares
  exact ⟨o, ho, hcompares⟩

theorem Denotes.lt_iff (ha : Denotes a y) (hb : Denotes b z) : a < b ↔ y < z := by
  obtain ⟨o, ho, hcompares⟩ := ha.exists_compare hb
  rw [lt_iff_compare, ho, Option.some_inj, hcompares.eq_lt]

theorem Denotes.le_iff (ha : Denotes a y) (hb : Denotes b z) : a ≤ b ↔ y ≤ z := by
  obtain ⟨o, ho, hcompares⟩ := ha.exists_compare hb
  rw [le_iff_compare, ho, ← not_lt, ← hcompares.eq_gt]
  simp

/-- Numbers compare as equal if they are. -/
theorem Denotes.beq_iff (ha : Denotes a y) (hb : Denotes b z) : (a == b) = true ↔ y = z := by
  obtain ⟨o, ho, hcompares⟩ := ha.exists_compare hb
  change (a.toModel.unpack.compare b.toModel.unpack == some .eq) = true ↔ _
  rw [ho, beq_iff_eq, Option.some_inj, hcompares.eq_eq]

/-- Only numbers compare. -/
theorem isNaN_of_compare_ne_none (h : a.toModel.unpack.compare b.toModel.unpack ≠ none) :
    a.isNaN = false ∧ b.isNaN = false := by
  constructor <;> refine Bool.eq_false_iff.2 fun hnan => h (Unpacked.compare_of_isNaN ?_)
  · exact .inl hnan
  · exact .inr hnan

theorem Denotes.of_beq (hb : Denotes b z) (h : (a == b) = true) : Denotes a z := by
  have hcompare : a.toModel.unpack.compare b.toModel.unpack = some .eq := beq_iff_eq.1 h
  obtain ⟨hnan, -⟩ := isNaN_of_compare_ne_none (by rw [hcompare]; exact Option.some_ne_none _)
  obtain ⟨y, hy⟩ := exists_denotes hnan
  exact (hy.beq_iff hb).1 h ▸ hy

theorem exists_denotes_of_lt (h : a < b) : ∃ y z, Denotes a y ∧ Denotes b z ∧ y < z := by
  have hcompare := lt_iff_compare.1 h
  obtain ⟨ha, hb⟩ := isNaN_of_compare_ne_none (by rw [hcompare]; exact Option.some_ne_none _)
  obtain ⟨y, hy⟩ := exists_denotes ha
  obtain ⟨z, hz⟩ := exists_denotes hb
  exact ⟨y, z, hy, hz, (hy.lt_iff hz).1 h⟩

theorem exists_denotes_of_le (h : a ≤ b) : ∃ y z, Denotes a y ∧ Denotes b z ∧ y ≤ z := by
  obtain ⟨o, hcompare, -⟩ := le_iff_compare.1 h
  obtain ⟨ha, hb⟩ := isNaN_of_compare_ne_none (by rw [hcompare]; exact Option.some_ne_none _)
  obtain ⟨y, hy⟩ := exists_denotes ha
  obtain ⟨z, hz⟩ := exists_denotes hb
  exact ⟨y, z, hy, hz, (hy.le_iff hz).1 h⟩

protected theorem le_refl (h : a.isNaN = false) : a ≤ a := by
  obtain ⟨y, hy⟩ := exists_denotes h
  exact (hy.le_iff hy).2 le_rfl

protected theorem le_trans (hab : a ≤ b) (hbc : b ≤ c) : a ≤ c := by
  obtain ⟨x, y, hx, hy, hxy⟩ := exists_denotes_of_le hab
  obtain ⟨y', z, hy', hz, hyz⟩ := exists_denotes_of_le hbc
  exact (hx.le_iff hz).2 (hxy.trans (hy.unique hy' ▸ hyz))

protected theorem le_of_lt (h : a < b) : a ≤ b := by
  obtain ⟨y, z, hy, hz, hlt⟩ := exists_denotes_of_lt h
  exact (hy.le_iff hz).2 hlt.le

protected theorem lt_of_lt_of_le (hab : a < b) (hbc : b ≤ c) : a < c := by
  obtain ⟨x, y, hx, hy, hxy⟩ := exists_denotes_of_lt hab
  obtain ⟨y', z, hy', hz, hyz⟩ := exists_denotes_of_le hbc
  exact (hx.lt_iff hz).2 (hxy.trans_le (hy.unique hy' ▸ hyz))

protected theorem not_lt_of_le (h : a ≤ b) : ¬b < a := by
  obtain ⟨y, z, hy, hz, hle⟩ := exists_denotes_of_le h
  rwa [hz.lt_iff hy, not_lt]

protected theorem le_of_not_lt (ha : a.isNaN = false) (hb : b.isNaN = false) (h : ¬b < a) :
    a ≤ b := by
  obtain ⟨y, hy⟩ := exists_denotes ha
  obtain ⟨z, hz⟩ := exists_denotes hb
  rwa [hy.le_iff hz, ← not_lt, ← hz.lt_iff hy]

theorem isNaN_left_of_le (h : a ≤ b) : a.isNaN = false := by
  obtain ⟨y, z, hy, -⟩ := exists_denotes_of_le h
  exact hy.isNaN

theorem isNaN_right_of_le (h : a ≤ b) : b.isNaN = false := by
  obtain ⟨y, z, -, hz, -⟩ := exists_denotes_of_le h
  exact hz.isNaN

theorem not_lt_of_isNaN (h : a.isNaN = true) : ¬a < b := by
  intro hlt
  rw [isNaN_left_of_le (Single.le_of_lt hlt)] at h
  cases h

theorem not_lt_of_isNaN_right (h : b.isNaN = true) : ¬a < b := by
  intro hlt
  rw [isNaN_right_of_le (Single.le_of_lt hlt)] at h
  cases h

/-! ## Literals -/

theorem denotes_zero : Denotes 0 0 := by
  have h : (0 : Float32).toModel.unpack = .zero .positive := rfl
  rw [Denotes, h]
  exact Unpacked.Holds.zero _ _

theorem denotes_of_unpack {s : UnpackedFloat.Sign} {m : ℕ} {e : ℤ} {hm : 0 < m}
    (h : a.toModel.unpack = .finite s m e hm) : Denotes a (s.apply m * 2 ^ e : ℝ) := by
  have hnan : a.isNaN = false := congrArg UnpackedFloat.isNaN h
  have hholds := Unpacked.holds_unpack hnan
  refine ⟨hholds.canonical, hnan, ?_⟩
  rw [h, Unpacked.value_finite]

theorem denotes_one : Denotes 1 (1 : ℝ) := by
  have h : (1 : Float32).toModel.unpack = .finite .positive 8388608 (-23) (by decide) := rfl
  convert denotes_of_unpack h
  norm_num [UnpackedFloat.Sign.apply]

theorem denotes_two : Denotes 2 (2 : ℝ) := by
  have h : (2 : Float32).toModel.unpack = .finite .positive 8388608 (-22) (by decide) := rfl
  convert denotes_of_unpack h
  norm_num [UnpackedFloat.Sign.apply]

theorem denotes_four : Denotes 4 (4 : ℝ) := by
  have h : (4 : Float32).toModel.unpack = .finite .positive 8388608 (-21) (by decide) := rfl
  convert denotes_of_unpack h
  norm_num [UnpackedFloat.Sign.apply]

theorem denotes_neg_one : Denotes (-1) (-1 : ℝ) := by
  have h : (-1 : Float32).toModel.unpack = .finite .negative 8388608 (-23) (by decide) := rfl
  convert denotes_of_unpack h
  norm_num [UnpackedFloat.Sign.apply]

theorem denotes_quarter : Denotes 0.25 (1 / 4 : ℝ) := by
  have h : (0.25 : Float32).toModel.unpack = .finite .positive 8388608 (-25) (by decide) := rfl
  convert denotes_of_unpack h
  norm_num [UnpackedFloat.Sign.apply]

/-! ## Arithmetic -/

theorem Denotes.add (ha : Denotes a y) (hb : Denotes b z) (hne : ¬Opposite y z) :
    Denotes (a + b) (rounded (y + z)) :=
  Unpacked.holds_unpack_pack binary32_bias_pos (Unpacked.holds_add ha hb hne)

theorem Denotes.sub (ha : Denotes a y) (hb : Denotes b z) (hne : ¬Opposite y (-z)) :
    Denotes (a - b) (rounded (y - z)) :=
  Unpacked.holds_unpack_pack binary32_bias_pos (Unpacked.holds_sub ha hb hne)

theorem Denotes.mul {x x' : ℝ} (ha : Denotes a x) (hb : Denotes b x') :
    Denotes (a * b) (rounded (x * x' : ℝ)) := by
  rw [rounded, nearestExt_coe]
  exact Unpacked.holds_unpack_pack binary32_bias_pos (Unpacked.holds_mul ha hb)

theorem Denotes.div {x x' : ℝ} (ha : Denotes a x) (hb : Denotes b x') (hx' : x' ≠ 0) :
    Denotes (a / b) (rounded (x / x' : ℝ)) := by
  rw [rounded, nearestExt_coe]
  exact Unpacked.holds_unpack_pack binary32_bias_pos (Unpacked.holds_div ha hb hx')

theorem Denotes.sqrt {x : ℝ} (ha : Denotes a x) (hx : 0 ≤ x) :
    Denotes a.sqrt (rounded (√x : ℝ)) := by
  rw [rounded, nearestExt_coe]
  exact Unpacked.holds_unpack_pack binary32_bias_pos (Unpacked.holds_sqrt ha hx)

theorem unpack_neg (a : Float32) : (-a).toModel.unpack = a.toModel.unpack.neg := by
  refine Unpacked.unpack_pack binary32_bias_pos
    (Unpacked.canonical_neg (Unpacked.canonical_unpack _ _)) ?_
  rw [Unpacked.value_neg, fit_neg]
  exact congrArg Neg.neg (Unpacked.fit_value_unpack binary32_bias_pos a.toModel.valid)

theorem Denotes.neg (ha : Denotes a y) : Denotes (-a) (-y) := by
  rw [Denotes, unpack_neg]
  exact Unpacked.Holds.neg ha

protected theorem neg_neg (a : Float32) : - -a = a := by
  have hneg (u : UnpackedFloat) : u.neg.neg = u := by
    rcases u with (_ | _) | _ | (_ | _) | ⟨_ | _⟩ <;> rfl
  refine eq_of_unpack_eq ?_
  rw [unpack_neg, unpack_neg, hneg]

theorem isNaN_neg (a : Float32) : (-a).isNaN = a.isNaN := by
  rw [Float32.isNaN]
  exact (congrArg UnpackedFloat.isNaN (unpack_neg a)).trans (Unpacked.isNaN_neg _)

theorem abs_neg (a : Float32) : (-a).abs = a.abs := by
  have habs (u : UnpackedFloat) : u.neg.abs = u.abs := by cases u <;> rfl
  change Float32.ofModel (.pack (-a).toModel.unpack.abs) = .ofModel (.pack a.toModel.unpack.abs)
  rw [unpack_neg, habs]

theorem unpack_abs (a : Float32) : a.abs.toModel.unpack = a.toModel.unpack.abs := by
  refine Unpacked.unpack_pack binary32_bias_pos
    (Unpacked.canonical_abs (Unpacked.canonical_unpack _ _)) ?_
  have hfit : fit .binary32 (Unpacked.value a.toModel.unpack) = Unpacked.value a.toModel.unpack :=
    Unpacked.fit_value_unpack binary32_bias_pos a.toModel.valid
  rw [Unpacked.value_abs, (fit_mono _).map_max, fit_neg, hfit]

theorem Denotes.abs (ha : Denotes a y) : Denotes a.abs (max y (-y)) := by
  rw [Denotes, unpack_abs]
  exact Unpacked.Holds.abs ha

theorem Denotes.abs_real {x : ℝ} (ha : Denotes a x) : Denotes a.abs (|x| : ℝ) := by
  rw [Denotes, unpack_abs]
  exact Unpacked.Holds.abs_real ha

theorem isNaN_abs (a : Float32) : a.abs.isNaN = a.isNaN := by
  rw [Float32.isNaN]
  exact (congrArg UnpackedFloat.isNaN (unpack_abs a)).trans (Unpacked.isNaN_abs _)

theorem isFinite_neg (a : Float32) : (-a).isFinite = a.isFinite := by
  have hneg (u : UnpackedFloat) : u.neg.isFinite = u.isFinite := by cases u <;> rfl
  exact (congrArg UnpackedFloat.isFinite (unpack_neg a)).trans (hneg _)

theorem isFinite_abs (a : Float32) : a.abs.isFinite = a.isFinite := by
  have habs (u : UnpackedFloat) : u.abs.isFinite = u.isFinite := by cases u <;> rfl
  exact (congrArg UnpackedFloat.isFinite (unpack_abs a)).trans (habs _)

theorem unpack_neg_mul (a b : Float32) : (-(a * b)).toModel.unpack =
    unpack .binary32 (pack .binary32 (mul .binary32 a.toModel.unpack b.toModel.unpack).neg) := by
  rw [unpack_neg]
  exact (Unpacked.unpack_pack_neg (Unpacked.canonical_mul (Unpacked.canonical_unpack _ _)
    (Unpacked.canonical_unpack _ _))).symm

/-- The sign of a factor is the sign of the product. -/
protected theorem mul_neg (a b : Float32) : a * -b = -(a * b) := by
  refine eq_of_unpack_eq ?_
  rw [unpack_neg_mul, ← Unpacked.mul_neg, ← unpack_neg]
  rfl

protected theorem neg_mul (a b : Float32) : -a * b = -(a * b) := by
  refine eq_of_unpack_eq ?_
  rw [unpack_neg_mul, ← Unpacked.neg_mul, ← unpack_neg]
  rfl

theorem mul_abs_self (a : Float32) : a.abs * a.abs = a * a := by
  change Float32.ofModel (.pack (mul _ a.abs.toModel.unpack a.abs.toModel.unpack)) =
    .ofModel (.pack (mul _ a.toModel.unpack a.toModel.unpack))
  rw [unpack_abs, Unpacked.mul_abs_self]

/-! ## Signs -/

theorem not_lt_zero_iff : ¬a < 0 ↔ a.isNaN = true ∨ 0 ≤ a := by
  constructor
  · intro h
    rcases hnan : a.isNaN
    · exact .inr (Single.le_of_not_lt denotes_zero.isNaN hnan h)
    · exact .inl rfl
  · rintro (hnan | hle)
    · exact not_lt_of_isNaN hnan
    · exact Single.not_lt_of_le hle

theorem isNaN_add (h : a.isNaN = true ∨ b.isNaN = true) : (a + b).isNaN = true :=
  Unpacked.isNaN_unpack_pack _ (Unpacked.add_of_isNaN _ h)

theorem isNaN_mul (h : a.isNaN = true ∨ b.isNaN = true) : (a * b).isNaN = true :=
  Unpacked.isNaN_unpack_pack _ (Unpacked.mul_of_isNaN _ h)

theorem isNaN_div (h : a.isNaN = true ∨ b.isNaN = true) : (a / b).isNaN = true :=
  Unpacked.isNaN_unpack_pack _ (Unpacked.div_of_isNaN _ h)

theorem exists_denotes_of_nonneg (h : 0 ≤ a) : ∃ y, Denotes a y ∧ 0 ≤ y := by
  obtain ⟨z, y, hz, hy, hle⟩ := exists_denotes_of_le h
  exact ⟨y, hy, hz.unique denotes_zero ▸ hle⟩

theorem Denotes.nonneg (h : Denotes a y) (hy : 0 ≤ y) : 0 ≤ a := (denotes_zero.le_iff h).2 hy

theorem abs_nonneg (h : a.isNaN = false) : 0 ≤ a.abs := by
  obtain ⟨y, hy⟩ := exists_denotes h
  refine hy.abs.nonneg ?_
  rcases le_total 0 y with hle | hle
  · exact le_max_of_le_left hle
  · exact le_max_of_le_right (EReal.neg_nonneg.2 hle)

theorem rounded_zero : rounded 0 = 0 := denotes_zero.rounded_eq

theorem rounded_nonneg (h : 0 ≤ y) : 0 ≤ rounded y := rounded_zero ▸ rounded_mono h

theorem exists_denotes_add_of_nonneg (ha : 0 ≤ a) (hb : 0 ≤ b) :
    ∃ y z, Denotes a y ∧ Denotes b z ∧ 0 ≤ y ∧ 0 ≤ z ∧ Denotes (a + b) (rounded (y + z)) := by
  obtain ⟨y, hy, hy₀⟩ := exists_denotes_of_nonneg ha
  obtain ⟨z, hz, hz₀⟩ := exists_denotes_of_nonneg hb
  have hne : ¬Opposite y z := by
    rintro (⟨-, rfl⟩ | ⟨rfl, -⟩)
    · exact absurd hz₀ (not_le.2 EReal.bot_lt_zero)
    · exact absurd hy₀ (not_le.2 EReal.bot_lt_zero)
  exact ⟨y, z, hy, hz, hy₀, hz₀, hy.add hz hne⟩

/-- A sum is not below its parts. -/
theorem le_add_right (ha : 0 ≤ a) (hb : 0 ≤ b) : a ≤ a + b := by
  obtain ⟨y, z, hy, -, -, hz₀, hsum⟩ := exists_denotes_add_of_nonneg ha hb
  rw [hy.le_iff hsum]
  calc y = rounded y := hy.rounded_eq.symm
    _ ≤ rounded (y + z) := rounded_mono (le_add_of_nonneg_right hz₀)

theorem le_add_left (ha : 0 ≤ a) (hb : 0 ≤ b) : b ≤ a + b := by
  obtain ⟨y, z, -, hz, hy₀, -, hsum⟩ := exists_denotes_add_of_nonneg ha hb
  rw [hz.le_iff hsum]
  calc z = rounded z := hz.rounded_eq.symm
    _ ≤ rounded (y + z) := rounded_mono (le_add_of_nonneg_left hy₀)

theorem add_not_lt_zero (ha : ¬a < 0) (hb : ¬b < 0) : ¬a + b < 0 := by
  rw [not_lt_zero_iff] at ha hb ⊢
  rcases ha with ha | ha
  · exact .inl (isNaN_add (.inl ha))
  rcases hb with hb | hb
  · exact .inl (isNaN_add (.inr hb))
  exact .inr (Single.le_trans ha (le_add_right ha hb))

theorem mul_not_lt_zero (ha : ¬a < 0) (hb : ¬b < 0) : ¬a * b < 0 := by
  rw [not_lt_zero_iff] at ha hb ⊢
  rcases ha with ha | ha
  · exact .inl (isNaN_mul (.inl ha))
  rcases hb with hb | hb
  · exact .inl (isNaN_mul (.inr hb))
  obtain ⟨y, hy, hy₀⟩ := exists_denotes_of_nonneg ha
  obtain ⟨z, hz, hz₀⟩ := exists_denotes_of_nonneg hb
  rcases Unpacked.holds_mul_of_nonneg hy hz hy₀ hz₀ with hnan | ⟨w, hw₀, hw⟩
  · exact .inl (Unpacked.isNaN_unpack_pack _ hnan)
  · have hproduct : Denotes (a * b) (fit .binary32 w) :=
      Unpacked.holds_unpack_pack binary32_bias_pos hw
    exact .inr (hproduct.nonneg (fit_zero _ ▸ fit_mono _ hw₀))

theorem isPositiveFinite_iff {a : Float32} :
    isPositiveFinite a = true ↔ 0 < a ∧ a.isFinite = true := by
  rw [isPositiveFinite, Bool.and_eq_true, decide_eq_true_iff]

/-! ## Sums and products in range -/

/-- Between zero and a finite number there are finite numbers only. -/
theorem isFinite_of_le (h₀ : 0 ≤ a) (hle : a ≤ b) (hb : b.isFinite = true) : a.isFinite = true := by
  obtain ⟨x, hx⟩ := isFinite_iff.1 hb
  obtain ⟨y, hy, hy₀⟩ := exists_denotes_of_nonneg h₀
  have hyx := (hy.le_iff hx).1 hle
  lift y to ℝ using ⟨(hyx.trans_lt (EReal.coe_lt_top x)).ne, (EReal.bot_lt_zero.trans_le hy₀).ne'⟩
  exact isFinite_iff.2 ⟨y, hy⟩

theorem exists_real (ha : a.isFinite = true) (h₀ : 0 ≤ a) : ∃ x : ℝ, Denotes a x ∧ 0 ≤ x := by
  obtain ⟨x, hx⟩ := isFinite_iff.1 ha
  exact ⟨x, hx, EReal.coe_nonneg.1 ((denotes_zero.le_iff hx).1 h₀)⟩

theorem not_opposite_coe (x : ℝ) (z : EReal) : ¬Opposite x z := by
  rintro (⟨h, -⟩ | ⟨h, -⟩)
  · exact EReal.coe_ne_top x h
  · exact EReal.coe_ne_bot x h

/-- What is left of a finite number when a part of it is taken away. -/
theorem sub_mem (ha : a.isFinite = true) (hb : 0 ≤ b) (hle : b ≤ a) : 0 ≤ a - b ∧ a - b ≤ a := by
  obtain ⟨x, hx, hx₀⟩ := exists_real ha (Single.le_trans hb hle)
  obtain ⟨y, hy, hy₀⟩ := exists_real (isFinite_of_le hb hle ha) hb
  have hyx := EReal.coe_le_coe_iff.1 ((hy.le_iff hx).1 hle)
  have hdiff := hx.sub hy (not_opposite_coe x _)
  rw [← EReal.coe_sub] at hdiff
  refine ⟨hdiff.nonneg (rounded_nonneg (EReal.coe_nonneg.2 (sub_nonneg.2 hyx))), ?_⟩
  rw [hdiff.le_iff hx]
  calc rounded (x - y : ℝ) ≤ rounded x :=
        rounded_mono (EReal.coe_le_coe_iff.2 (sub_le_self x hy₀))
    _ = x := hx.rounded_eq

theorem sub_le_zero (ha : 0 ≤ a) (hb : b.isFinite = true) (hle : a ≤ b) : a - b ≤ 0 := by
  obtain ⟨x, hx, -⟩ := exists_real (isFinite_of_le ha hle hb) ha
  obtain ⟨y, hy⟩ := isFinite_iff.1 hb
  have hxy := EReal.coe_le_coe_iff.1 ((hx.le_iff hy).1 hle)
  have hdiff := hx.sub hy (not_opposite_coe x _)
  rw [← EReal.coe_sub] at hdiff
  rw [hdiff.le_iff denotes_zero]
  calc rounded (x - y : ℝ) ≤ rounded 0 := rounded_mono (EReal.coe_nonpos.2 (sub_nonpos.2 hxy))
    _ = 0 := rounded_zero

/-- A finite number times a factor between zero and one. -/
theorem mul_mem (ha : a.isFinite = true) (ha₀ : 0 ≤ a) (hb₀ : 0 ≤ b) (hb : b ≤ 1) :
    0 ≤ a * b ∧ a * b ≤ a := by
  obtain ⟨x, hx, hx₀⟩ := exists_real ha ha₀
  obtain ⟨y, hy, hy₀⟩ := exists_real (isFinite_of_le hb₀ hb (isFinite_iff.2 ⟨1, denotes_one⟩)) hb₀
  have hy₁ := EReal.coe_le_coe_iff.1 ((hy.le_iff denotes_one).1 hb)
  have hproduct := hx.mul hy
  refine ⟨hproduct.nonneg (rounded_nonneg (EReal.coe_nonneg.2 (mul_nonneg hx₀ hy₀))), ?_⟩
  rw [hproduct.le_iff hx]
  calc rounded (x * y : ℝ) ≤ rounded x :=
        rounded_mono (EReal.coe_le_coe_iff.2 (mul_le_of_le_one_right hx₀ hy₁))
    _ = x := hx.rounded_eq

theorem denotes_zero_of_le (h₀ : 0 ≤ a) (h : a ≤ 0) : Denotes a 0 := by
  obtain ⟨y, hy, hy₀⟩ := exists_denotes_of_nonneg h₀
  rwa [le_antisymm ((hy.le_iff denotes_zero).1 h) hy₀] at hy

theorem limit_binary32 : limit .binary32 = 2 ^ 128 := by norm_num [limit, Format.exponentBias]

/-- There is room for every number up to the greatest power of two. -/
theorem rounded_coe {x : ℝ} (h : |x| ≤ 2 ^ 127) : rounded x = (nearest .binary32 x : ℝ) := by
  have hrepresentable : Representable .binary32 (2 ^ 127) :=
    ⟨1, 127, by decide, by decide, by norm_num⟩
  have hle := abs_nearest_le hrepresentable h
  have hlt : |nearest .binary32 x| < limit .binary32 := by
    rw [limit_binary32]
    exact hle.trans_lt (by norm_num)
  rw [rounded, nearestExt_coe, fit_coe hlt]

theorem Denotes.add_real {x y : ℝ} (ha : Denotes a x) (hb : Denotes b y) (h : |x + y| ≤ 2 ^ 127) :
    Denotes (a + b) (nearest .binary32 (x + y) : ℝ) := by
  rw [← rounded_coe h, EReal.coe_add]
  exact ha.add hb (not_opposite_coe x y)

theorem Denotes.sub_real {x y : ℝ} (ha : Denotes a x) (hb : Denotes b y) (h : |x - y| ≤ 2 ^ 127) :
    Denotes (a - b) (nearest .binary32 (x - y) : ℝ) := by
  rw [← rounded_coe h, EReal.coe_sub]
  exact ha.sub hb (not_opposite_coe x _)

theorem Denotes.mul_real {x y : ℝ} (ha : Denotes a x) (hb : Denotes b y) (h : |x * y| ≤ 2 ^ 127) :
    Denotes (a * b) (nearest .binary32 (x * y) : ℝ) := by
  rw [← rounded_coe h]
  exact ha.mul hb

/-- Zero times anything is zero, or no number. -/
theorem mul_zero_cases (b : Float32) (ha : Denotes a 0) :
    (b * a).toModel.unpack = .notANumber ∨ ∃ s, (b * a).toModel.unpack = .zero s := by
  obtain ⟨s, hs⟩ := Unpacked.Holds.exists_eq_zero ha
  change unpack .binary32 (pack .binary32 (mul _ b.toModel.unpack a.toModel.unpack)) = _ ∨
    ∃ s, unpack .binary32 (pack .binary32 (mul _ b.toModel.unpack a.toModel.unpack)) = _
  rw [hs]
  rcases Unpacked.mul_zero_cases .binary32 b.toModel.unpack s with h | ⟨s', h⟩
  · rw [h, pack, unpack_packedNaN]
    exact .inl rfl
  · rw [h, pack, unpack_packedZero]
    exact .inr ⟨s', rfl⟩

/-! ## Choosing between two -/

/-- What holds of both holds of the lesser. -/
theorem least_rec {P : Float32 → Prop} (ha : P a) (hb : P b) : P (least a b) := by
  unfold least
  split_ifs
  · exact hb
  · exact ha

theorem greatest_rec {P : Float32 → Prop} (ha : P a) (hb : P b) : P (greatest a b) := by
  unfold greatest
  split_ifs
  · exact hb
  · exact ha

theorem least_of_isNaN (h : a.isNaN = true) (b : Float32) : least a b = b := by
  rw [least, h, Bool.true_or, if_pos rfl]

theorem least_eq_left (ha : a.isNaN = false) (h : ¬b < a) : least a b = a := by
  rw [least, ha, Bool.false_or, if_neg (by rwa [decide_eq_true_iff])]

theorem least_eq_right (h : b < a) : least a b = b := by
  rw [least, decide_eq_true h, Bool.or_true, if_pos rfl]

theorem greatest_of_isNaN (h : a.isNaN = true) (b : Float32) : greatest a b = b := by
  rw [greatest, h, Bool.true_or, if_pos rfl]

theorem greatest_eq_left (ha : a.isNaN = false) (h : ¬a < b) : greatest a b = a := by
  rw [greatest, ha, Bool.false_or, if_neg (by rwa [decide_eq_true_iff])]

theorem greatest_eq_right (h : a < b) : greatest a b = b := by
  rw [greatest, decide_eq_true h, Bool.or_true, if_pos rfl]

theorem le_greatest_right (h : b.isNaN = false) : b ≤ greatest a b := by
  unfold greatest
  split_ifs with hcond
  · exact Single.le_refl h
  · rw [Bool.or_eq_true, decide_eq_true_iff, not_or] at hcond
    exact Single.le_of_not_lt h (Bool.eq_false_iff.2 hcond.1) hcond.2

theorem greatest_le (ha : a ≤ c) (hb : b ≤ c) : greatest a b ≤ c :=
  greatest_rec (P := (· ≤ c)) ha hb

theorem least_le_left (h : a.isNaN = false) : least a b ≤ a := by
  unfold least
  split_ifs with hcond
  · rw [h, Bool.false_or, decide_eq_true_iff] at hcond
    exact Single.le_of_lt hcond
  · exact Single.le_refl h

theorem least_le_right (h : b.isNaN = false) : least a b ≤ b := by
  unfold least
  split_ifs with hcond
  · exact Single.le_refl h
  · rw [Bool.or_eq_true, decide_eq_true_iff, not_or] at hcond
    exact Single.le_of_not_lt (Bool.eq_false_iff.2 hcond.1) h hcond.2

/-- The lesser is within a bound exactly if one of the two is. -/
theorem least_le_iff (h : a.isNaN = false) : least a b ≤ c ↔ a ≤ c ∨ b ≤ c := by
  constructor
  · exact least_rec (P := fun d => d ≤ c → a ≤ c ∨ b ≤ c) .inl .inr
  · rintro (ha | hb)
    · exact Single.le_trans (least_le_left h) ha
    · exact Single.le_trans (least_le_right (isNaN_left_of_le hb)) hb

theorem nonneg_least (ha : ¬a < 0) (hb : 0 ≤ b) : 0 ≤ least a b := by
  unfold least
  split_ifs with hcond
  · exact hb
  · rw [Bool.or_eq_true, decide_eq_true_iff, not_or] at hcond
    exact (not_lt_zero_iff.1 ha).resolve_left hcond.1

theorem le_clamp (ha : a.isNaN = false) (h : b ≤ c) : b ≤ clamp b c a := by
  unfold clamp
  split_ifs with hbelow
  · exact Single.le_refl (isNaN_left_of_le h)
  · exact h
  · exact Single.le_of_not_lt (isNaN_left_of_le h) ha hbelow

theorem clamp_le (ha : a.isNaN = false) (h : b ≤ c) : clamp b c a ≤ c := by
  unfold clamp
  split_ifs with hbelow habove
  · exact h
  · exact Single.le_refl (isNaN_right_of_le h)
  · exact Single.le_of_not_lt ha (isNaN_right_of_le h) habove

/-- What is at or below the lower bound becomes the bound itself, if that is not zero. -/
theorem clamp_eq_left (h : a ≤ b) (hbc : b ≤ c) (hb : Denotes b y) (hy : y ≠ 0) :
    clamp b c a = b := by
  unfold clamp
  split_ifs with hbelow habove
  · rfl
  · exact absurd habove (Single.not_lt_of_le (Single.le_trans h hbc))
  · obtain ⟨z, hz⟩ := exists_denotes (isNaN_left_of_le h)
    have hzy : z = y := le_antisymm ((hz.le_iff hb).1 h) (not_lt.1 (mt (hz.lt_iff hb).2 hbelow))
    exact (hzy ▸ hz).eq_of_ne_zero hb hy

end SignedDistance.Single
