import SignedDistance.Proofs.Number.Alike
import SignedDistance.Proofs.Number.Range

set_option autoImplicit false

/-! # Zeros and infinities

The special values are few: two zeros, two infinities and the NaN. What an operation makes of them
is either a law that the numbers they stand for obey as well, or a matter of these few cases. A
result that is a number, or a finite one, tells the same of the operands of a sum. -/

namespace SignedDistance.Single

open Float.Model (UnpackedFloat)
open Float.Model.UnpackedFloat (pack unpack)

variable {a b : Float32} {x : ℝ} {y : EReal}

theorem denotes_bot : Denotes (-(1 / 0)) ⊥ := EReal.neg_top ▸ denotes_top.neg

/-- What is no finite number is a NaN or one of the infinities. -/
theorem mem_of_not_isFinite (h : ¬a.isFinite = true) : a ∈ [0 / 0, 1 / 0, -(1 / 0)] := by
  rcases number?_cases a with ⟨ha, -⟩ | ⟨y, hy, -⟩
  · rw [eq_of_isNaN (b := 0 / 0) ha (by decide +kernel)]
    exact List.mem_cons_self
  induction y with
  | bot => simp [hy.eq_of_ne_zero denotes_bot EReal.bot_ne_zero]
  | top => simp [hy.eq_of_ne_zero denotes_top EReal.top_ne_zero]
  | coe x => exact absurd (isFinite_iff.2 ⟨x, hy⟩) h

/-- There are two zeros. -/
theorem Denotes.mem_of_zero (h : Denotes a 0) : a ∈ [0, -0] := by
  obtain ⟨-, -, rfl | ⟨rfl, -⟩ | ⟨rfl, -⟩⟩ :=
    Float32.beq_iff_ne_nan_and_eq.1 ((h.beq_iff denotes_zero).2 rfl) <;> simp

/-- Zero over what is neither zero nor a NaN is zero. -/
protected theorem Denotes.zero_div (ha : Denotes a 0) (hb : Denotes b y) (hy : y ≠ 0) :
    Denotes (a / b) 0 := by
  induction y with
  | bot =>
    have hzero : ∀ z ∈ [0, -0], (z / -(1 / 0) == (0 : Float32)) = true := by decide +kernel
    rw [hb.eq_of_ne_zero denotes_bot EReal.bot_ne_zero]
    exact denotes_zero.of_beq (hzero a ha.mem_of_zero)
  | top =>
    have hzero : ∀ z ∈ [0, -0], (z / (1 / 0) == (0 : Float32)) = true := by decide +kernel
    rw [hb.eq_of_ne_zero denotes_top EReal.top_ne_zero]
    exact denotes_zero.of_beq (hzero a ha.mem_of_zero)
  | coe x =>
    have hquotient := Denotes.div (x := 0) (EReal.coe_zero ▸ ha) hb (EReal.coe_ne_zero.1 hy)
    rwa [zero_div, EReal.coe_zero, rounded_zero] at hquotient

theorem Denotes.unpack_ne_zero (ha : Denotes a x) (hx : x ≠ 0) (s : UnpackedFloat.Sign) :
    a.toModel.unpack ≠ .zero s := by
  intro hs
  have hvalue := ha.value
  rw [hs] at hvalue
  exact hx (EReal.coe_eq_zero.1 hvalue.symm)

/-- A number over zero is infinite, unless it is zero itself. -/
theorem Denotes.exists_div_zero (ha : Denotes a x) (hx : x ≠ 0) (hb : Denotes b 0) :
    ∃ s, (a / b).toModel.unpack = .infinity s := by
  obtain ⟨s, hs⟩ := Unpacked.Holds.exists_eq_zero hb
  obtain ⟨t, ht⟩ := Unpacked.exists_div_zero (S := .binary32) (Unpacked.Holds.isFinite ha)
    (ha.unpack_ne_zero hx) s
  refine ⟨t, ?_⟩
  change unpack .binary32
    (pack .binary32 (UnpackedFloat.div _ a.toModel.unpack b.toModel.unpack)) = _
  rw [hs, ht, pack, Unpacked.unpack_packedInfinity]

/-- Adding zero changes nothing but the sign of zero. -/
theorem Denotes.alike_add (hb : Denotes b 0) (a : Float32) : Alike (a + b) a := by
  have hneg := hb.neg
  rw [neg_zero] at hneg
  have h := hneg.alike_sub a
  rwa [Single.sub_eq_add_neg, Single.neg_neg] at h

/-! ## Sums that are numbers -/

/-- A sum that is a number has parts that are numbers, and is rounded once. -/
theorem exists_denotes_add (h : (a + b).isNaN = false) :
    ∃ y z, Denotes a y ∧ Denotes b z ∧ ¬Opposite y z ∧ Denotes (a + b) (rounded (y + z)) := by
  have hnumber : ¬(a + b).isNaN = true := Bool.eq_false_iff.1 h
  rcases number?_cases a with ⟨ha, -⟩ | ⟨y, hy, -⟩
  · exact absurd (isNaN_add (.inl ha)) hnumber
  rcases number?_cases b with ⟨hb, -⟩ | ⟨z, hz, -⟩
  · exact absurd (isNaN_add (.inr hb)) hnumber
  have hne : ¬Opposite y z := fun hopposite => hnumber (hy.isNaN_add hz hopposite)
  exact ⟨y, z, hy, hz, hne, hy.add hz hne⟩

theorem exists_denotes_sub (h : (a - b).isNaN = false) :
    ∃ y z, Denotes a y ∧ Denotes b z ∧ Denotes (a - b) (rounded (y - z)) := by
  rw [Single.sub_eq_add_neg] at h ⊢
  obtain ⟨y, z, hy, hz, -, hsum⟩ := exists_denotes_add h
  refine ⟨y, -z, hy, ?_, ?_⟩
  · rw [← Single.neg_neg b]
    exact hz.neg
  · rwa [sub_eq_add_neg, neg_neg]

/-- What is not negative does not lower a number that it is added to. -/
theorem le_add_self (hb : 0 ≤ b) (h : (a + b).isNaN = false) : a ≤ a + b := by
  obtain ⟨y, z, hy, hz, -, hsum⟩ := exists_denotes_add h
  have hz₀ : 0 ≤ z := (denotes_zero.le_iff hz).1 hb
  rw [hy.le_iff hsum]
  calc y = rounded y := hy.rounded_eq.symm
    _ ≤ rounded (y + z) := rounded_mono (le_add_of_nonneg_right hz₀)

protected theorem sub_le_self (hb : 0 ≤ b) (h : (a - b).isNaN = false) : a - b ≤ a := by
  obtain ⟨y, z, hy, hz, hdiff⟩ := exists_denotes_sub h
  have hz₀ : 0 ≤ z := (denotes_zero.le_iff hz).1 hb
  rw [hdiff.le_iff hy]
  calc rounded (y - z) ≤ rounded y :=
        rounded_mono (add_le_of_nonpos_right (EReal.neg_le_zero.2 hz₀))
    _ = y := hy.rounded_eq

theorem sub_le_zero_of_not_lt (hlt : ¬b < a) (h : (a - b).isNaN = false) : a - b ≤ 0 := by
  obtain ⟨y, z, hy, hz, hdiff⟩ := exists_denotes_sub h
  rw [hz.lt_iff hy, not_lt] at hlt
  rw [hdiff.le_iff denotes_zero]
  calc rounded (y - z) ≤ rounded 0 := rounded_mono (EReal.sub_nonpos.2 hlt)
    _ = 0 := rounded_zero

/-! ## Results that are finite -/

theorem not_isFinite_of_isNaN (h : a.isNaN = true) : ¬a.isFinite = true := by
  intro hfinite
  obtain ⟨x, hx⟩ := isFinite_iff.1 hfinite
  rw [hx.isNaN] at h
  cases h

theorem rounded_top : rounded ⊤ = ⊤ := denotes_top.rounded_eq

theorem rounded_bot : rounded ⊥ = ⊥ := denotes_bot.rounded_eq

/-- A sum is finite only if both its parts are. -/
theorem isFinite_of_isFinite_add (h : (a + b).isFinite = true) :
    a.isFinite = true ∧ b.isFinite = true := by
  obtain ⟨x, hx⟩ := isFinite_iff.1 h
  obtain ⟨y, z, hy, hz, hne, hsum⟩ := exists_denotes_add hx.isNaN
  replace hsum := hsum.unique hx
  rw [isFinite_iff, isFinite_iff]
  induction y with
  | bot =>
    rw [EReal.bot_add, rounded_bot] at hsum
    exact absurd hsum (EReal.bot_ne_coe x)
  | top =>
    have hz' : z ≠ ⊥ := fun hbot => hne (.inl ⟨rfl, hbot⟩)
    rw [EReal.top_add_of_ne_bot hz', rounded_top] at hsum
    exact absurd hsum (EReal.top_ne_coe x)
  | coe y =>
    induction z with
    | bot =>
      rw [EReal.add_bot, rounded_bot] at hsum
      exact absurd hsum (EReal.bot_ne_coe x)
    | top =>
      rw [EReal.coe_add_top, rounded_top] at hsum
      exact absurd hsum (EReal.top_ne_coe x)
    | coe z => exact ⟨⟨y, hy⟩, ⟨z, hz⟩⟩

theorem isFinite_of_isFinite_sub (h : (a - b).isFinite = true) :
    a.isFinite = true ∧ b.isFinite = true := by
  rw [Single.sub_eq_add_neg] at h
  obtain ⟨ha, hb⟩ := isFinite_of_isFinite_add h
  exact ⟨ha, isFinite_neg b ▸ hb⟩

/-- A product is finite only if both its factors are. -/
theorem isFinite_of_isFinite_mul (h : (a * b).isFinite = true) :
    a.isFinite = true ∧ b.isFinite = true := by
  have hproduct : (UnpackedFloat.mul .binary32 a.toModel.unpack b.toModel.unpack).isFinite =
      true :=
    Unpacked.isFinite_of_isFinite_unpack_pack h
  exact Unpacked.isFinite_of_isFinite_mul hproduct

theorem isFinite_sqrt (hfinite : a.isFinite = true) (hnonneg : 0 ≤ a) :
    a.sqrt.isFinite = true := by
  obtain ⟨x, hx, hx₀⟩ := exists_real hfinite hnonneg
  have hroot := hx.sqrt hx₀
  rcases hx₀.eq_or_lt with rfl | hpos
  · rw [Real.sqrt_zero, EReal.coe_zero, rounded_zero] at hroot
    exact isFinite_iff.2 ⟨0, hroot⟩
  · have hbound : |√x| ≤ 2 ^ 127 := by
      rw [abs_of_nonneg (Real.sqrt_nonneg x)]
      exact (hx.sqrt_bounds hpos).2.trans (by norm_num)
    rw [rounded_coe hbound] at hroot
    exact isFinite_iff.2 ⟨_, hroot⟩

theorem abs_nonneg_of_le (h : a.abs ≤ b) : 0 ≤ a.abs :=
  abs_nonneg (isNaN_abs a ▸ isNaN_left_of_le h)

theorem isFinite_of_abs_le (hb : b.isFinite = true) (h : a.abs ≤ b) : a.isFinite = true :=
  isFinite_abs a ▸ isFinite_of_le (abs_nonneg_of_le h) h hb

end SignedDistance.Single
