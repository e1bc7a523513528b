import SignedDistance.Proofs.Number.Single

set_option autoImplicit false

/-! # Singles up to the sign of zero

Two singles are alike if they are the same or compare as equal: zeros of two signs are alike, and
the one NaN is alike to itself. To be alike is to stand for the same number, or for none
(`alike_iff`). What operations do is therefore said of the numbers: the lesser and the greater of
two drop what is no number, and a sum is rounded or, for infinities of two signs, no number. -/

namespace SignedDistance.Single

open Float.Model (UnpackedFloat)

/-- The same single, or zeros of two signs. -/
def Alike (a b : Float32) : Prop := a = b ∨ (a == b) = true

variable {a b c d : Float32} {y z : EReal}

@[refl] protected theorem Alike.refl (a : Float32) : Alike a a := .inl rfl

/-! ## The number of a single -/

/-- The number that a single stands for, if it stands for any. -/
noncomputable def number? (a : Float32) : Option EReal :=
  if a.isNaN then none else some (Unpacked.value a.toModel.unpack)

theorem number?_eq_none : number? a = none ↔ a.isNaN = true := by
  rw [number?]
  cases h : a.isNaN
  · exact iff_of_false (Option.some_ne_none _) Bool.false_ne_true
  · exact iff_of_true rfl rfl

theorem Denotes.number?_eq (h : Denotes a y) : number? a = some y := by
  rw [number?, h.isNaN, if_neg Bool.false_ne_true, h.value]

theorem number?_eq_some : number? a = some y ↔ Denotes a y := by
  refine ⟨fun h => ?_, Denotes.number?_eq⟩
  have hnan : a.isNaN = false := by
    by_contra hnan
    rw [number?_eq_none.2 (Bool.not_eq_false _ ▸ hnan)] at h
    cases h
  obtain ⟨z, hz⟩ := exists_denotes hnan
  rw [hz.number?_eq, Option.some_inj] at h
  exact h ▸ hz

theorem number?_cases (a : Float32) :
    a.isNaN = true ∧ number? a = none ∨ ∃ y, Denotes a y ∧ number? a = some y := by
  cases h : number? a with
  | none => exact .inl ⟨number?_eq_none.1 h, rfl⟩
  | some y => exact .inr ⟨y, number?_eq_some.1 h, rfl⟩

/-- There is one NaN. -/
theorem eq_of_isNaN (ha : a.isNaN = true) (hb : b.isNaN = true) : a = b := by
  rw [Float32.isNaN_eq_decide_eq_nan, decide_eq_true_iff] at ha hb
  rw [ha, hb]

/-- **To be alike is to stand for the same number**, or for none. -/
theorem alike_iff : Alike a b ↔ number? a = number? b := by
  constructor
  · rintro (rfl | h)
    · rfl
    · obtain ⟨ha, hb, -⟩ := Float32.beq_iff_ne_nan_and_eq.1 h
      obtain ⟨y, hy⟩ := exists_denotes (a := a) (by simpa using ha)
      obtain ⟨z, hz⟩ := exists_denotes (a := b) (by simpa using hb)
      rw [hy.number?_eq, hz.number?_eq, (hy.beq_iff hz).1 h]
  · intro h
    rcases number?_cases a with ⟨ha, hnone⟩ | ⟨y, hy, hsome⟩
    · exact .inl (eq_of_isNaN ha (number?_eq_none.1 (h ▸ hnone)))
    · have hb : Denotes b y := number?_eq_some.1 (h ▸ hsome)
      exact .inr ((hy.beq_iff hb).2 rfl)

theorem Denotes.alike (ha : Denotes a y) (hb : Denotes b y) : Alike a b :=
  .inr ((ha.beq_iff hb).2 rfl)

@[symm] theorem Alike.symm (h : Alike a b) : Alike b a := alike_iff.2 (alike_iff.1 h).symm

@[trans] theorem Alike.trans (h : Alike a b) (h' : Alike b c) : Alike a c :=
  alike_iff.2 ((alike_iff.1 h).trans (alike_iff.1 h'))

theorem Alike.abs_eq (h : Alike a b) : a.abs = b.abs := by
  rcases h with rfl | h
  · rfl
  · obtain ⟨-, -, rfl | ⟨rfl, rfl⟩ | ⟨rfl, rfl⟩⟩ := Float32.beq_iff_ne_nan_and_eq.1 h
    · rfl
    · rfl
    · rfl

/-! ## Choosing between two -/

theorem number?_least (a b : Float32) :
    number? (least a b) = (number? a).merge min (number? b) := by
  rcases number?_cases a with ⟨ha, hya⟩ | ⟨y, hy, hya⟩
  · rw [least_of_isNaN ha, hya, Option.merge_none_left]
  rcases number?_cases b with ⟨hb, hzb⟩ | ⟨z, hz, hzb⟩
  · rw [least_eq_left hy.isNaN (not_lt_of_isNaN hb), hzb, Option.merge_none_right]
  by_cases hlt : b < a
  · rw [least_eq_right hlt, hya, hzb, Option.merge_some_some,
      min_eq_right ((hz.lt_iff hy).1 hlt).le]
  · rw [least_eq_left hy.isNaN hlt, hya, hzb, Option.merge_some_some,
      min_eq_left (not_lt.1 (mt (hz.lt_iff hy).2 hlt))]

theorem number?_greatest (a b : Float32) :
    number? (greatest a b) = (number? a).merge max (number? b) := by
  rcases number?_cases a with ⟨ha, hya⟩ | ⟨y, hy, hya⟩
  · rw [greatest_of_isNaN ha, hya, Option.merge_none_left]
  rcases number?_cases b with ⟨hb, hzb⟩ | ⟨z, hz, hzb⟩
  · rw [greatest_eq_left hy.isNaN (not_lt_of_isNaN_right hb), hzb, Option.merge_none_right]
  by_cases hlt : a < b
  · rw [greatest_eq_right hlt, hya, hzb, Option.merge_some_some,
      max_eq_right ((hy.lt_iff hz).1 hlt).le]
  · rw [greatest_eq_left hy.isNaN hlt, hya, hzb, Option.merge_some_some,
      max_eq_left (not_lt.1 (mt (hy.lt_iff hz).2 hlt))]

theorem number?_neg (a : Float32) : number? (-a) = (number? a).map Neg.neg := by
  rcases number?_cases a with ⟨ha, hya⟩ | ⟨y, hy, hya⟩
  · rw [hya, Option.map_none, number?_eq_none, isNaN_neg, ha]
  · rw [hya, Option.map_some, hy.neg.number?_eq]

theorem least_comm (a b : Float32) : Alike (least a b) (least b a) := by
  rw [alike_iff, number?_least, number?_least]
  exact Std.Commutative.comm _ _

theorem least_assoc (a b c : Float32) : Alike (least (least a b) c) (least a (least b c)) := by
  rw [alike_iff]
  simp only [number?_least]
  exact Std.Associative.assoc _ _ _

theorem least_self (a : Float32) : Alike (least a a) a := by
  rw [alike_iff, number?_least]
  exact Std.IdempotentOp.idempotent _

theorem greatest_comm (a b : Float32) : Alike (greatest a b) (greatest b a) := by
  rw [alike_iff, number?_greatest, number?_greatest]
  exact Std.Commutative.comm _ _

theorem greatest_assoc (a b c : Float32) :
    Alike (greatest (greatest a b) c) (greatest a (greatest b c)) := by
  rw [alike_iff]
  simp only [number?_greatest]
  exact Std.Associative.assoc _ _ _

theorem greatest_self (a : Float32) : Alike (greatest a a) a := by
  rw [alike_iff, number?_greatest]
  exact Std.IdempotentOp.idempotent _

/-- What is taken away at once may be taken away one after the other. -/
theorem greatest_neg_least (a b c : Float32) :
    Alike (greatest a (-least b c)) (greatest (greatest a (-b)) (-c)) := by
  have hneg (o o' : Option EReal) :
      (o.merge min o').map Neg.neg = (o.map Neg.neg).merge max (o'.map Neg.neg) := by
    cases o <;> cases o' <;> simp [EReal.max_neg_neg]
  rw [alike_iff]
  simp only [number?_greatest, number?_neg, number?_least, hneg]
  exact (Std.Associative.assoc _ _ _).symm

theorem least_greatest_self (ha : a.isNaN = false) (hb : b.isNaN = false) :
    Alike (least a (greatest a b)) a := by
  obtain ⟨y, hy⟩ := exists_denotes ha
  obtain ⟨z, hz⟩ := exists_denotes hb
  simp [alike_iff, number?_least, number?_greatest, hy.number?_eq, hz.number?_eq]

theorem greatest_least_self (ha : a.isNaN = false) (hb : b.isNaN = false) :
    Alike (greatest a (least a b)) a := by
  obtain ⟨y, hy⟩ := exists_denotes ha
  obtain ⟨z, hz⟩ := exists_denotes hb
  simp [alike_iff, number?_least, number?_greatest, hy.number?_eq, hz.number?_eq]

theorem least_greatest_distrib (ha : a.isNaN = false) (hb : b.isNaN = false)
    (hc : c.isNaN = false) :
    Alike (least a (greatest b c)) (greatest (least a b) (least a c)) := by
  obtain ⟨x, hx⟩ := exists_denotes ha
  obtain ⟨y, hy⟩ := exists_denotes hb
  obtain ⟨z, hz⟩ := exists_denotes hc
  simp [alike_iff, number?_least, number?_greatest, hx.number?_eq, hy.number?_eq, hz.number?_eq,
    min_max_distrib_left]

theorem greatest_least_distrib (ha : a.isNaN = false) (hb : b.isNaN = false)
    (hc : c.isNaN = false) :
    Alike (greatest a (least b c)) (least (greatest a b) (greatest a c)) := by
  obtain ⟨x, hx⟩ := exists_denotes ha
  obtain ⟨y, hy⟩ := exists_denotes hb
  obtain ⟨z, hz⟩ := exists_denotes hc
  simp [alike_iff, number?_least, number?_greatest, hx.number?_eq, hy.number?_eq, hz.number?_eq,
    max_min_distrib_left]

/-! ## Sums and differences -/

open Classical in
/-- The rounded sum of two numbers; infinities of two signs have none. -/
noncomputable def sum? (y z : EReal) : Option EReal :=
  if Opposite y z then none else some (rounded (y + z))

theorem Denotes.isNaN_add (ha : Denotes a y) (hb : Denotes b z) (h : Opposite y z) :
    (a + b).isNaN = true := by
  have htop {u : UnpackedFloat} (hu : Unpacked.Holds .binary32 u ⊤) : u = .infinity .positive :=
    hu.eq_of_ne_zero (.top _) EReal.top_ne_zero
  have hbot {u : UnpackedFloat} (hu : Unpacked.Holds .binary32 u ⊥) : u = .infinity .negative :=
    hu.eq_of_ne_zero (.bot _) EReal.bot_ne_zero
  refine Unpacked.isNaN_unpack_pack .binary32 ?_
  rcases h with ⟨rfl, rfl⟩ | ⟨rfl, rfl⟩
  · rw [htop ha, hbot hb]
    rfl
  · rw [hbot ha, htop hb]
    rfl

theorem number?_add (a b : Float32) :
    number? (a + b) = (number? a).bind fun y => (number? b).bind (sum? y) := by
  rcases number?_cases a with ⟨ha, hya⟩ | ⟨y, hy, hya⟩
  · rw [hya, Option.bind_none, number?_eq_none, isNaN_add (.inl ha)]
  rcases number?_cases b with ⟨hb, hzb⟩ | ⟨z, hz, hzb⟩
  · rw [hya, hzb, Option.bind_some, Option.bind_none, number?_eq_none, isNaN_add (.inr hb)]
  rw [hya, hzb, Option.bind_some, Option.bind_some, sum?]
  split_ifs with hopposite
  · exact number?_eq_none.2 (hy.isNaN_add hz hopposite)
  · exact (hy.add hz hopposite).number?_eq

protected theorem sub_eq_add_neg (a b : Float32) : a - b = a + -b := by
  change Float32.ofModel (.pack (.sub _ a.toModel.unpack b.toModel.unpack)) =
    .ofModel (.pack (.add _ a.toModel.unpack (-b).toModel.unpack))
  rw [unpack_neg, Unpacked.sub_eq_add]

theorem Alike.add (h : Alike a b) (h' : Alike c d) : Alike (a + c) (b + d) := by
  rw [alike_iff] at h h' ⊢
  rw [number?_add, number?_add, h, h']

theorem Alike.neg (h : Alike a b) : Alike (-a) (-b) := by
  rw [alike_iff] at h ⊢
  rw [number?_neg, number?_neg, h]

theorem Alike.sub (h : Alike a b) (h' : Alike c d) : Alike (a - c) (b - d) := by
  rw [Single.sub_eq_add_neg, Single.sub_eq_add_neg]
  exact h.add h'.neg

theorem rounded_neg (y : EReal) : rounded (-y) = -rounded y := by
  have hnearest : nearestExt .binary32 (-y) = -nearestExt .binary32 y := by
    induction y with
    | bot => simp
    | top => simp
    | coe x => rw [← EReal.coe_neg, nearestExt_coe, nearestExt_coe, nearest_neg, EReal.coe_neg]
  rw [rounded, hnearest, fit_neg, rounded]

theorem sum?_comm (y z : EReal) : sum? y z = sum? z y := by
  have hiff : Opposite y z ↔ Opposite z y := by
    unfold Opposite
    tauto
  classical
  rw [sum?, sum?, add_comm y z]
  exact if_congr hiff rfl rfl

theorem sum?_neg (y z : EReal) : sum? (-y) (-z) = (sum? y z).map Neg.neg := by
  have hiff : Opposite (-y) (-z) ↔ Opposite y z := by
    unfold Opposite
    simp only [EReal.neg_eq_top_iff, EReal.neg_eq_bot_iff]
    tauto
  by_cases h : Opposite y z
  · rw [sum?, sum?, if_pos h, if_pos (hiff.2 h), Option.map_none]
  · rw [sum?, sum?, if_neg h, if_neg (mt hiff.1 h)]
    rw [Opposite, not_or, not_and_or, not_and_or] at h
    rw [Option.map_some, ← rounded_neg, EReal.neg_add h.2 h.1, sub_eq_add_neg]

/-- The opposite of a sum is the sum of the opposites. -/
theorem neg_add_alike (a b : Float32) : Alike (-(a + b)) (-a + -b) := by
  rw [alike_iff]
  simp only [number?_neg, number?_add]
  cases number? a with
  | none => rfl
  | some y =>
    cases number? b with
    | none => rfl
    | some z => exact (sum?_neg y z).symm

/-- A difference the other way round is the opposite one. -/
theorem neg_sub_alike (a b : Float32) : Alike (-(a - b)) (b - a) := by
  rw [Single.sub_eq_add_neg, Single.sub_eq_add_neg, alike_iff]
  simp only [number?_neg, number?_add]
  cases number? a with
  | none => cases number? b <;> rfl
  | some y =>
    cases number? b with
    | none => rfl
    | some z =>
      have hneg := sum?_neg y (-z)
      rw [neg_neg, sum?_comm] at hneg
      exact hneg.symm

/-- Taking zero away changes nothing but the sign of a zero. -/
theorem Denotes.alike_sub (hb : Denotes b 0) (a : Float32) : Alike (a - b) a := by
  rcases number?_cases a with ⟨ha, hya⟩ | ⟨y, hy, hya⟩
  · rw [alike_iff, Single.sub_eq_add_neg, number?_add, hya, Option.bind_none]
  · have hdiff := hy.sub hb (by rw [neg_zero]; exact fun h => by simp [Opposite] at h)
    rw [sub_zero, hy.rounded_eq] at hdiff
    exact hdiff.alike hy

/-- The distance between two singles is the same from both sides. -/
theorem abs_sub_comm (a b : Float32) : (a - b).abs = (b - a).abs := by
  rw [← abs_neg]
  exact (neg_sub_alike a b).abs_eq

end SignedDistance.Single
