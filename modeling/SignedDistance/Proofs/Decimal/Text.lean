import SignedDistance.Decimal.Literal
import SignedDistance.Proofs.Decimal.Shortest
import SignedDistance.Proofs.Number.Precision
import SignedDistance.Proofs.Number.Sign

set_option autoImplicit false

/-! # The text of a number tells the number

Positional text is digits with perhaps a point between them, and reading it gives the decimal that
was written, whatever zeros have been added at either end. As the fewest digits are rounded to the
number that they were found for, no two singles have one text. -/

namespace SignedDistance

open Float.Model (Format UnpackedFloat)
open Float.Model.UnpackedFloat (Sign)

/-! ## Digits -/

section Digits

variable {ds fs : List Char}

theorem toList_toString (c : ℕ) : (toString c).toList = Nat.toDigits 10 c := by
  rw [Nat.toString_eq_repr, Nat.repr_eq_ofList_toDigits, String.toList_ofList]

theorem toList_pushn (c : Char) (n : ℕ) : ("".pushn c n).toList = List.replicate n c := by
  rw [String.pushn_eq_repeat_push]
  induction n with
  | zero => rfl
  | succ n ih => rw [Nat.repeat, String.toList_push, ih, List.replicate_succ']

theorem toList_insertPoint (text : String) (cut : ℕ) :
    ((text.take cut).toString ++ "." ++ (text.drop cut).toString).toList =
      text.toList.take cut ++ '.' :: text.toList.drop cut := by
  have hbefore : (text.take cut).toString.toList = text.toList.take cut := String.toList_copy_take
  have hbehind : (text.drop cut).toString.toList = text.toList.drop cut := String.toList_copy_drop
  rw [String.toList_append, String.toList_append, hbefore, hbehind, List.append_assoc]
  rfl

theorem isDecimalDigit_of_mem_toDigits {c : ℕ} {d : Char} (h : d ∈ Nat.toDigits 10 c) :
    isDecimalDigit d = true :=
  Nat.isDigit_of_mem_toDigits (by decide) (by decide) h

theorem isDecimalDigit_of_mem_zeros {n : ℕ} {d : Char} (h : d ∈ List.replicate n '0') :
    isDecimalDigit d = true := by
  rw [List.eq_of_mem_replicate h]
  rfl

theorem natOfDigits_eq (ds : List Char) : natOfDigits ds = Nat.ofDigitChars 10 ds 0 := rfl

theorem natOfDigits_toDigits_append_zeros (c n : ℕ) :
    natOfDigits (Nat.toDigits 10 c ++ List.replicate n '0') = c * 10 ^ n := by
  rw [natOfDigits_eq, Nat.ofDigitChars_append, Nat.ofDigitChars_ten_toDigits,
    Nat.ofDigitChars_replicate_zero, Nat.mul_comm]

theorem natOfDigits_zeros_append_toDigits (c n : ℕ) :
    natOfDigits (List.replicate n '0' ++ Nat.toDigits 10 c) = c := by
  rw [natOfDigits_eq, Nat.ofDigitChars_append, Nat.ofDigitChars_replicate_zero, Nat.mul_zero,
    Nat.ofDigitChars_ten_toDigits]

theorem spanDigits_digits (hds : ∀ d ∈ ds, isDecimalDigit d = true) : spanDigits ds = (ds, []) := by
  rw [spanDigits, List.span_eq_takeWhile_dropWhile, List.takeWhile_eq_self_iff.2 hds,
    List.dropWhile_eq_nil_iff.2 hds]

theorem spanDigits_point (hds : ∀ d ∈ ds, isDecimalDigit d = true) (fs : List Char) :
    spanDigits (ds ++ '.' :: fs) = (ds, '.' :: fs) := by
  have hpoint : isDecimalDigit '.' = false := rfl
  rw [spanDigits, List.span_eq_takeWhile_dropWhile, List.takeWhile_append_of_pos hds,
    List.dropWhile_append_of_pos hds]
  simp [hpoint]

theorem decimal?_digits (hds : ∀ d ∈ ds, isDecimalDigit d = true) (hne : ds ≠ []) :
    decimal? ds = some (natOfDigits ds, 0) := by
  simp [decimal?, spanDigits_digits hds, fractionPart, exponentPart?, hne]

theorem decimal?_point (hds : ∀ d ∈ ds, isDecimalDigit d = true) (hne : ds ≠ [])
    (hfs : ∀ d ∈ fs, isDecimalDigit d = true) :
    decimal? (ds ++ '.' :: fs) = some (natOfDigits (ds ++ fs), -(fs.length : ℤ)) := by
  simp [decimal?, spanDigits_point hds, fractionPart, spanDigits_digits hfs, exponentPart?, hne]

end Digits

/-! ## Spelling -/

/-- Text of digits and points, a digit in front, in which the number `y` is read. -/
structure Spells (text : List Char) (y : ℝ) : Prop where
  exists_decimal : ∃ c i, decimal? text = some (c, i) ∧ (c * 10 ^ i : ℝ) = y
  exists_digit : ∃ d rest, text = d :: rest ∧ isDecimalDigit d = true
  chars : ∀ d ∈ text, isDecimalDigit d = true ∨ d = '.'

namespace Spells

variable {text ds fs : List Char} {y z : ℝ}

theorem unique (hy : Spells text y) (hz : Spells text z) : y = z := by
  obtain ⟨c, i, hci, rfl⟩ := hy.exists_decimal
  obtain ⟨c', i', hci', rfl⟩ := hz.exists_decimal
  obtain ⟨rfl, rfl⟩ := Prod.mk.inj (Option.some.inj (hci.symm.trans hci'))
  rfl

theorem splitSign_eq (h : Spells text y) : splitSign text = (false, text) := by
  obtain ⟨d, rest, rfl, hd⟩ := h.exists_digit
  unfold splitSign
  split
  · next heq =>
    cases heq
    cases hd
  · next heq =>
    cases heq
    cases hd
  · rfl

theorem not_isWhitespace (h : Spells text y) : ∀ d ∈ text, d.isWhitespace = false := by
  intro d hd
  rw [Bool.eq_false_iff]
  intro hblank
  simp only [Char.isWhitespace, Bool.or_eq_true, decide_eq_true_eq] at hblank
  rcases hblank with ((rfl | rfl) | rfl) | rfl <;> rcases h.chars _ hd with hd | hd <;> cases hd

theorem of_digits (hds : ∀ d ∈ ds, isDecimalDigit d = true) (hne : ds ≠ []) :
    Spells ds (natOfDigits ds) where
  exists_decimal := ⟨_, _, decimal?_digits hds hne, by simp⟩
  exists_digit := by
    obtain ⟨d, rest, rfl⟩ := List.exists_cons_of_ne_nil hne
    exact ⟨d, rest, rfl, hds d List.mem_cons_self⟩
  chars d hd := .inl (hds d hd)

theorem of_point (hds : ∀ d ∈ ds, isDecimalDigit d = true) (hne : ds ≠ [])
    (hfs : ∀ d ∈ fs, isDecimalDigit d = true) :
    Spells (ds ++ '.' :: fs) (natOfDigits (ds ++ fs) * 10 ^ (-fs.length : ℤ)) where
  exists_decimal := ⟨_, _, decimal?_point hds hne hfs, rfl⟩
  exists_digit := by
    obtain ⟨d, rest, rfl⟩ := List.exists_cons_of_ne_nil hne
    exact ⟨d, rest ++ '.' :: fs, rfl, hds d List.mem_cons_self⟩
  chars d hd := by
    rcases List.mem_append.1 hd with hd | hd
    · exact .inl (hds d hd)
    · exact (List.mem_cons.1 hd).symm.imp (hfs d) id

/-- Zeros in front make room for the point, and do not count. -/
theorem withPoint_succ (c k : ℕ) :
    Spells (withPoint c (k + 1)).toList (c * 10 ^ (-(k + 1 : ℕ) : ℤ)) := by
  set zeros := k + 2 - (Nat.toDigits 10 c).length with hzeros
  set padded := List.replicate zeros '0' ++ Nat.toDigits 10 c with hpadded
  set cut := padded.length - (k + 1) with hcut
  have hlength : k + 2 ≤ padded.length := by
    rw [hpadded, List.length_append, List.length_replicate]
    omega
  have hdigits : ∀ d ∈ padded, isDecimalDigit d = true := fun d hd =>
    (List.mem_append.1 hd).elim isDecimalDigit_of_mem_zeros isDecimalDigit_of_mem_toDigits
  have htext : (withPoint c (k + 1)).toList = padded.take cut ++ '.' :: padded.drop cut := by
    have hstring : ("".pushn '0' (k + 1 + 1 - (toString c).length) ++ toString c).toList =
        padded := by
      rw [String.toList_append, toList_pushn, ← String.length_toList, toList_toString]
    rw [withPoint, if_neg (Nat.succ_ne_zero k), toList_insertPoint, hstring, ← String.length_toList,
      hstring]
  have hbefore : ∀ d ∈ padded.take cut, isDecimalDigit d = true := fun d hd =>
    hdigits d (List.mem_of_mem_take hd)
  have hbehind : ∀ d ∈ padded.drop cut, isDecimalDigit d = true := fun d hd =>
    hdigits d (List.mem_of_mem_drop hd)
  have hne : padded.take cut ≠ [] :=
    List.ne_nil_of_length_pos (by rw [List.length_take]; omega)
  have hpoint := of_point hbefore hne hbehind
  have hplaces : (padded.drop cut).length = k + 1 := by
    rw [List.length_drop]
    omega
  rwa [List.take_append_drop, hplaces, hpadded, natOfDigits_zeros_append_toDigits, ← hpadded,
    ← htext] at hpoint

/-- **Positional text is read as what it was written for.** -/
theorem positional (c : ℕ) (i : ℤ) : Spells (positional c i).toList (c * 10 ^ i) := by
  cases i with
  | ofNat zeros =>
    have hdigits : ∀ d ∈ Nat.toDigits 10 c ++ List.replicate zeros '0', isDecimalDigit d = true :=
      fun d hd => (List.mem_append.1 hd).elim isDecimalDigit_of_mem_toDigits
        isDecimalDigit_of_mem_zeros
    have hspells := of_digits hdigits (List.append_ne_nil_of_left_ne_nil Nat.toDigits_ne_nil _)
    rw [natOfDigits_toDigits_append_zeros] at hspells
    rw [SignedDistance.positional, String.toList_append, toList_toString, toList_pushn]
    simpa using hspells
  | negSucc k => exact withPoint_succ c k

theorem zero : Spells "0".toList 0 := by
  have hdigits : ∀ d ∈ ['0'], isDecimalDigit d = true := List.forall_mem_singleton.2 rfl
  have hvalue : natOfDigits ['0'] = 0 := rfl
  have hspells := of_digits hdigits (List.cons_ne_nil _ _)
  rw [hvalue, Nat.cast_zero] at hspells
  exact hspells

end Spells

/-! ## Signs and magnitudes -/

namespace Unpacked

variable {u v : UnpackedFloat} {x y : ℝ}

/-- The text of a single of which only the magnitude counts. -/
def unsignedText (u : UnpackedFloat) : String := writeParts .binary32 "0" BinaryFraction.text u.abs

theorem spells_unsignedText_finite (s : Sign) {m : ℕ} {e : ℤ} (hm : 0 < m) :
    Spells (unsignedText (.finite s m e hm)).toList
      ((BinaryFraction.ofParts .binary32 m e).shortest.1 *
        10 ^ (BinaryFraction.ofParts .binary32 m e).shortest.2) := by
  rw [unsignedText, UnpackedFloat.abs, writeParts, signText, String.empty_append]
  exact Spells.positional _ _

/-- The words for what is not finite. -/
theorem unsignedText_of_not_isFinite (h : u.isFinite = false) :
    u.abs = .infinity .positive ∧ (unsignedText u).toList = ['i', 'n', 'f'] ∨
      u.abs = .notANumber ∧ (unsignedText u).toList = ['N', 'a', 'N'] := by
  rcases u with s | _ | s | ⟨s, m, e, hm⟩
  · refine .inl ⟨rfl, ?_⟩
    rw [unsignedText, UnpackedFloat.abs, writeParts, signText, String.empty_append]
    rfl
  · exact .inr ⟨rfl, rfl⟩
  · cases h
  · cases h

/-- In front of a magnitude there is no sign, and within it there is no blank. -/
theorem unsignedText_plain (u : UnpackedFloat) :
    splitSign (unsignedText u).toList = (false, (unsignedText u).toList) ∧
      ∀ d ∈ (unsignedText u).toList, d.isWhitespace = false := by
  by_cases hfinite : u.isFinite = true
  · obtain ⟨y, hy⟩ : ∃ y, Spells (unsignedText u).toList y := by
      rcases u with s | _ | s | ⟨s, m, e, hm⟩
      · cases hfinite
      · cases hfinite
      · exact ⟨0, Spells.zero⟩
      · exact ⟨_, spells_unsignedText_finite s hm⟩
    exact ⟨hy.splitSign_eq, hy.not_isWhitespace⟩
  · rcases unsignedText_of_not_isFinite (Bool.eq_false_iff.2 hfinite) with ⟨-, hword⟩ | ⟨-, hword⟩
    all_goals
      rw [hword]
      exact ⟨rfl, by simp [Char.isWhitespace]⟩

theorem toList_writeParts (u : UnpackedFloat) :
    (writeParts .binary32 "0" BinaryFraction.text u).toList =
      (if isNegative u then ['-'] else []) ++ (unsignedText u).toList := by
  rcases u with (_ | _) | _ | (_ | _) | ⟨_ | _, m, e, hm⟩
  all_goals simp [unsignedText, UnpackedFloat.abs, writeParts, signText, isNegative]

/-- A text is a sign and the text of the magnitude. -/
theorem splitSign_writeParts (u : UnpackedFloat) :
    splitSign (writeParts .binary32 "0" BinaryFraction.text u).toList =
      (isNegative u, (unsignedText u).toList) := by
  rw [toList_writeParts]
  cases isNegative u with
  | false => exact (unsignedText_plain u).1
  | true => rfl

/-- A finite float is written with digits, and their number is rounded to its magnitude. -/
theorem exists_spells (hu : Canonical .binary32 u) (hfit : fit .binary32 (value u) = value u)
    (hfinite : u.isFinite = true) : ∃ x y : ℝ, Holds .binary32 u x ∧
      Spells (unsignedText u).toList y ∧ nearest .binary32 y = |x| := by
  obtain ⟨x, hx⟩ := exists_holds_of_isFinite hu hfinite
  refine ⟨x, ?_⟩
  have hlimit : |x| < limit .binary32 := abs_lt_limit_of_fit (hx.value ▸ hfit)
  have hvalue := hx.value
  rcases u with s | _ | s | ⟨s, m, e, hm⟩
  · cases hfinite
  · cases hfinite
  · obtain rfl : (0 : ℝ) = x := EReal.coe_injective hvalue
    exact ⟨0, hx, Spells.zero, by rw [nearest_zero, abs_zero]⟩
  · obtain rfl : (s.apply m * 2 ^ e : ℝ) = x := EReal.coe_injective hvalue
    have habs : |(s.apply m * 2 ^ e : ℝ)| = m * 2 ^ e := by
      rw [← signed_mul_zpow]
      cases s <;> simp [signed]
    rw [habs] at hlimit ⊢
    have he := (CanonicalDigits.lt_limit_iff hu hm Single.binary32_bias_pos).1 hlimit
    exact ⟨_, hx, spells_unsignedText_finite s hm,
      BinaryFraction.nearest_shortest hu hm (he.trans (by decide))⟩

theorem isFinite_of_spells (h : Spells (unsignedText u).toList x) : u.isFinite = true := by
  obtain ⟨d, rest, htext, hd⟩ := h.exists_digit
  by_contra hinfinite
  rcases unsignedText_of_not_isFinite (Bool.eq_false_iff.2 hinfinite) with ⟨-, hword⟩ | ⟨-, hword⟩
  all_goals
    rw [hword] at htext
    cases htext
    cases hd

/-- Floats that there is room for have texts of their own, but for their signs. -/
theorem abs_eq_of_unsignedText (hu : Canonical .binary32 u) (hv : Canonical .binary32 v)
    (hufit : fit .binary32 (value u) = value u) (hvfit : fit .binary32 (value v) = value v)
    (h : unsignedText u = unsignedText v) : u.abs = v.abs := by
  cases hufinite : u.isFinite with
  | true =>
    obtain ⟨x, z, hx, hz, hzx⟩ := exists_spells hu hufit hufinite
    have hvfinite : v.isFinite = true := isFinite_of_spells (h ▸ hz)
    obtain ⟨y, z', hy, hz', hzy⟩ := exists_spells hv hvfit hvfinite
    exact hx.abs_eq hy (by rw [← hzx, ← hzy, hz.unique (h ▸ hz')])
  | false =>
    have hvfinite : v.isFinite = false := by
      refine Bool.eq_false_iff.2 fun hvfinite => Bool.eq_false_iff.1 hufinite ?_
      obtain ⟨y, z, -, hz, -⟩ := exists_spells hv hvfit hvfinite
      exact isFinite_of_spells (h ▸ hz)
    -- each of the two words is that of one float
    rcases unsignedText_of_not_isFinite hufinite with ⟨hu', hword⟩ | ⟨hu', hword⟩ <;>
      rcases unsignedText_of_not_isFinite hvfinite with ⟨hv', hword'⟩ | ⟨hv', hword'⟩ <;>
      rw [h, hword'] at hword
    · rw [hu', hv']
    · cases hword
    · cases hword
    · rw [hu', hv']

end Unpacked

namespace Single

/-- **No two singles have one text.** -/
theorem text_injective : Function.Injective text := by
  intro a b h
  have hsplit := congrArg (fun s => splitSign s.toList) h
  simp only [text, Unpacked.splitSign_writeParts, Prod.mk.injEq, String.toList_inj] at hsplit
  obtain ⟨hsign, hmagnitude⟩ := hsplit
  have hafit := Unpacked.fit_value_unpack binary32_bias_pos a.toModel.valid
  have hbfit := Unpacked.fit_value_unpack binary32_bias_pos b.toModel.valid
  refine eq_of_unpack_eq (Unpacked.eq_of_abs_eq ?_ hsign)
  exact Unpacked.abs_eq_of_unsignedText (Unpacked.canonical_unpack _ _)
    (Unpacked.canonical_unpack _ _) hafit hbfit hmagnitude

theorem not_isWhitespace_text (a : Float32) : ∀ d ∈ (text a).toList, d.isWhitespace = false := by
  intro d hd
  rw [text, Unpacked.toList_writeParts, List.mem_append] at hd
  rcases hd with hd | hd
  · split_ifs at hd
    · rw [List.mem_singleton.1 hd]
      rfl
    · cases hd
  · exact (Unpacked.unsignedText_plain _).2 d hd

theorem not_isWhitespace_fixedText (k : ℕ) (a : Float32) :
    ∀ d ∈ (fixedText (k + 1) a).toList, d.isWhitespace = false := by
  have hsign : ∀ s, ∀ d ∈ (signText s).toList, d.isWhitespace = false := by
    intro s
    cases s <;> simp [signText, Char.isWhitespace]
  have hsigned : ∀ s text, (∀ d ∈ text.toList, d.isWhitespace = false) →
      ∀ d ∈ (signText s ++ text).toList, d.isWhitespace = false := by
    intro s text htext d hd
    rw [String.toList_append, List.mem_append] at hd
    exact hd.elim (hsign s d) (htext d)
  unfold fixedText writeParts
  split
  · simp [Char.isWhitespace]
  · exact hsigned _ _ (by simp [Char.isWhitespace])
  · exact hsigned _ _ (Spells.withPoint_succ _ _).not_isWhitespace
  · exact hsigned _ _ (Spells.withPoint_succ _ _).not_isWhitespace

end Single

end SignedDistance
