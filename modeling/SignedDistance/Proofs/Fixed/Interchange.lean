import SignedDistance.Fixed.Halves
import SignedDistance.Proofs.Fixed.Range

set_option autoImplicit false

/-! # Positions as bytes

A raw value is an integer of 64 signed bits, and its halves are the two digits of that integer to
the base `2 ^ 32`, where a negative integer stands in for the one `2 ^ 64` above it. Two digits tell
an integer below `2 ^ 64`, and the range of raw values has one integer for each of these. In the
same way the bytes of a word are its four digits to the base 256, so halves and bytes are two
spellings of one thing, and only the padding is not part of the position. -/

namespace SignedDistance

/-! ## Halves of a number -/

namespace Fixed

theorem toNat_split (a : Fixed) :
    a.split.1.toNat = (a.raw % 2 ^ 32).toNat ∧
      a.split.2.toNat = (a.raw / 2 ^ 32 % 2 ^ 32).toNat := by
  simp only [split, UInt32.toNat_ofNat']
  omega

theorem raw_join (low high : UInt32) : (join low high).raw =
    (high.toNat * 2 ^ 32 + low.toNat : ℤ) - if high.toNat < 2 ^ 31 then 0 else 2 ^ 64 := rfl

theorem join_split (a : Fixed) : join a.split.1 a.split.2 = a := by
  obtain ⟨hlow, hhigh⟩ := a.toNat_split
  obtain ⟨hlower, hupper⟩ := a.fits_raw
  refine ext_raw ?_
  rw [raw_join]
  split <;> omega

theorem split_join (low high : UInt32) : (join low high).split = (low, high) := by
  have hraw := raw_join low high
  obtain ⟨hlow, hhigh⟩ := (join low high).toNat_split
  have hlow_lt := low.toNat_lt
  have hhigh_lt := high.toNat_lt
  refine Prod.ext (UInt32.toNat_inj.1 ?_) (UInt32.toNat_inj.1 ?_) <;> dsimp only <;>
    split at hraw <;> omega

end Fixed

/-! ## Bytes of words -/

namespace Halves

theorem map_toNat_wordBytes (w : UInt32) : (wordBytes w).map UInt8.toNat =
    [w.toNat % 256, w.toNat / 256 % 256, w.toNat / 65536 % 256, w.toNat / 16777216] := by
  have hw := w.toNat_lt
  simp [wordBytes, Nat.shiftRight_eq_div_pow]
  omega

/-- **The bytes of a word are its digits.** -/
theorem ofDigits_wordBytes (w : UInt32) :
    Nat.ofDigits (2 ^ 8) ((wordBytes w).map UInt8.toNat) = w.toNat := by
  rw [map_toNat_wordBytes]
  simp only [Nat.ofDigits_cons, Nat.ofDigits_nil]
  omega

theorem toNat_wordOfBytes (a b c d : UInt8) : (wordOfBytes a b c d).toNat =
    Nat.ofDigits (2 ^ 8) ([a, b, c, d].map UInt8.toNat) := by
  have ha := a.toNat_lt
  have hb := b.toNat_lt
  have hc := c.toNat_lt
  have hd := d.toNat_lt
  simp only [wordOfBytes, UInt32.toNat_ofNat', List.map_cons, List.map_nil, Nat.ofDigits_cons,
    Nat.ofDigits_nil]
  omega

theorem wordBytes_wordOfBytes (a b c d : UInt8) :
    wordBytes (wordOfBytes a b c d) = [a, b, c, d] := by
  have ha := a.toNat_lt
  have hb := b.toNat_lt
  have hc := c.toNat_lt
  have hd := d.toNat_lt
  have hword := toNat_wordOfBytes a b c d
  simp only [List.map_cons, List.map_nil, Nat.ofDigits_cons, Nat.ofDigits_nil] at hword
  refine List.map_injective_iff.2 (fun _ _ => UInt8.toNat_inj.1) ?_
  rw [map_toNat_wordBytes]
  simp only [List.map_cons, List.map_nil, List.cons.injEq, and_true]
  omega

/-- Four bytes in front are one word in front. -/
theorem words?_wordBytes_append (w : UInt32) (rest : List UInt8) :
    words? (wordBytes w ++ rest) = (words? rest).map (w :: ·) := by
  have hword : wordOfBytes w.toUInt8 (w >>> 8).toUInt8 (w >>> 16).toUInt8 (w >>> 24).toUInt8 = w :=
    UInt32.toNat_inj.1 ((toNat_wordOfBytes ..).trans (ofDigits_wordBytes w))
  rw [wordBytes, List.cons_append, List.cons_append, List.cons_append, List.cons_append,
    List.nil_append, words?, hword]

/-- **Words and bytes are two spellings of one row.** -/
theorem words?_eq_some_iff {bytes : List UInt8} {ws : List UInt32} :
    words? bytes = some ws ↔ ws.flatMap wordBytes = bytes := by
  constructor
  · intro h
    fun_induction words? bytes generalizing ws with
    | case1 =>
      cases h
      rfl
    | case2 a b c d rest ih =>
      obtain ⟨ws, hws, rfl⟩ := Option.map_eq_some_iff.1 h
      rw [List.flatMap_cons, wordBytes_wordOfBytes, ih hws]
      rfl
    | case3 => cases h
  · rintro rfl
    induction ws with
    | nil => rfl
    | cons w ws ih => rw [List.flatMap_cons, words?_wordBytes_append, ih, Option.map_some]

/-- A row of bytes as digits of a number, which are digits of its words. -/
theorem ofDigits_flatMap_wordBytes (ws : List UInt32) :
    Nat.ofDigits (2 ^ 8) ((ws.flatMap wordBytes).map UInt8.toNat) =
      Nat.ofDigits (2 ^ 32) (ws.map UInt32.toNat) := by
  induction ws with
  | nil => rfl
  | cons w ws ih =>
    have hlength : ((wordBytes w).map UInt8.toNat).length = 4 := rfl
    rw [List.flatMap_cons, List.map_append, Nat.ofDigits_append, hlength, ofDigits_wordBytes, ih,
      List.map_cons, Nat.ofDigits_cons, ← pow_mul]

/-! ## The layout -/

variable {bytes : List UInt8} {h : Halves}

theorem length_bytes (h : Halves) : h.bytes.length = 32 := rfl

theorem ofBytes?_eq_some_iff : ofBytes? bytes = some h ↔ h.bytes = bytes := by
  rw [Halves.bytes, ← words?_eq_some_iff, ofBytes?]
  constructor
  · intro hsome
    split at hsome
    · next hwords =>
      cases hsome
      exact hwords
    · cases hsome
  · intro hwords
    rw [hwords]
    rfl

theorem bytes_injective : Function.Injective Halves.bytes := fun _ _ heq =>
  Option.some.inj ((ofBytes?_eq_some_iff.2 heq).symm.trans (ofBytes?_eq_some_iff.2 rfl))

end Halves

/-! ## Positions -/

namespace FixedVec

theorem join_split (v : FixedVec) : v.split.join = v := by
  rw [Halves.join, split]
  dsimp only
  rw [Fixed.join_split, Fixed.join_split, Fixed.join_split]

theorem split_injective : Function.Injective split := fun v w h => by
  rw [← v.join_split, ← w.join_split, h]

/-- What joining does not look at is the padding. -/
theorem split_join (h : Halves) : h.join.split = { h with lowPad := 0, highPad := 0 } := by
  rw [split, Halves.join]
  dsimp only
  rw [Fixed.split_join, Fixed.split_join, Fixed.split_join]

/-- The bytes of a position as one number: the low halves and a word of padding, then the high
    halves and a word of padding. -/
theorem ofDigits_bytes_split (v : FixedVec) :
    Nat.ofDigits (2 ^ 8) (v.split.bytes.map UInt8.toNat) = Nat.ofDigits (2 ^ 32)
      (([v.x, v.y, v.z].map fun a => (a.raw % 2 ^ 32).toNat) ++ [0] ++
        ([v.x, v.y, v.z].map fun a => (a.raw / 2 ^ 32 % 2 ^ 32).toNat) ++ [0]) := by
  obtain ⟨hlowX, hhighX⟩ := v.x.toNat_split
  obtain ⟨hlowY, hhighY⟩ := v.y.toNat_split
  obtain ⟨hlowZ, hhighZ⟩ := v.z.toNat_split
  rw [Halves.bytes, Halves.ofDigits_flatMap_wordBytes]
  simp only [List.map_cons, List.map_nil, ← hlowX, ← hhighX, ← hlowY, ← hhighY, ← hlowZ, ← hhighZ]
  rfl

/-- **Nothing is lost when positions are handed over.** Halves join to the position that they came
    from, also if they went through the thirty-two bytes in between, which spell the halves with the
    least byte first. Halves without padding come from the position that they join to, and bytes
    from the halves that they are read as. So different positions have different bytes. -/
theorem split_lossless :
    (∀ v : FixedVec, v.split.join = v ∧
      (Halves.ofBytes? v.split.bytes).map Halves.join = some v ∧ v.split.bytes.length = 32 ∧
      Nat.ofDigits (2 ^ 8) (v.split.bytes.map UInt8.toNat) = Nat.ofDigits (2 ^ 32)
        (([v.x, v.y, v.z].map fun a => (a.raw % 2 ^ 32).toNat) ++ [0] ++
          ([v.x, v.y, v.z].map fun a => (a.raw / 2 ^ 32 % 2 ^ 32).toNat) ++ [0])) ∧
    (∀ h : Halves, h.join.split = h ↔ h.lowPad = 0 ∧ h.highPad = 0) ∧
    (∀ (bytes : List UInt8) (h : Halves), Halves.ofBytes? bytes = some h ↔ h.bytes = bytes) ∧
    ∀ v w : FixedVec, v.split.bytes = w.split.bytes ↔ v = w := by
  refine ⟨fun v => ⟨v.join_split, ?_, v.split.length_bytes, v.ofDigits_bytes_split⟩, fun h => ?_,
    fun _ _ => Halves.ofBytes?_eq_some_iff, fun v w => ?_⟩
  · rw [Halves.ofBytes?_eq_some_iff.2 rfl, Option.map_some, v.join_split]
  · rw [split_join]
    constructor
    · intro heq
      rw [← heq]
      exact ⟨rfl, rfl⟩
    · intro hpads
      cases h
      cases hpads.1
      cases hpads.2
      rfl
  · exact (Halves.bytes_injective.comp split_injective).eq_iff

example : (FixedVec.split ⟨.least, .saturate (-1), .greatest⟩).words =
    [0, 0xffffffff, 0xffffffff, 0, 0x80000000, 0xffffffff, 0x7fffffff, 0] := by decide

end FixedVec

end SignedDistance
