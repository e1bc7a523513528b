import SignedDistance.Proofs.Construction
import SignedDistance.Proofs.Decimal.Text
import SignedDistance.Proofs.Evaluation
import SignedDistance.Proofs.Pieces

set_option autoImplicit false

/-! # What the text of a program tells

An opcode starts a line and a number goes behind a blank. There is no blank in the name of an opcode
and none in the text of a number, so the blanks and the ends of the lines are where they have been
put, and splitting the text there gives back the names and the numbers. As no two opcodes have one
name and no two numbers one text, that is all of the words. -/

namespace SignedDistance

/-! ## Names -/

namespace Opcode

theorem ofName?_name (o : Opcode) : ofName? o.name = some o := by
  cases o <;> rfl

theorem name_injective : Function.Injective name := fun o o' h =>
  Option.some.inj (by rw [← ofName?_name o, ← ofName?_name o', h])

theorem not_isWhitespace_name (o : Opcode) : ∀ d ∈ o.name.toList, d.isWhitespace = false := by
  cases o <;> simp [name, Char.isWhitespace]

end Opcode

/-- Whether a word is an opcode. -/
def Word.isOpcode : Word → Bool
  | .op _ => true
  | .imm _ => false

/-! ## Lines -/

namespace Instruction

/-- What is told of an instruction: the name of its opcode and the text of each of its numbers. -/
def tokens (i : Instruction) : List String := i.opcode.name :: i.immediates.map Single.text

/-- The line of an instruction. -/
def line (i : Instruction) : String := (String.singleton ' ').intercalate i.tokens

theorem tokens_injective : Function.Injective tokens := by
  intro i j h
  obtain ⟨hname, htexts⟩ := List.cons.inj h
  have hopcode := Opcode.name_injective hname
  have himmediates := Single.text_injective.list_map htexts
  refine Option.some.inj ?_
  rw [← ofImmediates?_self i, ← ofImmediates?_self j, hopcode, himmediates]

theorem not_isWhitespace_tokens (i : Instruction) :
    ∀ s ∈ i.tokens, ∀ d ∈ s.toList, d.isWhitespace = false := by
  intro s hs
  rcases List.mem_cons.1 hs with rfl | hs
  · exact i.opcode.not_isWhitespace_name
  · obtain ⟨v, -, rfl⟩ := List.mem_map.1 hs
    exact Single.not_isWhitespace_text v

/-- **A line tells the name and the numbers.** -/
theorem pieces_line (i : Instruction) : pieces ' ' i.line = i.tokens := by
  refine pieces_intercalate (List.cons_ne_nil _ _) fun s hs hblank => ?_
  cases i.not_isWhitespace_tokens s hs ' ' hblank

theorem line_injective : Function.Injective line := fun i j h =>
  tokens_injective (by rw [← pieces_line i, ← pieces_line j, h])

theorem newline_not_mem_line (i : Instruction) : '\n' ∉ i.line.toList := by
  intro h
  rcases mem_intercalate h with h | ⟨s, hs, h⟩
  · cases List.mem_singleton.1 h
  · cases i.not_isWhitespace_tokens s hs '\n' h

theorem countP_isOpcode (is : List Instruction) :
    (is.flatMap words).countP Word.isOpcode = is.length := by
  induction is with
  | nil => rfl
  | cons i is ih =>
    rw [List.flatMap_cons, List.countP_append, ih, i.countP_words fun _ => rfl, Nat.add_comm]
    rfl

end Instruction

/-! ## Texts -/

namespace Program

/-- Numbers are put behind what stands there already. -/
theorem append_wordsText_numbers (s : String) (first : Bool) (vs : List Float32)
    (rest : List Word) :
    s ++ wordsText first (vs.map Word.imm ++ rest) =
      (String.singleton ' ').intercalate (s :: vs.map Single.text) ++ wordsText first rest := by
  induction vs generalizing s with
  | nil => simp
  | cons v vs ih =>
    have hblank : " " = String.singleton ' ' := rfl
    calc s ++ wordsText first (Word.imm v :: (vs.map Word.imm ++ rest))
        = s ++ String.singleton ' ' ++ Single.text v ++
            wordsText first (vs.map Word.imm ++ rest) := by
          rw [wordsText, hblank]
          simp only [String.append_assoc]
      _ = _ := by
          rw [ih, String.intercalate_cons_append, List.map_cons, String.intercalate_cons_cons]

theorem wordsText_words (first : Bool) (i : Instruction) (rest : List Word) :
    wordsText first (i.words ++ rest) =
      (if first then "" else "\n") ++ i.line ++ wordsText false rest := by
  rw [Instruction.words, List.cons_append, wordsText, append_wordsText_numbers,
    String.intercalate_cons_append]
  rfl

theorem append_wordsText_flatMap (s : String) (is : List Instruction) :
    s ++ wordsText false (is.flatMap Instruction.words) =
      (String.singleton '\n').intercalate (s :: is.map Instruction.line) := by
  induction is generalizing s with
  | nil => simp [wordsText]
  | cons i is ih =>
    have hnewline : (if false = true then "" else "\n") = String.singleton '\n' := rfl
    rw [List.flatMap_cons, wordsText_words, hnewline, ← String.append_assoc, ih,
      ← String.append_assoc, String.intercalate_cons_append, List.map_cons,
      String.intercalate_cons_cons]

/-- The lines of a program are those of its instructions. -/
theorem pieces_wordsText {is : List Instruction} (hne : is ≠ []) :
    pieces '\n' (wordsText true (is.flatMap Instruction.words)) = is.map Instruction.line := by
  obtain ⟨i, is, rfl⟩ := List.exists_cons_of_ne_nil hne
  rw [List.flatMap_cons, wordsText_words, if_pos rfl, String.empty_append, append_wordsText_flatMap,
    ← List.map_cons]
  refine pieces_intercalate (List.cons_ne_nil _ _) fun s hs => ?_
  obtain ⟨j, -, rfl⟩ := List.mem_map.1 hs
  exact j.newline_not_mem_line

end Program

theorem Assembly.code_ne_nil (e : Assembly) : e.code ≠ [] := by
  cases e <;> simp [code]

theorem Session.exists_code {programs : List Program} (h : Session programs) {p : Program}
    (hp : p ∈ programs) : ∃ is ≠ [], p.words = is.flatMap Instruction.words := by
  obtain ⟨e, rfl⟩ := h.exists_assembly p hp
  exact ⟨e.code, e.code_ne_nil, rfl⟩

/-- **The text of a program tells all of its words.** Programs of any two sessions have the same
    text exactly if they have the same words. A program is a row of instructions, and its text has a
    line for each: the name of the opcode, and the texts of as many numbers as the opcode needs. -/
theorem Session.text_eq_iff {programs programs' : List Program} (h : Session programs)
    (h' : Session programs') {p q : Program} (hp : p ∈ programs) (hq : q ∈ programs') :
    (p.text = q.text ↔ p.words = q.words) ∧
    ∃ is : List Instruction, p.words = is.flatMap Instruction.words ∧
      (pieces '\n' p.text).map (pieces ' ') =
        is.map (fun i => i.opcode.name :: i.immediates.map Single.text) ∧
      (∀ i ∈ is, i.immediates.length = i.opcode.immediates) ∧
      (pieces '\n' p.text).length = p.words.countP Word.isOpcode := by
  obtain ⟨is, hne, his⟩ := h.exists_code hp
  obtain ⟨js, hne', hjs⟩ := h'.exists_code hq
  have hlines : pieces '\n' p.text = is.map Instruction.line := by
    rw [Program.text, his, Program.pieces_wordsText hne]
  have hlines' : pieces '\n' q.text = js.map Instruction.line := by
    rw [Program.text, hjs, Program.pieces_wordsText hne']
  refine ⟨⟨fun htext => ?_, fun hwords => by rw [Program.text, Program.text, hwords]⟩,
    is, his, ?_, fun i _ => i.length_immediates, ?_⟩
  · rw [htext, hlines'] at hlines
    rw [his, hjs, Instruction.line_injective.list_map hlines]
  · rw [hlines, List.map_map]
    exact List.map_congr_left fun i _ => i.pieces_line
  · rw [hlines, his, Instruction.countP_isOpcode, List.length_map]

/-- The sign of a zero is told, and where a solid is put is not. -/
theorem Session.text_eq_iff_spheres :
    ∃ p q : Program, p = Program.sphere 0 ∧ q = (Program.sphere (-0)).translate ⟨1, 2, 3⟩ ∧
      p.text ≠ q.text ∧ (pieces '\n' q.text).length = 1 ∧
      q.text = (Program.sphere (-0)).text := by
  have hp : Session [Program.sphere 0] := .call .start (.sphere 0)
  have hq := Session.call (.call .start (.sphere (-0))) (.translate (.head _) ⟨1, 2, 3⟩)
  have hdiffer : ¬(Program.sphere 0).words = ((Program.sphere (-0)).translate ⟨1, 2, 3⟩).words := by
    intro hwords
    have hnumbers : (0 : Float32) * 0.5 = -0 * 0.5 :=
      Word.imm.inj (List.cons.inj (List.cons.inj hwords).2).1
    exact absurd (congrArg Float32.toBits hnumbers) (by decide +kernel)
  refine ⟨_, _, rfl, rfl, mt (hp.text_eq_iff hq (.head _) (.head _)).1.1 hdiffer, ?_, ?_⟩
  · obtain ⟨-, -, -, -, -, hlines⟩ := hq.text_eq_iff hq (.head _) (.head _)
    exact hlines
  · exact (hq.text_eq_iff hq (.head _) (.tail _ (.head _))).1.2 rfl

end SignedDistance
