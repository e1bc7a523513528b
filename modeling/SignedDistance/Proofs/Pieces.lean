import Mathlib.Data.List.Basic

set_option autoImplicit false

/-! # Splitting a text

A text that is put together from parts, with a character between them that is in none of them, is
split there into those parts. A text that is laid out in columns has blanks between its parts, as
many as it takes, and is read as the parts without regard to how many. -/

namespace SignedDistance

/-- The parts of a text, without the character that stands between them. -/
def pieces (c : Char) (text : String) : List String := (text.split c).toList.map (·.copy)

variable {c : Char} {parts : List String}

theorem pieces_intercalate (hne : parts ≠ []) (hparts : ∀ s ∈ parts, c ∉ s.toList) :
    pieces c ((String.singleton c).intercalate parts) = parts := by
  rw [pieces, String.toList_split_intercalate hparts, if_neg hne]

theorem pieces_of_not_mem {s : String} (h : c ∉ s.toList) : pieces c s = [s] := by
  have hparts : ∀ t ∈ [s], c ∉ t.toList := fun t ht => List.mem_singleton.1 ht ▸ h
  have hpieces := pieces_intercalate (List.cons_ne_nil _ _) hparts
  rwa [String.intercalate_singleton] at hpieces

/-- To split at one of the places is to split what stands on either side of it. -/
theorem pieces_append_singleton_append (s t : String) :
    pieces c (s ++ String.singleton c ++ t) = pieces c s ++ pieces c t := by
  have hsplit := List.splitOnP_append_cons (p := (· == c)) s.toList t.toList (beq_self_eq_true c)
  simp only [pieces, String.toList_split_char, List.splitOn, String.toList_append,
    String.toList_singleton, List.append_assoc, List.singleton_append, hsplit, List.map_append]

/-- What stands in a text is in its parts or between them. -/
theorem mem_intercalate {sep : String} {d : Char} (h : d ∈ (sep.intercalate parts).toList) :
    d ∈ sep.toList ∨ ∃ s ∈ parts, d ∈ s.toList := by
  induction parts with
  | nil =>
    rw [String.intercalate_nil] at h
    cases h
  | cons s parts ih =>
    rcases parts with _ | ⟨t, parts⟩
    · rw [String.intercalate_singleton] at h
      exact .inr ⟨s, List.mem_cons_self, h⟩
    · rw [String.intercalate_cons_cons, String.toList_append, String.toList_append,
        List.mem_append, List.mem_append] at h
      rcases h with (h | h) | h
      · exact .inr ⟨s, List.mem_cons_self, h⟩
      · exact .inl h
      · exact (ih h).imp id fun ⟨s, hs, hd⟩ => ⟨s, .tail _ hs, hd⟩

/-! ## Columns -/

/-- What a text shows: its parts between blanks, however many blanks there are. -/
def entries (text : String) : List String := (pieces ' ' text).filter (· ≠ "")

theorem entries_empty : entries "" = [] := by
  rw [entries, pieces_of_not_mem List.not_mem_nil]
  rfl

theorem entries_of_not_mem {s : String} (hne : s ≠ "") (h : ' ' ∉ s.toList) : entries s = [s] := by
  rw [entries, pieces_of_not_mem h, List.filter_singleton, decide_eq_true hne]
  rfl

theorem entries_append_blank_append (s t : String) :
    entries (s ++ " " ++ t) = entries s ++ entries t := by
  change (pieces ' ' (s ++ String.singleton ' ' ++ t)).filter _ = _
  rw [pieces_append_singleton_append, List.filter_append]
  rfl

end SignedDistance
