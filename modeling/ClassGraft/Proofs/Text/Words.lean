import ClassGraft.Text.Characters
import Mathlib.Data.List.DropRight

/-!
# Words and blanks

A word is a text without blanks, and a trimmed text has none at its ends.  What is cut from a text
is of that kind (`Text.isWord_of_mem_words`, `Text.isTrimmed_trim`), and words that are joined by a
blank are taken apart again (`Text.words_append`, `Text.splitAtBlank_append`).
-/

namespace ClassGraft.Text

variable {text word rest piece : List Char}

/-- Whether the text has letters, and none of them is blank. -/
structure IsWord (text : List Char) : Prop where
  ne_nil : text ≠ []
  not_blank : ∀ c ∈ text, isBlank c = false

/-- Whether the text neither starts nor ends with a blank. -/
structure IsTrimmed (text : List Char) : Prop where
  head : ∀ c ∈ text.head?, isBlank c = false
  last : ∀ c ∈ text.getLast?, isBlank c = false

theorem IsWord.isTrimmed (h : IsWord text) : IsTrimmed text :=
  ⟨fun c hc => h.not_blank c (List.mem_of_head? hc),
    fun c hc => h.not_blank c (List.mem_of_getLast? hc)⟩

theorem IsWord.isTrimmed_append (hw : IsWord word) (hr : IsWord rest) :
    IsTrimmed (word ++ ' ' :: rest) := by
  refine ⟨fun c hc => ?_, fun c hc => ?_⟩
  · rw [List.head?_append_of_ne_nil _ hw.ne_nil] at hc
    exact hw.isTrimmed.head c hc
  · obtain ⟨d, others, hrest⟩ := List.exists_cons_of_ne_nil hr.ne_nil
    rw [List.getLast?_append_of_ne_nil _ (List.cons_ne_nil _ _), hrest, List.getLast?_cons_cons,
      ← hrest] at hc
    exact hr.isTrimmed.last c hc

/-! ### Ends -/

theorem trim_of_isTrimmed (h : IsTrimmed text) : trim text = text := by
  have hdrop {list : List Char} (hl : ∀ c ∈ list.head?, isBlank c = false) :
      list.dropWhile isBlank = list := by
    cases list with
    | nil => rfl
    | cons c rest => rw [List.dropWhile_cons_of_neg (by simp [hl c rfl])]
  unfold trim trimEnd
  rw [hdrop h.head, hdrop, List.reverse_reverse]
  rw [List.head?_reverse]
  exact h.last

/-- A text without the blanks at its ends is trimmed. -/
theorem isTrimmed_trim (text : List Char) : IsTrimmed (trim text) := by
  have hhead (list : List Char) : ∀ c ∈ (list.dropWhile isBlank).head?, isBlank c = false := by
    intro c hc
    have hnot := List.head?_dropWhile_not isBlank list
    rw [hc] at hnot
    exact hnot
  refine ⟨fun c hc => ?_, fun c hc => ?_⟩
  · -- what is cut from the end leaves the start as it was
    have hpart : trim text <+: text.dropWhile isBlank := List.rdropWhile_prefix _ _
    obtain ⟨blanks, hblanks⟩ := hpart
    refine hhead text c ?_
    rw [← hblanks, List.head?_append, hc]
    rfl
  · unfold trim trimEnd at hc
    rw [List.getLast?_reverse] at hc
    exact hhead _ c hc

/-- Only blanks are cut from a text. -/
theorem isBlank_of_trim_eq_nil (h : trim text = []) : ∀ c ∈ text, isBlank c = true := by
  unfold trim trimEnd at h
  rw [List.reverse_eq_nil_iff, List.dropWhile_eq_nil_iff] at h
  have hnot := List.head?_dropWhile_not isBlank text
  cases hrest : text.dropWhile isBlank with
  | nil => exact List.dropWhile_eq_nil_iff.mp hrest
  | cons c rest =>
    rw [hrest] at h hnot
    have hblank := h c (List.mem_reverse.mpr List.mem_cons_self)
    exact absurd hblank (Bool.eq_false_iff.mp hnot)

theorem mem_of_mem_trim {c : Char} (h : c ∈ trim text) : c ∈ text := by
  unfold trim trimEnd at h
  have hin := (List.dropWhile_suffix _).subset (List.mem_reverse.mp h)
  exact (List.dropWhile_suffix _).subset (List.mem_reverse.mp hin)

/-! ### Words -/

theorem ne_nil_of_mem_wordsFrom (h : piece ∈ wordsFrom word text) : piece ≠ [] := by
  induction text generalizing word with
  | nil =>
    unfold wordsFrom at h
    split_ifs at h with hempty
    · cases h
    · obtain rfl := List.mem_singleton.mp h
      simpa using hempty
  | cons c rest ih =>
    unfold wordsFrom at h
    split_ifs at h with hblank hempty
    · exact ih h
    · rcases List.mem_cons.mp h with rfl | h
      · simpa using hempty
      · exact ih h
    · exact ih h

/-- The pieces of a text are words. -/
theorem isWord_of_mem_words (h : piece ∈ words text) : IsWord piece :=
  ⟨ne_nil_of_mem_wordsFrom h, fun _ hc =>
    not_isBlank_of_mem_wordsFrom (fun _ hx => absurd hx List.not_mem_nil) h hc⟩

theorem wordsFrom_append (h : ∀ c ∈ word, isBlank c = false) :
    wordsFrom piece (word ++ rest) = wordsFrom (word.reverse ++ piece) rest := by
  induction word generalizing piece with
  | nil => rfl
  | cons c word ih =>
    obtain ⟨hc, hword⟩ := List.forall_mem_cons.mp h
    rw [List.cons_append, wordsFrom, if_neg (by simp [hc]), ih hword, List.reverse_cons,
      List.append_assoc, List.singleton_append]

theorem words_of_isWord (h : IsWord word) : words word = [word] := by
  have hsplit := @wordsFrom_append word [] [] h.not_blank
  rw [List.append_nil, List.append_nil] at hsplit
  unfold words
  rw [hsplit, wordsFrom, if_neg (by simpa using h.ne_nil), List.reverse_reverse]

/-- A blank ends a word. -/
theorem words_append (h : IsWord word) : words (word ++ ' ' :: rest) = word :: words rest := by
  unfold words
  rw [wordsFrom_append h.not_blank, List.append_nil, wordsFrom, if_pos (by decide),
    if_neg (by simpa using h.ne_nil), List.reverse_reverse]

theorem splitAtBlank_of_isWord (h : IsWord word) : splitAtBlank word = (word, none) := by
  have hnot : ∀ c ∈ word, (!isBlank c) = true := fun c hc => by rw [h.not_blank c hc]; rfl
  unfold splitAtBlank
  rw [List.takeWhile_eq_self_iff.mpr hnot, List.dropWhile_eq_nil_iff.mpr hnot]

theorem splitAtBlank_append (h : IsWord word) :
    splitAtBlank (word ++ ' ' :: rest) = (word, some rest) := by
  have hnot : ∀ c ∈ word, (!isBlank c) = true := fun c hc => by rw [h.not_blank c hc]; rfl
  unfold splitAtBlank
  rw [List.takeWhile_append_of_pos hnot, List.dropWhile_append_of_pos hnot,
    List.takeWhile_cons_of_neg (by decide), List.dropWhile_cons_of_neg (by decide),
    List.append_nil]

end ClassGraft.Text
