import DialogueScript.Text.Blank

/-!
# Texts

A text is the list of its characters. This module trims a text, cuts it into words, and parts it
at a character. A word is a longest run of characters that are not blank.
-/

namespace DialogueScript

abbrev Text := List Char

namespace Text

/-! ## Trimming -/

def trimStart (s : Text) : Text := s.dropWhile isBlank

def trimEnd (s : Text) : Text := (s.reverse.dropWhile isBlank).reverse

/-- The text without the blanks at its two ends. -/
def trim (s : Text) : Text := trimEnd (trimStart s)

/-- Only blanks are trimmed away at the start. -/
theorem eq_append_trimStart (s : Text) :
    ∃ blank : Text, (∀ c ∈ blank, isBlank c = true) ∧ s = blank ++ trimStart s :=
  ⟨s.takeWhile isBlank, List.all_eq_true.1 List.all_takeWhile, List.takeWhile_append_dropWhile.symm⟩

theorem trimStart_of_head {s : Text} (h : ∀ c ∈ s.head?, isBlank c = false) : trimStart s = s := by
  cases s with
  | nil => rfl
  | cons c s => simp [trimStart, h c rfl]

/-- All blanks at the start are trimmed away. -/
theorem trimStart_blank_append {blank s : Text} (hb : ∀ c ∈ blank, isBlank c = true)
    (hs : ∀ c ∈ s.head?, isBlank c = false) : trimStart (blank ++ s) = s := by
  rw [trimStart, List.dropWhile_append_of_pos hb]
  exact trimStart_of_head hs

/-! ## Words -/

def words (s : Text) : List Text := (s.splitOnP isBlank).filter fun w => !w.isEmpty

theorem ne_nil_of_mem_words {s w : Text} (h : w ∈ words s) : w ≠ [] := by
  simpa using (List.mem_filter.1 h).2

def headWord (s : Text) : Text := (trimStart s).takeWhile fun c => !isBlank c

/-- What follows the first word and the blanks after it; blanks at the end stay. -/
def afterWord (s : Text) : Text := trimStart ((trimStart s).dropWhile fun c => !isBlank c)

/-! ## Parting at a character -/

/-- The text before the first `c`, or all of it. -/
def before (c : Char) (s : Text) : Text := s.takeWhile (· != c)

/-- The text after the first `c`, or nothing. -/
def after (c : Char) (s : Text) : Text := (s.dropWhile (· != c)).drop 1

/-! ## The start of a text -/

/-- The rest of a text that starts with `w`. -/
def restAfter? : (w s : Text) → Option Text
  | [], s => some s
  | _ :: _, [] => none
  | a :: w, c :: s => if a = c then restAfter? w s else none

theorem restAfter?_eq_some_iff {w s rest : Text} : restAfter? w s = some rest ↔ s = w ++ rest := by
  induction w generalizing s with
  | nil => simp [restAfter?]
  | cons a w ih =>
    cases s with
    | nil => simp [restAfter?]
    | cons c s =>
      by_cases h : a = c
      · subst h
        simp [restAfter?, ih]
      · simp [restAfter?, h, Ne.symm h]

end Text

end DialogueScript
