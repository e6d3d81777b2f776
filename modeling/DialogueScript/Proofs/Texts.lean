import DialogueScript.Text.Basic
import Mathlib.Data.List.DropRight

/-!
# Trimming and words

A trimmed text is trimmed already. The words of a text are its head word and the words behind it
(`words_of_headWord`), and they are made of its characters that are not blank (`mem_words`).
-/

namespace DialogueScript.Text

/-! ## Trimming -/

theorem trimEnd_prefix (s : Text) : trimEnd s <+: s := by
  have h : (s.reverse.dropWhile isBlank).reverse <+: s.reverse.reverse :=
    List.reverse_prefix.2 (List.dropWhile_suffix isBlank)
  rwa [List.reverse_reverse] at h

/-- What stands in front of a character that is not blank stays. -/
theorem trimEnd_append_cons {c : Char} (hc : isBlank c = false) (a s : Text) :
    trimEnd (a ++ c :: s) = a ++ c :: trimEnd s := by
  have hdrop : (a ++ c :: s).reverse.dropWhile isBlank =
      s.reverse.dropWhile isBlank ++ c :: a.reverse := by
    rw [List.reverse_append, List.reverse_cons, List.append_assoc, List.dropWhile_append]
    split
    · next h => simp [List.isEmpty_iff.1 h, hc]
    · rfl
  rw [trimEnd, hdrop, trimEnd]
  simp

theorem trimStart_trim (s : Text) : trimStart (trim s) = trim s := by
  cases ht : trim s with
  | nil => rfl
  | cons c rest =>
    obtain ⟨more, hs⟩ := trimEnd_prefix (trimStart s)
    have hs : trimStart s = c :: (rest ++ more) := by
      rw [← hs]
      exact congrArg (· ++ more) ht
    have hc : ¬isBlank c = true := by
      have := List.head?_dropWhile_not isBlank s
      rw [show s.dropWhile isBlank = c :: (rest ++ more) from hs] at this
      simpa using this
    simp [trimStart, hc]

theorem trim_trim (s : Text) : trim (trim s) = trim s := by
  have he : trimEnd (trim s) = trim s := by
    simp only [trim, trimEnd, List.reverse_reverse, List.dropWhile_idempotent]
  rw [trim, trimStart_trim, he]

/-! ## Words -/

theorem head?_splitOnP (p : Char → Bool) (s : Text) :
    (s.splitOnP p).head? = some (s.takeWhile (!p ·)) := by
  induction s with
  | nil => rfl
  | cons c s ih =>
    rw [List.splitOnP_cons_eq_if_modifyHead]
    by_cases hc : p c
    · simp [hc]
    · simp [hc, List.head?_modifyHead, ih]

theorem headD_words (s : Text) : (words s).headD [] = headWord s := by
  induction s with
  | nil => rfl
  | cons c s ih =>
    by_cases hc : isBlank c
    · have hw : words (c :: s) = words s := by
        simp [words, List.splitOnP_cons_eq_if_modifyHead, hc]
      rw [hw, ih]
      simp [headWord, trimStart, hc]
    · obtain ⟨t, ht⟩ := List.head?_eq_some_iff.1 (head?_splitOnP isBlank s)
      simp [words, List.splitOnP_cons_eq_if_modifyHead, hc, ht, headWord, trimStart]

theorem of_mem_splitOnP {p : Char → Bool} {s w : Text} (h : w ∈ s.splitOnP p) :
    ∀ c ∈ w, p c = false ∧ c ∈ s := by
  induction s generalizing w with
  | nil =>
    obtain rfl : w = [] := by simpa using h
    simp
  | cons a s ih =>
    have further : w ∈ s.splitOnP p → ∀ c ∈ w, p c = false ∧ c ∈ a :: s :=
      fun h c hc => (ih h c hc).imp id (List.mem_cons_of_mem a)
    obtain ⟨t, ht⟩ := List.head?_eq_some_iff.1 (head?_splitOnP p s)
    rw [List.splitOnP_cons_eq_if_modifyHead] at h
    split at h
    · rcases List.mem_cons.1 h with rfl | h
      · simp
      · exact further h
    · next ha =>
      rw [ht, List.modifyHead_cons] at h
      rcases List.mem_cons.1 h with rfl | h
      · intro c hc
        rcases List.mem_cons.1 hc with rfl | hc
        · exact ⟨by simpa using ha, List.mem_cons_self⟩
        · exact (ih (ht ▸ List.mem_cons_self) c hc).imp id (List.mem_cons_of_mem a)
      · exact further (ht ▸ List.mem_cons_of_mem _ h)

theorem mem_words {s w : Text} (h : w ∈ words s) :
    w ≠ [] ∧ ∀ c ∈ w, isBlank c = false ∧ c ∈ s :=
  ⟨ne_nil_of_mem_words h, of_mem_splitOnP (List.mem_filter.1 h).1⟩

theorem words_cons_blank {c : Char} (hc : isBlank c = true) (s : Text) :
    words (c :: s) = words s := by
  simp [words, List.splitOnP_cons_eq_if_modifyHead, hc]

theorem words_trimStart (s : Text) : words (trimStart s) = words s := by
  induction s with
  | nil => rfl
  | cons c s ih =>
    by_cases hc : isBlank c
    · rw [words_cons_blank hc, ← ih]
      simp [trimStart, hc]
    · simp [trimStart, hc]

/-- The pieces behind the first one are those of the text from its first blank on. -/
theorem words_dropWhile (s : Text) :
    words (s.dropWhile (!isBlank ·)) = (s.splitOnP isBlank).tail.filter fun w => !w.isEmpty := by
  induction s with
  | nil => rfl
  | cons c s ih =>
    rw [List.splitOnP_cons_eq_if_modifyHead]
    by_cases hc : isBlank c
    · rw [List.dropWhile_cons_of_neg (by simp [hc]), words_cons_blank hc, if_pos hc]
      rfl
    · rw [List.dropWhile_cons_of_pos (by simp [hc]), if_neg hc, ih, List.tail_modifyHead]

theorem tail_words (s : Text) : (words s).tail = words (afterWord s) := by
  rw [afterWord, words_trimStart, words_dropWhile]
  induction s with
  | nil => rfl
  | cons c s ih =>
    by_cases hc : isBlank c
    · rw [words_cons_blank hc, ih]
      simp [trimStart, hc]
    · obtain ⟨t, ht⟩ := List.head?_eq_some_iff.1 (head?_splitOnP isBlank s)
      simp [words, List.splitOnP_cons_eq_if_modifyHead, hc, ht, trimStart]

theorem words_of_headWord {s : Text} (h : headWord s ≠ []) :
    words s = headWord s :: words (afterWord s) := by
  rw [← headD_words] at h ⊢
  rw [← tail_words]
  cases hw : words s with
  | nil =>
    rw [hw] at h
    exact absurd rfl h
  | cons w ws => rfl

theorem headWord_of_words {s w : Text} {ws : List Text} (h : words s = w :: ws) :
    headWord s = w ∧ words (afterWord s) = ws := by
  rw [← headD_words, ← tail_words, h]
  exact ⟨rfl, rfl⟩

end DialogueScript.Text
