import DialogueScript.Grammar
import DialogueScript.Proofs.Folding

/-!
# Patterns

The grammar of patterns looks at single characters and at the numbers of brackets. So it takes no
notice of the order of the characters, nor of the blanks among them, which both of its classes of
characters allow (`patternViolation?_congr`). Lines are joined by blanks if by anything: how a script
wants its lines joined has no part in the verdict on a pattern. What is a pattern in ASCII is one in
Unicode as well (`pattern_grammar`).
-/

namespace DialogueScript

open Text

/-- The commands whose texts are patterns. -/
def Command.patterns : List Command := [.trigger, .previous, .redirect]

namespace Grammar

variable {c : Char} {s t : Text}

theorem violation?_pattern {command : Command} (h : command ∈ Command.patterns) (utf8 : Bool)
    (s : Text) : violation? utf8 (some command) s = patternViolation? utf8 s := by
  have hcases : command = .trigger ∨ command = .previous ∨ command = .redirect := by
    simpa [Command.patterns] using h
  rcases hcases with rfl | rfl | rfl <;> rfl

theorem ne_define_of_pattern {command : Command} (h : command ∈ Command.patterns) :
    some command ≠ some .define := by
  rintro he
  cases he
  exact absurd h (by decide)

/-- A pattern is not the label of a code object, so it goes on in the lines below it. -/
theorem not_label_of_pattern {command : Command} (h : command ∈ Command.patterns) (payload : Text) :
    ¬(some command = some .labelOpen ∧ headWord payload = Label.objectKeyword) := by
  rintro ⟨he, -⟩
  cases he
  exact absurd h (by decide)

/-! ## Classes of characters -/

theorem isUpper_iff : isUpper c = true ↔ 65 ≤ c.toNat ∧ c.toNat ≤ 90 := by
  simp [isUpper, Char.le_def, UInt32.le_iff_toNat_le]

theorem isLower_iff : isLower c = true ↔ 97 ≤ c.toNat ∧ c.toNat ≤ 122 := by
  simp [isLower, Char.le_def, UInt32.le_iff_toNat_le]

theorem isFigure_iff : isFigure c = true ↔ 48 ≤ c.toNat ∧ c.toNat ≤ 57 := by
  simp [isFigure, Char.le_def, UInt32.le_iff_toNat_le]

/-- Neither upper case nor a backslash nor a dot, by the numbers of the characters. -/
theorem isPatternCharUtf8_iff : isPatternCharUtf8 c = true ↔
    ¬(65 ≤ c.toNat ∧ c.toNat ≤ 90) ∧ c.toNat ≠ 92 ∧ c.toNat ≠ 46 := by
  have hchar (d : Char) : c = d ↔ c.toNat = d.toNat := Char.toNat_inj.symm
  simp only [isPatternCharUtf8, Bool.not_eq_true', Bool.or_eq_false_iff, beq_eq_false_iff_ne,
    ← Bool.not_eq_true (isUpper c), isUpper_iff, hchar, ne_eq, and_assoc]
  exact Iff.rfl

theorem isPatternCharUtf8_of_isBlank (h : isBlank c = true) : isPatternCharUtf8 c = true := by
  simp only [isBlank, blankRanges, List.any_cons, List.any_nil, Bool.or_eq_true,
    Bool.and_eq_true, decide_eq_true_eq, Bool.false_eq_true, or_false] at h
  rw [isPatternCharUtf8_iff]
  omega

theorem isPatternChar_of_isBlank (h : isBlank c = true) : isPatternChar c = true := by
  simp [isPatternChar, h]

/-- The characters of patterns in ASCII are among those in Unicode. -/
theorem isPatternCharUtf8_of_isPatternChar (h : isPatternChar c = true) :
    isPatternCharUtf8 c = true := by
  simp only [isPatternChar, Bool.or_eq_true] at h
  rcases h with ((hlower | hfigure) | hsymbol) | hblank
  · have := isLower_iff.1 hlower
    rw [isPatternCharUtf8_iff]
    omega
  · have := isFigure_iff.1 hfigure
    rw [isPatternCharUtf8_iff]
    omega
  · have hall : patternSymbols.all isPatternCharUtf8 = true := by decide
    exact List.all_eq_true.1 hall c (List.contains_iff_mem.1 hsymbol)
  · exact isPatternCharUtf8_of_isBlank hblank

/-! ## Characters that count -/

/-- The characters of a text that are not blank. -/
def inked (s : Text) : Text := s.filter (!isBlank ·)

theorem inked_append (s t : Text) : inked (s ++ t) = inked s ++ inked t := List.filter_append ..

theorem all_inked {p : Char → Bool} (hp : ∀ c, isBlank c = true → p c = true) (s : Text) :
    (inked s).all p = s.all p := by
  rw [inked, List.all_filter]
  congr 1
  funext c
  cases hb : isBlank c with
  | true => simp [hp c hb]
  | false => simp

theorem balanced_inked (s : Text) (b : Bracket) : b.balanced (inked s) = b.balanced s := by
  have hbracket : isBlank b.opening = false ∧ isBlank b.closing = false := by cases b <;> decide
  have hcount {c : Char} (hc : isBlank c = false) : (inked s).count c = s.count c :=
    List.count_filter (by simp [hc])
  rw [Bracket.balanced, Bracket.balanced, hcount hbracket.1, hcount hbracket.2]

theorem patternViolation?_inked (utf8 : Bool) (s : Text) :
    patternViolation? utf8 (inked s) = patternViolation? utf8 s := by
  simp only [patternViolation?, all_inked fun _ => isPatternCharUtf8_of_isBlank,
    all_inked fun _ => isPatternChar_of_isBlank, balanced_inked]

theorem patternViolation?_perm (h : s.Perm t) (utf8 : Bool) :
    patternViolation? utf8 s = patternViolation? utf8 t := by
  have hall (p : Char → Bool) : s.all p = t.all p := by
    rw [Bool.eq_iff_iff, List.all_eq_true, List.all_eq_true]
    exact forall_congr' fun c => by rw [h.mem_iff]
  have hbalanced (b : Bracket) : b.balanced s = b.balanced t := by
    rw [Bracket.balanced, Bracket.balanced, h.count_eq, h.count_eq]
  simp only [patternViolation?, hall, hbalanced]

/-- Texts with the same characters apart from blanks get the same verdict. -/
theorem patternViolation?_congr (h : (inked s).Perm (inked t)) (utf8 : Bool) :
    patternViolation? utf8 s = patternViolation? utf8 t := by
  rw [← patternViolation?_inked, patternViolation?_perm h, patternViolation?_inked]

/-- A text without a violation in ASCII has none in Unicode. -/
theorem patternViolation?_utf8 (h : patternViolation? false s = none) :
    patternViolation? true s = none := by
  unfold patternViolation? at h ⊢
  simp only [Bool.false_and, Bool.false_eq_true, if_false, Bool.not_false, Bool.true_and] at h
  split at h
  · cases h
  · next hchars =>
    have hall : s.all isPatternCharUtf8 = true := by
      have hascii : s.all isPatternChar = true := by simpa using hchars
      exact List.all_eq_true.2 fun c hc =>
        isPatternCharUtf8_of_isPatternChar (List.all_eq_true.1 hascii c hc)
    simpa [hall] using h

/-! ## Joined lines -/

/-- What stands between the lines of a pattern is blank. -/
theorem inked_separatorOf {command : Option Command} (h : command ≠ some .define) (concat : Text) :
    inked (separatorOf command concat) = [] := by
  unfold separatorOf
  rw [if_neg h]
  split
  · decide
  split
  · decide
  · rfl

theorem inked_fold {command : Command} (h : command ∈ Command.patterns) (concat payload : Text)
    (rest : List Text) :
    inked (fold concat (some command) payload rest).text =
      inked payload ++ (foldedPayloads (some command) rest).flatMap inked := by
  rw [text_fold (not_label_of_pattern h payload), inked_append]
  congr 1
  rw [inked, List.filter_flatMap]
  refine List.flatMap_congr fun q _ => ?_
  show inked _ = _
  rw [inked_append, inked_separatorOf (ne_define_of_pattern h), List.nil_append]

theorem violation?_fold {command : Command} (h : command ∈ Command.patterns) (utf8 : Bool)
    (concat concat' payload : Text) (rest : List Text) :
    violation? utf8 (some command) (fold concat (some command) payload rest).text =
      violation? utf8 (some command) (fold concat' (some command) payload rest).text := by
  rw [violation?_pattern h, violation?_pattern h]
  apply patternViolation?_congr
  rw [inked_fold h, inked_fold h]

/-- The grammar of patterns counts characters: texts that are alike up to the order of the characters
and to blanks get the same verdict. So does a pattern that goes on in the lines below it, whichever
way its lines are joined. A pattern that passes in ASCII passes in Unicode. -/
theorem pattern_grammar {command : Command} (h : command ∈ Command.patterns) (utf8 : Bool) :
    (∀ s t : Text, (inked s).Perm (inked t) →
      violation? utf8 (some command) s = violation? utf8 (some command) t) ∧
    (∀ (payload : Text) (lines : List Text) (index : Int) (concat concat' : Text),
      (foldAt? concat (some command) payload lines index).map
          (fun folded => violation? utf8 (some command) folded.text) =
        (foldAt? concat' (some command) payload lines index).map
          fun folded => violation? utf8 (some command) folded.text) ∧
    ∀ s : Text, violation? false (some command) s = none →
      violation? true (some command) s = none := by
  refine ⟨fun s t hst => ?_, fun payload lines index concat concat' => ?_, fun s hs => ?_⟩
  · rw [violation?_pattern h, violation?_pattern h, patternViolation?_congr hst]
  · rw [foldAt?, foldAt?, if_neg (not_label_of_pattern h payload),
      if_neg (not_label_of_pattern h payload), Option.map_map, Option.map_map]
    exact congrArg (Option.map · _) (funext fun rest => violation?_fold h utf8 ..)
  · rw [violation?_pattern h] at hs ⊢
    exact patternViolation?_utf8 hs

/-- A pattern that is closed in the line below it: joined by a line feed or not at all, it passes. -/
theorem pattern_grammar_trigger :
    violation? false (some .trigger) "say ( * ) [now]".toList =
        violation? false (some .trigger) "(say[\t*now])".toList ∧
      (foldAt? "newline".toList (some .trigger) "say (a|".toList
          ["+ say (a|".toList, "^ b)".toList] 0).map
          (fun folded => violation? false (some .trigger) folded.text) = some none ∧
      violation? true (some .trigger) "say (a|b)".toList = none := by
  obtain ⟨hperm, hfold, hutf8⟩ := @pattern_grammar .trigger (by decide) false
  refine ⟨hperm _ _ (by decide), ?_, hutf8 _ (by decide)⟩
  rw [hfold _ _ _ "newline".toList "none".toList]
  decide

end Grammar

end DialogueScript
