import DialogueScript.Proofs.FoldedDefinitions

/-!
# Conditions

What the grammar takes for a condition. A text can often be parted in several ways: `<=` begins with
`<`, and the end of a tag or of the arrow itself may pass for an operator. `condition_grammar` states
which texts are accepted. Within a line an operator that begins with another one makes no difference.

A condition goes on in the lines below it as a response does. It remains a condition unless a line
feed comes between its response and what is added (`condition_continued`), since a response ends
where its line ends. A script that has its lines joined by line feeds loses its conditions in this
way (`condition_newline`).
-/

namespace DialogueScript

open Text

namespace Grammar

/-! ## What a condition looks like -/

def operators : List Text :=
  ["==".toList, "eq".toList, "!=".toList, "ne".toList, "<>".toList, "<".toList, "<=".toList,
    ">".toList, ">=".toList]

/-- The operators that do not begin with another one. -/
def shortOperators : List Text :=
  ["==".toList, "eq".toList, "!=".toList, "ne".toList, "<".toList, ">".toList]

/-- Some text within a line. -/
structure Phrase (s : Text) : Prop where
  ne_nil : s ≠ []
  inLine : '\n' ∉ s

/-- The text compares `a` with `b`, and `c` is the response. Blanks of any kind, line feeds among
them, may stand around the operator, and one line feed at the end. -/
inductive Compares : Text → Prop
  | intro (a u op w b c e : Text) (ha : Phrase a) (hb : Phrase b) (hc : Phrase c)
    (hu : ∀ x ∈ u, isBlank x = true) (hop : op ∈ operators) (hw : ∀ x ∈ w, isBlank x = true)
    (he : e = [] ∨ e = ['\n']) :
    Compares (a ++ u ++ op ++ w ++ b ++ "=>".toList ++ c ++ e)

/-- The text compares `a` with `b` by one of the short operators, and `c` is the response. -/
inductive ComparesInLine : Text → Prop
  | intro (a op b c : Text) (ha : a ≠ []) (hop : op ∈ shortOperators) (hb : b ≠ []) (hc : c ≠ []) :
    ComparesInLine (a ++ op ++ b ++ "=>".toList ++ c)

variable {s t : Text}

theorem Phrase.append (hs : Phrase s) (ht : '\n' ∉ t) : Phrase (s ++ t) where
  ne_nil := List.append_ne_nil_of_left_ne_nil hs.ne_nil t
  inLine := by simpa using ⟨hs.inLine, ht⟩

theorem phrase_iff : Phrase s ↔ s ≠ [] ∧ ∀ c ∈ s, inLine c = true := by
  have hchars : (∀ c ∈ s, inLine c = true) ↔ '\n' ∉ s := by
    simp only [inLine, bne_iff_ne]
    exact ⟨fun h hm => h _ hm rfl, fun h c hc he => h (he ▸ hc)⟩
  rw [hchars]
  exact ⟨fun h => ⟨h.ne_nil, h.inLine⟩, fun h => ⟨h.1, h.2⟩⟩

theorem isCondition_iff : isCondition s = true ↔ Compares s := by
  have hoperators : comparisons = operators := rfl
  have harrow : "=>".toList = ['=', '>'] := rfl
  simp only [isCondition, Shape.run1_iff, Shape.run_iff, Shape.oneOf_iff, Shape.literal_iff,
    Shape.lineEnd_iff, hoperators]
  constructor
  · rintro ⟨a, _, rfl, hane, ha, u, _, rfl, hu, op, hop, _, rfl, w, _, rfl, hw, b, _, rfl, hbne, hb,
      _, rfl, c, e, rfl, hcne, hc, he⟩
    have h := Compares.intro a u op w b c e (phrase_iff.2 ⟨hane, ha⟩) (phrase_iff.2 ⟨hbne, hb⟩)
      (phrase_iff.2 ⟨hcne, hc⟩) hu hop hw he
    simpa [harrow] using h
  · rintro ⟨a, u, op, w, b, c, e, ha, hb, hc, hu, hop, hw, he⟩
    obtain ⟨hane, ha⟩ := phrase_iff.1 ha
    obtain ⟨hbne, hb⟩ := phrase_iff.1 hb
    obtain ⟨hcne, hc⟩ := phrase_iff.1 hc
    exact ⟨a, u ++ (op ++ (w ++ (b ++ ("=>".toList ++ (c ++ e))))), by simp, hane, ha,
      u, _, rfl, hu, op, hop, _, rfl, w, _, rfl, hw, b, _, rfl, hbne, hb, _, rfl,
      c, e, rfl, hcne, hc, he⟩

theorem violation?_condition (utf8 : Bool) :
    violation? utf8 (some .condition) s = none ↔ Compares s := by
  rw [← isCondition_iff, violation?]
  split <;> simp [*]

/-! ## Conditions in one line -/

theorem short_of_operator {op : Text} (h : op ∈ operators) :
    ∃ short ∈ shortOperators, short <+: op := by
  have hall : operators.all (fun op => shortOperators.any (·.isPrefixOf op)) = true := by decide
  obtain ⟨short, hmem, hfront⟩ := List.any_eq_true.1 (List.all_eq_true.1 hall op h)
  exact ⟨short, hmem, List.isPrefixOf_iff_prefix.1 hfront⟩

theorem operator_of_short {op : Text} (h : op ∈ shortOperators) : op ∈ operators := by
  have hall : shortOperators.all (operators.contains ·) = true := by decide
  simpa using List.all_eq_true.1 hall op h

/-- Blanks around the operator count as parts of what is compared, and so does what an operator has
behind a shorter one. -/
theorem compares_iff_inLine (hs : '\n' ∉ s) : Compares s ↔ ComparesInLine s := by
  constructor
  · rintro ⟨a, u, op, w, b, c, e, ha, hb, hc, hu, hop, hw, he⟩
    obtain rfl : e = [] := by
      rcases he with rfl | rfl
      · rfl
      · simp at hs
    obtain ⟨short, hshort, more, rfl⟩ := short_of_operator hop
    have h := ComparesInLine.intro (a ++ u) short (more ++ w ++ b) c
      (List.append_ne_nil_of_left_ne_nil ha.ne_nil u) hshort
      (List.append_ne_nil_of_right_ne_nil _ hb.ne_nil) hc.ne_nil
    simpa using h
  · rintro ⟨a, op, b, c, ha, hop, hb, hc⟩
    simp only [List.mem_append, not_or] at hs
    obtain ⟨⟨⟨⟨hal, -⟩, hbl⟩, -⟩, hcl⟩ := hs
    have h := Compares.intro a [] op [] b c [] ⟨ha, hal⟩ ⟨hb, hbl⟩ ⟨hc, hcl⟩ (by simp)
      (operator_of_short hop) (by simp) (.inl rfl)
    simpa using h

/-- The grammar finds no violation in a condition just if the text compares two things and has a
response behind the arrow. If there is no line feed in the text, then it is enough to look for the
short operators and not to look at blanks at all. -/
theorem condition_grammar (utf8 : Bool) (s : Text) :
    (violation? utf8 (some .condition) s = none ↔ Compares s) ∧
    ('\n' ∉ s → (violation? utf8 (some .condition) s = none ↔ ComparesInLine s)) :=
  ⟨violation?_condition utf8, fun hs => (violation?_condition utf8).trans (compares_iff_inLine hs)⟩

/-- An operator that begins with another one behind a tag, line feeds around an operator and at the
end, and no operator but the end of the arrow. -/
theorem condition_grammar_overlap :
    let tagged : Text := "<get a> >= 1 => x".toList
    let parted : Text := "a\n<=\nb=>c\n".toList
    let bare : Text := "a => b".toList
    violation? false (some .condition) tagged = none ∧ ComparesInLine tagged ∧
      violation? false (some .condition) parted = none ∧
      violation? false (some .condition) bare = some .condition ∧ ¬ComparesInLine bare := by
  intro tagged parted bare
  have htagged : violation? false (some .condition) tagged = none := by decide
  have hbare : violation? false (some .condition) bare = some .condition := by decide
  refine ⟨htagged, ((condition_grammar false tagged).2 (by decide)).1 htagged, ?_, hbare, ?_⟩
  · refine (condition_grammar false parted).1.2 (.intro ['a'] ['\n'] ['<', '='] ['\n'] ['b'] ['c']
      ['\n'] ⟨by decide, by decide⟩ ⟨by decide, by decide⟩ ⟨by decide, by decide⟩ ?_ (by decide) ?_
      (.inr rfl))
    · simp; decide
    · simp; decide
  · intro h
    rw [((condition_grammar false bare).2 (by decide)).2 h] at hbare
    cases hbare

/-! ## Conditions that go on -/

/-- A condition without a line feed at its end ends with its response. Any other phrase may stand in
its place. -/
theorem Compares.response (h : Compares s) (hs : s.getLast? ≠ some '\n') :
    ∃ front b c, Phrase b ∧ Phrase c ∧ s = front ++ (b ++ "=>".toList ++ c) ∧
      ∀ c', Phrase c' → Compares (front ++ (b ++ "=>".toList ++ c')) := by
  obtain ⟨a, u, op, w, b, c, e, ha, hb, hc, hu, hop, hw, he⟩ := h
  obtain rfl : e = [] := by
    rcases he with rfl | rfl
    · rfl
    · exact absurd List.getLast?_concat hs
  refine ⟨a ++ u ++ op ++ w, b, c, hb, hc, by simp, fun c' hc' => ?_⟩
  have h := Compares.intro a u op w b c' [] ha hb hc' hu hop hw (.inl rfl)
  simpa using h

theorem Compares.append (h : Compares s) (hs : s.getLast? ≠ some '\n') (ht : '\n' ∉ t) :
    Compares (s ++ t) := by
  obtain ⟨front, b, c, -, hc, rfl, hother⟩ := h.response hs
  have h := hother (c ++ t) (hc.append ht)
  simpa using h

/-- If a line feed stands where a condition is joined, then its arrow stands behind it. -/
theorem Compares.arrow_infix (h : Compares (s ++ t))
    (hjoint : s.getLast? = some '\n' ∨ t.head? = some '\n') (hne : t ≠ [])
    (ht : t.getLast? ≠ some '\n') : "=>".toList <:+: t := by
  rw [← List.getLast?_append_of_ne_nil s hne] at ht
  obtain ⟨front, b, c, hb, hc, hparts, -⟩ := h.response ht
  have hline : '\n' ∉ b ++ "=>".toList ++ c := by simpa using ⟨hb.inLine, hc.inLine⟩
  have harrow : "=>".toList <:+: b ++ "=>".toList ++ c := List.infix_append b _ c
  rcases List.append_eq_append_iff.1 hparts with ⟨x, -, rfl⟩ | ⟨x, rfl, hx⟩
  · exact harrow.trans (List.suffix_append x _).isInfix
  · rw [hx, List.mem_append, not_or] at hline
    cases x using List.reverseRecOn with
    | nil => rwa [hx] at harrow
    | append_singleton x d =>
      -- the line feed at the joint would be a part of the last line
      rcases hjoint with hlast | hhead
      · rw [← List.append_assoc, List.getLast?_concat] at hlast
        exact absurd (by simp [Option.some.inj hlast]) hline.1
      · exact absurd (List.mem_of_head? hhead) hline.2

section

variable {concat p : Text} {more : List Text}

theorem lineFeed_not_mem_separatorOf (h : concat ≠ "newline".toList) :
    '\n' ∉ separatorOf (some .condition) concat := by
  unfold separatorOf
  rw [if_neg (by simp), if_neg h]
  split <;> decide

theorem getLast?_added (hmore : ∀ q ∈ more, Tight q) (glue : Text) :
    (more.flatMap (glue ++ ·)).getLast? ≠ some '\n' := by
  cases more with
  | nil => simp
  | cons q more =>
    obtain ⟨hq, hmore⟩ := List.forall_mem_cons.1 hmore
    have htight := hq.join_all glue hmore
    rw [List.flatMap_cons, List.append_assoc, List.getLast?_append_of_ne_nil _ htight.ne_nil]
    intro hlast
    cases htight.last '\n' hlast

/-- A line feed comes between a condition and what is added to it. -/
def BreaksOff (concat p : Text) : Prop := concat = "newline".toList ∨ p.getLast? = some '\n'

theorem BreaksOff.joint (h : BreaksOff concat p) (hne : more ≠ []) :
    p.getLast? = some '\n' ∨
      (more.flatMap (separatorOf (some .condition) concat ++ ·)).head? = some '\n' := by
  rcases h with rfl | h
  · obtain ⟨q, more, rfl⟩ := List.exists_cons_of_ne_nil hne
    exact .inr rfl
  · exact .inl h

/-- A condition that is continued remains a condition, except that a line feed may come between it
and what is added. Then it is none, unless what is added has an arrow of its own. -/
theorem condition_continued {utf8 : Bool} (hp : violation? utf8 (some .condition) p = none)
    (concat : Text) {rest : List Text} (hrest : ∀ line ∈ rest, '\n' ∉ line) :
    ∃ added, (fold concat (some .condition) p rest).text = p ++ added ∧
      (added = [] ∨ ¬BreaksOff concat p → violation? utf8 (some .condition) (p ++ added) = none) ∧
      (added ≠ [] → BreaksOff concat p → ¬"=>".toList <:+: added →
        violation? utf8 (some .condition) (p ++ added) = some .condition) := by
  rw [violation?_condition] at hp
  obtain ⟨more, hmore, htext, -⟩ := fold_parts concat (some .condition) p rest
  refine ⟨_, htext, ?_, ?_⟩
  · intro h
    rw [violation?_condition]
    rcases h with h | h
    · rwa [h, List.append_nil]
    · rw [BreaksOff, not_or] at h
      refine hp.append h.2 ?_
      simp only [List.mem_flatMap, List.mem_append, not_exists, not_and, not_or]
      intro q hq
      obtain ⟨line, hline, hpayload⟩ := hmore q hq
      exact ⟨lineFeed_not_mem_separatorOf h.1,
        fun hm => hrest line hline ((payloadOf?_isInfix hpayload).subset hm)⟩
  · intro hne hbreak harrow
    have htight : ∀ q ∈ more, Tight q := by
      intro q hq
      obtain ⟨line, -, hpayload⟩ := hmore q hq
      exact (Statement.tight_of_ofLine? (payloadOf?_eq_some_iff.1 hpayload)).2
    have hsome : more ≠ [] := by
      rintro rfl
      exact hne rfl
    have hjoint := hbreak.joint hsome
    have hcondition : ¬Compares (p ++ more.flatMap (separatorOf (some .condition) concat ++ ·)) :=
      fun h => harrow (h.arrow_infix hjoint hne (getLast?_added htight _))
    rw [← isCondition_iff] at hcondition
    rw [violation?, if_neg hcondition]

end

/-- A response that goes on behind a space, and one that goes on behind a line feed. In the last text
the line feed stands at an operator that was added together with an arrow. -/
theorem condition_continued_space :
    let p : Text := "<get a> == 1 => x".toList
    let rest : List Text := ["".toList, "^ y".toList]
    violation? false (some .condition) p = none ∧
      (fold "space".toList (some .condition) p rest).text = "<get a> == 1 => x y".toList ∧
      violation? false (some .condition) "<get a> == 1 => x y".toList = none ∧
      (fold "newline".toList (some .condition) p rest).text = "<get a> == 1 => x\ny".toList ∧
      violation? false (some .condition) "<get a> == 1 => x\ny".toList = some .condition ∧
      violation? false (some .condition) "<get a> == 1 => x\n!= 2 => y".toList = none := by
  intro p rest
  have hp : violation? false (some .condition) p = none := by decide
  have hrest : ∀ line ∈ rest, '\n' ∉ line := by
    simp only [rest, List.forall_mem_cons]
    exact ⟨by decide, by decide, by simp⟩
  have hspace : (fold "space".toList (some .condition) p rest).text = p ++ " y".toList := by decide
  have hnewline : (fold "newline".toList (some .condition) p rest).text = p ++ "\ny".toList := by
    decide
  obtain ⟨added, htext, hvalid, -⟩ := condition_continued hp "space".toList hrest
  obtain ⟨added', htext', -, hbroken⟩ := condition_continued hp "newline".toList hrest
  obtain rfl := List.append_cancel_left (htext.symm.trans hspace)
  obtain rfl := List.append_cancel_left (htext'.symm.trans hnewline)
  refine ⟨hp, hspace, hvalid (.inr ?_), hnewline, hbroken (by simp) (.inl rfl) ?_, by decide⟩
  · rintro (h | h)
    · cases h
    · cases h
  · decide

/-- The condition is valid and no line below it has a line break in it, but together they make no
valid condition. -/
def Spoils (utf8 : Bool) (concat p : Text) (rest : List Text) : Prop :=
  violation? utf8 (some .condition) p = none ∧
    (∀ line ∈ rest, ∀ c ∈ line, isLineBreak c = false) ∧
    violation? utf8 (some .condition) (fold concat (some .condition) p rest).text ≠ none

/-- A response in two lines, joined as the script asks and joined behind a line feed of its own. The
reading warns of the condition as it stores it. -/
theorem condition_newline :
    let p : Text := "a == b => c".toList
    let lines : List Text :=
      ["! local concat = newline".toList, "+ x".toList, "* a == b => c".toList, "^ d".toList]
    Spoils false "newline".toList p ["^ d".toList] ∧
      Spoils false "none".toList (p ++ ['\n']) ["^ d".toList] ∧
      (parse {} ⟨['s'], true⟩ lines).warnings =
        [⟨"Syntax error: ".toList ++ Violation.condition.message, ['s'], 3⟩] ∧
      ∃ d, (parse {} ⟨['s'], true⟩ lines).document = some d ∧
        d.rules = [{ pattern := ['x'], conditions := ["a == b => c\nd".toList] }] := by
  intro p lines
  have hline : ∀ line ∈ ["^ d".toList], ∀ c ∈ line, isLineBreak c = false := by
    intro line hline c hc
    obtain rfl := List.mem_singleton.1 hline
    have hall : "^ d".toList.all (!isLineBreak ·) = true := by decide
    simpa using List.all_eq_true.1 hall c hc
  refine ⟨⟨by decide, hline, by decide⟩, ⟨by decide, hline, by decide⟩, ?_, ?_⟩
  · rfl
  · exact ⟨_, rfl, rfl⟩

end Grammar

end DialogueScript
