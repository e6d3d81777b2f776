import DialogueScript.Proofs.Conditions
import DialogueScript.Proofs.LineEndings
import DialogueScript.Proofs.Reached

/-!
# The form of definitions

The grammar and the reader look at a definition in different ways. The grammar asks for some equals
sign with something on either side of it (`isDefinition_iff`), the reader takes the first one and
trims what stands around it. What the reader stores has the form that the grammar asks for, unless
there is a line feed in its text; and the lines of a text have none (`parseText_stored`).
-/

namespace DialogueScript

open Text

namespace Grammar

variable {s : Text}

/-! ## What a definition looks like -/

/-- Something stands on either side of an equals sign. -/
inductive Assigns : Text → Prop
  | intro (left right : Text) (hl : left ≠ []) (hr : right ≠ []) : Assigns (left ++ '=' :: right)

theorem assigns_iff : Assigns s ↔ ∃ i, 1 ≤ i ∧ i + 2 ≤ s.length ∧ s[i]? = some '=' := by
  constructor
  · rintro ⟨left, right, hl, hr⟩
    have hleft := List.length_pos_iff.2 hl
    have hright := List.length_pos_iff.2 hr
    refine ⟨left.length, hleft, ?_, by simp⟩
    rw [List.length_append, List.length_cons]
    omega
  · rintro ⟨i, hpos, hlength, hi⟩
    obtain ⟨hlt, hequals⟩ := List.getElem?_eq_some_iff.1 hi
    have hs : s = s.take i ++ '=' :: s.drop (i + 1) := by
      rw [← hequals, List.getElem_cons_drop, List.take_append_drop]
    have hleft : s.take i ≠ [] := List.length_pos_iff.1 (by rw [List.length_take]; omega)
    have hright : s.drop (i + 1) ≠ [] := List.length_pos_iff.1 (by rw [List.length_drop]; omega)
    rw [hs]
    exact .intro _ _ hleft hright

theorem exists_of_isAssigned (h : isAssigned s = true) :
    ∃ gap right, s = gap ++ '=' :: right ∧ right ≠ [] := by
  simp only [isAssigned, Shape.run_iff, Shape.run1_iff, Shape.literal_iff] at h
  obtain ⟨gap, _, rfl, -, _, rfl, gap', _, rfl, -, value, rest, rfl, hne, -, -⟩ := h
  exact ⟨gap, gap' ++ (value ++ rest), rfl, by simp [hne]⟩

theorem isAssigned_cons (h : Phrase s) : isAssigned ('=' :: s) = true := by
  obtain ⟨hne, hchars⟩ := phrase_iff.1 h
  simp only [isAssigned, Shape.run_iff, Shape.run1_iff, Shape.literal_iff, Shape.lineEnd_iff]
  exact ⟨[], _, rfl, by simp, s, rfl, [], s, rfl, by simp, s, [], by simp, hne, hchars, .inl rfl⟩

/-- Within a line it makes no difference which of several equals signs the parts are read off, nor
what the blanks around it are taken for. -/
theorem isDefinition_iff (hs : '\n' ∉ s) : isDefinition s = true ↔ Assigns s := by
  simp only [isDefinition, Shape.run1_iff, Bool.or_eq_true]
  constructor
  · rintro ⟨word, rest, rfl, hne, -, ⟨gap, _, rfl, -, -, name, tail, rfl, -, -, h⟩ | h⟩
    · obtain ⟨gap', right, rfl, hr⟩ := exists_of_isAssigned h
      have := Assigns.intro (word ++ gap ++ name ++ gap') right (by simp [hne]) hr
      simpa using this
    · obtain ⟨gap, right, rfl, hr⟩ := exists_of_isAssigned h
      have := Assigns.intro (word ++ gap) right (by simp [hne]) hr
      simpa using this
  · rintro ⟨left, right, hl, hr⟩
    simp only [List.mem_append, List.mem_cons, not_or] at hs
    obtain ⟨hleft, -, hright⟩ := hs
    exact ⟨left, '=' :: right, rfl, hl, (phrase_iff.1 ⟨hl, hleft⟩).2,
      .inr (isAssigned_cons ⟨hr, hright⟩)⟩

theorem violation?_define (utf8 : Bool) (hs : '\n' ∉ s) :
    violation? utf8 (some .define) s = none ↔ Assigns s := by
  rw [← isDefinition_iff hs, violation?]
  split <;> simp [*]

/-- A definition with a name and a value has something on either side of its first equals sign. -/
theorem assigns_of_ofText (hn : (Definition.ofText s).name ≠ [])
    (hv : (Definition.ofText s).value ≠ []) : Assigns s := by
  have hleft : before '=' s ≠ [] := by
    intro he
    simp only [Definition.ofText, he] at hn
    exact hn rfl
  have hright : after '=' s ≠ [] := by
    intro he
    simp only [Definition.ofText, he] at hv
    split at hv <;> exact hv rfl
  have hequals : '=' ∈ s := by
    by_contra hnone
    exact hright (after_of_not_mem hnone)
  obtain ⟨front, back, rfl, hfront⟩ := List.eq_append_cons_of_mem hequals
  rw [before_append_cons hfront] at hleft
  rw [after_append_cons hfront] at hright
  exact .intro front back hleft hright

end Grammar

/-! ## What the reader stores -/

namespace Reader.State

variable {supported : Float} {s : State} {l : LogicalLine}

/-- The definition stores something: an option of the script, or an entry in one of the tables. -/
inductive Stores (supported : Float) (s : State) (l : LogicalLine) : Prop
  | option (name value : Text) (h : s.define supported l =
      { s with options := s.options.set name value }.note (.option name value))
  | text (t : TextTable) (name value : Text) (h : s.define supported l =
      (s.assign t name value).note (.assignment t name value))
  | array (name value : Text) (h : s.define supported l =
      (s.assignArray name (arrayElements value)).note (.array name value))

/-- A definition stores something, and then has a name and a value, or else it has no effect on the
state and tells no note. -/
theorem define_stores (supported : Float) (s : State) (hc : l.command? = some .define) :
    s.Stores supported l ∧ (Definition.ofText l.text).name ≠ [] ∧
        (Definition.ofText l.text).value ≠ [] ∨
      (∀ s', (s.define supported l).next = some s' → s' = s) ∧
        ∀ n, .note n ∉ (s.define supported l).events := by
  have hs := s.define_obeyed supported l hc
  generalize ho : s.define supported l = outcome at hs
  cases hs with
  | refused => exact .inr ⟨by simp, by simp⟩
  | rejected => exact .inr ⟨by simp, by simp⟩
  | ignored => exact .inr ⟨by simp, by simp⟩
  | option name value _ hd hn hv => exact .inl ⟨.option name value ho, by rwa [hd], by rwa [hd]⟩
  | assigned t name value _ hd hn hv =>
    exact .inl ⟨.text t name value ho, by rwa [hd], by rwa [hd]⟩
  | assignedArray name value _ hd hn hv =>
    exact .inl ⟨.array name value ho, by rwa [hd], by rwa [hd]⟩
  | entered _ _ _ hc' => simp [hc] at hc'
  | opened _ _ _ hc' => simp [hc] at hc'
  | left hc' => simp [hc] at hc'
  | added hc' => simp [hc] at hc'
  | extended _ _ hc' => simp [LogicalLine.extendsRule, hc] at hc'

theorem Stores.define_eq (h : s.Stores supported l) : ∃ (s' : State) (n : Note),
    s.define supported l = s'.note n ∧ s'.openObject = s.openObject := by
  cases h with
  | option name value h => exact ⟨_, _, h, rfl⟩
  | text t name value h => exact ⟨_, _, h, rfl⟩
  | array name value h => exact ⟨_, _, h, rfl⟩

/-- The grammar accepts what is stored. -/
theorem Stores.violation?_eq_none (h : s.Stores supported l) (hc : l.command? = some .define)
    (hl : '\n' ∉ l.text) (utf8 : Bool) : Grammar.violation? utf8 (some .define) l.text = none := by
  obtain ⟨s', n, hdefine, -⟩ := h.define_eq
  rcases define_stores supported s hc with ⟨-, hn, hv⟩ | ⟨-, hnote⟩
  · exact (Grammar.violation?_define utf8 hl).2 (Grammar.assigns_of_ofText hn hv)
  · rw [hdefine] at hnote
    exact absurd (List.mem_singleton_self _) (hnote n)

end Reader.State

/-! ## Definitions in a text -/

/-- The lines of a definition are joined without a line feed. -/
theorem LogicalLine.ReadOff.not_mem_of_define {l : LogicalLine} {lines : List Text}
    (h : l.ReadOff lines) (hc : l.command? = some .define) (hlines : ∀ line ∈ lines, '\n' ∉ line) :
    '\n' ∉ l.text := by
  obtain ⟨line, st, concat, more, hline, hs, -, hmore, ht, -⟩ := h
  rw [ht, hc, List.mem_append, List.mem_flatMap]
  rintro (hmem | ⟨q, hq, hmem⟩)
  · have hpart := st.withoutComment_isInfix.trans (Statement.payload_isInfix hs)
    exact hlines line (List.mem_of_getElem? hline) (hpart.subset hmem)
  rcases List.mem_append.1 hmem with hmem | hmem
  · rw [separatorOf, if_pos rfl] at hmem
    exact absurd hmem (by decide)
  · obtain ⟨line', hline', hpart⟩ := hmore q hq
    exact hlines line' hline' (hpart.subset hmem)

namespace Reader.Reached

variable {supported : Float} {front back : List Text} {line : Text} {s : State} {l : LogicalLine}

theorem readOff (h : Reached supported front line back s l) : l.ReadOff (front ++ line :: back) := by
  obtain ⟨st, hk, rfl⟩ := h.statement
  obtain ⟨-, -, -, -, -, st', hs, rfl⟩ := LineKind.of_eq_statement_iff.1 hk
  rw [Statement.ofLine?_trim] at hs
  exact s.readOff_logicalLine hs

theorem not_mem_of_define {text : Text} (h : Reached supported front line back s l)
    (htext : Text.lines text = front ++ line :: back) (hc : l.command? = some .define) :
    '\n' ∉ l.text := by
  refine h.readOff.not_mem_of_define hc fun line' hline' hfeed => ?_
  rw [← htext] at hline'
  exact absurd (Text.unbroken_of_mem_lines hline' _ hfeed) (by decide)

end Reader.Reached

/-- In a text without a line feed the grammar accepts as a definition just what has an equals sign
that neither begins nor ends it. Of any such text that a reader stores, as an entry of a table or an
option of the script, the grammar finds nothing wrong. A script that is read off a text joins
definitions without line feeds, so no statement in it is both stored and reported. -/
theorem parseText_stored (settings : Settings) (audience : Audience) (text : Text) :
    (∀ (utf8 : Bool) (s : Text), '\n' ∉ s →
      (Grammar.violation? utf8 (some .define) s = none ↔
        ∃ i, 1 ≤ i ∧ i + 2 ≤ s.length ∧ s[i]? = some '=')) ∧
    (∀ (supported : Float) (s : Reader.State) (l : LogicalLine) (utf8 : Bool),
      l.command? = some .define → s.Stores supported l → '\n' ∉ l.text →
        Grammar.violation? utf8 (some .define) l.text = none) ∧
    ∀ (front : List Text) (line : Text) (back : List Text) (s : Reader.State) (l : LogicalLine),
      Text.lines text = front ++ line :: back →
      Reader.Reached settings.supported front line back s l → l.command? = some .define →
      s.Stores settings.supported l →
        Event.faultEntries settings audience l = [] ∧
        ∀ w ∈ (parseText settings audience text).warnings, w.number ≠ l.number := by
  refine ⟨fun utf8 s hs => (Grammar.violation?_define utf8 hs).trans Grammar.assigns_iff,
    fun supported s l utf8 hc h hl => h.violation?_eq_none hc hl utf8, ?_⟩
  intro front line back s l htext h hc hstores
  have hfault : Event.fault? settings.utf8 audience.source l = none := by
    rw [Event.fault?, hc, hstores.violation?_eq_none hc (h.not_mem_of_define htext hc)]
    rfl
  refine ⟨by rw [Event.faultEntries, hfault], fun w hw hnumber => ?_⟩
  obtain ⟨s', n, hdefine, ho⟩ := hstores.define_eq
  have hobey : s.obey settings.supported l = s'.note n := by rw [Reader.State.obey, hc, hdefine]
  have hnext : ∀ s'', (s.obey settings.supported l).next = some s'' → s''.openObject = none := by
    rw [hobey]
    rintro _ ⟨⟩
    rw [ho, h.outside]
  have hmem : w ∈ (parseText settings audience text).warnings.filter (·.number = l.number) :=
    List.mem_filter.2 ⟨hw, decide_eq_true hnumber⟩
  rw [parseText, htext, h.filter_warnings hnext audience, hobey] at hmem
  simp [Event.warnings, hfault] at hmem

/-- A definition that is joined around its equals sign, below a rule and a violation of the grammar. -/
theorem parseText_stored_folded :
    let text : Text := "+ Hi\r\n! var name\n^ = Bot = me\n".toList
    let front : List Text := ["+ Hi".toList]
    let line : Text := "! var name".toList
    let back : List Text := ["^ = Bot = me".toList]
    ∃ s l, Text.lines text = front ++ line :: back ∧
      Reader.Reached ({} : Settings).supported front line back s l ∧
      s.Stores ({} : Settings).supported l ∧
      l.text = "var name<crlf>= Bot = me".toList ∧
      Event.faultEntries {} ⟨[], true⟩ l = [] ∧
      Grammar.violation? false (some .define) l.text = none ∧
      (parseText {} ⟨[], true⟩ text).warnings.map (·.number) = [1] ∧
      ∀ w ∈ (parseText {} ⟨[], true⟩ text).warnings, w.number ≠ l.number := by
  intro text front line back
  let s : Reader.State :=
    { document := { topics := [(defaultTopic, { rules := [{ pattern := "Hi".toList }] })] }
      openRule := some ⟨defaultTopic, 0⟩ }
  let l : LogicalLine := ⟨'!', "var name<crlf>= Bot = me".toList, none, 2⟩
  obtain ⟨-, hgrammar, hreport⟩ := parseText_stored {} ⟨[], true⟩ text
  have hlines : Text.lines text = front ++ line :: back := by decide
  have hreached : Reader.Reached ({} : Settings).supported front line back s l :=
    ⟨by rfl, by rfl, ⟨'!', "var name".toList⟩, by decide, by decide⟩
  have hstores : s.Stores ({} : Settings).supported l :=
    .text .var "name<crlf>".toList "Bot = me".toList (by rfl)
  obtain ⟨hfault, hnumbers⟩ := hreport front line back s l hlines hreached (by decide) hstores
  exact ⟨s, l, hlines, hreached, hstores, rfl, hfault,
    hgrammar _ s l false (by decide) hstores (by decide), by decide, hnumbers⟩

end DialogueScript
