import DialogueScript.Parse

/-!
# What a line can do

`step` reads one line. `Stepped` lists the four things that a line can come to, and `Edit` the ways
in which it can change the document; facts that hold after every line are proved from these two
lists, and not from the definition of `step`.
-/

namespace DialogueScript

/-! ## Lines that belong to a rule -/

/-- Responses, conditions and redirects. -/
def LogicalLine.extendsRule (l : LogicalLine) : Bool :=
  l.command? = some .response || l.command? = some .condition || l.command? = some .redirect

/-- The rule with what the line adds to it. -/
def Rule.extendBy (r : Rule) (l : LogicalLine) : Rule :=
  match l.command? with
  | some .response => { r with replies := r.replies ++ [l.text] }
  | some .condition => { r with conditions := r.conditions ++ [l.text] }
  | some .redirect => { r with redirect := some l.text }
  | _ => r

/-! ## Edits of a document -/

namespace Document

/-- The topic and its relations, as a label declares them. -/
def enter (d : Document) (name : Text) (links : Links) : Document :=
  links.foldl (fun d link => (d.ensureTopic link.2).relate name link.1 link.2) (d.ensureTopic name)

inductive Edit (d : Document) : Document → Prop
  | keep : Edit d d
  | assign (t : TextTable) (name value : Text) :
    Edit d { d with definitions := d.definitions.assign name value t }
  | assignArray (name : Text) (elements : List Text) :
    Edit d { d with definitions := d.definitions.assignArray name elements }
  | enter (name : Text) (links : Links) : Edit d (d.enter name links)
  | addRule (topic : Text) (r : Rule) : Edit d (d.addRule topic r)
  | modifyRule (place : RulePlace) (f : Rule → Rule) : Edit d (d.modifyRule place f)
  | addObject (o : CodeObject) : Edit d (d.addObject o)

end Document

namespace Reader

theorem LineKind.ofLine?_of_lone {inComment : Bool} {line : Text} (h : of inComment line = .lone) :
    Statement.ofLine? line = none := by
  unfold of at h
  cases hs : Statement.ofLine? line with
  | none => rfl
  | some st => grind

namespace State

/-! ## Outcomes -/

variable (s : State)

@[simp] theorem go_events (events : List Event) : (s.go events).events = events := rfl

@[simp] theorem go_next (events : List Event) : (s.go events).next = some s := rfl

@[simp] theorem warn_events (p : Problem) (number : Nat) :
    (s.warn p number).events = [.problem p number] := rfl

@[simp] theorem warn_next (p : Problem) (number : Nat) : (s.warn p number).next = some s := rfl

@[simp] theorem note_events (n : Note) : (s.note n).events = [.note n] := rfl

@[simp] theorem note_next (n : Note) : (s.note n).next = some s := rfl

/-! ## The kinds of steps -/

/-- The event of a line that is not blank. -/
def seen (line : Text) : Event := .line (Text.trim line) s.topic s.openObject.isSome

/-- A complaint about a line that is neither code nor a statement. -/
def Aside (line : Text) (p : Problem) : Prop :=
  p = .deprecatedComment ∨
    p = .lone (Text.trim line) ∧ Statement.ofLine? (Text.trim line) = none

inductive Stepped (supported : Float) (number : Nat) (line : Text) (rest : List Text) :
    Outcome → Prop
  | blank (h : Text.trim line = []) : Stepped supported number line rest (s.go [])
  | code (o : CodeObject) (h : Text.trim line ≠ []) (ho : s.openObject = some o) :
    Stepped supported number line rest ((s.readCode o line).go [s.seen line])
  | aside (inComment : Bool) (problems : List Problem) (h : Text.trim line ≠ [])
    (ho : s.openObject = none) (hp : ∀ p ∈ problems, Aside line p) :
    Stepped supported number line rest
      ({ s with inComment }.go (s.seen line :: problems.map (.problem · number)))
  | statement (st : Statement) (h : Text.trim line ≠ []) (ho : s.openObject = none)
    (hk : LineKind.of s.inComment (Text.trim line) = .statement st) :
    Stepped supported number line rest
      ⟨s.seen line :: .statement (s.logicalLine number st rest) ::
        (s.obey supported (s.logicalLine number st rest)).events,
        (s.obey supported (s.logicalLine number st rest)).next⟩

/-- Every line is read in one of the ways of `Stepped`. -/
theorem step_stepped (supported : Float) (number : Nat) (line : Text) (rest : List Text) :
    s.Stepped supported number line rest (s.step supported number line rest) := by
  unfold step
  by_cases h : Text.trim line = []
  · rw [if_pos h]
    exact .blank h
  rw [if_neg h]
  cases ho : s.openObject with
  | some o =>
    have hs : Event.line (Text.trim line) s.topic true = s.seen line := by simp [seen, ho]
    simp only [Option.isSome_some, hs]
    exact .code o h ho
  | none =>
    have hs : Event.line (Text.trim line) s.topic false = s.seen line := by simp [seen, ho]
    simp only [Option.isSome_none, hs, readLine]
    cases hk : LineKind.of s.inComment (Text.trim line) with
    | comment => exact .aside s.inComment [] h ho (by simp)
    | deprecatedComment => exact .aside s.inComment [.deprecatedComment] h ho (by simp [Aside])
    | commentStart => exact .aside true [] h ho (by simp)
    | commentEnd => exact .aside false [] h ho (by simp)
    | lone =>
      have hnone := LineKind.ofLine?_of_lone hk
      exact .aside s.inComment [.lone (Text.trim line)] h ho (by simp [Aside, hnone])
    | statement st => exact .statement st h ho hk

/-! ## What a statement does -/

/-- A complaint about a statement, which then has no effect. -/
def Rejects (l : LogicalLine) : Problem → Prop
  | .unknownCommand mark => l.command? = none ∧ mark = l.mark
  | .missingName | .missingValue | .unknownDefinition _ | .badVersion => l.command? = some .define
  | .unnamedTopic => l.command? = some .labelOpen ∧ Label.ofText l.text = .unnamedTopic
  | .unknownLabel word =>
    l.command? = some .labelOpen ∧ Label.ofText l.text = .unknown word ∨
      l.command? = some .labelClose ∧ l.text = word ∧
        ¬(l.text = Label.beginKeyword ∨ l.text = Label.topicKeyword)
  | .strayResponse => l.command? = some .response ∧ s.openRule = none
  | .strayCondition => l.command? = some .condition ∧ s.openRule = none
  | .strayRedirect => l.command? = some .redirect ∧ s.openRule = none
  | _ => False

/-- The ways of obeying a statement outside of code objects. -/
inductive Obeyed (supported : Float) (l : LogicalLine) : Outcome → Prop
  | refused (e : UnsupportedVersion) (hc : l.command? = some .define) :
    Obeyed supported l ⟨[.problem (.unsupportedVersion e) l.number], none⟩
  | rejected (p : Problem) (hp : s.Rejects l p) : Obeyed supported l (s.warn p l.number)
  | ignored (hc : l.command? ∈ [some .define, some .previous, some .continuation] ∨
      l.command? = some .labelClose ∧ l.text = Label.objectKeyword) : Obeyed supported l (s.go [])
  | option (name value : Text) (hc : l.command? = some .define)
    (hd : Definition.ofText l.text = ⟨.option, name, value⟩) (hn : name ≠ []) (hv : value ≠ []) :
    Obeyed supported l ({ s with options := s.options.set name value }.note (.option name value))
  | assigned (t : TextTable) (name value : Text) (hc : l.command? = some .define)
    (hd : Definition.ofText l.text = ⟨.table (.text t), name, value⟩) (hn : name ≠ [])
    (hv : value ≠ []) :
    Obeyed supported l ((s.assign t name value).note (.assignment t name value))
  | assignedArray (name value : Text) (hc : l.command? = some .define)
    (hd : Definition.ofText l.text = ⟨.table .array, name, value⟩) (hn : name ≠ [])
    (hv : value ≠ []) :
    Obeyed supported l ((s.assignArray name (arrayElements value)).note (.array name value))
  | entered (name : Text) (links : Links) (notes : List Note) (hc : l.command? = some .labelOpen)
    (hl : Label.ofText l.text = .topic name links ∨
      Label.ofText l.text = .begin links ∧ name = beginTopic) :
    Obeyed supported l ((s.enterTopic name links).go (notes.map .note))
  | opened (name : Text) (language : Option Text) (problems : List Problem)
    (hc : l.command? = some .labelOpen) (hl : Label.ofText l.text = .object name language)
    (hp : ∀ p ∈ problems, p = .unknownLanguage) :
    Obeyed supported l ((s.openObjectNamed name (language.getD defaultLanguage)).go
      (problems.map (.problem · l.number)))
  | left (hc : l.command? = some .labelClose)
    (hl : l.text = Label.beginKeyword ∨ l.text = Label.topicKeyword) :
    Obeyed supported l ({ s with topic := defaultTopic, openRule := none }.note .endOfLabel)
  | added (hc : l.command? = some .trigger) : Obeyed supported l (s.addRule l)
  | extended (place : RulePlace) (n : Note) (hc : l.extendsRule) (ho : s.openRule = some place) :
    Obeyed supported l
      ({ s with document := s.document.modifyRule place (·.extendBy l) }.note n)

/-- A definition without a name or a value is warned of, any other one takes its effect. -/
theorem complete_cases (d : Definition) (number : Nat) (outcome : Outcome) :
    s.complete d number outcome = s.warn .missingName number ∨
      s.complete d number outcome = s.warn .missingValue number ∨
      d.name ≠ [] ∧ d.value ≠ [] ∧ s.complete d number outcome = outcome := by
  unfold complete
  split
  · exact .inl rfl
  · rename_i hn
    split
    · exact .inr (.inl rfl)
    · rename_i hv
      exact .inr (.inr ⟨hn, hv, rfl⟩)

theorem obeyed_complete {supported : Float} {l : LogicalLine} (hc : l.command? = some .define)
    (d : Definition) (outcome : Outcome)
    (h : d.name ≠ [] → d.value ≠ [] → s.Obeyed supported l outcome) :
    s.Obeyed supported l (s.complete d l.number outcome) := by
  rcases s.complete_cases d l.number outcome with e | e | ⟨hn, hv, e⟩
  · rw [e]
    exact .rejected .missingName hc
  · rw [e]
    exact .rejected .missingValue hc
  · rw [e]
    exact h hn hv

theorem define_obeyed (supported : Float) (l : LogicalLine) (hc : l.command? = some .define) :
    s.Obeyed supported l (s.define supported l) := by
  unfold define
  cases hd : Definition.ofText l.text with
  | mk kind name value =>
  cases kind with
  | version =>
    simp only [checkVersion]
    split
    · exact .rejected .badVersion hc
    · split
      · exact .refused _ hc
      · exact .ignored (.inl (by simp [hc]))
  | option => exact s.obeyed_complete hc _ _ fun hn hv => .option name value hc hd hn hv
  | table t =>
    cases t with
    | text t => exact s.obeyed_complete hc _ _ fun hn hv => .assigned t name value hc hd hn hv
    | array => exact s.obeyed_complete hc _ _ fun hn hv => .assignedArray name value hc hd hn hv
  | unknown word =>
    exact s.obeyed_complete hc _ _ fun _ _ => .rejected (.unknownDefinition word) hc

theorem openLabel_obeyed (supported : Float) (l : LogicalLine) (hc : l.command? = some .labelOpen) :
    s.Obeyed supported l (s.openLabel l) := by
  unfold openLabel
  cases hl : Label.ofText l.text with
  | begin links => exact .entered beginTopic links [.beginBlock, .topic beginTopic] hc (.inr ⟨hl, rfl⟩)
  | topic name links => exact .entered name links [.topic name] hc (.inl hl)
  | unnamedTopic => exact .rejected .unnamedTopic ⟨hc, hl⟩
  | object name language =>
    cases language with
    | some language => exact .opened name (some language) [] hc hl (by simp)
    | none => exact .opened name none [.unknownLanguage] hc hl (by simp)
  | unknown word => exact .rejected (.unknownLabel word) (.inl ⟨hc, hl⟩)

theorem closeLabel_topic {l : LogicalLine}
    (h : l.text = Label.beginKeyword ∨ l.text = Label.topicKeyword) :
    s.closeLabel l = { s with topic := defaultTopic, openRule := none }.note .endOfLabel :=
  if_pos h

theorem closeLabel_object {l : LogicalLine}
    (h : ¬(l.text = Label.beginKeyword ∨ l.text = Label.topicKeyword))
    (ho : l.text = Label.objectKeyword) :
    s.closeLabel l = { s with openObject := none }.go [] := by
  rw [closeLabel, if_neg h, if_pos ho]

theorem closeLabel_unknown {l : LogicalLine}
    (h : ¬(l.text = Label.beginKeyword ∨ l.text = Label.topicKeyword))
    (ho : l.text ≠ Label.objectKeyword) :
    s.closeLabel l = s.warn (.unknownLabel l.text) l.number := by
  rw [closeLabel, if_neg h, if_neg ho]

theorem closeLabel_obeyed (supported : Float) (l : LogicalLine) (ho : s.openObject = none)
    (hc : l.command? = some .labelClose) : s.Obeyed supported l (s.closeLabel l) := by
  by_cases ht : l.text = Label.beginKeyword ∨ l.text = Label.topicKeyword
  · rw [s.closeLabel_topic ht]
    exact .left hc ht
  by_cases hl : l.text = Label.objectKeyword
  · -- the flag that is cleared here is clear already
    have hs : { s with openObject := none } = s := by rw [← ho]
    rw [s.closeLabel_object ht hl, hs]
    exact .ignored (.inr ⟨hc, hl⟩)
  · rw [s.closeLabel_unknown ht hl]
    exact .rejected (.unknownLabel l.text) (.inr ⟨hc, rfl, ht⟩)

/-- A statement that extends a rule does so, or it is a stray and nothing changes. -/
theorem extendRule_obeyed (supported : Float) (l : LogicalLine) (n : Note) (stray : Problem)
    (hc : l.extendsRule) (hp : s.openRule = none → s.Rejects l stray) :
    s.Obeyed supported l (s.extendRule (·.extendBy l) n stray l.number) := by
  unfold extendRule
  split
  · rename_i place ho
    exact .extended place n hc ho
  · rename_i ho
    exact .rejected stray (hp ho)

/-- Every statement outside of code objects does one of the things that `Obeyed` lists. -/
theorem obey_obeyed (supported : Float) (l : LogicalLine) (ho : s.openObject = none) :
    s.Obeyed supported l (s.obey supported l) := by
  unfold obey
  split <;> rename_i hc
  · exact s.define_obeyed supported l hc
  · exact s.openLabel_obeyed supported l hc
  · exact s.closeLabel_obeyed supported l ho hc
  · exact .added hc
  · have := s.extendRule_obeyed supported l (.response l.text) .strayResponse
      (by simp [LogicalLine.extendsRule, hc]) fun h => ⟨hc, h⟩
    simpa only [Rule.extendBy, hc] using this
  · have := s.extendRule_obeyed supported l (.condition l.text) .strayCondition
      (by simp [LogicalLine.extendsRule, hc]) fun h => ⟨hc, h⟩
    simpa only [Rule.extendBy, hc] using this
  · have := s.extendRule_obeyed supported l (.redirect l.text) .strayRedirect
      (by simp [LogicalLine.extendsRule, hc]) fun h => ⟨hc, h⟩
    simpa only [Rule.extendBy, hc] using this
  · exact .ignored (.inl (by simp [hc]))
  · exact .ignored (.inl (by simp [hc]))
  · exact .rejected _ ⟨hc, rfl⟩

/-! ## What a step keeps -/

variable {s} {s' : State} {supported : Float}

/-- A statement edits the document by one of the edits of `Edit`. -/
theorem obey_edit {l : LogicalLine} (ho : s.openObject = none)
    (h : (s.obey supported l).next = some s') : s.document.Edit s'.document := by
  have hs := s.obey_obeyed supported l ho
  generalize s.obey supported l = outcome at hs h
  cases hs <;> cases h
  case rejected => exact .keep
  case ignored => exact .keep
  case option => exact .keep
  case assigned t name value _ _ _ _ => exact .assign t name value
  case assignedArray name value _ _ _ _ => exact .assignArray name _
  case entered name links _ _ _ => exact .enter name links
  case opened => exact .keep
  case left => exact .keep
  case added => exact .addRule _ _
  case extended place _ _ _ => exact .modifyRule place _

/-! A line of code touches the open object and the objects of the document, nothing else. -/

@[simp] theorem readCode_topic (o : CodeObject) (line : Text) :
    (s.readCode o line).topic = s.topic := by
  unfold readCode closeObject
  split <;> rfl

@[simp] theorem readCode_options (o : CodeObject) (line : Text) :
    (s.readCode o line).options = s.options := by
  unfold readCode closeObject
  split <;> rfl

@[simp] theorem readCode_definitions (o : CodeObject) (line : Text) :
    (s.readCode o line).document.definitions = s.document.definitions := by
  unfold readCode closeObject
  split
  · simp only
    split <;> rfl
  · rfl

@[simp] theorem readCode_topics (o : CodeObject) (line : Text) :
    (s.readCode o line).document.topics = s.document.topics := by
  unfold readCode closeObject
  split
  · simp only
    split <;> rfl
  · rfl

/-- A line of code adds a code object to the document, or leaves the document as it is. -/
theorem readCode_edit (o : CodeObject) (line : Text) :
    s.document.Edit (s.readCode o line).document := by
  unfold readCode closeObject
  split
  · simp only
    split
    · exact .keep
    · exact .addObject o
  · exact .keep

/-- A line edits the document by one of the edits of `Edit`, whatever it is. -/
theorem step_edit {number : Nat} {line : Text} {rest : List Text}
    (h : (s.step supported number line rest).next = some s') : s.document.Edit s'.document := by
  have hs := s.step_stepped supported number line rest
  generalize s.step supported number line rest = outcome at hs h
  cases hs with
  | blank =>
    cases h
    exact .keep
  | code o =>
    cases h
    exact readCode_edit o line
  | aside =>
    cases h
    exact .keep
  | statement st _ ho _ => exact obey_edit ho h

/-! ## What a step complains about -/

/-- A complaint about the statement `l`. -/
def Disputes (l : LogicalLine) (p : Problem) : Prop :=
  s.Rejects l p ∨ p = .unknownLanguage ∨ ∃ e, p = .unsupportedVersion e

/-- A statement is told to have a problem only if it has it. -/
theorem obey_disputes {l : LogicalLine} (ho : s.openObject = none) {p : Problem} {k : Nat}
    (h : .problem p k ∈ (s.obey supported l).events) : s.Disputes l p := by
  have hs := s.obey_obeyed supported l ho
  generalize s.obey supported l = outcome at hs h
  cases hs with
  | refused e =>
    cases List.mem_singleton.1 h
    exact .inr (.inr ⟨e, rfl⟩)
  | rejected p hp =>
    cases List.mem_singleton.1 h
    exact .inl hp
  | opened name language problems _ _ hp =>
    obtain ⟨p, hm, he⟩ := List.mem_map.1 h
    cases he
    exact .inr (.inl (hp p hm))
  | added => simp [addRule] at h
  | _ => simp at h

/-- The problems of a line are those of the line itself or of the statement on it. -/
theorem step_disputes {number : Nat} {line : Text} {rest : List Text} {p : Problem} {k : Nat}
    (h : .problem p k ∈ (s.step supported number line rest).events) :
    Text.trim line ≠ [] ∧ (Aside line p ∨ ∃ l, s.Disputes l p) := by
  have hs := s.step_stepped supported number line rest
  generalize s.step supported number line rest = outcome at hs h
  cases hs with
  | blank => cases h
  | code => simp [seen] at h
  | aside inComment problems hline _ hp =>
    obtain ⟨p, hm, he⟩ := List.mem_map.1 (List.mem_of_ne_of_mem (by simp [seen]) h)
    cases he
    exact ⟨hline, .inl (hp p hm)⟩
  | statement st hline ho _ =>
    have hobey : .problem p k ∈ (s.obey supported (s.logicalLine number st rest)).events := by
      simpa [seen] using h
    exact ⟨hline, .inr ⟨_, obey_disputes ho hobey⟩⟩

end State

end Reader

end DialogueScript
