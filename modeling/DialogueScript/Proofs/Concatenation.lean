import DialogueScript.Proofs.Diagnostics
import DialogueScript.Proofs.Merge
import DialogueScript.Proofs.Simulation

/-!
# One script behind another

Behind a line that closes the open topic, a script is read as if it were alone, on top of the
document of the script before it. `State.onTop` puts a state on top of an earlier one; it commutes
with reading (`onTop_commutes`, `scan_onTop`), and the state after the separator is the initial one on
top of what came before (`initial_onTop`).
-/

namespace DialogueScript

namespace Reader

/-! ## States on top of each other -/

/-- The options that are looked at are those of the upper script. -/
def onTopOptions (base o : Options) : Options := ⟨o.concat, base.extra.assignAll o.extra⟩

/-- The state `s` of a script that began when `base` was reached. -/
def State.onTop (base s : State) : State :=
  { s with
    document := base.document.merge s.document
    openRule := s.openRule.map (·.onTop base.document)
    options := onTopOptions base.options s.options }

namespace State

variable {base s : State}

theorem initial_onTop (ho : base.openObject = none) (hc : base.inComment = false)
    (hj : base.options.concat = "none".toList) :
    { base with topic := defaultTopic, openRule := none } = State.onTop base {} := by
  obtain ⟨document, topic, openRule, inComment, openObject, concat, extra⟩ := base
  subst ho hc hj
  simp only [onTop, onTopOptions, Document.merge_empty]
  rfl

theorem set_onTop (hb : base.options.extra.names.Nodup) (hs : s.options.extra.names.Nodup)
    (name value : Text) :
    onTopOptions base.options (s.options.set name value) =
      (onTopOptions base.options s.options).set name value := by
  unfold Options.set
  split
  · rfl
  · simp only [onTopOptions, Table.assignAll_assign hb hs]

section

variable (hb : base.Sound) (hs : s.Sound)

include hb hs

theorem enterTopic_onTop (name : Text) (links : Links) :
    onTop base (s.enterTopic name links) = (onTop base s).enterTopic name links := by
  have he := Document.merge_enter hb.distinct hs.distinct name links
  simp only [onTop, enterTopic, Option.map_none, State.mk.injEq, and_true]
  exact he

theorem addRule_onTop (l : LogicalLine) :
    (onTop base s).addRule l = (s.addRule l).map (onTop base) := by
  have hd := Document.merge_addRule hb.distinct hs.distinct s.topic
    { pattern := l.text, previous := l.previous }
  have hl := base.document.length_rulesOf_merge hs.distinct s.topic
  simp only [addRule, ruleCount, Document.length_rulesOf]
  simp only [onTop, Outcome.map, note, go, Option.map_some, hd, hl, RulePlace.onTop]

theorem extendRule_onTop (f : Rule → Rule) (n : Note) (stray : Problem) (number : Nat) :
    (onTop base s).extendRule f n stray number =
      (s.extendRule f n stray number).map (onTop base) := by
  unfold extendRule
  cases hr : s.openRule with
  | none =>
    have hn : (onTop base s).openRule = none := by simp only [onTop, hr, Option.map_none]
    rw [hn]
    rfl
  | some place =>
    obtain ⟨ht, topic, hg, -⟩ := hs.attached place hr
    have hm : place.topic ∈ s.document.topics.names :=
      Table.isSome_get?_iff.1 (by rw [ht, hg]; rfl)
    have hd := Document.merge_modifyRule hb.distinct hs.distinct hm f
    simp only [onTop, hr, Option.map_some, hd, Outcome.map, note, go]

end

theorem readCode_onTop (o : CodeObject) (line : Text) :
    onTop base (s.readCode o line) = (onTop base s).readCode o line := by
  unfold readCode closeObject
  split
  · simp only [onTop]
    split
    · rfl
    · rw [Document.merge_addObject]
  · rfl

end State

/-- Reading does not look at what stands below. -/
theorem onTop_commutes {base : State} (hb : base.Sound) : Commutes State.Sound (.onTop base) where
  inComment _ := rfl
  openObject _ := rfl
  topic _ := rfl
  concat _ := rfl
  comment _ _ := rfl
  set s name value hs := by simp only [State.onTop, State.set_onTop hb.options hs.options]
  assign s t name value hs := by
    simp only [State.assign, State.onTop, Document.merge_assign hb.distinct hs.distinct]
  assignArray s name elements hs := by
    simp only [State.assignArray, State.onTop, Document.merge_assignArray hb.distinct hs.distinct]
  enterTopic _ name links hs := State.enterTopic_onTop hb hs name links
  leave _ := rfl
  openObjectNamed _ _ _ := rfl
  noObject _ := rfl
  addRule _ l hs := State.addRule_onTop hb hs l
  extendRule _ f n stray number hs := State.extendRule_onTop hb hs f n stray number
  readCode _ o line := State.readCode_onTop o line

/-- A script is read on top of a state as it is read alone. -/
theorem scan_onTop {base s : State} (hb : base.Sound) (hs : s.Sound) (supported : Float)
    (number : Nat) (lines : List Text) :
    scan supported (.onTop base s) number lines =
      (scan supported s number lines).map (.onTop base) := by
  simp only [scan_eq]
  exact (onTop_commutes hb).scanBefore (fun _ _ _ _ _ hs hn => hs.step hn) hs number [] lines

/-! ## The separator -/

/-- Closes the open topic. Statements are not folded across the comments around. -/
def separator : List Text := [['/', '/'], ['<', ' ', 't', 'o', 'p', 'i', 'c'], ['/', '/']]

theorem endsFold_comment (lines : List Text) : EndsFold (['/', '/'] :: lines) := by
  have hs : Statement.ofLine? ['/', '/'] = some ⟨'/', ['/']⟩ := rfl
  exact endsFold_cons lines hs (by decide) (by decide)

theorem fold_of_endsFold {lines : List Text} (h : EndsFold lines) (concat : Text)
    (command : Option Command) (payload : Text) :
    fold concat command payload lines = ⟨payload, none, 0⟩ := by
  unfold fold
  split
  · rfl
  · rw [h]
    simp

section

variable {s : State} (ho : s.openObject = none) (supported : Float) (number : Nat)

include ho

theorem step_comment (rest : List Text) :
    s.step supported number ['/', '/'] rest = s.go [s.seen ['/', '/']] := by
  have ht : Text.trim ['/', '/'] = ['/', '/'] := rfl
  have hk : LineKind.of s.inComment ['/', '/'] = .comment := rfl
  unfold State.step
  rw [ht, if_neg (by simp), ho]
  simp only [State.readLine, hk]
  simp [State.seen, ho, ht, State.go]

theorem step_closeTopic (hc : s.inComment = false) {rest : List Text} (hr : EndsFold rest) :
    s.step supported number ['<', ' ', 't', 'o', 'p', 'i', 'c'] rest =
      { s with topic := defaultTopic, openRule := none }.go
        [s.seen ['<', ' ', 't', 'o', 'p', 'i', 'c'],
          .statement ⟨'<', ['t', 'o', 'p', 'i', 'c'], none, number⟩, .note .endOfLabel] := by
  have ht : Text.trim ['<', ' ', 't', 'o', 'p', 'i', 'c'] =
    ['<', ' ', 't', 'o', 'p', 'i', 'c'] := rfl
  have hk : LineKind.of false ['<', ' ', 't', 'o', 'p', 'i', 'c'] =
    .statement ⟨'<', ['t', 'o', 'p', 'i', 'c']⟩ := rfl
  have hl : s.logicalLine number ⟨'<', ['t', 'o', 'p', 'i', 'c']⟩ rest =
      ⟨'<', ['t', 'o', 'p', 'i', 'c'], none, number⟩ := by
    rw [State.logicalLine, fold_of_endsFold hr]
  have hx : s.obey supported ⟨'<', ['t', 'o', 'p', 'i', 'c'], none, number⟩ =
      { s with topic := defaultTopic, openRule := none }.note .endOfLabel :=
    s.closeLabel_topic (.inr rfl)
  unfold State.step
  rw [ht, if_neg (by simp), ho]
  simp only [State.readLine, hc, hk, hl, hx]
  simp [State.seen, ho, ht, State.go]

end

/-- The separator is passed without a warning, and what follows it is read as a new script. -/
theorem scan_separator {base : State} (hb : base.Sound) (ho : base.openObject = none)
    (hc : base.inComment = false) (hj : base.options.concat = "none".toList) (supported : Float)
    (number : Nat) (lines : List Text) :
    ∃ events : List Event,
      (∀ utf8 source, events.flatMap (Event.warnings utf8 source) = []) ∧
      scan supported base number (separator ++ lines) =
        ⟨events ++ (scan supported {} 0 lines).events.map (Event.shift (number + 3)),
          (scan supported {} 0 lines).next.map (.onTop base)⟩ := by
  have hl := step_closeTopic ho supported (number + 1 + 1) hc (endsFold_comment lines)
  have hs : { base with topic := defaultTopic, openRule := none } = State.onTop base {} :=
    State.initial_onTop ho hc hj
  have hr : scan supported (.onTop base {}) (number + 1 + 1 + 1) lines =
      ((scan supported {} 0 lines).shift (number + 3)).map (.onTop base) := by
    rw [scan_onTop hb State.sound_initial, ← scan_shift, Nat.zero_add]
  refine ⟨[base.seen ['/', '/'], base.seen ['<', ' ', 't', 'o', 'p', 'i', 'c'],
    .statement ⟨'<', ['t', 'o', 'p', 'i', 'c'], none, number + 2⟩, .note .endOfLabel,
    State.seen (.onTop base {}) ['/', '/']], fun utf8 source => rfl, ?_⟩
  show scan supported base number
    (['/', '/'] :: ['<', ' ', 't', 'o', 'p', 'i', 'c'] :: ['/', '/'] :: lines) = _
  have hu : (State.onTop base {}).openObject = none := rfl
  simp only [scan, step_comment ho, hl, hs, State.go_next, State.go_events, step_comment hu, hr]
  rfl

end Reader

/-! ## Concatenation -/

/-- The same warning, `k` lines further down. -/
def Warning.shift (k : Nat) (w : Warning) : Warning := { w with number := w.number + k }

theorem Event.warnings_shift (k : Nat) (utf8 : Bool) (source : Text) (e : Event) :
    (e.shift k).warnings utf8 source = (e.warnings utf8 source).map (.shift k) := by
  cases e with
  | statement l =>
    simp only [Event.shift, warnings, fault?, LogicalLine.shift_command?, LogicalLine.shift_text,
      LogicalLine.shift_number]
    cases Grammar.violation? utf8 l.command? l.text <;> rfl
  | _ => rfl

namespace Reader

variable {supported : Float} {first : List Text}

theorem scan_before_separator (supported : Float) (first second : List Text) :
    scan supported {} 0 (first ++ separator ++ second) =
      (scan supported {} 0 first).andThen fun s =>
        scan supported s first.length (separator ++ second) := by
  have hf : EndsFold (separator ++ second) := endsFold_comment _
  rw [List.append_assoc, scan_append_of_endsFold hf, Nat.zero_add]

/-- Nothing is read behind a script that was refused. -/
theorem read_concatenation_refused (hn : (scan supported {} 0 first).next = none)
    (second : List Text) : read supported (first ++ separator ++ second) = read supported first := by
  have hw : scan supported {} 0 (first ++ separator ++ second) = scan supported {} 0 first := by
    rw [scan_before_separator, Outcome.andThen_of_none hn]
  rw [read_of_none hn, read_of_none (hw ▸ hn), hw]

theorem read_concatenation {s : State} (h : (scan supported {} 0 first).next = some s)
    (ho : s.openObject = none) (hc : s.inComment = false) (hj : s.options.concat = "none".toList)
    (second : List Text) :
    ∃ events : List Event,
      (∀ utf8 source, events.flatMap (Event.warnings utf8 source) = []) ∧
      read supported (first ++ separator ++ second) =
        ⟨(read supported first).events ++ (events ++
            (read supported second).events.map (Event.shift (first.length + 3))),
          (read supported second).document.map s.document.merge⟩ := by
  have hsound : s.Sound := by
    rw [scan_eq] at h
    exact State.sound_initial.scanBefore h
  obtain ⟨events, hw, hsep⟩ := scan_separator hsound ho hc hj supported first.length second
  have hone : (read supported first).events = (scan supported {} 0 first).events := by
    rw [read_of_some h, closing, ho, List.append_nil]
  have hall := scan_before_separator supported first second
  rw [Outcome.andThen_of_some h, hsep] at hall
  refine ⟨events, hw, ?_⟩
  rw [hone]
  cases hn : (scan supported {} 0 second).next with
  | none =>
    rw [hn] at hall
    rw [read_of_none (by rw [hall]; rfl), read_of_none hn, hall]
    rfl
  | some t =>
    rw [hn] at hall
    rw [read_of_some (s := .onTop s t) (by rw [hall]; rfl), read_of_some hn, hall]
    have hl : (first ++ separator ++ second).length = second.length + (first.length + 3) := by
      simp only [List.length_append, separator, List.length_cons, List.length_nil]
      omega
    have hclose : closing (.onTop s t) = closing t := rfl
    rw [hl, hclose, closing_shift]
    simp only [List.map_append, List.append_assoc]
    rfl

end Reader

/-- A script behind another one, with a line between them that closes the open topic. If the version
of the first script is refused, the second one is not read at all. If the first script ends outside
of comments and code objects and joins its lines by default, the document is that of the second
script on top of that of the first, and the warnings are those of the first and those of the second
further down. -/
theorem parse_concatenation (settings : Settings) (audience : Audience) (first second : List Text) :
    let whole := parse settings audience (first ++ Reader.separator ++ second)
    let one := parse settings audience first
    let two := parse settings audience second
    match (Reader.scan settings.supported {} 0 first).next with
    | none => one.document = none ∧ whole = one
    | some s =>
      one.document = some s.document ∧
        (s.openObject = none → s.inComment = false → s.options.concat = "none".toList →
          whole.document = two.document.map s.document.merge ∧
            whole.warnings = one.warnings ++ two.warnings.map (.shift (first.length + 3))) := by
  intro whole one two
  cases hn : (Reader.scan settings.supported {} 0 first).next with
  | none =>
    refine ⟨by simp only [one, parse_document, Reader.read_of_none hn], ?_⟩
    simp only [whole, one, parse_eq, Reader.read_concatenation_refused hn]
  | some s =>
    have hd : one.document = some s.document := by
      simp only [one, parse_document, Reader.read_of_some hn]
    refine ⟨hd, ?_⟩
    intro ho hc hj
    obtain ⟨events, hw, he⟩ := Reader.read_concatenation hn ho hc hj second
    refine ⟨by simp only [whole, two, parse_document, he], ?_⟩
    simp only [whole, one, two, parse_warnings, he, List.flatMap_append, hw, List.nil_append,
      List.flatMap_map, List.map_flatMap, Event.warnings_shift]

/-- A topic that is open at the end of the first script does not receive the rules of the second,
whose first line is a stray response. -/
theorem parse_concatenation_topic :
    let first : List Text := [['>', ' ', 't', 'o', 'p', 'i', 'c', ' ', 'a'], ['+', 'b'], ['-', 'c']]
    let second : List Text := [['-', 'd'], ['+', 'e']]
    let whole := parse {} ⟨['s'], false⟩ (first ++ Reader.separator ++ second)
    ∃ d, whole.document = some d ∧ d.topics.names = [['a'], defaultTopic] ∧
      whole.warnings = [⟨Problem.strayResponse.message, ['s'], 7⟩] := by
  intro first second whole
  have hn : ∃ s, (Reader.scan ({} : Settings).supported {} 0 first).next = some s ∧
      s.openObject = none ∧ s.inComment = false ∧ s.options.concat = "none".toList ∧
      s.document.topics.names = [['a']] :=
    ⟨_, rfl, rfl, rfl, rfl, rfl⟩
  obtain ⟨s, hs, ho, hc, hj, ht⟩ := hn
  have h := parse_concatenation {} ⟨['s'], false⟩ first second
  rw [hs] at h
  obtain ⟨hd, hw⟩ := h.2 ho hc hj
  have he : ∃ e, (parse {} ⟨['s'], false⟩ second).document = some e ∧
      e.topics.names = [defaultTopic] := ⟨_, rfl, rfl⟩
  obtain ⟨e, he, hte⟩ := he
  rw [he] at hd
  refine ⟨s.document.merge e, hd, ?_, hw⟩
  show (s.document.topics.mergeTopics e.topics).names = _
  rw [Table.names_mergeTopics, ht, hte]
  rfl

end DialogueScript
