import DialogueScript.Proofs.Pieces
import DialogueScript.Proofs.Tables

/-!
# Well-formed documents

Every document that is read is well formed (`parse_wellFormed`): nothing is named twice, names have
the form that the statements which mention them can be read back from, nothing stored is empty, and
the topics that a topic is related to exist. What statements store is described where the statement
is taken apart (`Defines.isVariable`, `Enters.isWord`, …).
-/

namespace DialogueScript

/-! ## Well-formed parts -/

/-- Not empty, and without blanks. -/
def IsWord (w : Text) : Prop := w ≠ [] ∧ ∀ c ∈ w, Text.isBlank c = false

/-- What can stand in front of the equals sign of a definition. -/
structure IsVariable (name : Text) : Prop where
  tight : Text.Tight name
  noEquals : '=' ∉ name

structure Definitions.WellFormed (d : Definitions) : Prop where
  texts : ∀ t, ∀ p ∈ d.get t, IsVariable p.1 ∧ p.2 ≠ []
  arrays : ∀ p ∈ d.array, IsVariable p.1 ∧ ∀ element ∈ p.2, element ≠ []

structure Rule.WellFormed (r : Rule) : Prop where
  pattern : Text.Tight r.pattern
  replies : ∀ text ∈ r.replies, Text.Tight text
  conditions : ∀ text ∈ r.conditions, Text.Tight text
  redirect : ∀ text, r.redirect = some text → Text.Tight text
  previous : ∀ text, r.previous = some text → Text.Tight text

structure CodeObject.WellFormed (o : CodeObject) : Prop where
  name : IsWord o.name
  code : ∀ line ∈ o.code, Text.trim line ≠ [] ∧ Label.closesObject line = false

structure Document.WellFormed (d : Document) : Prop where
  distinct : d.Distinct
  definitions : d.definitions.WellFormed
  topics : ∀ t ∈ d.topics, IsWord t.1 ∧
    ∀ target, target ∈ t.2.includes ∨ target ∈ t.2.inherits → target ∈ d.topics.names
  rules : ∀ r ∈ d.rules, r.WellFormed
  objects : ∀ o ∈ d.objects, o.WellFormed

/-! ## What a definition stores -/

theorem Definition.isVariable_name {s : Text} (h : (ofText s).name ≠ []) :
    IsVariable (ofText s).name := by
  refine ⟨Text.tight_trim h, ?_⟩
  intro hmem
  -- the name stands in front of the first equals sign
  have hleft : '=' ∈ Text.before '=' s := Text.mem_of_mem_afterWord (Text.mem_of_mem_trim hmem)
  have hne := List.mem_takeWhile_imp hleft
  simp at hne

theorem LogicalLine.Defines.isVariable {l : LogicalLine} {t : DefinitionTable} {name value : Text}
    (h : l.Defines t name value) : IsVariable name := by
  have hname : (Definition.ofText l.text).name = name := by rw [h.definition]
  exact hname ▸ Definition.isVariable_name (hname.symm ▸ h.name)

theorem ne_nil_of_mem_arrayElements {value element : Text} (h : element ∈ arrayElements value) :
    element ≠ [] := by
  obtain ⟨e, he, rfl⟩ := List.mem_map.1 h
  have hne : e ≠ [] := by simpa using (List.mem_filter.1 he).2
  exact Text.replace_ne_nil (by simp) hne

/-! ## Relations of topics -/

namespace Document

/-- The topics that a topic is related to exist. -/
def Closed (d : Document) : Prop := d.TopicsIn (· ∈ d.topics.names)

theorem TopicsIn.mono {P Q : Text → Prop} {d : Document} (h : d.TopicsIn P)
    (hpq : ∀ name, P name → Q name) : d.TopicsIn Q :=
  ⟨fun name hn => hpq name (h.names name hn),
    fun name t ht target hm => hpq target (h.targets name t ht target hm)⟩

theorem mem_names_ensureTopic {d : Document} {name other : Text} :
    other ∈ (d.ensureTopic name).topics.names ↔ other ∈ d.topics.names ∨ other = name := by
  rw [ensureTopic, Table.names_ensure]
  exact Names.mem_add

theorem names_modifyTopic (d : Document) (name : Text) (f : Topic → Topic) :
    (d.modifyTopic name f).topics.names = d.topics.names :=
  Table.names_modify d.topics name f

theorem mem_names_enter {d : Document} {name other : Text} {links : Links} :
    other ∈ (d.enter name links).topics.names ↔
      other ∈ d.topics.names ∨ other = name ∨ ∃ link ∈ links, other = link.2 := by
  have hfold : ∀ d : Document, name ∈ d.topics.names →
      (other ∈ (links.foldl (fun d link => (d.ensureTopic link.2).relate name link.1 link.2)
        d).topics.names ↔ other ∈ d.topics.names ∨ ∃ link ∈ links, other = link.2) := by
    induction links with
    | nil => simp
    | cons link links ih =>
      intro d hn
      have hnames : ∀ other, other ∈ ((d.ensureTopic link.2).relate name link.1 link.2).topics.names ↔
          other ∈ d.topics.names ∨ other = link.2 := by
        intro other
        rw [relate, names_modifyTopic, mem_names_ensureTopic, mem_names_ensureTopic]
        constructor
        · rintro (h | rfl)
          · exact h
          · exact .inl hn
        · exact .inl
      rw [List.foldl_cons, ih _ ((hnames name).2 (.inl hn)), hnames]
      simp [or_assoc]
  rw [enter, hfold _ (mem_names_ensureTopic.2 (.inr rfl)), mem_names_ensureTopic, or_assoc]

/-- Every edit creates the targets of the relations that it adds. -/
theorem Closed.edit {d e : Document} (h : d.Closed) (he : d.Edit e) : e.Closed := by
  cases he with
  | keep => exact h
  | assign => exact h.congr rfl
  | assignArray => exact h.congr rfl
  | addObject => exact h.congr rfl
  | enter name links =>
    refine (h.mono fun other hn => mem_names_enter.2 (.inl hn)).enter ?_ ?_
    · exact mem_names_enter.2 (.inr (.inl rfl))
    · exact fun link hl => mem_names_enter.2 (.inr (.inr ⟨link, hl, rfl⟩))
  | addRule topic r =>
    have hnames : (d.addRule topic r).topics.names = (d.ensureTopic topic).topics.names :=
      names_modifyTopic _ _ _
    rw [Closed, hnames]
    exact (h.mono fun other hn => mem_names_ensureTopic.2 (.inl hn)).addRule
      (mem_names_ensureTopic.2 (.inr rfl)) r
  | modifyRule place f =>
    rw [Closed, modifyRule, names_modifyTopic]
    exact TopicsIn.modifyRule h place f

end Document

/-! ## What a label names -/

theorem isWord_beginTopic : IsWord beginTopic := by
  have h : beginTopic.all (!Text.isBlank ·) = true := by decide
  exact ⟨by decide, by simpa using h⟩

theorem isWord_defaultTopic : IsWord defaultTopic := by
  have h : defaultTopic.all (!Text.isBlank ·) = true := by decide
  exact ⟨by decide, by simpa using h⟩

namespace LogicalLine

variable {l : LogicalLine}

/-- The topics that a label names are words of it. -/
theorem Enters.mem_words {name : Text} {links : Links} (h : l.Enters name links) :
    (name = beginTopic ∨ name ∈ Text.words (Text.afterWord l.text)) ∧
      ∀ link ∈ links, link.2 ∈ Text.words (Text.afterWord l.text) := by
  rcases h.2 with hl | ⟨hl, rfl⟩
  · obtain ⟨-, hname, hlinks⟩ := Label.ofText_topic hl
    exact ⟨.inr hname, hlinks⟩
  · exact ⟨.inl rfl, (Label.ofText_begin hl).2⟩

theorem Enters.isWord {name : Text} {links : Links} (h : l.Enters name links) :
    IsWord name ∧ ∀ link ∈ links, IsWord link.2 := by
  have word : ∀ w ∈ Text.words (Text.afterWord l.text), IsWord w := by
    intro w hw
    obtain ⟨hne, hchars⟩ := Text.mem_words hw
    exact ⟨hne, fun c hc => (hchars c hc).1⟩
  obtain ⟨hname, hlinks⟩ := h.mem_words
  refine ⟨?_, fun link hm => word _ (hlinks link hm)⟩
  rcases hname with rfl | hname
  · exact isWord_beginTopic
  · exact word name hname

theorem isWord_of_opened {o : CodeObject} (h : l.opened? = some o) (hn : o.name ≠ []) :
    IsWord o.name := by
  obtain ⟨-, -, hname⟩ := headWord_of_opened h
  obtain ⟨hne, hchars⟩ := Text.mem_words (hname hn)
  exact ⟨hne, fun c hc => (hchars c hc).1⟩

end LogicalLine

namespace Reader

/-! ## Documents -/

section

variable {supported : Float} {lines : List Text} {d : Document}
  (h : (read supported lines).document = some d)

include h

theorem read_definitions : d.definitions.WellFormed := by
  have hdefined := read_definedIn h
  constructor
  · intro t p hp
    obtain ⟨l, -, hl⟩ := hdefined.texts t p hp
    exact ⟨hl.isVariable, hl.value⟩
  · intro p hp
    obtain ⟨l, -, value, hl, he⟩ := hdefined.arrays p hp
    exact ⟨hl.isVariable, fun element hm => ne_nil_of_mem_arrayElements (he ▸ hm)⟩

theorem read_closed : d.Closed := by
  obtain ⟨s, hs, rfl⟩ := next_of_document h
  rw [scan_eq] at hs
  have hempty : Document.Closed {} :=
    ⟨fun name hn => (by cases hn), fun name t ht => (by cases ht)⟩
  exact scanBefore_keeps (P := fun s => s.document.Closed)
    (fun _ _ _ _ _ h hs => h.edit (State.step_edit hs)) hempty hs

theorem read_rules : ∀ r ∈ d.rules, r.WellFormed := by
  have tight : ∀ l ∈ dispatched (read supported lines).events, l.Tight := by
    intro l hl
    rw [dispatched_read h] at hl
    exact tight_of_dispatched hl
  have text {c : Command} {text : Text} (ht : ∃ l ∈ dispatched (read supported lines).events,
      l.command? = some c ∧ l.text = text) : Text.Tight text := by
    obtain ⟨l, hl, -, rfl⟩ := ht
    exact (tight l hl).text
  intro r hr
  have hstated := rule_statedIn h r hr
  obtain ⟨l, hl, hc, ht, hp⟩ := hstated.pattern
  exact ⟨text ⟨l, hl, hc, ht⟩, fun t ht => text (hstated.replies t ht),
    fun t ht => text (hstated.conditions t ht), fun t ht => text (hstated.redirect t ht),
    hp ▸ (tight l hl).previous⟩

theorem read_objects_wellFormed : ∀ o ∈ d.objects, o.WellFormed := by
  intro o ho
  obtain ⟨l, -, o', hopened, hn, -, rfl⟩ := mem_objects h o ho
  refine ⟨LogicalLine.isWord_of_opened (o := o') hopened hn, ?_⟩
  have hcode : o'.code = [] := by
    obtain ⟨p, -, rfl⟩ := Option.map_eq_some_iff.1 hopened
    rfl
  intro line hl
  rw [show o'.code = [] from hcode, List.nil_append] at hl
  obtain ⟨hbody, ht⟩ := List.mem_filter.1 hl
  exact ⟨of_decide_eq_true ht, closesObject_of_mem_bodyOf hbody⟩

theorem read_wellFormed : d.WellFormed := by
  obtain ⟨s, rfl, hsound, -⟩ := read_ruleRun h
  have hwords : s.document.TopicsIn IsWord :=
    read_topicsIn h isWord_defaultTopic
      fun l _ name links henters => henters.isWord
  refine ⟨hsound.distinct, read_definitions h, ?_, read_rules h, read_objects_wellFormed h⟩
  intro t ht
  exact ⟨hwords.names t.1 (List.mem_map_of_mem ht),
    (read_closed h).targets t.1 t.2 (Table.get?_of_mem hsound.distinct.topics ht)⟩

end

end Reader

/-- Every document that is read is well formed. In its tables and among its topics the names are
distinct. Names of definitions are not empty, have no blanks at their ends and hold no equals sign;
values and elements of arrays are not empty. Topics and code objects are named by words, and the
topics that a topic is related to are topics of the document. The texts of rules are not empty and
have no blanks at their ends. No line of code is blank or closes a code object. -/
theorem parse_wellFormed (settings : Settings) (audience : Audience) (lines : List Text)
    {d : Document} (h : (parse settings audience lines).document = some d) : d.WellFormed := by
  rw [parse_document] at h
  exact Reader.read_wellFormed h

/-- A topic that is only mentioned, a value with the mark of joined lines in it, an escaped space as
an element, a context, and a blank line in a code object. -/
theorem parse_wellFormed_mentioned :
    let lines : List Text :=
      ["! var a = b".toList, "^ c".toList, "! array e = x\\s|y".toList,
        "> topic t includes u".toList, "+ p".toList, "% q".toList, "- r".toList,
        "> object o".toList, " ".toList, "+ x".toList, "< object".toList]
    ∃ d, (parse {} ⟨['s'], false⟩ lines).document = some d ∧ d.WellFormed ∧
      d.definitions.var = [(['a'], ['b', 'c'])] ∧
      d.definitions.array = [(['e'], [['x', ' '], ['y']])] ∧
      d.topics.names = [['t'], ['u']] ∧
      d.rules = [{ pattern := ['p'], replies := [['r']], previous := some ['q'] }] ∧
      d.objects = [⟨['o'], defaultLanguage, [['+', ' ', 'x']]⟩] := by
  intro lines
  obtain ⟨d, hd, hstored⟩ : ∃ d, (parse {} ⟨['s'], false⟩ lines).document = some d ∧
      d.definitions.var = [(['a'], ['b', 'c'])] ∧
      d.definitions.array = [(['e'], [['x', ' '], ['y']])] ∧
      d.topics.names = [['t'], ['u']] ∧
      d.rules = [{ pattern := ['p'], replies := [['r']], previous := some ['q'] }] ∧
      d.objects = [⟨['o'], defaultLanguage, [['+', ' ', 'x']]⟩] := ⟨_, rfl, rfl, rfl, rfl, rfl, rfl⟩
  exact ⟨d, hd, parse_wellFormed {} ⟨['s'], false⟩ lines hd, hstored⟩

end DialogueScript
