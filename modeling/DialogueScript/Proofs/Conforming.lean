import DialogueScript.Proofs.Attachment
import DialogueScript.Proofs.Objects

/-!
# Clean readings

A reading is clean if strict settings report no error to a listener: then the grammar finds nothing
wrong with any statement (`violation?_of_clean`). What the document of such a reading holds is text of
these statements. Patterns, conditions and redirects are whole texts; names are words of labels, so
that they consist of the characters which the grammar allows there, without the blanks
(`parse_conforming`).
-/

namespace DialogueScript

namespace Grammar

/-! ## Names -/

def isTopicNameChar (c : Char) : Bool := isLower c || isFigure c || c == '_' || c == '-'

def isObjectNameChar (c : Char) : Bool := isUpper c || isTopicNameChar c

def IsTopicName (s : Text) : Prop := s ≠ [] ∧ ∀ c ∈ s, isTopicNameChar c = true

def IsObjectName (s : Text) : Prop := s ≠ [] ∧ ∀ c ∈ s, isObjectNameChar c = true

/-- What all characters of a text have that are not blank, those of its words have. -/
theorem forall_mem_words {p q : Char → Bool} {s w : Text} (h : ∀ c ∈ s, p c = true)
    (hpq : ∀ c, Text.isBlank c = false → p c = true → q c = true) (hw : w ∈ Text.words s) :
    w ≠ [] ∧ ∀ c ∈ w, q c = true := by
  obtain ⟨hne, hchars⟩ := Text.mem_words hw
  refine ⟨hne, ?_⟩
  intro c hc
  obtain ⟨hb, hs⟩ := hchars c hc
  exact hpq c hb (h c hs)

/-- Words of a text of topic characters are topic names, since blanks part them. -/
theorem isTopicName_of_mem_words {s w : Text} (h : ∀ c ∈ s, isTopicChar c = true)
    (hw : w ∈ Text.words s) : IsTopicName w :=
  forall_mem_words h (fun c hb hc => by simpa [isTopicChar, isTopicNameChar, hb] using hc) hw

theorem isObjectName_of_mem_words {s w : Text} (h : ∀ c ∈ s, isObjectChar c = true)
    (hw : w ∈ Text.words s) : IsObjectName w :=
  forall_mem_words h
    (fun c hb hc => by
      simpa [isObjectChar, isTopicChar, isObjectNameChar, isTopicNameChar, hb] using hc) hw

theorem isTopicName_beginTopic : IsTopicName beginTopic :=
  ⟨by decide, List.all_eq_true.1 (by decide)⟩

theorem isTopicName_defaultTopic : IsTopicName defaultTopic :=
  ⟨by decide, List.all_eq_true.1 (by decide)⟩

/-! ## Labels without a violation -/

variable {s : Text}

theorem afterWord_of_begin (h : labelViolation? s = none)
    (hw : Text.headWord s = Label.beginKeyword) : Text.afterWord s = [] := by
  simp only [labelViolation?, if_pos hw] at h
  split at h
  · assumption
  · cases h

/-- Without a violation, only topic characters stand behind the keyword of topics. -/
theorem afterWord_of_topic (h : labelViolation? s = none)
    (hw : Text.headWord s = Label.topicKeyword) : ∀ c ∈ Text.afterWord s, isTopicChar c = true := by
  have hb : Label.topicKeyword ≠ Label.beginKeyword := by decide
  simp only [labelViolation?, hw, if_neg hb, if_true] at h
  split at h
  · next hall => exact List.all_eq_true.1 hall
  · cases h

/-- Without a violation, only object characters stand behind the keyword of code objects. -/
theorem afterWord_of_object (h : labelViolation? s = none)
    (hw : Text.headWord s = Label.objectKeyword) : ∀ c ∈ Text.afterWord s, isObjectChar c = true := by
  have hb : Label.objectKeyword ≠ Label.beginKeyword := by decide
  have ht : Label.objectKeyword ≠ Label.topicKeyword := by decide
  simp only [labelViolation?, hw, if_neg hb, if_neg ht, if_true] at h
  split at h
  · next hall => exact List.all_eq_true.1 hall
  · cases h

end Grammar

/-! ## The words of a label -/

theorem Links.mem_ofWords {current : Option Relation} {ws : List Text} {link : Relation × Text}
    (h : link ∈ ofWords current ws) : link.2 ∈ ws := by
  fun_induction ofWords current ws with
  | case1 => cases h
  | case2 _ _ _ _ _ ih => exact List.mem_cons_of_mem _ (ih h)
  | case3 _ _ _ _ ih =>
    rcases List.mem_cons.1 h with rfl | h
    · exact List.mem_cons_self
    · exact List.mem_cons_of_mem _ (ih h)
  | case4 _ _ _ ih => exact List.mem_cons_of_mem _ (ih h)

namespace Label

variable {s : Text}

theorem ofText_begin {links : Links} (h : ofText s = .begin links) :
    Text.headWord s = beginKeyword ∧ ∀ link ∈ links, link.2 ∈ Text.words (Text.afterWord s) := by
  obtain ⟨rest, hw, rfl⟩ := ofText_eq_begin_iff.1 h
  obtain ⟨hhead, htail⟩ := Text.headWord_of_words hw
  rw [htail]
  exact ⟨hhead, fun link hl => List.mem_of_mem_drop (Links.mem_ofWords hl)⟩

theorem ofText_topic {name : Text} {links : Links} (h : ofText s = .topic name links) :
    Text.headWord s = topicKeyword ∧ name ∈ Text.words (Text.afterWord s) ∧
      ∀ link ∈ links, link.2 ∈ Text.words (Text.afterWord s) := by
  obtain ⟨fields, hw, rfl⟩ := ofText_eq_topic_iff.1 h
  obtain ⟨hhead, htail⟩ := Text.headWord_of_words hw
  rw [htail]
  exact ⟨hhead, List.mem_cons_self, fun link hl => List.mem_cons_of_mem _ (Links.mem_ofWords hl)⟩

end Label

namespace LogicalLine

variable {l : LogicalLine} {utf8 : Bool}

/-- The topic that the line enters, with its relations. -/
def Enters (l : LogicalLine) (name : Text) (links : Links) : Prop :=
  l.command? = some .labelOpen ∧
    (Label.ofText l.text = .topic name links ∨
      Label.ofText l.text = .begin links ∧ name = beginTopic)

/-- A label without a violation enters a topic with a proper name, and so are its targets named. -/
theorem Enters.isTopicName {name : Text} {links : Links} (h : l.Enters name links)
    (hv : Grammar.violation? utf8 l.command? l.text = none) :
    Grammar.IsTopicName name ∧ ∀ link ∈ links, Grammar.IsTopicName link.2 := by
  obtain ⟨hc, hl⟩ := h
  rw [hc] at hv
  replace hv : Grammar.labelViolation? l.text = none := hv
  rcases hl with hl | ⟨hl, rfl⟩
  · obtain ⟨hw, hname, hlinks⟩ := Label.ofText_topic hl
    have hchars := Grammar.afterWord_of_topic hv hw
    exact ⟨Grammar.isTopicName_of_mem_words hchars hname,
      fun link hm => Grammar.isTopicName_of_mem_words hchars (hlinks link hm)⟩
  · obtain ⟨hw, hlinks⟩ := Label.ofText_begin hl
    rw [Grammar.afterWord_of_begin hv hw] at hlinks
    refine ⟨Grammar.isTopicName_beginTopic, ?_⟩
    intro link hm
    cases hlinks link hm

/-- The first word of a label that opens a code object is the keyword, the next one the name. -/
theorem headWord_of_opened {o : CodeObject} (h : l.opened? = some o) :
    l.command? = some .labelOpen ∧ Text.headWord l.text = Label.objectKeyword ∧
      (o.name ≠ [] → o.name ∈ Text.words (Text.afterWord l.text)) := by
  obtain ⟨hc, rest, hw, hname⟩ := words_of_opened h
  obtain ⟨hhead, htail⟩ := Text.headWord_of_words hw
  refine ⟨hc, hhead, fun hn => ?_⟩
  rw [htail]
  cases rest with
  | nil => exact absurd hname hn
  | cons w ws => exact hname ▸ List.mem_cons_self

/-- A label without a violation opens a code object with a proper name, if with any. -/
theorem isObjectName_of_opened {o : CodeObject} (h : l.opened? = some o) (hn : o.name ≠ [])
    (hv : Grammar.violation? utf8 l.command? l.text = none) : Grammar.IsObjectName o.name := by
  obtain ⟨hc, hw, hname⟩ := headWord_of_opened h
  rw [hc] at hv
  exact Grammar.isObjectName_of_mem_words (Grammar.afterWord_of_object hv hw) (hname hn)

end LogicalLine

/-! ## The topics that a script names -/

/-- All topics of a document, and all their relations, have names with a property. -/
structure Document.TopicsIn (P : Text → Prop) (d : Document) : Prop where
  names : ∀ name ∈ d.topics.names, P name
  targets : ∀ name t, d.topics.get? name = some t →
    ∀ target, target ∈ t.includes ∨ target ∈ t.inherits → P target

namespace Document.TopicsIn

variable {P : Text → Prop} {d : Document} {name : Text}

theorem ensureTopic (h : d.TopicsIn P) (hn : P name) : (d.ensureTopic name).TopicsIn P := by
  constructor
  · intro other ho
    have ho : other ∈ (d.topics.ensure name {}).names := ho
    rw [Table.names_ensure] at ho
    rcases Names.mem_add.1 ho with ho | rfl
    · exact h.names other ho
    · exact hn
  · intro other t ht target hm
    have ht : (d.topics.ensure name {}).get? other = some t := ht
    rw [Table.get?_ensure] at ht
    cases hg : d.topics.get? other with
    | some u =>
      rw [hg] at ht
      cases ht
      exact h.targets other _ hg target hm
    | none =>
      rw [hg, Option.none_or] at ht
      split at ht
      · cases ht
        rcases hm with hm | hm <;> cases hm
      · cases ht

theorem modifyTopic (h : d.TopicsIn P) {f : Topic → Topic}
    (hf : ∀ t target, target ∈ (f t).includes ∨ target ∈ (f t).inherits →
      (target ∈ t.includes ∨ target ∈ t.inherits) ∨ P target) : (d.modifyTopic name f).TopicsIn P := by
  constructor
  · intro other ho
    have ho : other ∈ (d.topics.modify name f).names := ho
    rw [Table.names_modify] at ho
    exact h.names other ho
  · intro other t ht target hm
    have ht : (d.topics.modify name f).get? other = some t := ht
    rw [Table.get?_modify] at ht
    split at ht
    · obtain ⟨u, hg, rfl⟩ := Option.map_eq_some_iff.1 ht
      rcases hf u target hm with hm | hp
      · exact h.targets other u hg target hm
      · exact hp
    · exact h.targets other t ht target hm

theorem relate (h : d.TopicsIn P) (hn : P name) (r : Relation) {target : Text} (ht : P target) :
    (d.relate name r target).TopicsIn P := by
  refine (h.ensureTopic hn).modifyTopic ?_
  intro t other hm
  cases r with
  | includes =>
    rcases hm with hm | hm
    · rcases Names.mem_add.1 hm with hm | rfl
      · exact .inl (.inl hm)
      · exact .inr ht
    · exact .inl (.inr hm)
  | inherits =>
    rcases hm with hm | hm
    · exact .inl (.inl hm)
    · rcases Names.mem_add.1 hm with hm | rfl
      · exact .inl (.inr hm)
      · exact .inr ht

theorem enter (h : d.TopicsIn P) (hn : P name) {links : Links} (hl : ∀ link ∈ links, P link.2) :
    (d.enter name links).TopicsIn P := by
  unfold Document.enter
  replace h := h.ensureTopic hn
  generalize d.ensureTopic name = d at h
  induction links generalizing d with
  | nil => exact h
  | cons link links ih =>
    have ht := hl link List.mem_cons_self
    exact ih (fun link hm => hl link (List.mem_cons_of_mem _ hm)) _
      ((h.ensureTopic ht).relate hn link.1 ht)

theorem addRule (h : d.TopicsIn P) (hn : P name) (r : Rule) : (d.addRule name r).TopicsIn P :=
  (h.ensureTopic hn).modifyTopic fun _ _ hm => .inl hm

theorem modifyRule (h : d.TopicsIn P) (place : RulePlace) (f : Rule → Rule) :
    (d.modifyRule place f).TopicsIn P :=
  h.modifyTopic fun _ _ hm => .inl hm

theorem congr {e : Document} (h : d.TopicsIn P) (he : e.topics = d.topics) : e.TopicsIn P :=
  ⟨by rw [he]; exact h.names, by rw [he]; exact h.targets⟩

end Document.TopicsIn

namespace Reader

/-- What every line keeps whose statements have a property. -/
theorem scanBefore_keeps_of_dispatched {supported : Float} {P : State → Prop}
    {Q : LogicalLine → Prop}
    (hstep : ∀ (s s' : State) number line rest, P s →
      (∀ l ∈ dispatched (s.step supported number line rest).events, Q l) →
      (s.step supported number line rest).next = some s' → P s')
    {s s' : State} {number : Nat} {later lines : List Text} (hs : P s)
    (hq : ∀ l ∈ dispatched (scanBefore supported s number later lines).events, Q l)
    (h : (scanBefore supported s number later lines).next = some s') : P s' := by
  induction lines generalizing s number with
  | nil =>
    cases h
    exact hs
  | cons line rest ih =>
    obtain ⟨next, hn, hrest, he⟩ := Outcome.next_andThen h
    rw [scanBefore, he, dispatched_append] at hq
    have hnext := hstep s next _ _ _ hs (fun l hl => hq l (List.mem_append_left _ hl)) hn
    exact ih hnext (fun l hl => hq l (List.mem_append_right _ hl)) hrest

namespace State

variable {s s' : State} {supported : Float} {P : Text → Prop}

/-- The topics of the document and the active one have names with a property. -/
structure TopicsIn (P : Text → Prop) (s : State) : Prop where
  active : P s.topic
  document : s.document.TopicsIn P

theorem TopicsIn.congr (h : s.TopicsIn P) (ht : s'.topic = s.topic)
    (hd : s'.document.topics = s.document.topics) : s'.TopicsIn P :=
  ⟨ht ▸ h.active, h.document.congr hd⟩

/-- A statement keeps the property of all names, if the names that it enters have it. -/
theorem TopicsIn.obey (h : s.TopicsIn P) (hd : P defaultTopic) {l : LogicalLine}
    (ho : s.openObject = none)
    (hl : ∀ name links, l.Enters name links → P name ∧ ∀ link ∈ links, P link.2)
    (hs : (s.obey supported l).next = some s') : s'.TopicsIn P := by
  have hk := s.obey_obeyed supported l ho
  generalize s.obey supported l = outcome at hk hs
  cases hk <;> cases hs
  case entered name links notes hc hlabel =>
    obtain ⟨hn, hlinks⟩ := hl name links ⟨hc, hlabel⟩
    exact ⟨hn, h.document.enter hn hlinks⟩
  case left => exact ⟨hd, h.document⟩
  case added => exact ⟨h.active, h.document.addRule h.active _⟩
  case extended place _ _ _ => exact ⟨h.active, h.document.modifyRule place _⟩
  all_goals exact h.congr rfl rfl

/-- A line keeps the property of all names, if the names that it enters have it. -/
theorem TopicsIn.step (h : s.TopicsIn P) (hd : P defaultTopic) {number : Nat} {line : Text}
    {rest : List Text}
    (hl : ∀ l ∈ dispatched (s.step supported number line rest).events,
      ∀ name links, l.Enters name links → P name ∧ ∀ link ∈ links, P link.2)
    (hs : (s.step supported number line rest).next = some s') : s'.TopicsIn P := by
  have hk := s.step_stepped supported number line rest
  generalize s.step supported number line rest = outcome at hk hs hl
  cases hk with
  | blank =>
    cases hs
    exact h
  | code o =>
    cases hs
    exact h.congr (s.readCode_topic o line) (s.readCode_topics o line)
  | aside =>
    cases hs
    exact h.congr rfl rfl
  | statement st _ ho _ =>
    refine h.obey hd ho ?_ hs
    intro name links henters
    refine hl _ ?_ name links henters
    rw [dispatched_seen, dispatched_statement, henters.1]
    exact List.mem_cons_self

end State

end Reader

/-! ## The rules of scopes -/

/-- Every rule is the rule of the scope below some pattern. -/
theorem mem_rulesFrom {topic : Text} {ls : List LogicalLine} {r : Text × Rule}
    (h : r ∈ rulesFrom topic ls) :
    ∃ before l after, ls = before ++ l :: after ∧ l.startsRule = true ∧ r.2 = ruleOf l after := by
  induction ls generalizing topic with
  | nil => cases h
  | cons l after ih =>
    have further {topic' : Text} (h : r ∈ rulesFrom topic' after) :
        ∃ before l' after', l :: after = before ++ l' :: after' ∧ l'.startsRule = true ∧
          r.2 = ruleOf l' after' := by
      obtain ⟨before, l', after', rfl, hs, hr⟩ := ih h
      exact ⟨l :: before, l', after', rfl, hs, hr⟩
    cases hs : l.startsRule with
    | true =>
      rw [rulesFrom_of_starts hs] at h
      rcases List.mem_cons.1 h with rfl | h
      · exact ⟨[], l, after, rfl, hs, rfl⟩
      · exact further h
    | false =>
      rw [rulesFrom_of_not_starts hs] at h
      exact further h

theorem mem_textsOf {c : Command} {ls : List LogicalLine} {text : Text} (h : text ∈ textsOf c ls) :
    ∃ l ∈ ls, l.command? = some c ∧ l.text = text := by
  obtain ⟨l, hl, rfl⟩ := List.mem_map.1 h
  obtain ⟨hm, hc⟩ := List.mem_filter.1 hl
  exact ⟨l, hm, of_decide_eq_true hc, rfl⟩

/-- A text of a rule is the text of one of its statements. -/
theorem mem_textsOf_scope {c : Command} {ls after : List LogicalLine} {text : Text}
    (hs : ∀ l ∈ after, l ∈ ls) (h : text ∈ textsOf c (scope after)) :
    ∃ l ∈ ls, l.command? = some c ∧ l.text = text := by
  obtain ⟨l, hl, hc, ht⟩ := mem_textsOf h
  exact ⟨l, hs l ((List.takeWhile_prefix _).subset hl), hc, ht⟩

/-- The statements that a rule of a document comes from. -/
theorem Reader.mem_rules {supported : Float} {lines : List Text} {d : Document} {r : Rule}
    (h : (read supported lines).document = some d) (hr : r ∈ d.rules) :
    ∃ before l after, dispatched (read supported lines).events = before ++ l :: after ∧
      l.startsRule = true ∧ r = ruleOf l after := by
  obtain ⟨s, rfl, hsound, hrun⟩ := read_ruleRun h
  have hperm := Document.rules_perm hsound.distinct.topics fun topic => hrun.rules topic
  obtain ⟨r', hm, rfl⟩ := List.mem_map.1 (hperm.subset hr)
  exact mem_rulesFrom hm

/-- The texts of the rule are texts of statements. -/
structure Rule.StatedIn (ls : List LogicalLine) (r : Rule) : Prop where
  pattern : ∃ l ∈ ls, l.command? = some .trigger ∧ l.text = r.pattern ∧ l.previous = r.previous
  replies : ∀ text ∈ r.replies, ∃ l ∈ ls, l.command? = some .response ∧ l.text = text
  conditions : ∀ text ∈ r.conditions, ∃ l ∈ ls, l.command? = some .condition ∧ l.text = text
  redirect : ∀ text, r.redirect = some text →
    ∃ l ∈ ls, l.command? = some .redirect ∧ l.text = text

/-- Every text of a rule is the text of a statement. -/
theorem Reader.rule_statedIn {supported : Float} {lines : List Text} {d : Document}
    (h : (read supported lines).document = some d) :
    ∀ r ∈ d.rules, r.StatedIn (dispatched (read supported lines).events) := by
  intro r hr
  obtain ⟨before, l, after, hls, hstarts, rfl⟩ := mem_rules h hr
  rw [hls]
  have hafter : ∀ x ∈ after, x ∈ before ++ l :: after :=
    fun x hx => List.mem_append_right _ (List.mem_cons_of_mem _ hx)
  exact ⟨⟨l, List.mem_append_right _ List.mem_cons_self, of_decide_eq_true hstarts, rfl, rfl⟩,
    fun _ ht => mem_textsOf_scope hafter ht, fun _ ht => mem_textsOf_scope hafter ht,
    fun _ ht => mem_textsOf_scope hafter (List.mem_of_getLast? ht)⟩

/-! ## Clean readings -/

/-- A strict reading with a listener told of no error. -/
structure Clean (settings : Settings) (audience : Audience) (lines : List Text) : Prop where
  strict : settings.strict = true
  listening : audience.listening = true
  errors : (parse settings audience lines).errors = []

section

variable {settings : Settings} {audience : Audience} {lines : List Text}

theorem violation?_of_clean (h : Clean settings audience lines) {l : LogicalLine}
    (hl : .statement l ∈ (Reader.read settings.supported lines).events) :
    Grammar.violation? settings.utf8 l.command? l.text = none := by
  have he := h.errors
  rw [parse_errors, h.strict, h.listening, Bool.and_self, if_pos rfl, List.flatMap_eq_nil_iff] at he
  simpa [Event.errors, Event.fault?] using he _ hl

/-- A property of all names that labels enter holds of all topics and targets of the document. -/
theorem Reader.read_topicsIn {supported : Float} {P : Text → Prop} {d : Document}
    (h : (read supported lines).document = some d) (hp : P defaultTopic)
    (hl : ∀ l ∈ dispatched (read supported lines).events,
      ∀ name links, l.Enters name links → P name ∧ ∀ link ∈ links, P link.2) : d.TopicsIn P := by
  rw [dispatched_read h] at hl
  obtain ⟨s, hs, rfl⟩ := next_of_document h
  rw [scan_eq] at hs
  have hempty : Document.TopicsIn P {} :=
    ⟨fun name hn => (by cases hn), fun name t ht => (by cases ht)⟩
  have hinitial : State.TopicsIn P {} := ⟨hp, hempty⟩
  exact (scanBefore_keeps_of_dispatched (fun _ _ _ _ _ hs hl hn => hs.step hp hl hn) hinitial hl
    hs).document

/-! ## What is stored -/

namespace Reader

variable {supported : Float} {utf8 : Bool} {d : Document}
  (h : (read supported lines).document = some d)
  (hv : ∀ l ∈ dispatched (read supported lines).events,
    Grammar.violation? utf8 l.command? l.text = none)

include h hv

theorem rules_conforming :
    ∀ r ∈ d.rules,
      Grammar.violation? utf8 (some .trigger) r.pattern = none ∧
      (∀ text, r.redirect = some text → Grammar.violation? utf8 (some .redirect) text = none) ∧
      ∀ text ∈ r.conditions, Grammar.violation? utf8 (some .condition) text = none := by
  have checked : ∀ c text, (∃ l ∈ dispatched (read supported lines).events,
      l.command? = some c ∧ l.text = text) → Grammar.violation? utf8 (some c) text = none := by
    rintro c text ⟨l, hl, hcommand, rfl⟩
    rw [← hcommand]
    exact hv l hl
  intro r hr
  have hstated := rule_statedIn h r hr
  obtain ⟨l, hl, hc, ht, -⟩ := hstated.pattern
  exact ⟨checked .trigger _ ⟨l, hl, hc, ht⟩,
    fun text ht => checked .redirect text (hstated.redirect text ht),
    fun text ht => checked .condition text (hstated.conditions text ht)⟩

theorem topics_conforming :
    ∀ t ∈ d.topics, Grammar.IsTopicName t.1 ∧
      ∀ target, target ∈ t.2.includes ∨ target ∈ t.2.inherits → Grammar.IsTopicName target := by
  obtain ⟨s, rfl, hsound, -⟩ := read_ruleRun h
  have htopics := read_topicsIn h Grammar.isTopicName_defaultTopic
    fun l hl name links henters => henters.isTopicName (hv l hl)
  intro t ht
  exact ⟨htopics.names t.1 (List.mem_map_of_mem ht),
    htopics.targets t.1 t.2 (Table.get?_of_mem hsound.distinct.topics ht)⟩

theorem objects_conforming :
    ∀ o ∈ d.objects, Grammar.IsObjectName o.name := by
  intro o ho
  obtain ⟨l, hl, o', hopened, hn, -, rfl⟩ := mem_objects h o ho
  exact LogicalLine.isObjectName_of_opened (o := o') hopened hn (hv l hl)

end Reader

/-- What a clean reading stores conforms to the grammar. Patterns, redirects and conditions have no
violation; names of topics, those that a topic is related to included, consist of small letters,
figures, underscores and hyphens, and names of code objects of these and capital letters. -/
theorem parse_conforming {d : Document} (hc : Clean settings audience lines)
    (h : (parse settings audience lines).document = some d) :
    (∀ r ∈ d.rules,
      Grammar.violation? settings.utf8 (some .trigger) r.pattern = none ∧
      (∀ text, r.redirect = some text →
        Grammar.violation? settings.utf8 (some .redirect) text = none) ∧
      ∀ text ∈ r.conditions, ∀ utf8, Grammar.violation? utf8 (some .condition) text = none) ∧
    (∀ t ∈ d.topics, Grammar.IsTopicName t.1 ∧
      ∀ target, target ∈ t.2.includes ∨ target ∈ t.2.inherits → Grammar.IsTopicName target) ∧
    ∀ o ∈ d.objects, Grammar.IsObjectName o.name := by
  rw [parse_document] at h
  have hv : ∀ l ∈ dispatched (Reader.read settings.supported lines).events,
      Grammar.violation? settings.utf8 l.command? l.text = none :=
    fun l hl => violation?_of_clean hc (statement_of_dispatched hl)
  refine ⟨?_, Reader.topics_conforming h hv, Reader.objects_conforming h hv⟩
  intro r hr
  obtain ⟨hpattern, hredirect, hconditions⟩ := Reader.rules_conforming h hv r hr
  -- the grammar of conditions is the same with and without Unicode
  exact ⟨hpattern, hredirect, fun text ht _ => hconditions text ht⟩

end

/-- A topic with a relation, a rule with everything that a rule can have, and a code object. -/
theorem parse_conforming_labels :
    let lines : List Text :=
      ["> topic a-1 includes b_2".toList, "+ hi *".toList, "* x == y => z".toList, "@ hi".toList,
        "> object Foo Lua".toList, "+ X".toList, "< object".toList]
    ∃ d, (parse {} ⟨['s'], true⟩ lines).document = some d ∧ Clean {} ⟨['s'], true⟩ lines ∧
      d.topics.names = ["a-1".toList, "b_2".toList] ∧
      (∀ t ∈ d.topics, Grammar.IsTopicName t.1) ∧ ∀ o ∈ d.objects, Grammar.IsObjectName o.name := by
  intro lines
  have hc : Clean {} ⟨['s'], true⟩ lines := ⟨rfl, rfl, by decide⟩
  obtain ⟨d, hd, hn⟩ : ∃ d, (parse {} ⟨['s'], true⟩ lines).document = some d ∧
      d.topics.names = ["a-1".toList, "b_2".toList] := ⟨_, rfl, rfl⟩
  obtain ⟨-, htopics, hobjects⟩ := parse_conforming hc hd
  exact ⟨d, hd, hc, hn, fun t ht => (htopics t ht).1, hobjects⟩

end DialogueScript
