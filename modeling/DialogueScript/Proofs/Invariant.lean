import DialogueScript.Proofs.Scan

/-!
# What holds between two lines

`Sound` is kept by every line: tables name nothing twice, and the open rule is the last one of the
active topic. The document's part follows from the list of edits, the rule's part from the ways of
obeying a statement.
-/

namespace DialogueScript

/-! ## Tables that name nothing twice -/

theorem Table.get?_of_mem {α : Type} {t : Table α} (h : t.names.Nodup) {p : Text × α} (hp : p ∈ t) :
    t.get? p.1 = some p.2 := by
  induction t with
  | nil => cases hp
  | cons q t ih =>
    obtain ⟨hq, ht⟩ : q.1 ∉ names t ∧ (names t).Nodup := List.nodup_cons.1 h
    rcases List.mem_cons.1 hp with rfl | hp
    · simp [get?]
    · have hmem : p.1 ∈ names t := List.mem_map_of_mem hp
      have hne : q.1 ≠ p.1 := by
        intro he
        rw [he] at hq
        exact hq hmem
      simp [get?, hne, ih ht hp]

namespace Document

variable (d : Document)

/-! ## Topics under edits -/

/-- The rules of a topic; none if there is no such topic. -/
def rulesOf (topic : Text) : List Rule := ((d.topics.get? topic).map (·.rules)).getD []

/-- A rule is added to its topic, which is created if there is none of its name. -/
theorem get?_addRule (topic : Text) (r : Rule) :
    (d.addRule topic r).topics.get? topic = some (((d.topics.get? topic).getD {}).addRule r) := by
  simp only [addRule, modifyTopic, ensureTopic, Table.get?_modify, Table.get?_ensure, if_true]
  cases d.topics.get? topic <;> rfl

theorem length_rulesOf (topic : Text) :
    (((d.topics.get? topic).map (·.rules.length)).getD 0) = (d.rulesOf topic).length := by
  unfold rulesOf
  cases d.topics.get? topic <;> rfl

/-- A label creates topics and relates them, and nothing else. -/
theorem enter_induct {P : Document → Prop} (hc : ∀ d topic, P d → P (ensureTopic d topic))
    (hr : ∀ d topic r target, P d → P (relate d topic r target)) (name : Text) (links : Links)
    (hd : P d) : P (d.enter name links) := by
  unfold enter
  replace hd := hc d name hd
  generalize d.ensureTopic name = d at hd
  induction links generalizing d with
  | nil => exact hd
  | cons link links ih => exact ih _ (hr _ _ _ _ (hc _ _ hd))

/-! ## Names are distinct -/

structure Distinct : Prop where
  global : d.definitions.global.names.Nodup
  var : d.definitions.var.names.Nodup
  sub : d.definitions.sub.names.Nodup
  person : d.definitions.person.names.Nodup
  array : d.definitions.array.names.Nodup
  topics : d.topics.names.Nodup

theorem distinct_empty : Distinct {} :=
  ⟨List.nodup_nil, List.nodup_nil, List.nodup_nil, List.nodup_nil, List.nodup_nil, List.nodup_nil⟩

variable {d}

theorem Distinct.ensureTopic (h : d.Distinct) (topic : Text) : (d.ensureTopic topic).Distinct := by
  refine { h with topics := ?_ }
  show (d.topics.ensure topic {}).names.Nodup
  rw [Table.names_ensure]
  exact Names.nodup_add h.topics topic

theorem Distinct.modifyTopic (h : d.Distinct) (topic : Text) (f : Topic → Topic) :
    (d.modifyTopic topic f).Distinct := by
  refine { h with topics := ?_ }
  show (d.topics.modify topic f).names.Nodup
  rw [Table.names_modify]
  exact h.topics

theorem nodup_assign {α : Type} {t : Table α} (h : t.names.Nodup) (name : Text) (value : α) :
    (t.assign name value).names.Nodup := by
  rw [Table.names_assign]
  exact Names.nodup_add h name

theorem Distinct.edit {e : Document} (h : d.Distinct) (he : d.Edit e) : e.Distinct := by
  cases he with
  | keep => exact h
  | assign t name value =>
    cases t with
    | global => exact { h with global := nodup_assign h.global name value }
    | var => exact { h with var := nodup_assign h.var name value }
    | sub => exact { h with sub := nodup_assign h.sub name value }
    | person => exact { h with person := nodup_assign h.person name value }
  | assignArray name elements => exact { h with array := nodup_assign h.array name elements }
  | enter name links =>
    exact enter_induct d (fun _ topic h => h.ensureTopic topic)
      (fun _ topic _ _ h => (h.ensureTopic topic).modifyTopic topic _) name links h
  | addRule topic r => exact (h.ensureTopic topic).modifyTopic topic _
  | modifyRule place f => exact h.modifyTopic place.topic _
  | addObject => exact { h with }

end Document

namespace Reader.State

variable {s s' : State} {supported : Float}

/-! ## The open rule -/

/-- The open rule is the last one of the active topic. -/
def Attached (s : State) : Prop :=
  ∀ place, s.openRule = some place →
    place.topic = s.topic ∧
      ∃ topic, s.document.topics.get? s.topic = some topic ∧ topic.rules.length = place.index + 1

theorem Attached.of_none (h : s.openRule = none) : s.Attached := by
  intro place hp
  rw [h] at hp
  cases hp

/-- The topics and the open rule say it all. -/
theorem Attached.congr (h : s.Attached) (hd : s'.document.topics = s.document.topics)
    (ht : s'.topic = s.topic) (hr : s'.openRule = s.openRule) : s'.Attached := by
  intro place hp
  rw [hd, ht]
  exact h place (hr ▸ hp)

theorem attached_addRule (l : LogicalLine) (h : (s.addRule l).next = some s') : s'.Attached := by
  cases h
  intro place hp
  cases hp
  refine ⟨rfl, _, s.document.get?_addRule s.topic _, ?_⟩
  simp only [ruleCount]
  cases s.document.topics.get? s.topic with
  | none => rfl
  | some topic => simp [Topic.addRule]

theorem Attached.modifyRule (h : s.Attached) {place : RulePlace} (hp : s.openRule = some place)
    (f : Rule → Rule) : State.Attached { s with document := s.document.modifyRule place f } := by
  intro place' hp'
  obtain rfl : place = place' := Option.some.inj (hp.symm.trans hp')
  obtain ⟨ht, topic, hg, hl⟩ := h place hp
  refine ⟨ht, topic.modifyRule place.index f, ?_, ?_⟩
  · show (s.document.topics.modify place.topic _).get? s.topic = _
    rw [Table.get?_modify, if_pos ht, hg]
    rfl
  · simpa [Topic.modifyRule] using hl

/-- The open rule is attached behind every statement. -/
theorem Attached.obey {l : LogicalLine} (h : s.Attached) (ho : s.openObject = none)
    (hs : (s.obey supported l).next = some s') : s'.Attached := by
  have hk := s.obey_obeyed supported l ho
  generalize s.obey supported l = outcome at hk hs
  cases hk with
  | refused => cases hs
  | added => exact attached_addRule l hs
  | entered => cases hs; exact .of_none rfl
  | opened => cases hs; exact .of_none rfl
  | left => cases hs; exact .of_none rfl
  | extended place n hc hr => cases hs; exact h.modifyRule hr _
  | rejected => cases hs; exact h
  | ignored => cases hs; exact h
  | option => cases hs; exact h.congr rfl rfl rfl
  | assigned => cases hs; exact h.congr rfl rfl rfl
  | assignedArray => cases hs; exact h.congr rfl rfl rfl

theorem Attached.readCode (h : s.Attached) (o : CodeObject) (line : Text) :
    (s.readCode o line).Attached := by
  unfold State.readCode closeObject
  split
  · refine h.congr ?_ rfl rfl
    simp only
    split <;> rfl
  · exact h.congr rfl rfl rfl

/-- The open rule is attached behind every line. -/
theorem Attached.step {number : Nat} {line : Text} {rest : List Text} (h : s.Attached)
    (hs : (s.step supported number line rest).next = some s') : s'.Attached := by
  have hk := s.step_stepped supported number line rest
  generalize s.step supported number line rest = outcome at hk hs
  cases hk with
  | blank => cases hs; exact h
  | code o => cases hs; exact h.readCode o line
  | aside => cases hs; exact h.congr rfl rfl rfl
  | statement st _ ho _ => exact h.obey ho hs

/-! ## Options -/

theorem obey_options {l : LogicalLine} (ho : s.openObject = none)
    (hs : (s.obey supported l).next = some s') :
    s'.options = s.options ∨ ∃ name value, s'.options = s.options.set name value := by
  have hk := s.obey_obeyed supported l ho
  generalize s.obey supported l = outcome at hk hs
  cases hk <;> cases hs
  case option name value _ _ _ _ => exact .inr ⟨name, value, rfl⟩
  all_goals exact .inl rfl

/-- A line sets at most one option. -/
theorem step_options {number : Nat} {line : Text} {rest : List Text}
    (hs : (s.step supported number line rest).next = some s') :
    s'.options = s.options ∨ ∃ name value, s'.options = s.options.set name value := by
  have hk := s.step_stepped supported number line rest
  generalize s.step supported number line rest = outcome at hk hs
  cases hk with
  | blank => cases hs; exact .inl rfl
  | code o =>
    cases hs
    exact .inl (s.readCode_options o line)
  | aside => cases hs; exact .inl rfl
  | statement st _ ho _ => exact obey_options ho hs

theorem nodup_set {o : Options} (h : o.extra.names.Nodup) (name value : Text) :
    (o.set name value).extra.names.Nodup := by
  unfold Options.set
  split
  · exact h
  · exact Document.nodup_assign h name value

/-! ## The invariant -/

structure Sound (s : State) : Prop where
  distinct : s.document.Distinct
  options : s.options.extra.names.Nodup
  attached : s.Attached

theorem sound_initial : State.Sound {} :=
  ⟨Document.distinct_empty, List.nodup_nil, .of_none rfl⟩

/-- Every line leads from a sound state to a sound state. -/
theorem Sound.step {number : Nat} {line : Text} {rest : List Text} (h : s.Sound)
    (hs : (s.step supported number line rest).next = some s') : s'.Sound := by
  refine ⟨h.distinct.edit (step_edit hs), ?_, h.attached.step hs⟩
  rcases step_options hs with he | ⟨name, value, he⟩
  · rw [he]
    exact h.options
  · rw [he]
    exact nodup_set h.options name value

/-- Every part of a script leads from a sound state to a sound state. -/
theorem Sound.scanBefore {number : Nat} {later lines : List Text} (h : s.Sound)
    (hs : (Reader.scanBefore supported s number later lines).next = some s') : s'.Sound :=
  scanBefore_keeps (fun _ _ _ _ _ h hs => Sound.step h hs) h hs

end Reader.State

end DialogueScript
