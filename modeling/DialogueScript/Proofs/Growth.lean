import DialogueScript.Proofs.RuleLines
import DialogueScript.Proofs.Topics
import Mathlib.Data.Sum.Basic

/-!
# Documents grow

A line adds to the document, and it adds at one place: an entry of one table, relations of one topic,
a code object, a rule of the active topic, or something more in the last rule of this topic. All that
was there before stays, in the order in which it was there, and a line that is complained about for
another reason than its grammar adds nothing (`document_grows`). `Grows` is proved once for each way of
obeying a statement; the open rule matters only where a rule is extended.
-/

namespace DialogueScript

/-! ## What may become of a document -/

/-- One reply more, one condition more, or another redirect. -/
inductive Rule.Extends (r : Rule) : Rule → Prop
  | reply (text : Text) : r.Extends { r with replies := r.replies ++ [text] }
  | condition (text : Text) : r.Extends { r with conditions := r.conditions ++ [text] }
  | redirect (text : Text) : r.Extends { r with redirect := some text }

/-- One rule more at the end, or an extension of the last one. -/
inductive RulesGrow (rules : List Rule) : List Rule → Prop
  | keep : RulesGrow rules rules
  | add (r : Rule) : RulesGrow rules (rules ++ [r])
  | extend (front : List Rule) (r r' : Rule) (h : rules = front ++ [r]) (hr : r.Extends r') :
    RulesGrow rules (front ++ [r'])

namespace Definitions

/-- A name has another value in the table of `e` than in that of `d`, or is bound in one of them
only. -/
def Differs (d e : Definitions) : DefinitionTable → Text → Prop
  | .text t, name => (d.get t).get? name ≠ (e.get t).get? name
  | .array, name => d.array.get? name ≠ e.array.get? name

/-- New names stand at the end of their tables, and at most one entry of all tables differs. -/
structure Grows (d e : Definitions) : Prop where
  names : ∀ t, d.namesOf t <+: e.namesOf t
  one : ∀ t t' name name', d.Differs e t name → d.Differs e t' name' → t = t' ∧ name = name'

end Definitions

namespace Document

/-- The topic has a relation in `e` that it does not have in `d`. -/
def NewlyRelated (d e : Document) (topic : Text) : Prop :=
  ∃ r, ∃ target ∈ e.related topic r, target ∉ d.related topic r

/-- New topics stand at the end, one topic at most gets new relations and none loses any, and only
the rules of the active topic grow. -/
structure TopicsGrow (d : Document) (active : Text) (e : Document) : Prop where
  names : d.topics.names <+: e.topics.names
  related : ∀ topic r, d.related topic r ⊆ e.related topic r
  one : ∀ topic topic', d.NewlyRelated e topic → d.NewlyRelated e topic' → topic = topic'
  rules : RulesGrow (d.rulesOf active) (e.rulesOf active)
  others : ∀ topic, topic ≠ active → e.rulesOf topic = d.rulesOf topic

/-- What one line may make of a document while a topic is active. -/
structure Grows (d : Document) (active : Text) (e : Document) : Prop where
  definitions : d.definitions.Grows e.definitions
  topics : d.TopicsGrow active e
  objects : ∃ o : Option CodeObject, e.objects = d.objects ++ o.toList

end Document

/-! ## Names are added at the end -/

namespace Names

theorem prefix_add (a : Names) (x : Text) : a <+: a.add x := by
  unfold add
  split
  · exact List.prefix_rfl
  · exact List.prefix_append a [x]

theorem prefix_union (a b : Names) : a <+: a.union b := by
  induction b generalizing a with
  | nil => exact List.prefix_rfl
  | cons x b ih => exact (a.prefix_add x).trans (ih (a.add x))

end Names

/-! ## Tables -/

namespace Definitions

variable {d e : Definitions}

theorem Grows.refl (d : Definitions) : d.Grows d where
  names := fun _ => List.prefix_rfl
  one := by
    intro t _ _ _ h
    cases t <;> exact absurd rfl h

theorem differs_iff {t : DefinitionTable} {name : Text} :
    d.Differs e t name ↔ d.binding? t name ≠ e.binding? t name := by
  cases t with
  | text t => exact (Option.map_injective Sum.inl_injective).ne_iff.symm
  | array => exact (Option.map_injective Sum.inr_injective).ne_iff.symm

/-- A change of one entry lets the tables grow if it keeps the names. -/
theorem Local.grows {t : DefinitionTable} {name : Text} {f : Definitions → Definitions}
    (h : Local t name f) (d : Definitions) (hn : ∀ u, d.namesOf u <+: (f d).namesOf u) :
    d.Grows (f d) := by
  have here {u : DefinitionTable} {other : Text} (hd : d.Differs (f d) u other) :
      (u, other) = (t, name) := by
    by_contra hne
    exact differs_iff.1 hd (h.frame d u other hne).symm
  refine ⟨hn, fun u u' other other' hd hd' => ?_⟩
  exact Prod.mk.inj ((here hd).trans (here hd').symm)

theorem grows_assign (d : Definitions) (name value : Text) (t : TextTable) :
    d.Grows (d.assign name value t) := by
  refine (local_assign t name value).grows d fun u => ?_
  rw [namesOf_assign]
  split
  · exact Names.prefix_add _ _
  · exact List.prefix_rfl

theorem grows_assignArray (d : Definitions) (name : Text) (elements : List Text) :
    d.Grows (d.assignArray name elements) := by
  refine (local_assignArray name elements).grows d fun u => ?_
  rw [namesOf_assignArray]
  split
  · exact Names.prefix_add _ _
  · exact List.prefix_rfl

end Definitions

/-! ## Topics -/

namespace Document

variable {d e : Document} {active : Text}

/-- Without new relations the topics may get new names and rules. -/
theorem TopicsGrow.of_related (hn : d.topics.names <+: e.topics.names)
    (hr : ∀ topic r, e.related topic r = d.related topic r)
    (hrules : RulesGrow (d.rulesOf active) (e.rulesOf active))
    (hothers : ∀ topic, topic ≠ active → e.rulesOf topic = d.rulesOf topic) :
    d.TopicsGrow active e where
  names := hn
  related := fun topic r => by rw [hr]; exact List.Subset.refl _
  one := by
    rintro topic topic' ⟨r, target, ht, hnew⟩ -
    exact absurd (hr topic r ▸ ht) hnew
  rules := hrules
  others := hothers

theorem TopicsGrow.of_topics (h : e.topics = d.topics) : d.TopicsGrow active e := by
  have hrules (topic : Text) : e.rulesOf topic = d.rulesOf topic := by rw [rulesOf, h, rulesOf]
  refine .of_related (by rw [h]) (fun topic r => ?_) ?_ fun topic _ => hrules topic
  · rw [Document.related, h, Document.related]
  · rw [hrules]
    exact .keep

theorem topicsGrow_enter (d : Document) (active name : Text) (links : Links) :
    d.TopicsGrow active (d.enter name links) where
  names := by
    rw [names_enter]
    exact Names.prefix_union _ _
  related := fun _ _ _ h => mem_related_enter.2 (.inl h)
  one := by
    have new {topic : Text} (h : d.NewlyRelated (d.enter name links) topic) : topic = name := by
      obtain ⟨r, target, ht, hnew⟩ := h
      exact ((mem_related_enter.1 ht).resolve_left hnew).1
    exact fun topic topic' h h' => (new h).trans (new h').symm
  rules := by
    rw [rulesOf_enter]
    exact .keep
  others := fun topic _ => d.rulesOf_enter name links topic

theorem topicsGrow_addRule (d : Document) (active : Text) (r : Rule) :
    d.TopicsGrow active (d.addRule active r) := by
  refine .of_related ?_ (fun topic r' => ?_) ?_ fun topic h => ?_
  · rw [addRule, names_modifyTopic, ensureTopic, Table.names_ensure]
    exact Names.prefix_add _ _
  · rw [addRule, related_modifyTopic _ _ _ _ fun t => by cases r' <;> rfl, related_ensureTopic]
  · rw [rulesOf_addRule, if_pos rfl]
    exact .add r
  · rw [rulesOf_addRule, if_neg h.symm]

end Document

theorem LogicalLine.extends_extendBy {l : LogicalLine} (h : l.extendsRule = true) (r : Rule) :
    r.Extends (r.extendBy l) := by
  have hc : l.command? = some .response ∨ l.command? = some .condition ∨
      l.command? = some .redirect := by
    simpa [extendsRule, or_assoc] using h
  unfold Rule.extendBy
  rcases hc with hc | hc | hc <;> rw [hc]
  · exact .reply l.text
  · exact .condition l.text
  · exact .redirect l.text

namespace Reader

namespace State

variable {s s' : State} {supported : Float}

/-- The open rule is the last one of the active topic, so no other rule is extended. -/
theorem Attached.topicsGrow (h : s.Attached) {place : RulePlace} (ho : s.openRule = some place)
    {l : LogicalLine} (hx : l.extendsRule = true) :
    s.document.TopicsGrow s.topic (s.document.modifyRule place (·.extendBy l)) := by
  obtain ⟨rules, r, hr, hr'⟩ := rulesOf_extendLast h ho l
  rw [extendLast, if_pos (by rw [ho]; rfl), ← h.modifyRule_eq ho] at hr'
  refine .of_related ?_ (fun topic r => ?_) ?_ fun topic htopic => ?_
  · rw [Document.modifyRule, Document.names_modifyTopic]
  · exact Document.related_modifyTopic _ _ _ _ fun t => by cases r <;> rfl
  · rw [hr']
    exact .extend rules r _ hr (LogicalLine.extends_extendBy hx r)
  · have hplace : place.topic ≠ topic := fun he => htopic (he.symm.trans (h place ho).1)
    rw [Document.rulesOf_modifyRule, if_neg hplace]

/-! ## Lines -/

theorem grows_keep (active : Text) (h : s'.document = s.document) :
    s.document.Grows active s'.document := by
  rw [h]
  exact ⟨.refl _, .of_topics rfl, none, (List.append_nil _).symm⟩

/-- A statement adds one entry, the relations of one topic and rules of the active one at most. -/
theorem obey_grows (h : s.Attached) {l : LogicalLine} (ho : s.openObject = none)
    (hs : (s.obey supported l).next = some s') : s.document.Grows s.topic s'.document := by
  have hobjects := (obey_opened ho hs).1
  have hk := s.obey_obeyed supported l ho
  generalize s.obey supported l = outcome at hk hs
  cases hk with
  | refused => cases hs
  | rejected => cases hs; exact grows_keep _ rfl
  | ignored => cases hs; exact grows_keep _ rfl
  | option => cases hs; exact grows_keep _ rfl
  | opened => cases hs; exact grows_keep _ rfl
  | left => cases hs; exact grows_keep _ rfl
  | assigned t name value =>
    cases hs
    exact ⟨Definitions.grows_assign _ name value t, .of_topics rfl, none, (List.append_nil _).symm⟩
  | assignedArray name value =>
    cases hs
    exact ⟨Definitions.grows_assignArray _ name _, .of_topics rfl, none, (List.append_nil _).symm⟩
  | entered name links =>
    cases hs
    refine ⟨?_, s.document.topicsGrow_enter s.topic name links, none, by simpa using hobjects⟩
    show s.document.definitions.Grows (s.document.enter name links).definitions
    rw [Document.definitions_enter]
    exact .refl _
  | added =>
    cases hs
    exact ⟨.refl _, s.document.topicsGrow_addRule s.topic _, none, (List.append_nil _).symm⟩
  | extended place n hx hplace =>
    cases hs
    exact ⟨.refl _, h.topicsGrow hplace hx, none, (List.append_nil _).symm⟩

/-- A line of code adds a code object at most. -/
theorem readCode_grows (active : Text) (o : CodeObject) (line : Text) :
    s.document.Grows active (s.readCode o line).document := by
  refine ⟨?_, .of_topics (s.readCode_topics o line), ?_⟩
  · rw [readCode_definitions]
    exact .refl _
  · unfold readCode closeObject
    split
    · simp only
      split
      · exact ⟨none, (List.append_nil _).symm⟩
      · exact ⟨some o, rfl⟩
    · exact ⟨none, (List.append_nil _).symm⟩

/-- A line adds one entry, the relations of one topic and rules of the active one at most. -/
theorem Attached.step_grows (h : s.Attached) {number : Nat} {line : Text} {rest : List Text}
    (hs : (s.step supported number line rest).next = some s') :
    s.document.Grows s.topic s'.document := by
  have hk := s.step_stepped supported number line rest
  generalize s.step supported number line rest = outcome at hk hs
  cases hk with
  | blank => cases hs; exact grows_keep _ rfl
  | code o => cases hs; exact readCode_grows _ o line
  | aside => cases hs; exact grows_keep _ rfl
  | statement st _ ho _ => exact obey_grows h ho hs

/-! ## Complaints -/

/-- A statement that is warned of leaves the document as it is. -/
theorem obey_document_of_problem {l : LogicalLine} (ho : s.openObject = none) {p : Problem}
    {number : Nat} (hp : .problem p number ∈ (s.obey supported l).events)
    (hs : (s.obey supported l).next = some s') : s'.document = s.document := by
  have hk := s.obey_obeyed supported l ho
  generalize s.obey supported l = outcome at hk hp hs
  cases hk with
  | refused => cases hs
  | rejected => cases hs; rfl
  | ignored => cases hs; rfl
  | option => cases hs; rfl
  | opened => cases hs; rfl
  | left => cases hs; rfl
  | entered name links notes => simp at hp
  | added => simp [addRule] at hp
  | assigned => simp at hp
  | assignedArray => simp at hp
  | extended => simp at hp

/-- A line that tells of a problem leaves the document as it is. -/
theorem step_document_of_problem {number k : Nat} {line : Text} {rest : List Text} {p : Problem}
    (hp : .problem p k ∈ (s.step supported number line rest).events)
    (hs : (s.step supported number line rest).next = some s') : s'.document = s.document := by
  have hk := s.step_stepped supported number line rest
  generalize s.step supported number line rest = outcome at hk hp hs
  cases hk with
  | blank => cases hs; rfl
  | code => simp [seen] at hp
  | aside => cases hs; rfl
  | statement st _ ho _ =>
    have hobey : .problem p k ∈ (s.obey supported (s.logicalLine number st rest)).events := by
      simpa [seen] using hp
    exact obey_document_of_problem ho hobey hs

end State

end Reader

theorem Event.problem_of_mem_warnings {utf8 : Bool} {source : Text} {e : Event} {w : Warning}
    (h : w ∈ e.warnings utf8 source) (hw : w.isSyntax = false) :
    ∃ p, e = .problem p w.number ∧ w.message = p.message := by
  cases e with
  | statement l =>
    obtain ⟨f, -, rfl⟩ := Option.map_eq_some_iff.1 (Option.mem_toList.1 h)
    rw [f.isSyntax_author] at hw
    cases hw
  | problem p number =>
    obtain rfl := List.mem_singleton.1 h
    exact ⟨p, rfl, rfl⟩
  | line => cases h
  | note => cases h

namespace Reader

/-- The document grows with every line that is read. The names of a table and of the topics keep
their places and new ones come behind them; at most one entry of a table is new or has another value;
no relation is lost, and new ones belong to one topic; the code objects stay, with at most one more
behind them. Of the rules only those of the active topic change: one is added behind them, or the last
one gets one more reply, one more condition or another redirect. A line with a warning that is not
about the grammar does nothing to the document. -/
theorem document_grows (supported : Float) (front back : List Text) {s s' : State}
    (h : (scanBefore supported {} 0 back front).next = some s) {line : Text} {rest : List Text}
    (hs : (s.step supported (front.length + 1) line rest).next = some s') :
    s.document.Grows s.topic s'.document ∧
      ∀ utf8 source, ∀ w ∈ (s.step supported (front.length + 1) line rest).events.flatMap
          (Event.warnings utf8 source),
        w.isSyntax = false → s'.document = s.document := by
  have hsound : s.Sound := State.sound_initial.scanBefore h
  refine ⟨hsound.attached.step_grows hs, fun utf8 source w hw hsyntax => ?_⟩
  obtain ⟨e, he, hw⟩ := List.mem_flatMap.1 hw
  obtain ⟨p, rfl, -⟩ := Event.problem_of_mem_warnings hw hsyntax
  exact State.step_document_of_problem he hs

/-- A second response for the last rule of a topic that was entered behind another one, and in its
place the label of a code object without a language. -/
theorem document_grows_response :
    let front : List Text := ["+ x".toList, "> topic t includes u".toList, "+ a".toList, "- b".toList]
    let s : State :=
      { document :=
          { topics := [(defaultTopic, { rules := [{ pattern := ['x'] }] }),
              (['t'], { includes := [['u']], rules := [{ pattern := ['a'], replies := [['b']] }] }),
              (['u'], {})] }
        topic := ['t'], openRule := some ⟨['t'], 0⟩ }
    let warned : Warning := ⟨Problem.unknownLanguage.message, [], 5⟩
    (scanBefore 2.0 {} 0 [] front).next = some s ∧
      (∃ s', (s.step 2.0 5 "- c".toList []).next = some s' ∧ s.document.Grows ['t'] s'.document ∧
        s'.document.rulesOf ['t'] = [{ pattern := ['a'], replies := [['b'], ['c']] }]) ∧
      ∃ s', (s.step 2.0 5 "> object f".toList []).next = some s' ∧
        warned ∈ (s.step 2.0 5 "> object f".toList []).events.flatMap (Event.warnings false []) ∧
        s'.openObject.isSome = true ∧ s'.document = s.document := by
  intro front s warned
  have h : (scanBefore 2.0 {} 0 [] front).next = some s := by rfl
  obtain ⟨s₁, hs₁, hrules⟩ : ∃ s', (s.step 2.0 5 "- c".toList []).next = some s' ∧
      s'.document.rulesOf ['t'] = [{ pattern := ['a'], replies := [['b'], ['c']] }] :=
    ⟨_, rfl, rfl⟩
  obtain ⟨s₂, hs₂, hopen⟩ : ∃ s', (s.step 2.0 5 "> object f".toList []).next = some s' ∧
      s'.openObject.isSome = true := ⟨_, rfl, rfl⟩
  have hwarned : warned ∈ (s.step 2.0 5 "> object f".toList []).events.flatMap
      (Event.warnings false []) := by decide
  exact ⟨h, ⟨s₁, hs₁, (document_grows 2.0 front [] h hs₁).1, hrules⟩, s₂, hs₂, hwarned, hopen,
    (document_grows 2.0 front [] h hs₂).2 false [] warned hwarned (by decide)⟩

end Reader

end DialogueScript
