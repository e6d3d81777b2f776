import DialogueScript.Proofs.Failures
import DialogueScript.Proofs.Merge
import DialogueScript.Proofs.WellFormed

/-!
# Topics and their relations

A topic is created when it is first mentioned: by a label that enters it, as the target of a relation
that a label declares, or as the active topic of a rule. So the names of the topics are those that the
statements mention, without the repeats (`mentioned`). Which relations a label declares is told by
its words: a target is related by the keyword that stands next in front of it (`Links.Declares`). The
relations of a topic are those that all its labels declare (`parse_topics`).
-/

namespace DialogueScript

/-! ## First occurrences -/

namespace Names

theorem union_append (a b c : Names) : a.union (b ++ c) = (a.union b).union c := List.foldl_append

theorem union_singleton (a : Names) (x : Text) : a.union [x] = a.add x := rfl

/-- A union with no names before it keeps the first occurrences. -/
theorem union_eq_eraseDups (b : List Text) : union [] b = b.eraseDups := by
  induction b using List.reverseRecOn with
  | nil => rfl
  | append_singleton b x ih =>
    rw [union_append, ih, union_singleton, List.eraseDups_append, add]
    by_cases h : x ∈ b
    · simp [h, List.cons_removeAll]
    · simp [h, List.cons_removeAll, List.eraseDups_cons]

end Names

/-! ## The relations in the words of a label -/

/-- The word is the keyword of a relation. -/
def Relation.isKeyword (w : Text) : Bool := (Relation.ofKeyword? w).isSome

theorem Relation.keyword_inj {r r' : Relation} (h : r.keyword = r'.keyword) : r = r' := by
  cases r <;> cases r' <;> first | rfl | exact absurd h (by decide)

namespace Links

/-- The targets of relations: the words behind the first keyword, apart from further keywords. -/
def targets (ws : List Text) : List Text :=
  (ws.dropWhile (!Relation.isKeyword ·)).filter (!Relation.isKeyword ·)

/-- Among the words the target is no keyword, and the next keyword in front of it is that of the
relation. -/
def Declares (ws : List Text) (r : Relation) (target : Text) : Prop :=
  ∃ front back, ws = front ++ r.keyword :: back ∧ target ∈ back.takeWhile (!Relation.isKeyword ·)

variable {r : Relation} {target w : Text} {ws : List Text}

theorem not_declares_nil : ¬Declares [] r target := by
  rintro ⟨front, back, h, -⟩
  simp at h

/-- A keyword declares the words up to the next keyword. -/
theorem declares_cons : Declares (w :: ws) r target ↔
    w = r.keyword ∧ target ∈ ws.takeWhile (!Relation.isKeyword ·) ∨ Declares ws r target := by
  constructor
  · rintro ⟨front, back, h, ht⟩
    cases front with
    | nil =>
      obtain ⟨rfl, rfl⟩ := List.cons.inj h
      exact .inl ⟨rfl, ht⟩
    | cons x front =>
      obtain ⟨rfl, rfl⟩ := List.cons.inj h
      exact .inr ⟨front, back, rfl, ht⟩
  · rintro (⟨rfl, ht⟩ | ⟨front, back, rfl, ht⟩)
    · exact ⟨[], ws, rfl, ht⟩
    · exact ⟨w :: front, back, rfl, ht⟩

/-! Reading the words from left to right, with the relation of the last keyword in `current`. -/

theorem ofWords_keyword (h : Relation.ofKeyword? w = some r) (current : Option Relation)
    (ws : List Text) : ofWords current (w :: ws) = ofWords (some r) ws := by
  simp [ofWords, h]

theorem ofWords_target (h : Relation.ofKeyword? w = none) (r : Relation) (ws : List Text) :
    ofWords (some r) (w :: ws) = (r, w) :: ofWords (some r) ws := by
  simp [ofWords, h]

theorem ofWords_dropped (h : Relation.ofKeyword? w = none) (ws : List Text) :
    ofWords none (w :: ws) = ofWords none ws := by
  simp [ofWords, h]

/-- Words in front of the first keyword declare nothing. -/
theorem ofWords_append {front : List Text} (h : ∀ w ∈ front, Relation.isKeyword w = false)
    (ws : List Text) : ofWords none (front ++ ws) = ofWords none ws := by
  induction front with
  | nil => rfl
  | cons w front ih =>
    obtain ⟨hw, hfront⟩ := List.forall_mem_cons.1 h
    have hnone : Relation.ofKeyword? w = none := by simpa [Relation.isKeyword] using hw
    rw [List.cons_append, ofWords_dropped hnone, ih hfront]

/-- The relations found from left to right are those that the nearest keyword declares. -/
theorem mem_ofWords_iff {current : Option Relation} : (r, target) ∈ ofWords current ws ↔
    current = some r ∧ target ∈ ws.takeWhile (!Relation.isKeyword ·) ∨ Declares ws r target := by
  induction ws generalizing current with
  | nil => simp [ofWords, not_declares_nil]
  | cons w ws ih =>
    rw [declares_cons]
    cases hw : Relation.ofKeyword? w with
    | some r' =>
      have hk : Relation.isKeyword w = true := by simp [Relation.isKeyword, hw]
      have hword : w = r.keyword ↔ some r' = some r := by
        rw [Reader.State.relation_ofKeyword?_iff.1 hw, Option.some.injEq]
        exact ⟨Relation.keyword_inj, congrArg Relation.keyword⟩
      rw [ofWords_keyword hw, ih, List.takeWhile_cons_of_neg (by simp [hk]), hword]
      simp
    | none =>
      have hk : Relation.isKeyword w = false := by simp [Relation.isKeyword, hw]
      have hne : w ≠ r.keyword := by
        rintro rfl
        cases r <;> cases hk
      rw [List.takeWhile_cons_of_pos (by simp [hk])]
      cases current with
      | none => simp [ofWords_dropped hw, ih, hne]
      | some r' =>
        rw [ofWords_target hw, List.mem_cons, ih, Prod.mk.injEq, List.mem_cons, Option.some.injEq,
          eq_comm (a := r), ← or_assoc, ← and_or_left]
        simp [hne]

theorem map_ofWords_some (r : Relation) (ws : List Text) :
    (ofWords (some r) ws).map (·.2) = ws.filter (!Relation.isKeyword ·) := by
  induction ws generalizing r with
  | nil => rfl
  | cons w ws ih =>
    cases hw : Relation.ofKeyword? w with
    | some r' =>
      rw [ofWords_keyword hw, ih, List.filter_cons_of_neg (by simp [Relation.isKeyword, hw])]
    | none =>
      rw [ofWords_target hw, List.map_cons, ih,
        List.filter_cons_of_pos (by simp [Relation.isKeyword, hw])]

theorem map_ofWords (ws : List Text) : (ofWords none ws).map (·.2) = targets ws := by
  induction ws with
  | nil => rfl
  | cons w ws ih =>
    cases hw : Relation.ofKeyword? w with
    | some r =>
      have hk : Relation.isKeyword w = true := by simp [Relation.isKeyword, hw]
      rw [ofWords_keyword hw, map_ofWords_some, targets, List.dropWhile_cons_of_neg (by simp [hk]),
        List.filter_cons_of_neg (by simp [hk])]
    | none =>
      have hk : Relation.isKeyword w = false := by simp [Relation.isKeyword, hw]
      rw [ofWords_dropped hw, ih, targets, targets, List.dropWhile_cons_of_pos (by simp [hk])]

end Links

/-! ## Edits of topics -/

/-- The topics that a topic is related to. -/
def Topic.related (t : Topic) : Relation → Names
  | .includes => t.includes
  | .inherits => t.inherits

theorem Topic.mem_related_relate {t : Topic} {r r' : Relation} {target other : Text} :
    other ∈ (t.relate r target).related r' ↔
      other ∈ t.related r' ∨ r' = r ∧ other = target := by
  cases r <;> cases r' <;> simp [relate, related, Names.mem_add]

namespace Document

variable {d : Document} {name topic : Text} {r : Relation} {target : Text}

/-- The topics that the topic under a name is related to. -/
def related (d : Document) (topic : Text) (r : Relation) : Names :=
  ((d.topics.get? topic).getD {}).related r

theorem related_ensureTopic (d : Document) (name topic : Text) (r : Relation) :
    (d.ensureTopic name).related topic r = d.related topic r := by
  unfold related ensureTopic
  rw [Table.get?_ensure]
  cases d.topics.get? topic with
  | some t => rfl
  | none => split <;> rfl

theorem related_modifyTopic (d : Document) (name topic : Text) (r : Relation) {f : Topic → Topic}
    (hf : ∀ t, (f t).related r = t.related r) :
    (d.modifyTopic name f).related topic r = d.related topic r := by
  unfold related modifyTopic
  rw [Table.get?_modify]
  split
  · cases d.topics.get? topic with
    | some t => exact hf t
    | none => rfl
  · rfl

theorem mem_related_relate {r' : Relation} {other : Text} :
    other ∈ (d.relate name r target).related topic r' ↔
      other ∈ d.related topic r' ∨ topic = name ∧ r' = r ∧ other = target := by
  by_cases h : name = topic
  · subst h
    have hself : (d.relate name r target).related name r' =
        (((d.topics.get? name).getD {}).relate r target).related r' := by
      unfold related relate modifyTopic ensureTopic
      rw [Table.get?_modify, if_pos rfl, Table.get?_ensure, if_pos rfl]
      cases d.topics.get? name <;> rfl
    rw [hself, Topic.mem_related_relate]
    simp [related]
  · have hother : (d.relate name r target).related topic r' = d.related topic r' := by
      rw [← related_ensureTopic d name, related, related, relate, modifyTopic, Table.get?_modify,
        if_neg h]
    rw [hother]
    simp [Ne.symm h]

theorem names_relate (d : Document) (name : Text) (r : Relation) (target : Text) :
    (d.relate name r target).topics.names = d.topics.names.add name := by
  rw [relate, names_modifyTopic]
  exact Table.names_ensure _ _ _

/-- Entering a topic adds its relations, and all others stay. -/
theorem mem_related_enter {links : Links} : target ∈ (d.enter name links).related topic r ↔
    target ∈ d.related topic r ∨ topic = name ∧ (r, target) ∈ links := by
  unfold enter
  rw [← related_ensureTopic d name topic]
  generalize d.ensureTopic name = d
  induction links generalizing d with
  | nil => simp
  | cons link links ih =>
    obtain ⟨r', target'⟩ := link
    rw [List.foldl_cons, ih, mem_related_relate, related_ensureTopic, List.mem_cons, Prod.mk.injEq,
      or_assoc, ← and_or_left]

theorem names_enter (d : Document) (name : Text) (links : Links) :
    (d.enter name links).topics.names = d.topics.names.union (name :: links.map (·.2)) := by
  have hfold : ∀ d : Document, name ∈ d.topics.names →
      (links.foldl (fun d link => (d.ensureTopic link.2).relate name link.1 link.2) d).topics.names =
        d.topics.names.union (links.map (·.2)) := by
    induction links with
    | nil => exact fun d _ => rfl
    | cons link links ih =>
      intro d hn
      have hmem : name ∈ d.topics.names.add link.2 := Names.mem_add.2 (.inl hn)
      -- the topic itself is there already
      have hnames : ((d.ensureTopic link.2).relate name link.1 link.2).topics.names =
          d.topics.names.add link.2 := by
        rw [names_relate, ensureTopic, Table.names_ensure]
        exact if_pos hmem
      rw [List.foldl_cons, ih _ (hnames ▸ hmem), hnames]
      rfl
  have hensure : (d.ensureTopic name).topics.names = d.topics.names.add name :=
    Table.names_ensure _ _ _
  rw [enter, hfold _ (mem_names_ensureTopic.2 (.inr rfl)), hensure]
  rfl

end Document

/-! ## What statements mention -/

namespace LogicalLine

variable {l : LogicalLine} {name : Text} {links : Links}

/-- The words behind the first two. -/
def fields (l : LogicalLine) : List Text := (Text.words l.text).drop 2

/-- The topic that the statement enters: that of the begin block, or the one that its second word
names. -/
def entered? (l : LogicalLine) : Option Text :=
  match l.command?, Text.words l.text with
  | some .labelOpen, word :: rest =>
    if word = Label.beginKeyword then some beginTopic
    else if word = Label.topicKeyword then rest.head?
    else none
  | _, _ => none

/-- The topics that the statement mentions while a topic is active. -/
def mentions (active : Text) (l : LogicalLine) : List Text :=
  if l.command? = some .trigger then [active]
  else (l.entered?.map fun name => name :: Links.targets l.fields).getD []

/-- The begin block and topics with a name are entered. -/
theorem entered?_eq_some_iff : l.entered? = some name ↔
    l.command? = some .labelOpen ∧
      ((∃ rest, Text.words l.text = Label.beginKeyword :: rest ∧ name = beginTopic) ∨
        ∃ fields, Text.words l.text = Label.topicKeyword :: name :: fields) := by
  constructor
  · intro h
    unfold entered? at h
    split at h
    · next word rest hc hw =>
      split at h
      · next hb => exact ⟨hc, .inl ⟨rest, by rw [hw, hb], (Option.some.inj h).symm⟩⟩
      split at h
      · next ht =>
        obtain ⟨fields, rfl⟩ := List.head?_eq_some_iff.1 h
        exact ⟨hc, .inr ⟨fields, by rw [hw, ht]⟩⟩
      · cases h
    · cases h
  · have hword : Label.topicKeyword ≠ Label.beginKeyword := by decide
    rintro ⟨hc, ⟨rest, hw, rfl⟩ | ⟨fields, hw⟩⟩
    · simp [entered?, hc, hw]
    · simp [entered?, hc, hw, hword]

/-- The words of a label tell which topic is entered, and how it is related. -/
theorem enters_iff : l.Enters name links ↔
    l.entered? = some name ∧ links = Links.ofWords none l.fields := by
  unfold Enters fields
  rw [entered?_eq_some_iff, Label.ofText_eq_topic_iff, Label.ofText_eq_begin_iff]
  constructor
  · rintro ⟨hc, ⟨fields, hw, rfl⟩ | ⟨⟨rest, hw, rfl⟩, rfl⟩⟩
    · exact ⟨⟨hc, .inr ⟨fields, hw⟩⟩, by rw [hw]; rfl⟩
    · exact ⟨⟨hc, .inl ⟨rest, hw, rfl⟩⟩, by rw [hw, List.drop_succ_cons]⟩
  · rintro ⟨⟨hc, ⟨rest, hw, rfl⟩ | ⟨fields, hw⟩⟩, rfl⟩
    · exact ⟨hc, .inr ⟨⟨rest, hw, by rw [hw, List.drop_succ_cons]⟩, rfl⟩⟩
    · exact ⟨hc, .inl ⟨fields, hw, by rw [hw]; rfl⟩⟩

/-- The topic that is entered is active behind the label. -/
theorem leadsTo?_of_entered? (h : l.entered? = some name) : l.leadsTo? = some name :=
  leadsTo?_eq_some_iff.2 (.inl (entered?_eq_some_iff.1 h))

/-- A statement that neither begins a rule nor enters a topic mentions none. -/
theorem mentions_of_quiet (hs : l.startsRule = false) (hl : l.leadsTo? = none) (active : Text) :
    l.mentions active = [] ∧ l.entered? = none := by
  have hentered : l.entered? = none := by
    cases he : l.entered? with
    | none => rfl
    | some name => cases hl.symm.trans (leadsTo?_of_entered? he)
  have hc : l.command? ≠ some .trigger := by simpa [startsRule] using hs
  exact ⟨by rw [mentions, if_neg hc, hentered]; rfl, hentered⟩

end LogicalLine

/-- The topics that the statements mention, in order and with repeats. -/
def mentioned (active : Text) : List LogicalLine → List Text
  | [] => []
  | l :: ls => l.mentions active ++ mentioned (l.leadsTo?.getD active) ls

/-- The topic that is active behind the statements. -/
def activeBehind (active : Text) (ls : List LogicalLine) : Text :=
  ls.foldl (fun active l => l.leadsTo?.getD active) active

theorem mentioned_append (active : Text) (ls ls' : List LogicalLine) :
    mentioned active (ls ++ ls') =
      mentioned active ls ++ mentioned (activeBehind active ls) ls' := by
  induction ls generalizing active with
  | nil => rfl
  | cons l ls ih =>
    rw [List.cons_append, mentioned, mentioned, ih, List.append_assoc]
    rfl

/-! ## Statements that do nothing to topics -/

theorem Reader.State.Rejects.endsScope {s : Reader.State} {l : LogicalLine} {p : Problem}
    (h : s.Rejects l p) : l.endsScope = false := by
  have define (hc : l.command? = some .define) : l.endsScope = false :=
    (LogicalLine.passes_command (by simp [hc])).scope
  have stray (hx : l.extendsRule = true) : l.endsScope = false :=
    LogicalLine.endsScope_of_extendsRule hx
  cases p with
  | unknownCommand mark =>
    exact LogicalLine.endsScope_of_command (by simp [h.1]) (by simp [h.1]) (by simp [h.1])
  | missingName => exact define h
  | missingValue => exact define h
  | unknownDefinition word => exact define h
  | badVersion => exact define h
  | unnamedTopic => exact (LogicalLine.passes_labelOpen h.1 (.inl h.2)).scope
  | unknownLabel word =>
    rcases h with ⟨hc, hl⟩ | ⟨hc, -, hl⟩
    · exact (LogicalLine.passes_labelOpen hc (.inr ⟨word, hl⟩)).scope
    · exact (LogicalLine.passes_labelClose hc hl).scope
  | strayResponse => exact stray (by simp [LogicalLine.extendsRule, h.1])
  | strayCondition => exact stray (by simp [LogicalLine.extendsRule, h.1])
  | strayRedirect => exact stray (by simp [LogicalLine.extendsRule, h.1])
  | deprecatedComment => cases h
  | lone => cases h
  | unsupportedVersion => cases h
  | unknownLanguage => cases h
  | unclosedObject => cases h

namespace Reader

/-! ## The topics of a state -/

/-- What the statements between two states do to the topics. -/
structure State.Records (s : State) (ls : List LogicalLine) (s' : State) : Prop where
  names : s'.document.topics.names = s.document.topics.names.union (mentioned s.topic ls)
  active : s'.topic = activeBehind s.topic ls
  related : ∀ topic r target, target ∈ s'.document.related topic r ↔
    target ∈ s.document.related topic r ∨
      ∃ l ∈ ls, l.entered? = some topic ∧ Links.Declares l.fields r target

namespace State

variable {s s' s'' : State} {supported : Float}

theorem Records.of_topics (ht : s'.topic = s.topic)
    (hd : s'.document.topics = s.document.topics) : s.Records [] s' where
  names := by rw [hd]; rfl
  active := ht
  related := by simp [Document.related, hd]

/-- What two runs do to the topics is what their statements do in a row. -/
theorem Records.trans {ls ls' : List LogicalLine} (h : s.Records ls s')
    (h' : s'.Records ls' s'') : s.Records (ls ++ ls') s'' where
  names := by
    rw [h'.names, h.names, h.active, mentioned_append, Names.union_append]
  active := by
    rw [h'.active, h.active, activeBehind, activeBehind, activeBehind, List.foldl_append]
  related := fun topic r target => by
    rw [h'.related, h.related]
    simp only [List.mem_append, or_and_right, exists_or, or_assoc]

/-- A statement that neither begins a rule nor enters or leaves a topic. -/
theorem Records.of_quiet {l : LogicalLine} (hs : l.startsRule = false) (hl : l.leadsTo? = none)
    (ht : s'.topic = s.topic) (hn : s'.document.topics.names = s.document.topics.names)
    (hr : ∀ topic r, s'.document.related topic r = s.document.related topic r) :
    s.Records [l] s' := by
  obtain ⟨hmentions, hentered⟩ := LogicalLine.mentions_of_quiet hs hl s.topic
  refine ⟨?_, ?_, ?_⟩
  · rw [mentioned, mentioned, hmentions, hn]
    rfl
  · rw [ht, activeBehind, List.foldl_cons, hl]
    rfl
  · simp [hr, hentered]

/-- A statement inside a scope records nothing. -/
theorem Records.of_passed {l : LogicalLine} (hl : l.endsScope = false) (ht : s'.topic = s.topic)
    (hn : s'.document.topics.names = s.document.topics.names)
    (hr : ∀ topic r, s'.document.related topic r = s.document.related topic r) :
    s.Records [l] s' :=
  .of_quiet (LogicalLine.not_startsRule hl) (LogicalLine.leadsTo?_none hl) ht hn hr

/-- A label that enters a topic records it with its relations. -/
theorem Records.enterTopic {l : LogicalLine} {name : Text} {links : Links}
    (h : l.Enters name links) (s : State) : s.Records [l] (s.enterTopic name links) := by
  obtain ⟨hentered, rfl⟩ := LogicalLine.enters_iff.1 h
  have hmentions : l.mentions s.topic = name :: Links.targets l.fields := by
    simp [LogicalLine.mentions, (LogicalLine.entered?_eq_some_iff.1 hentered).1, hentered]
  refine ⟨?_, ?_, fun topic r target => ?_⟩
  · rw [mentioned, mentioned, List.append_nil, hmentions, ← Links.map_ofWords]
    exact s.document.names_enter name _
  · rw [activeBehind, List.foldl_cons, LogicalLine.leadsTo?_of_entered? hentered]
    rfl
  · refine (Document.mem_related_enter (d := s.document)).trans ?_
    rw [Links.mem_ofWords_iff]
    simp [hentered, eq_comm]

theorem Records.addRule {l : LogicalLine} (hc : l.command? = some .trigger)
    (hs : (s.addRule l).next = some s') : s.Records [l] s' := by
  cases hs
  have hleads : l.leadsTo? = none := by simp [LogicalLine.leadsTo?, hc]
  have hmentions : l.mentions s.topic = [s.topic] := if_pos hc
  have hentered : l.entered? = none := by simp [LogicalLine.entered?, hc]
  refine ⟨?_, ?_, fun topic r target => ?_⟩
  · rw [mentioned, mentioned, List.append_nil, hmentions, Names.union_singleton]
    exact (Document.names_modifyTopic _ _ _).trans (Table.names_ensure _ _ _)
  · rw [activeBehind, List.foldl_cons, hleads]
    rfl
  · have hrelated : (s.document.addRule s.topic { pattern := l.text, previous := l.previous }).related
        topic r = s.document.related topic r := by
      rw [Document.addRule, Document.related_modifyTopic _ _ _ _ fun t => by cases r <;> rfl,
        Document.related_ensureTopic]
    simp [hrelated, hentered]

/-- A statement records the topics that it mentions and the relations that it declares. -/
theorem obey_records {l : LogicalLine} (ho : s.openObject = none)
    (hs : (s.obey supported l).next = some s') : s.Records [l] s' := by
  have hk := s.obey_obeyed supported l ho
  generalize s.obey supported l = outcome at hk hs
  have define (hc : l.command? = some .define) : l.endsScope = false :=
    (LogicalLine.passes_command (by simp [hc])).scope
  cases hk
  case entered name links notes hc hl =>
    cases hs
    exact .enterTopic ⟨hc, hl⟩ s
  case added hc => exact .addRule hc hs
  all_goals cases hs
  case rejected p hp => exact .of_passed hp.endsScope rfl rfl fun _ _ => rfl
  case ignored hc =>
    have hl : l.endsScope = false := by
      rcases hc with hc | ⟨hc, ht⟩
      · exact (LogicalLine.passes_command hc).scope
      · exact (LogicalLine.passes_labelClose hc (by rw [ht]; decide)).scope
    exact .of_passed hl rfl rfl fun _ _ => rfl
  case option hc _ _ _ => exact .of_passed (define hc) rfl rfl fun _ _ => rfl
  case assigned hc _ _ _ => exact .of_passed (define hc) rfl rfl fun _ _ => rfl
  case assignedArray hc _ _ _ => exact .of_passed (define hc) rfl rfl fun _ _ => rfl
  case opened name language problems hc hl hp =>
    have hleads : l.leadsTo? = none := by simp [LogicalLine.leadsTo?, hc, hl]
    exact .of_quiet (by simp [LogicalLine.startsRule, hc]) hleads rfl rfl fun _ _ => rfl
  case left hc hl =>
    have hmentions : l.mentions s.topic = [] ∧ l.entered? = none := by
      have hentered : l.entered? = none := by simp [LogicalLine.entered?, hc]
      exact ⟨by simp [LogicalLine.mentions, hc, hentered], hentered⟩
    have hleads : l.leadsTo? = some defaultTopic := by simp [LogicalLine.leadsTo?, hc, hl]
    refine ⟨?_, ?_, by simp [hmentions.2]⟩
    · rw [mentioned, mentioned, hmentions.1]
      rfl
    · rw [activeBehind, List.foldl_cons, hleads]
      rfl
  case extended place n hx _ =>
    refine .of_passed (LogicalLine.endsScope_of_extendsRule hx) rfl ?_ fun topic r => ?_
    · exact Document.names_modifyTopic _ _ _
    · exact Document.related_modifyTopic _ _ _ _ fun t => by cases r <;> rfl

theorem obey_of_none {l : LogicalLine} (hc : l.command? = none) :
    s.obey supported l = s.warn (.unknownCommand l.mark) l.number := by
  simp only [obey, hc]

/-- A line records what its statement mentions and declares, if it is dispatched. -/
theorem step_records {number : Nat} {line : Text} {rest : List Text}
    (hs : (s.step supported number line rest).next = some s') :
    s.Records (dispatched (s.step supported number line rest).events) s' := by
  have hk := s.step_stepped supported number line rest
  generalize s.step supported number line rest = outcome at hk hs ⊢
  cases hk with
  | blank =>
    cases hs
    exact .of_topics rfl rfl
  | code o =>
    cases hs
    exact .of_topics (s.readCode_topic o line) (s.readCode_topics o line)
  | aside inComment problems =>
    cases hs
    have hrecords : s.Records [] { s with inComment } := .of_topics rfl rfl
    simpa using hrecords
  | statement st _ ho _ =>
    have hd := dispatched_obey supported (s.logicalLine number st rest) ho
    by_cases hc : (s.logicalLine number st rest).command?.isSome
    · simpa [dispatched_statement, hc, hd] using obey_records ho hs
    · -- a statement without a command is complained about, and that is all
      have hnone : (s.logicalLine number st rest).command? = none := by simpa using hc
      rw [obey_of_none hnone] at hs
      cases hs
      have hrecords : s.Records [] s := .of_topics rfl rfl
      simpa [dispatched_statement, hc, hd] using hrecords

end State

/-- A part of a script records what its statements mention and declare, and nothing else. -/
theorem scanBefore_records {supported : Float} {s s' : State} {number : Nat}
    {later lines : List Text} (h : (scanBefore supported s number later lines).next = some s') :
    s.Records (dispatched (scanBefore supported s number later lines).events) s' := by
  induction lines generalizing s number with
  | nil =>
    cases h
    exact .of_topics rfl rfl
  | cons line rest ih =>
    obtain ⟨next, hn, hrest, he⟩ := Outcome.next_andThen h
    rw [scanBefore, he, dispatched_append]
    exact (State.step_records hn).trans (ih hrest)

end Reader

/-- The topics of a script are those that its statements mention, in the order in which they are first
mentioned. The relations of a topic are those that the labels of this topic declare, all taken
together. Words of a label in front of the first keyword are read past. -/
theorem parse_topics (settings : Settings) (audience : Audience) {lines : List Text} {d : Document}
    (h : (parse settings audience lines).document = some d) :
    let ls := dispatched (Reader.read settings.supported lines).events
    d.topics.names = (mentioned defaultTopic ls).eraseDups ∧
      (∀ topic t, d.topics.get? topic = some t → ∀ r target,
        target ∈ t.related r ↔
          ∃ l ∈ ls, l.entered? = some topic ∧ Links.Declares l.fields r target) ∧
      ∀ front fields, (∀ w ∈ front, Relation.isKeyword w = false) →
        Links.ofWords none (front ++ fields) = Links.ofWords none fields := by
  intro ls
  rw [parse_document] at h
  obtain ⟨s, hs, rfl⟩ := Reader.next_of_document h
  have hls : ls = dispatched (Reader.scanBefore settings.supported {} 0 [] lines).events :=
    Reader.dispatched_read h
  rw [Reader.scan_eq] at hs
  have hrecords := Reader.scanBefore_records hs
  rw [← hls] at hrecords
  refine ⟨?_, fun topic t ht r target => ?_, fun front fields hf => Links.ofWords_append hf fields⟩
  · rw [hrecords.names]
    exact Names.union_eq_eraseDups _
  · have hrelated := hrecords.related topic r target
    rw [Document.related, ht] at hrelated
    refine hrelated.trans (or_iff_right ?_)
    cases r <;> exact List.not_mem_nil

/-- A topic that is entered twice and related to itself, with a word in front of the keywords, and a
rule of the default topic in between. -/
theorem parse_topics_reopened :
    let lines : List Text := ["> topic t x inherits v includes t u".toList, "< topic".toList,
      "+ a".toList, "> begin".toList, "+ b".toList, "> topic t includes w inherits u".toList]
    let ls := dispatched (Reader.read ({} : Settings).supported lines).events
    ∃ d t, (parse {} ⟨[], false⟩ lines).document = some d ∧
      d.topics.get? ['t'] = some t ∧
      d.topics.names = [['t'], ['v'], ['u'], defaultTopic, beginTopic, ['w']] ∧
      t.related .includes = [['t'], ['u'], ['w']] ∧ t.related .inherits = [['v'], ['u']] ∧
      ∀ r target, target ∈ t.related r ↔
        ∃ l ∈ ls, l.entered? = some ['t'] ∧ Links.Declares l.fields r target := by
  intro lines ls
  let t : Topic := { includes := [['t'], ['u'], ['w']], inherits := [['v'], ['u']] }
  let d : Document :=
    { topics := [(['t'], t), (['v'], {}), (['u'], {}),
        (defaultTopic, { rules := [{ pattern := ['a'] }] }),
        (beginTopic, { rules := [{ pattern := ['b'] }] }), (['w'], {})] }
  have hd : (parse {} ⟨[], false⟩ lines).document = some d := by rfl
  obtain ⟨hnames, hrelated, -⟩ := parse_topics {} ⟨[], false⟩ hd
  exact ⟨d, t, hd, by rfl, hnames.trans (by rfl), rfl, rfl, hrelated ['t'] t (by rfl)⟩

end DialogueScript
