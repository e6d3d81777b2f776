import DialogueScript.Proofs.Invariant
import DialogueScript.Proofs.Scope

/-!
# Rules in a run

How the rules of a document come about. `RuleStep` is what a statement does to the rules, the active
topic and the open rule, and a run is a chain of such steps (`scanBefore_ruleRun`). By induction on
the chain, the rules are those that the scopes of the statements give (`RuleRun.rules`), and the
problems told of responses, conditions and redirects are those of the strays (`RuleRun.strays`).
-/

namespace DialogueScript

/-! ## Complaints about strays -/

/-- The complaint about a statement that has no rule to extend. -/
def LogicalLine.complaint? (l : LogicalLine) : Option Problem :=
  match l.command? with
  | some .response => some .strayResponse
  | some .condition => some .strayCondition
  | some .redirect => some .strayRedirect
  | _ => none

/-- The complaints about strays among the events, with the numbers of their lines. -/
def Event.stray? : Event → Option (Problem × Nat)
  | .problem .strayResponse number => some (.strayResponse, number)
  | .problem .strayCondition number => some (.strayCondition, number)
  | .problem .strayRedirect number => some (.strayRedirect, number)
  | _ => none

theorem Event.stray?_problems {problems : List Problem} {number : Nat}
    (h : ∀ p ∈ problems, (Event.problem p number).stray? = none) :
    (problems.map (Event.problem · number)).filterMap stray? = [] := by
  rw [List.filterMap_map, List.filterMap_eq_nil_iff]
  exact h

/-- Just the statements that extend rules have a complaint for the case that there is none. -/
theorem LogicalLine.complaint?_isSome (l : LogicalLine) :
    l.complaint?.isSome = l.extendsRule := by
  unfold complaint? extendsRule
  split <;> simp_all

/-! ## Rules under edits -/

namespace Document

variable (d : Document)

theorem rulesOf_modifyTopic (name topic : Text) {f : Topic → Topic} (hf : ∀ t, (f t).rules = t.rules) :
    (d.modifyTopic name f).rulesOf topic = d.rulesOf topic := by
  simp only [rulesOf, modifyTopic, Table.get?_modify]
  split
  · cases d.topics.get? topic <;> simp [hf]
  · rfl

theorem rulesOf_ensureTopic (name topic : Text) :
    (d.ensureTopic name).rulesOf topic = d.rulesOf topic := by
  simp only [rulesOf, ensureTopic, Table.get?_ensure]
  cases d.topics.get? topic with
  | some t => rfl
  | none => split <;> rfl

theorem rulesOf_enter (name : Text) (links : Links) (topic : Text) :
    (d.enter name links).rulesOf topic = d.rulesOf topic := by
  have hrelate : ∀ (r : Relation) target (t : Topic), (t.relate r target).rules = t.rules := by
    intro r target t
    cases r <;> rfl
  refine enter_induct d (P := fun e => e.rulesOf topic = d.rulesOf topic) ?_ ?_ name links rfl
  · intro e name h
    rw [rulesOf_ensureTopic, h]
  · intro e name r target h
    rw [relate, rulesOf_modifyTopic _ _ _ (hrelate r target), rulesOf_ensureTopic, h]

theorem rulesOf_addRule (name : Text) (r : Rule) (topic : Text) :
    (d.addRule name r).rulesOf topic =
      if name = topic then d.rulesOf topic ++ [r] else d.rulesOf topic := by
  by_cases h : name = topic
  · subst h
    rw [if_pos rfl, rulesOf, get?_addRule, rulesOf]
    cases d.topics.get? name <;> rfl
  · rw [if_neg h, addRule, rulesOf, modifyTopic, Table.get?_modify, if_neg h]
    exact d.rulesOf_ensureTopic name topic

theorem rulesOf_modifyRule (place : RulePlace) (f : Rule → Rule) (topic : Text) :
    (d.modifyRule place f).rulesOf topic =
      if place.topic = topic then (d.rulesOf topic).modify place.index f else d.rulesOf topic := by
  simp only [rulesOf, modifyRule, modifyTopic, Table.get?_modify]
  split
  · cases d.topics.get? topic <;> simp [Topic.modifyRule]
  · rfl

end Document

namespace Reader

/-! ## Steps -/

/-- The states agree on the rules, the active topic and the open rule. -/
structure State.Alike (s s' : State) : Prop where
  rules : ∀ topic, s'.document.rulesOf topic = s.document.rulesOf topic
  topic : s'.topic = s.topic
  openRule : s'.openRule = s.openRule

/-- What a statement does to the rules, with the complaints about strays. -/
inductive RuleStep (s : State) (l : LogicalLine) : List (Problem × Nat) → State → Prop
  | passed (s' : State) (hs : l.endsScope = false) (hx : l.extendsRule = false)
    (ha : s.Alike s') : RuleStep s l [] s'
  | stray (p : Problem) (hp : l.complaint? = some p) (ho : s.openRule = none) :
    RuleStep s l [(p, l.number)] s
  | extended (place : RulePlace) (hx : l.extendsRule = true) (ho : s.openRule = some place) :
    RuleStep s l [] { s with document := s.document.modifyRule place (·.extendBy l) }
  | began (s' : State) (hs : l.startsRule = true) (hn : (s.addRule l).next = some s') :
    RuleStep s l [] s'
  | ended (s' : State) (hs : l.endsScope = true) (hn : l.startsRule = false)
    (hr : ∀ topic, s'.document.rulesOf topic = s.document.rulesOf topic)
    (ht : s'.topic = l.leadsTo?.getD s.topic) (ho : s'.openRule = none) : RuleStep s l [] s'

namespace State

variable {s s' : State} {supported : Float}

theorem Alike.refl (s : State) : s.Alike s := ⟨fun _ => rfl, rfl, rfl⟩

/-- A statement that is rejected leaves all rules alone; it may be a stray. -/
theorem rejects_ruleStep {l : LogicalLine} {p : Problem} (hc : l.command?.isSome = true)
    (hp : s.Rejects l p) :
    RuleStep s l ([Event.problem p l.number].filterMap Event.stray?) s := by
  have passed (h : l.Passes) : RuleStep s l [] s := .passed s h.scope h.rule (.refl s)
  have define (h : l.command? = some .define) : RuleStep s l [] s :=
    passed (LogicalLine.passes_command (by simp [h]))
  cases p with
  | unknownCommand mark =>
    rw [hp.1] at hc
    cases hc
  | missingName => exact define hp
  | missingValue => exact define hp
  | unknownDefinition word => exact define hp
  | badVersion => exact define hp
  | unnamedTopic => exact passed (LogicalLine.passes_labelOpen hp.1 (.inl hp.2))
  | unknownLabel word =>
    rcases hp with ⟨hc, hl⟩ | ⟨hc, -, hl⟩
    · exact passed (LogicalLine.passes_labelOpen hc (.inr ⟨word, hl⟩))
    · exact passed (LogicalLine.passes_labelClose hc hl)
  | strayResponse => exact .stray _ (by simp [LogicalLine.complaint?, hp.1]) hp.2
  | strayCondition => exact .stray _ (by simp [LogicalLine.complaint?, hp.1]) hp.2
  | strayRedirect => exact .stray _ (by simp [LogicalLine.complaint?, hp.1]) hp.2
  | deprecatedComment => cases hp
  | lone => cases hp
  | unsupportedVersion => cases hp
  | unknownLanguage => cases hp
  | unclosedObject => cases hp

/-- Every statement does to the rules one of the things that `RuleStep` lists. -/
theorem obey_ruleStep {l : LogicalLine} (ho : s.openObject = none)
    (hc : l.command?.isSome = true) (hn : (s.obey supported l).next = some s') :
    RuleStep s l ((s.obey supported l).events.filterMap Event.stray?) s' := by
  have hk := s.obey_obeyed supported l ho
  generalize s.obey supported l = outcome at hk hn ⊢
  have define (h : l.command? = some .define) (s' : State) (ha : s.Alike s') :
      RuleStep s l [] s' := by
    have hp := LogicalLine.passes_command (l := l) (by simp [h])
    exact .passed s' hp.scope hp.rule ha
  cases hk <;> cases hn
  case rejected p hp => exact rejects_ruleStep hc hp
  case ignored hc =>
    have hp : l.Passes := by
      rcases hc with hc | ⟨hc, hl⟩
      · exact LogicalLine.passes_command hc
      · exact LogicalLine.passes_labelClose hc (by rw [hl]; decide)
    exact .passed s hp.scope hp.rule (.refl s)
  case option hc _ _ _ => exact define hc _ ⟨fun _ => rfl, rfl, rfl⟩
  case assigned hc _ _ _ => exact define hc _ ⟨fun _ => rfl, rfl, rfl⟩
  case assignedArray hc _ _ _ => exact define hc _ ⟨fun _ => rfl, rfl, rfl⟩
  case entered name links notes hc hl =>
    have ht : l.leadsTo? = some name := by
      rcases hl with hl | ⟨hl, rfl⟩ <;> simp [LogicalLine.leadsTo?, hc, hl]
    have he : (notes.map Event.note).filterMap Event.stray? = [] := by
      simp [Event.stray?]
    rw [go_events, he]
    refine .ended _ (by simp [LogicalLine.endsScope, ht]) (by simp [LogicalLine.startsRule, hc])
      (fun topic => s.document.rulesOf_enter name links topic) ?_ rfl
    rw [ht]
    rfl
  case opened name language problems hc hl hp =>
    have hb : l.object?.isSome = true := by simp [LogicalLine.object?, hc, hl]
    have ht : l.leadsTo? = none := by simp [LogicalLine.leadsTo?, hc, hl]
    have he : (problems.map (Event.problem · l.number)).filterMap Event.stray? = [] := by
      apply Event.stray?_problems
      intro p hm
      rw [hp p hm]
      rfl
    rw [go_events, he]
    refine .ended _ (by simp [LogicalLine.endsScope, hb]) (by simp [LogicalLine.startsRule, hc])
      (fun topic => rfl) ?_ rfl
    rw [ht]
    rfl
  case left hc hl =>
    have ht : l.leadsTo? = some defaultTopic := by simp [LogicalLine.leadsTo?, hc, hl]
    refine .ended _ (by simp [LogicalLine.endsScope, ht]) (by simp [LogicalLine.startsRule, hc])
      (fun topic => rfl) ?_ rfl
    rw [ht]
    rfl
  case added hc => exact .began _ (by simp [LogicalLine.startsRule, hc]) rfl
  case extended place n hx hr => exact .extended place hx hr

/-- A line of code leaves the rules alone. -/
theorem readCode_alike (o : CodeObject) (line : Text) : s.Alike (s.readCode o line) := by
  unfold readCode closeObject
  split
  · refine ⟨?_, rfl, rfl⟩
    intro topic
    simp only
    split <;> rfl
  · exact ⟨fun _ => rfl, rfl, rfl⟩

end State

/-! ## Runs -/

/-- A chain of steps, between which the rules stay as they are. -/
inductive RuleRun : State → List LogicalLine → List (Problem × Nat) → State → Prop
  | nil (s : State) : RuleRun s [] [] s
  | idle {s s₁ s' : State} {ls : List LogicalLine} {ps : List (Problem × Nat)}
    (ha : s.Alike s₁) (h : RuleRun s₁ ls ps s') : RuleRun s ls ps s'
  | cons {s s₁ s' : State} {l : LogicalLine} {ls : List LogicalLine} {ps qs : List (Problem × Nat)}
    (hl : RuleStep s l ps s₁) (h : RuleRun s₁ ls qs s') : RuleRun s (l :: ls) (ps ++ qs) s'

theorem RuleRun.trans {s s₁ s' : State} {ls ls' : List LogicalLine} {ps ps' : List (Problem × Nat)}
    (h : RuleRun s ls ps s₁) (h' : RuleRun s₁ ls' ps' s') :
    RuleRun s (ls ++ ls') (ps ++ ps') s' := by
  induction h with
  | nil => exact h'
  | idle ha _ ih => exact .idle ha (ih h')
  | cons hl _ ih =>
    rw [List.cons_append, List.append_assoc]
    exact .cons hl (ih h')

section

variable {supported : Float} {s s' : State}

/-- A line does to the rules what its statement does, or nothing. -/
theorem step_ruleRun {number : Nat} {line : Text} {rest : List Text}
    (hn : (s.step supported number line rest).next = some s') :
    RuleRun s (dispatched (s.step supported number line rest).events)
      ((s.step supported number line rest).events.filterMap Event.stray?) s' := by
  have hk := s.step_stepped supported number line rest
  generalize s.step supported number line rest = outcome at hk hn ⊢
  cases hk with
  | blank =>
    cases hn
    exact .nil s
  | code o =>
    cases hn
    exact .idle (State.readCode_alike o line) (.nil _)
  | aside inComment problems _ _ hp =>
    cases hn
    have he : (problems.map (Event.problem · number)).filterMap Event.stray? = [] := by
      apply Event.stray?_problems
      intro p hm
      rcases hp p hm with rfl | ⟨rfl, -⟩ <;> rfl
    have hs : (s.seen line :: problems.map (Event.problem · number)).filterMap Event.stray? = [] := he
    rw [State.go_events, hs, State.dispatched_seen, dispatched_problems]
    have ha : s.Alike { s with inComment } := ⟨fun _ => rfl, rfl, rfl⟩
    exact .idle ha (.nil _)
  | statement st _ ho _ =>
    generalize s.logicalLine number st rest = l at hn ⊢
    have hd := State.dispatched_obey supported l ho
    show RuleRun s (dispatched (s.seen line :: .statement l :: (s.obey supported l).events))
      ((s.obey supported l).events.filterMap Event.stray?) s'
    rw [State.dispatched_seen, dispatched_statement, hd]
    by_cases hc : l.command?.isSome
    · have h := RuleRun.cons (State.obey_ruleStep ho hc hn) (.nil s')
      rw [if_pos hc]
      rwa [List.append_nil] at h
    · have hx : s.obey supported l = s.warn (.unknownCommand l.mark) l.number := by
        simp only [State.obey, Option.not_isSome_iff_eq_none.1 hc]
      rw [if_neg hc, hx]
      rw [hx] at hn
      cases hn
      exact .nil _

/-- What a part of a script does to the rules is a run over its statements. -/
theorem scanBefore_ruleRun {number : Nat} {later lines : List Text}
    (hn : (scanBefore supported s number later lines).next = some s') :
    RuleRun s (dispatched (scanBefore supported s number later lines).events)
      ((scanBefore supported s number later lines).events.filterMap Event.stray?) s' := by
  induction lines generalizing s number with
  | nil =>
    cases hn
    exact .nil _
  | cons line rest ih =>
    obtain ⟨next, hnext, hrest, he⟩ := Outcome.next_andThen hn
    rw [scanBefore, he, dispatched_append, List.filterMap_append]
    exact (step_ruleRun hnext).trans (ih hrest)

end

/-! ## Rules and strays of a run -/

/-- The rules of a topic once the open rule has what the lines add to it. -/
def State.rulesWith (s : State) (ls : List LogicalLine) (topic : Text) : List Rule :=
  match s.openRule with
  | some place =>
    if place.topic = topic then (s.document.rulesOf topic).modify place.index (·.extendAll ls)
    else s.document.rulesOf topic
  | none => s.document.rulesOf topic

theorem State.rulesWith_nil (s : State) (topic : Text) :
    s.rulesWith [] topic = s.document.rulesOf topic := by
  have hid : (fun r : Rule => r.extendAll []) = id := rfl
  unfold rulesWith
  split
  · rw [hid, List.modify_id, ite_self]
  · rfl

theorem State.rulesWith_of_none {s : State} (h : s.openRule = none) (ls : List LogicalLine)
    (topic : Text) : s.rulesWith ls topic = s.document.rulesOf topic := by
  rw [rulesWith, h]

theorem State.rulesWith_of_not {l : LogicalLine} (h : l.extendsRule = false) (s : State)
    (ls : List LogicalLine) (topic : Text) : s.rulesWith (l :: ls) topic = s.rulesWith ls topic := by
  have hl : ∀ r : Rule, r.extendAll (l :: ls) = r.extendAll ls := by
    intro r
    rw [Rule.extendAll, List.foldl_cons, Rule.extendBy_of_not h]
    rfl
  simp only [rulesWith, hl]

/-- The open rule takes in the next statement of its scope. -/
theorem State.rulesWith_modifyRule {s : State} {place : RulePlace} (h : s.openRule = some place)
    (l : LogicalLine) (ls : List LogicalLine) (topic : Text) :
    State.rulesWith { s with document := s.document.modifyRule place (·.extendBy l) } ls topic =
      s.rulesWith (l :: ls) topic := by
  have hl : (fun r : Rule => r.extendAll ls) ∘ (fun r : Rule => r.extendBy l) =
      fun r : Rule => r.extendAll (l :: ls) := rfl
  simp only [rulesWith, h, Document.rulesOf_modifyRule]
  split
  · rw [List.modify_modify_eq, hl]
  · rfl

/-- A pattern adds the rule of its scope to the active topic. -/
theorem State.rulesWith_addRule {s s' : State} {l : LogicalLine} (h : (s.addRule l).next = some s')
    (ls : List LogicalLine) (topic : Text) :
    s'.rulesWith (scope ls) topic =
      s.document.rulesOf topic ++ if s.topic = topic then [ruleOf l ls] else [] := by
  cases h
  simp only [rulesWith, Document.rulesOf_addRule, ruleCount, Document.length_rulesOf]
  split
  · next ht =>
    subst ht
    have hm := List.modifyTailIdx_add (List.modifyHead (Rule.extendAll · (scope ls))) 0
      (s.document.rulesOf s.topic) [{ pattern := l.text, previous := l.previous }]
    rw [Nat.add_zero] at hm
    rw [ruleOf_eq]
    exact hm
  · rw [List.append_nil]

theorem State.Alike.rulesWith {s s' : State} (h : s.Alike s') (ls : List LogicalLine) (topic : Text) :
    s'.rulesWith ls topic = s.rulesWith ls topic := by
  simp only [State.rulesWith, h.rules, h.openRule]

/-- The rules that a run leads to are the open one with the rest of its scope, and those of the
scopes that begin in the run. -/
theorem RuleRun.rules {s s' : State} {ls : List LogicalLine} {ps : List (Problem × Nat)}
    (h : RuleRun s ls ps s') (topic : Text) :
    s'.document.rulesOf topic =
      s.rulesWith (scope ls) topic ++
        ((rulesFrom s.topic ls).filter (·.1 = topic)).map (·.2) := by
  induction h with
  | nil s => simp [scope, rulesFrom, State.rulesWith_nil]
  | idle ha _ ih => rw [ih, ha.rulesWith, ha.topic]
  | @cons s s₁ s' l ls ps qs hl _ ih =>
    rw [ih]
    cases hl with
    | passed _ hs hx ha =>
      rw [scope_of_not_ends hs, State.rulesWith_of_not hx, rulesFrom_of_not_ends hs, ha.rulesWith,
        ha.topic]
    | stray p hp ho =>
      have hx : l.extendsRule = true := by rw [← l.complaint?_isSome, hp]; rfl
      have hs := LogicalLine.endsScope_of_extendsRule hx
      rw [State.rulesWith_of_none ho, State.rulesWith_of_none ho, rulesFrom_of_not_ends hs]
    | extended place hx ho =>
      have hs := LogicalLine.endsScope_of_extendsRule hx
      rw [State.rulesWith_modifyRule ho, scope_of_not_ends hs, rulesFrom_of_not_ends hs]
    | began _ hs hn =>
      have ht : s₁.topic = s.topic := by cases hn; rfl
      rw [State.rulesWith_addRule hn, scope_of_ends (LogicalLine.endsScope_of_startsRule hs),
        State.rulesWith_nil, rulesFrom_of_starts hs, ht, List.append_assoc]
      by_cases h : s.topic = topic <;> simp [h]
    | ended _ hs hn hr ht ho =>
      rw [State.rulesWith_of_none ho, hr, scope_of_ends hs, State.rulesWith_nil,
        rulesFrom_of_not_starts hn, ht]

/-- The complaint about a stray, with the number of its line. -/
def strayAt? (l : LogicalLine) : Option (Problem × Nat) := l.complaint?.map (·, l.number)

/-- A rule is open just where a scope reaches, and elsewhere its lines are told as strays. -/
theorem RuleRun.strays {s s' : State} {ls : List LogicalLine} {ps : List (Problem × Nat)}
    (h : RuleRun s ls ps s') (before : List LogicalLine)
    (hb : s.openRule.isSome = true ↔ Covered before) :
    ps = (strays before ls).filterMap strayAt? ∧
      (s'.openRule.isSome = true ↔ Covered (before ++ ls)) := by
  induction h generalizing before with
  | nil s =>
    rw [List.append_nil]
    exact ⟨rfl, hb⟩
  | idle ha _ ih => exact ih before (by rw [ha.openRule, hb])
  | @cons s s₁ s' l ls ps qs hl _ ih =>
    rw [List.append_cons]
    -- in each case: is a rule open behind `l`, and is `l` itself a stray?
    cases hl with
    | passed _ hs hx ha =>
      obtain ⟨rfl, ho⟩ := ih (before ++ [l]) (by rw [ha.openRule, hb, covered_append_of_not_ends hs])
      refine ⟨?_, ho⟩
      rw [strays_of_not_extends ls hx]
      rfl
    | stray p hp ho =>
      have hx : l.extendsRule = true := by
        rw [← l.complaint?_isSome, hp]
        rfl
      have hn : ¬Covered before := by
        rw [← hb, ho]
        simp
      have hs := LogicalLine.endsScope_of_extendsRule hx
      obtain ⟨rfl, ho⟩ := ih (before ++ [l]) (by rw [hb, covered_append_of_not_ends hs])
      refine ⟨?_, ho⟩
      rw [strays_of_stray ls hx hn, List.filterMap_cons_some (b := (p, l.number))]
      · rfl
      · rw [strayAt?, hp]
        rfl
    | extended place hx ho =>
      have hc : Covered before := by
        rw [← hb, ho]
        rfl
      have hs := LogicalLine.endsScope_of_extendsRule hx
      obtain ⟨rfl, ho⟩ := ih (before ++ [l]) (by rw [hb, covered_append_of_not_ends hs])
      refine ⟨?_, ho⟩
      rw [strays_of_covered ls hc]
      rfl
    | began _ hs hn =>
      have hends := LogicalLine.endsScope_of_startsRule hs
      have hopen : s₁.openRule.isSome = true := by
        cases hn
        rfl
      obtain ⟨rfl, ho⟩ := ih (before ++ [l]) (by rw [hopen, covered_append_of_ends hends, hs])
      refine ⟨?_, ho⟩
      rw [strays_of_not_extends ls (LogicalLine.not_extendsRule hends)]
      rfl
    | ended _ hs hn hr ht ho =>
      obtain ⟨rfl, ho⟩ := ih (before ++ [l]) (by simp [covered_append_of_ends hs, hn, ho])
      refine ⟨?_, ho⟩
      rw [strays_of_not_extends ls (LogicalLine.not_extendsRule hs)]
      rfl

end Reader

end DialogueScript
