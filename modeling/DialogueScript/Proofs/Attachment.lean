import DialogueScript.Proofs.Diagnostics
import DialogueScript.Proofs.Rules

/-!
# Attachment

Responses, conditions and redirects belong to the rule whose scope they stand in. The run of a script
tells the rules of each topic and the strays (`read_ruleRun`); here they are put together to all
rules of the document (`Document.rules_perm`) and to the warnings of the report (`warnings_strays`).
-/

namespace DialogueScript

/-! ## All rules -/

/-- Parted by topic, the rules stay the same up to their order. -/
theorem perm_byTopic {topics : Names} (h : topics.Nodup) {rules : List (Text × Rule)}
    (hm : ∀ r ∈ rules, r.1 ∈ topics) :
    (topics.flatMap fun topic => (rules.filter (·.1 = topic)).map (·.2)).Perm
      (rules.map (·.2)) := by
  induction topics generalizing rules with
  | nil =>
    have hn : rules = [] := List.eq_nil_iff_forall_not_mem.2 fun r hr => by simpa using hm r hr
    simp [hn]
  | cons t topics ih =>
    obtain ⟨ht, hnd⟩ := List.nodup_cons.1 h
    generalize ho : rules.filter (fun r => !decide (r.1 = t)) = others
    have hrest : ∀ r ∈ others, r.1 ∈ topics := by
      intro r hr
      rw [← ho] at hr
      obtain ⟨hr, hne⟩ := List.mem_filter.1 hr
      rcases List.mem_cons.1 (hm r hr) with he | he
      · simp [he] at hne
      · exact he
    have hsame : ∀ topic ∈ topics, (rules.filter (·.1 = topic)).map (·.2) =
        (others.filter (·.1 = topic)).map (·.2) := by
      intro topic htopic
      rw [← ho, List.filter_filter]
      refine congrArg _ (List.filter_congr ?_)
      intro r _
      by_cases he : r.1 = topic
      · have hne : topic ≠ t := by
          rintro rfl
          exact ht htopic
        simp [he, hne]
      · simp [he]
    have hparts := (List.filter_append_perm (fun r : Text × Rule => decide (r.1 = t)) rules).map (·.2)
    rw [List.map_append, ho] at hparts
    rw [List.flatMap_cons, List.flatMap_congr hsame]
    exact .trans (.append_left _ (ih hnd hrest)) hparts

/-- The rules of a document, topic by topic. -/
def Document.rules (d : Document) : List Rule := d.topics.flatMap (·.2.rules)

/-- All rules of a document are those of its topics, topic by topic. -/
theorem Document.rules_perm {d : Document} (hd : d.topics.names.Nodup) {rules : List (Text × Rule)}
    (h : ∀ topic, d.rulesOf topic = (rules.filter (·.1 = topic)).map (·.2)) :
    d.rules.Perm (rules.map (·.2)) := by
  have hm : ∀ r ∈ rules, r.1 ∈ d.topics.names := by
    intro r hr
    rw [← Table.isSome_get?_iff]
    have hmem : r.2 ∈ d.rulesOf r.1 := by
      rw [h r.1]
      exact List.mem_map_of_mem (List.mem_filter.2 ⟨hr, by simp⟩)
    unfold rulesOf at hmem
    cases hg : d.topics.get? r.1 with
    | none => simp [hg] at hmem
    | some topic => rfl
  have hr : d.rules = d.topics.names.flatMap d.rulesOf := by
    rw [Document.rules, Table.names, List.flatMap_map]
    apply List.flatMap_congr
    intro p hp
    rw [rulesOf, Table.get?_of_mem hd hp]
    rfl
  rw [hr, List.flatMap_congr fun topic _ => h topic]
  exact perm_byTopic hd hm

/-! ## Strays in a report -/

def Warning.isStray (w : Warning) : Bool :=
  w.message = Problem.strayResponse.message ∨ w.message = Problem.strayCondition.message ∨
    w.message = Problem.strayRedirect.message

theorem Warning.not_stray {w : Warning} {c : Char} (h : w.message.head? = some c) (hr : c ≠ 'R')
    (hc : c ≠ 'C') : w.isStray = false := by
  have hne : ∀ p : Problem, c ≠ p.initial → w.message ≠ p.message := by
    intro p hp he
    rw [he, p.head?_message] at h
    exact hp (Option.some.inj h).symm
  simp [isStray, hne .strayResponse hr, hne .strayCondition hc, hne .strayRedirect hr]

theorem Event.warnings_stray (utf8 : Bool) (source : Text) (e : Event) :
    (e.warnings utf8 source).filter (·.isStray) =
      (e.stray?.map fun q => ⟨q.1.message, source, q.2⟩).toList := by
  cases e with
  | statement l =>
    simp only [warnings, stray?]
    cases fault? utf8 source l with
    | none => rfl
    | some e =>
      have he : Warning.isStray ⟨e.message .author, source, l.number⟩ = false :=
        Warning.not_stray rfl (c := 'S') (by decide) (by decide)
      simp [he]
  | problem p number =>
    have other (hr : p.initial ≠ 'R') (hc : p.initial ≠ 'C') :
        Warning.isStray ⟨p.message, source, number⟩ = false :=
      Warning.not_stray p.head?_message hr hc
    cases p with
    | strayResponse => simp [warnings, stray?, Warning.isStray]
    | strayCondition => simp [warnings, stray?, Warning.isStray]
    | strayRedirect => simp [warnings, stray?, Warning.isStray]
    | _ =>
      have hw := other (by simp [Problem.initial]) (by simp [Problem.initial])
      simp [warnings, stray?, hw]
  | line => rfl
  | note => rfl

/-- The warning about a stray. -/
def LogicalLine.strayWarning? (source : Text) (l : LogicalLine) : Option Warning :=
  l.complaint?.map fun p => ⟨p.message, source, l.number⟩

theorem LogicalLine.complaint?_message {c : Command} {p : Problem}
    (h : (c, p) ∈ [(.response, .strayResponse), (.condition, .strayCondition)])
    (l : LogicalLine) :
    (∃ q, l.complaint? = some q ∧ q.message = p.message) ↔ l.command? = some c := by
  have hrc : Problem.strayResponse.message ≠ Problem.strayCondition.message := by decide
  have hrr : Problem.strayRedirect.message ≠ Problem.strayResponse.message := by decide
  have hrd : Problem.strayRedirect.message ≠ Problem.strayCondition.message := by decide
  have h : c = .response ∧ p = .strayResponse ∨ c = .condition ∧ p = .strayCondition := by
    simpa using h
  unfold complaint?
  rcases h with ⟨rfl, rfl⟩ | ⟨rfl, rfl⟩ <;> split <;> simp_all [hrc.symm]

/-- A command's strays are warned of one by one, with the message for it. -/
theorem length_strayWarnings {c : Command} {p : Problem}
    (h : ∀ l : LogicalLine,
      (∃ q, l.complaint? = some q ∧ q.message = p.message) ↔ l.command? = some c)
    (source : Text) (ls : List LogicalLine) :
    ((ls.filterMap (·.strayWarning? source)).filter (·.message = p.message)).length =
      (textsOf c ls).length := by
  induction ls with
  | nil => rfl
  | cons l ls ih =>
    rw [textsOf_cons]
    by_cases hc : l.command? = some c
    · obtain ⟨q, hq, hm⟩ := (h l).2 hc
      simp [LogicalLine.strayWarning?, hq, hm, hc, ← ih]
    · have hn : ∀ q, l.complaint? = some q → q.message ≠ p.message :=
        fun q hq hm => hc ((h l).1 ⟨q, hq, hm⟩)
      rw [if_neg hc, ← ih]
      cases hq : l.complaint? with
      | none => simp [LogicalLine.strayWarning?, hq]
      | some q => simp [LogicalLine.strayWarning?, hq, hn q hq]

/-! ## Attachment -/

namespace Reader

/-- The line of `l` is told as a stray and leaves the state as it is. -/
def PassedOver (supported : Float) (lines : List Text) (l : LogicalLine) : Prop :=
  ∃ front line back s p, lines = front ++ line :: back ∧ l.number = front.length + 1 ∧
    (scanBefore supported {} 0 (line :: back) front).next = some s ∧ l.complaint? = some p ∧
    s.step supported l.number line back = s.go [s.seen line, .statement l, .problem p l.number]

/-- Without an open rule nothing is extended, and the statement is warned of. -/
theorem State.obey_stray {s : State} {l : LogicalLine} {p : Problem} (hp : l.complaint? = some p)
    (ho : s.openRule = none) (supported : Float) : s.obey supported l = s.warn p l.number := by
  unfold LogicalLine.complaint? at hp
  unfold obey extendRule
  rw [ho]
  split at hp <;> cases hp <;> simp_all

section

variable {supported : Float} {lines : List Text} {d : Document}

theorem read_ruleRun (h : (read supported lines).document = some d) :
    ∃ s, s.document = d ∧ s.Sound ∧
      RuleRun {} (dispatched (read supported lines).events)
        ((read supported lines).events.filterMap Event.stray?) s := by
  obtain ⟨s, hs, hd⟩ := next_of_document h
  have hclose : (closing s lines.length).filterMap Event.stray? = [] := by
    unfold closing
    split <;> rfl
  rw [dispatched_read h, read_of_some hs, List.filterMap_append, hclose, List.append_nil]
  rw [scan_eq] at hs ⊢
  exact ⟨s, hd, State.sound_initial.scanBefore hs, scanBefore_ruleRun hs⟩

/-- A stray is passed over: it leaves the state as it is and is warned of. -/
theorem passedOver {before after : List LogicalLine} {l : LogicalLine}
    (h : (read supported lines).document = some d)
    (hl : dispatched (read supported lines).events = before ++ l :: after)
    (hx : l.extendsRule = true) (hb : ¬Covered before) : PassedOver supported lines l := by
  rw [dispatched_read h] at hl
  obtain ⟨front, line, back, s, st, rfl, hs, rfl, ht, ho, hk, he⟩ := scanBefore_cut hl
  simp only [List.append_nil, Nat.zero_add] at hs hb he
  obtain ⟨-, hopen⟩ := (scanBefore_ruleRun hs).strays []
    (iff_of_false (by simp) not_covered_nil)
  have hr : s.openRule = none := Option.not_isSome_iff_eq_none.1 fun hs => hb (hopen.1 hs)
  obtain ⟨p, hp⟩ : ∃ p, l.complaint? = some p :=
    Option.isSome_iff_exists.1 (l.complaint?_isSome.trans hx)
  have hn : l.number = front.length + 1 := by rw [he]; rfl
  refine ⟨front, line, back, s, p, rfl, hn, hs, hp, ?_⟩
  rw [State.step_statement ht ho hk, hn, ← he, State.obey_stray hp hr, hn]
  rfl

end

end Reader

theorem Warning.filter_message {ws : List Warning} {p : Problem}
    (hp : p = .strayResponse ∨ p = .strayCondition) :
    ws.filter (·.message = p.message) = (ws.filter (·.isStray)).filter (·.message = p.message) := by
  rw [List.filter_filter]
  apply List.filter_congr
  intro w _
  by_cases hm : w.message = p.message
  · have hs : w.isStray = true := by
      rcases hp with rfl | rfl <;> simp [isStray, hm]
    simp [hm, hs]
  · simp [hm]

/-- The report warns of the strays of a script, in order. -/
theorem warnings_strays {settings : Settings} {lines : List Text} {d : Document}
    (h : (Reader.read settings.supported lines).document = some d) (audience : Audience) :
    (parse settings audience lines).warnings.filter (·.isStray) =
      (strays [] (dispatched (Reader.read settings.supported lines).events)).filterMap
        (·.strayWarning? audience.source) := by
  obtain ⟨s, -, -, hrun⟩ := Reader.read_ruleRun h
  obtain ⟨hs, -⟩ := hrun.strays [] (iff_of_false (by simp) not_covered_nil)
  rw [parse_warnings, filter_warnings (Event.warnings_stray _ _), hs, List.map_filterMap]
  congr 1
  funext l
  rw [Reader.strayAt?, LogicalLine.strayWarning?, Option.map_map]
  rfl

/-- A text of either command is in a rule of the document or in a warning. -/
theorem length_textsOf_document {c : Command} {p : Problem} {f : Rule → List Text}
    (hcp : (c, p) ∈ [(.response, .strayResponse), (.condition, .strayCondition)])
    (hf : ∀ l after, f (ruleOf l after) = textsOf c (scope after)) {topic source : Text}
    {ls : List LogicalLine} {rules : List Rule} {warnings : List Warning}
    (hr : rules.Perm ((rulesFrom topic ls).map (·.2)))
    (hw : warnings.filter (·.isStray) = (strays [] ls).filterMap (·.strayWarning? source)) :
    (textsOf c ls).length =
      (rules.flatMap f).length + (warnings.filter (·.message = p.message)).length := by
  have hc : ∀ l : LogicalLine, l.command? = some c → l.extendsRule = true := by
    intro l hl
    obtain ⟨q, hq, -⟩ := (LogicalLine.complaint?_message hcp l).2 hl
    rw [← l.complaint?_isSome, hq]
    rfl
  have hp : p = .strayResponse ∨ p = .strayCondition := by
    have : c = .response ∧ p = .strayResponse ∨ c = .condition ∧ p = .strayCondition := by
      simpa using hcp
    exact this.imp And.right And.right
  have hrules : (rules.flatMap f).length = ((rulesFrom topic ls).flatMap fun r => f r.2).length := by
    rw [(hr.flatMap_right f).length_eq, List.flatMap_map]
  have hstrays : (warnings.filter (·.message = p.message)).length =
      (textsOf c (strays [] ls)).length := by
    rw [Warning.filter_message hp, hw, length_strayWarnings (LogicalLine.complaint?_message hcp)]
  have htotal := length_textsOf hc hf topic [] ls
  rw [if_neg not_covered_nil, Nat.zero_add] at htotal
  rw [htotal, hrules, hstrays]

/-- The rules of a document come from the scopes of its script. Each pattern gives one rule, with the
replies, the conditions and the last redirect of its scope, and the rules of a topic are those of
the patterns at which it is active, in order. A response, condition or redirect in no scope changes
nothing and is told once as a stray; all other responses and conditions are in the document. -/
theorem parse_attachment (settings : Settings) (audience : Audience) (lines : List Text)
    {d : Document} (h : (parse settings audience lines).document = some d) :
    let ls := dispatched (Reader.read settings.supported lines).events
    let warnings := (parse settings audience lines).warnings
    d.topics.names.Nodup ∧
      (∀ topic, d.rulesOf topic = ((rulesFrom defaultTopic ls).filter (·.1 = topic)).map (·.2)) ∧
      d.rules.Perm ((rulesFrom defaultTopic ls).map (·.2)) ∧
      (∀ before l after, ls = before ++ l :: after → l.extendsRule = true → ¬Covered before →
        Reader.PassedOver settings.supported lines l) ∧
      warnings.filter (·.isStray) =
        (strays [] ls).filterMap (·.strayWarning? audience.source) ∧
      (textsOf .response ls).length =
        (d.rules.flatMap (·.replies)).length +
          (warnings.filter (·.message = Problem.strayResponse.message)).length ∧
      (textsOf .condition ls).length =
        (d.rules.flatMap (·.conditions)).length +
          (warnings.filter (·.message = Problem.strayCondition.message)).length := by
  intro ls warnings
  rw [parse_document] at h
  obtain ⟨s, rfl, hsound, hrun⟩ := Reader.read_ruleRun h
  have hrules : ∀ topic, s.document.rulesOf topic =
      ((rulesFrom defaultTopic ls).filter (·.1 = topic)).map (·.2) := by
    intro topic
    exact hrun.rules topic
  have hperm := Document.rules_perm hsound.distinct.topics hrules
  have hstrays := warnings_strays h audience
  have hreplies := length_textsOf_document (c := .response) (p := .strayResponse)
    (f := Rule.replies) (by simp) (fun _ _ => rfl) hperm hstrays
  have hconditions := length_textsOf_document (c := .condition) (p := .strayCondition)
    (f := Rule.conditions) (by simp) (fun _ _ => rfl) hperm hstrays
  refine ⟨hsound.distinct.topics, hrules, hperm, ?_, hstrays, hreplies, hconditions⟩
  intro before l after hl hx hb
  exact Reader.passedOver h hl hx hb

/-- Strays above the first pattern and behind a label, and a redirect that replaces another one. -/
theorem parse_attachment_strays :
    let lines : List Text := [['-', 'a'], ['+', 'b'], ['-', 'c'],
      ['>', ' ', 't', 'o', 'p', 'i', 'c', ' ', 't'], ['*', 'd'], ['+', 'e'], ['@', 'f'], ['@', 'g']]
    ∃ d, (parse {} ⟨[], false⟩ lines).document = some d ∧
      d.rulesOf defaultTopic = [{ pattern := ['b'], replies := [['c']] }] ∧
      d.rulesOf ['t'] = [{ pattern := ['e'], redirect := some ['g'] }] ∧
      (parse {} ⟨[], false⟩ lines).warnings.filter (·.isStray) =
        [⟨Problem.strayResponse.message, [], 1⟩, ⟨Problem.strayCondition.message, [], 5⟩] ∧
      Reader.PassedOver ({} : Settings).supported lines ⟨'-', ['a'], none, 1⟩ := by
  intro lines
  obtain ⟨d, hd⟩ : ∃ d, (parse {} ⟨[], false⟩ lines).document = some d := ⟨_, rfl⟩
  obtain ⟨-, hrules, -, hpassed, hstrays, -, -⟩ := parse_attachment {} ⟨[], false⟩ lines hd
  have hls : dispatched (Reader.read ({} : Settings).supported lines).events =
      [⟨'-', ['a'], none, 1⟩, ⟨'+', ['b'], none, 2⟩, ⟨'-', ['c'], none, 3⟩,
        ⟨'>', ['t', 'o', 'p', 'i', 'c', ' ', 't'], none, 4⟩, ⟨'*', ['d'], none, 5⟩,
        ⟨'+', ['e'], none, 6⟩, ⟨'@', ['f'], none, 7⟩, ⟨'@', ['g'], none, 8⟩] := rfl
  rw [hls] at hrules hpassed hstrays
  refine ⟨d, hd, ?_, ?_, ?_, ?_⟩
  · rw [hrules]
    decide
  · rw [hrules]
    decide
  · rw [hstrays]
    decide
  · exact hpassed [] _ _ rfl rfl not_covered_nil

end DialogueScript
