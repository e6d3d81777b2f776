import DialogueScript.Proofs.Capture
import DialogueScript.Proofs.Contexts

/-!
# Lines of rules

Patterns, responses and redirects are what a script is for, so none of them may go unheard. A line
with one of them that is met outside of comments and code is dispatched: it adds a rule, or extends
the last rule of the active topic, or is told of as a stray (`ruleLine_heeded`). The exception is a
line that holds the end of a block comment. It is passed over without a word, whether or not a
comment is open (`ruleLine_unnoticed`).
-/

namespace DialogueScript

/-- A line that holds more than a mark when trimmed, the mark being that of a pattern, a response or
a redirect. -/
def isRuleLine (line : Text) : Bool :=
  2 ≤ (Text.trim line).length &&
    [Command.trigger, .response, .redirect].any fun c => (Text.trim line).head? = some c.mark

/-- What a statement of a rule comes to: a rule more in the active topic, something more in the last
rule of the topic, or a complaint about a stray that `told` says is heard. -/
inductive Heeded (told : Problem → Prop) (s : Reader.State) (l : LogicalLine) :
    Reader.State → Prop
  | added (s' : Reader.State) (hs : l.startsRule = true)
    (hr : s'.document.rulesOf s.topic =
      s.document.rulesOf s.topic ++ [{ pattern := l.text, previous := l.previous }]) :
    Heeded told s l s'
  | extended (s' : Reader.State) (rules : List Rule) (r : Rule) (hx : l.extendsRule = true)
    (hr : s.document.rulesOf s.topic = rules ++ [r])
    (hr' : s'.document.rulesOf s.topic = rules ++ [r.extendBy l]) : Heeded told s l s'
  | stray (p : Problem) (hp : l.complaint? = some p) (ht : told p) : Heeded told s l s

/-- The line with the number is dispatched, or a warning is given for it. -/
def Noticed (settings : Settings) (audience : Audience) (lines : List Text) (number : Nat) : Prop :=
  (∃ l ∈ dispatched (Reader.read settings.supported lines).events, l.number = number) ∨
    ∃ w ∈ (parse settings audience lines).warnings, w.number = number

theorem statement_of_isRuleLine {line : Text} (h : isRuleLine line = true) :
    ∃ st, Statement.ofLine? line = some st ∧ (Text.trim line).head? = some st.mark ∧
      (st.command? = some .trigger ∨ st.command? = some .response ∨
        st.command? = some .redirect) := by
  simp only [isRuleLine, Bool.and_eq_true, decide_eq_true_eq] at h
  obtain ⟨hlength, hmark⟩ := h
  cases hs : Statement.ofLine? line with
  | none =>
    have := Statement.ofLine?_eq_none_iff.1 hs
    omega
  | some st =>
    obtain ⟨t, ht⟩ := Statement.trim_of_ofLine? hs
    rw [ht, List.head?_cons] at hmark ⊢
    refine ⟨st, rfl, rfl, ?_⟩
    simp only [Statement.command?, Command.ofMark?_eq_some_iff]
    simpa using hmark

namespace Reader

variable {s : State} {supported : Float} {lines : List Text}

/-- With a rule open the active topic has a last rule, and that is the one that is extended. -/
theorem rulesOf_extendLast (h : s.Attached) {place : RulePlace} (ho : s.openRule = some place)
    (l : LogicalLine) :
    ∃ rules r, s.document.rulesOf s.topic = rules ++ [r] ∧
      (s.extendLast l).document.rulesOf s.topic = rules ++ [r.extendBy l] := by
  obtain ⟨htopic, topic, hget, hlength⟩ := h place ho
  have hrules : s.document.rulesOf s.topic = topic.rules := by
    rw [Document.rulesOf, hget]
    rfl
  obtain ⟨rules, r, hr⟩ : ∃ rules r, topic.rules = rules ++ [r] := by
    rcases List.eq_nil_or_concat topic.rules with hnil | ⟨rules, r, hr⟩
    · rw [hnil] at hlength
      cases hlength
    · exact ⟨rules, r, by rw [hr, List.concat_eq_append]⟩
  refine ⟨rules, r, hrules.trans hr, ?_⟩
  rw [State.extendLast, if_pos (by rw [ho]; rfl), ← h.modifyRule_eq ho]
  simp only
  rw [Document.rulesOf_modifyRule, if_pos htopic, hrules, modify_eq_modifyLast hlength, hr,
    List.modifyLast_concat]

theorem obey_heeded {told : Problem → Prop} (h : s.Attached) {l : LogicalLine}
    (hl : l.startsRule = true ∨ l.extendsRule = true)
    (ht : ∀ p, .problem p l.number ∈ (s.obey supported l).events → told p) :
    ∃ s', (s.obey supported l).next = some s' ∧ Heeded told s l s' := by
  rcases hl with hs | hx
  · have hc : l.command? = some .trigger := of_decide_eq_true hs
    refine ⟨_, by simp only [State.obey, hc]; rfl, .added _ hs ?_⟩
    exact (s.document.rulesOf_addRule s.topic _ s.topic).trans (if_pos rfl)
  cases ho : s.openRule with
  | none =>
    obtain ⟨p, hp⟩ := Option.isSome_iff_exists.1 (l.complaint?_isSome.trans hx)
    rw [State.obey_stray hp ho] at ht ⊢
    exact ⟨s, rfl, .stray p hp (ht p List.mem_cons_self)⟩
  | some place =>
    obtain ⟨rules, r, hr, hr'⟩ := rulesOf_extendLast h ho l
    exact ⟨_, State.obey_extends h hx, .extended _ rules r hx hr hr'⟩

/-- What is told in a run over a script is told in its reading. -/
theorem mem_read_of_scan {e : Event} (h : e ∈ (scan supported {} 0 lines).events) :
    e ∈ (read supported lines).events := by
  cases hn : (scan supported {} 0 lines).next with
  | none => rwa [read_of_none hn]
  | some s =>
    rw [read_of_some hn]
    exact List.mem_append_left _ h

end Reader

section

variable {settings : Settings} {front back : List Text} {line : Text} {s : Reader.State}

/-- A pattern, a response or a redirect that is met outside of comments and code, without the end of
a block comment on its line, is dispatched under the number of the line. It adds a rule to the active
topic or extends the last one, or else a warning is given for the line. With the end of a block
comment on it the line has no part in the script. -/
theorem ruleLine_heeded (audience : Audience)
    (h : (Reader.scanBefore settings.supported {} 0 (line :: back) front).next = some s)
    (hout : s.Outside) (hline : isRuleLine line = true) :
    let lines := front ++ line :: back
    let number := front.length + 1
    (Text.occursIn Reader.blockEnd (Text.trim line) = true →
      s.step settings.supported number line back = s.go [s.seen line]) ∧
    (Text.occursIn Reader.blockEnd (Text.trim line) = false →
      ∃ l s', (Text.trim line).head? = some l.mark ∧ l.number = number ∧
        l ∈ dispatched (Reader.read settings.supported lines).events ∧
        (s.step settings.supported number line back).next = some s' ∧
        Heeded (fun p => ⟨p.message, audience.source, number⟩ ∈
          (parse settings audience lines).warnings) s l s') := by
  intro lines number
  obtain ⟨st, hs, hmark, hcommand⟩ := statement_of_isRuleLine hline
  have hsome : st.command?.isSome = true := by
    rcases hcommand with hc | hc | hc <;> rw [hc] <;> rfl
  refine ⟨Reader.State.step_command_ended _ number back hout hs hsome, fun hend => ?_⟩
  have hstep := Reader.State.step_command settings.supported number back hout hs hsome hend
  have hm : (s.logicalLine number st.withoutComment back).mark = st.mark := st.mark_withoutComment
  have hn : (s.logicalLine number st.withoutComment back).number = number := rfl
  generalize s.logicalLine number st.withoutComment back = l at hstep hm hn
  have hc : l.command? = st.command? := congrArg Command.ofMark? hm
  have told : ∀ e ∈ (s.step settings.supported number line back).events,
      e ∈ (Reader.read settings.supported lines).events := by
    intro e he
    refine Reader.mem_read_of_scan (Reader.mem_scan_of_reached h ?_)
    rwa [Nat.zero_add]
  rw [hstep] at told
  have warned : ∀ p, .problem p l.number ∈ (s.obey settings.supported l).events →
      ⟨p.message, audience.source, number⟩ ∈ (parse settings audience lines).warnings := by
    intro p hp
    rw [parse_warnings, List.mem_flatMap]
    refine ⟨_, told _ (List.mem_cons_of_mem _ (List.mem_cons_of_mem _ hp)), ?_⟩
    rw [hn]
    exact List.mem_cons_self
  have hacts : l.startsRule = true ∨ l.extendsRule = true := by
    rcases hcommand with h | h | h <;> simp [LogicalLine.startsRule, LogicalLine.extendsRule, hc, h]
  have hattached := (Reader.State.sound_initial.scanBefore h).attached
  obtain ⟨s', hnext, hheeded⟩ := Reader.obey_heeded hattached hacts warned
  refine ⟨l, s', hmark.trans (congrArg some hm.symm), hn, ?_, by rw [hstep]; exact hnext, hheeded⟩
  refine List.mem_filterMap.2 ⟨.statement l, told _ (List.mem_cons_of_mem _ List.mem_cons_self), ?_⟩
  simp [Event.dispatched?, hc, hsome]

/-- A response with a comment behind it and a continuation below it, a stray since the topic of the
rule was left before. -/
theorem ruleLine_heeded_stray :
    let front : List Text := ["+ a".toList, "< topic".toList]
    let line : Text := "- b // c".toList
    let back : List Text := ["^ d".toList]
    ∃ s l s', (Reader.scanBefore 2.0 {} 0 (line :: back) front).next = some s ∧ s.Outside ∧
      isRuleLine line = true ∧ Text.occursIn Reader.blockEnd (Text.trim line) = false ∧
      l ∈ dispatched (Reader.read 2.0 (front ++ line :: back)).events ∧ l.number = 3 ∧
      Heeded (fun p => ⟨p.message, ['s'], 3⟩ ∈
        (parse {} ⟨['s'], true⟩ (front ++ line :: back)).warnings) s l s' ∧
      (parse {} ⟨['s'], true⟩ (front ++ line :: back)).warnings =
        [⟨Problem.strayResponse.message, ['s'], 3⟩] := by
  intro front line back
  let settings : Settings := {}
  obtain ⟨s, hs, ho, hc⟩ :
      ∃ s, (Reader.scanBefore settings.supported {} 0 (line :: back) front).next = some s ∧
        s.openObject = none ∧ s.inComment = false := ⟨_, rfl, rfl, rfl⟩
  have hline : isRuleLine line = true := by decide
  have hend : Text.occursIn Reader.blockEnd (Text.trim line) = false := by decide
  obtain ⟨-, hheeded⟩ := ruleLine_heeded ⟨['s'], true⟩ hs ⟨ho, hc⟩ hline
  obtain ⟨l, s', -, hn, hl, -, hheeded⟩ := hheeded hend
  exact ⟨s, l, s', hs, ⟨ho, hc⟩, hline, hend, hl, hn, hheeded, by decide⟩

/-- The line is met outside of comments and code and nothing is heard of it. -/
def Unnoticed (settings : Settings) (audience : Audience) (front : List Text) (line : Text) : Prop :=
  isRuleLine line = true ∧
    (∃ s, (Reader.scanBefore settings.supported {} 0 [line] front).next = some s ∧ s.Outside) ∧
    ¬Noticed settings audience (front ++ [line]) (front.length + 1)

/-- A pattern, a response and a redirect with the end of a block comment in the text. -/
theorem ruleLine_unnoticed :
    Unnoticed {} ⟨['s'], true⟩ [] "+ a */".toList ∧
      Unnoticed {} ⟨['s'], true⟩ ["+ a".toList] "- b */".toList ∧
      Unnoticed {} ⟨['s'], true⟩ ["+ a".toList] "@ b */".toList := by
  have noticed {lines : List Text} {n : Nat}
      (hd : ∀ l ∈ dispatched (Reader.read 2.0 lines).events, l.number ≠ n)
      (hw : ∀ w ∈ (parse {} ⟨['s'], true⟩ lines).warnings, w.number ≠ n) :
      ¬Noticed {} ⟨['s'], true⟩ lines n := by
    rintro (⟨l, hl, hn⟩ | ⟨w, hw', hn⟩)
    · exact hd l hl hn
    · exact hw w hw' hn
  refine ⟨?_, ?_, ?_⟩ <;>
    exact ⟨by decide, ⟨_, rfl, rfl, rfl⟩, noticed (by decide) (by decide)⟩

end

end DialogueScript
