import DialogueScript.Proofs.Conforming

/-!
# The contexts of rules

A `%` line is read twice. A rule above it takes its payload as the context of the rule, and when the
line itself is reached, the grammar is asked about the statement on it: about its payload without a
comment, with its continuations, and not at all if a block comment ends on the line. On a line where
none of this makes a difference (`Plain`) the stored context is the checked one, so a clean reading
stores it without a violation (`parse_contexts`); on others it may store what the grammar rejects
(`parse_contexts_unchecked`).
-/

namespace DialogueScript

/-! ## On the way to a context -/

/-- A continuation, or no statement: what lies between a rule and its context. -/
def ReadsOver (line : Text) : Prop :=
  ∀ st, Statement.ofLine? line = some st → st.command? = some .continuation

namespace Role

variable {command : Option Command} {line p : Text}

theorem ofLine_context (h : ofLine command line = .context p) :
    Statement.ofLine? line = some ⟨Command.previous.mark, p⟩ := by
  unfold ofLine at h
  split at h
  · cases h
  · next st hs =>
    split at h <;> cases h
    next hc => rw [hs, ← Command.ofMark?_eq_some_iff.1 hc]

theorem readsOver_of_skip (h : ofLine (some .trigger) line = .skip) : ReadsOver line := by
  unfold ofLine at h
  split at h
  · next hs =>
    intro st hst
    rw [hs] at hst
    cases hst
  · split at h <;> cases h

theorem readsOver_of_extend (h : ofLine command line = .extend p) : ReadsOver line := by
  unfold ofLine at h
  split at h
  · cases h
  · next st hs =>
    split at h <;> cases h
    next hc =>
      intro st' hst
      rw [hs] at hst
      cases hst
      exact hc

end Role

/-- The context of a rule stands on a `%` line; only continuations and what is no statement lie
between. -/
theorem gather_previous {glue p : Text} {rest : List Text}
    (h : (gather (some .trigger) glue rest).previous = some p) :
    ∃ mid line back, rest = mid ++ line :: back ∧
      Statement.ofLine? line = some ⟨Command.previous.mark, p⟩ ∧ ∀ x ∈ mid, ReadsOver x := by
  induction rest with
  | nil => cases h
  | cons x rest ih =>
    have further (hx : ReadsOver x) (h : (gather (some .trigger) glue rest).previous = some p) :
        ∃ mid line back, x :: rest = mid ++ line :: back ∧
          Statement.ofLine? line = some ⟨Command.previous.mark, p⟩ ∧ ∀ y ∈ mid, ReadsOver y := by
      obtain ⟨mid, line, back, rfl, hl, hmid⟩ := ih h
      exact ⟨x :: mid, line, back, rfl, hl, List.forall_mem_cons.2 ⟨hx, hmid⟩⟩
    rw [gather] at h
    cases hr : Role.ofLine (some .trigger) x with
    | skip =>
      rw [hr] at h
      exact further (Role.readsOver_of_skip hr) h
    | extend payload =>
      rw [hr] at h
      exact further (Role.readsOver_of_extend hr) h
    | context payload =>
      rw [hr] at h
      cases h
      exact ⟨[], x, rest, rfl, Role.ofLine_context hr, by simp⟩
    | stop =>
      rw [hr] at h
      cases h

namespace Reader

/-! ## Lines with a command -/

/-- No comment begins with the mark of a command. -/
theorem LineKind.not_comment_of_command {line : Text} {st : Statement}
    (hs : Statement.ofLine? line = some st) (hc : st.command?.isSome = true) :
    lineComment.isPrefixOf (Text.trim line) = false ∧
      deprecatedMark.isPrefixOf (Text.trim line) = false ∧
      blockStart.isPrefixOf (Text.trim line) = false := by
  obtain ⟨t, ht⟩ := Statement.trim_of_ofLine? hs
  have mark_ne {c : Char} (hn : Command.ofMark? c = none) : c ≠ st.mark := by
    rintro rfl
    rw [Statement.command?, hn] at hc
    cases hc
  have hslash : '/' ≠ st.mark := mark_ne (by decide)
  have hhash : '#' ≠ st.mark := mark_ne (by decide)
  rw [ht]
  refine ⟨?_, ?_, ?_⟩
  · simp [lineComment, List.isPrefixOf, hslash]
  · simp [deprecatedMark, List.isPrefixOf, hhash]
  · simp [blockStart, List.isPrefixOf, hslash]

/-- A line with a command is a statement unless it has to do with a block comment. -/
theorem LineKind.of_command {line : Text} {st : Statement} (hs : Statement.ofLine? line = some st)
    (hc : st.command?.isSome = true) (hend : Text.occursIn blockEnd (Text.trim line) = false) :
    of false (Text.trim line) = .statement st.withoutComment := by
  obtain ⟨hline, hmark, hstart⟩ := not_comment_of_command hs hc
  rw [← Statement.ofLine?_trim] at hs
  exact of_eq_statement_iff.2 ⟨hline, hmark, hstart, hend, rfl, st, hs, rfl⟩

theorem LineKind.of_command_ended {line : Text} {st : Statement}
    (hs : Statement.ofLine? line = some st) (hc : st.command?.isSome = true)
    (hend : Text.occursIn blockEnd (Text.trim line) = true) (inComment : Bool) :
    of inComment (Text.trim line) = .commentEnd := by
  obtain ⟨hline, hmark, hstart⟩ := not_comment_of_command hs hc
  simp [of, hline, hmark, hstart, hend]

theorem LineKind.starts_of_commentStart {inComment : Bool} {line : Text}
    (h : of inComment line = .commentStart) : blockStart <+: line := by
  unfold of at h
  split at h
  · cases h
  split at h
  · cases h
  split at h
  · next hstart => exact List.isPrefixOf_iff_prefix.1 hstart
  split at h
  · cases h
  split at h
  · cases h
  split at h <;> cases h

theorem LineKind.of_readsOver {inComment : Bool} {line : Text} (h : ReadsOver line) :
    of inComment (Text.trim line) ≠ .commentStart := by
  intro hk
  obtain ⟨t, ht⟩ := starts_of_commentStart hk
  have hs : Statement.ofLine? line = some ⟨'/', Text.trim ('*' :: t)⟩ := by
    rw [Statement.ofLine?, ← ht]
    rfl
  cases h _ hs

namespace State

variable {s s' : State} {supported : Float} {number : Nat} {line p : Text} {rest : List Text}

/-- Outside of comments and code objects. -/
structure Outside (s : State) : Prop where
  object : s.openObject = none
  comment : s.inComment = false

/-- Outside of comments and code the state changes at statements and where a block comment starts. -/
theorem next_step_outside (supported : Float) (number : Nat) (rest : List Text) (hout : s.Outside)
    (hk : LineKind.of s.inComment (Text.trim line) ≠ .commentStart) :
    (s.step supported number line rest).next = some s ∨
      ∃ st, LineKind.of s.inComment (Text.trim line) = .statement st ∧
        (s.step supported number line rest).next =
          (s.obey supported (s.logicalLine number st rest)).next := by
  by_cases ht : Text.trim line = []
  · rw [step, if_pos ht]
    exact .inl rfl
  rw [step_outside ht hout.object]
  simp only [readLine]
  cases hkind : LineKind.of s.inComment (Text.trim line) with
  | commentStart => exact absurd hkind hk
  | commentEnd =>
    have hs : { s with inComment := false } = s := by rw [← hout.comment]
    rw [hs]
    exact .inl rfl
  | statement st => exact .inr ⟨st, rfl, rfl⟩
  | _ => exact .inl rfl

/-- A line with a command is read as the statement on it. -/
theorem step_command (supported : Float) (number : Nat) (rest : List Text) (hout : s.Outside)
    {st : Statement} (hs : Statement.ofLine? line = some st) (hc : st.command?.isSome = true)
    (hend : Text.occursIn blockEnd (Text.trim line) = false) :
    let l := s.logicalLine number st.withoutComment rest
    s.step supported number line rest =
      ⟨s.seen line :: .statement l :: (s.obey supported l).events, (s.obey supported l).next⟩ := by
  obtain ⟨t, ht⟩ := Statement.trim_of_ofLine? hs
  have hk := LineKind.of_command hs hc hend
  rw [← hout.comment] at hk
  exact step_statement (by simp [ht]) hout.object hk

/-- With the end of a block comment on it the line is passed over. -/
theorem step_command_ended (supported : Float) (number : Nat) (rest : List Text) (hout : s.Outside)
    {st : Statement} (hs : Statement.ofLine? line = some st) (hc : st.command?.isSome = true)
    (hend : Text.occursIn blockEnd (Text.trim line) = true) :
    s.step supported number line rest = s.go [s.seen line] := by
  obtain ⟨t, ht⟩ := Statement.trim_of_ofLine? hs
  have hk := LineKind.of_command_ended hs hc hend s.inComment
  have hsame : { s with inComment := false } = s := by rw [← hout.comment]
  rw [step_outside (by simp [ht]) hout.object]
  simp only [readLine, hk, hsame]
  rfl

theorem step_readsOver (hout : s.Outside) (h : ReadsOver line) :
    (s.step supported number line rest).next = some s := by
  rcases next_step_outside supported number rest hout (LineKind.of_readsOver h) with
    hn | ⟨st, hk, hn⟩
  · exact hn
  · obtain ⟨st', hs, hc⟩ := LineKind.ofLine?_of_statement hk
    rw [Statement.ofLine?_trim] at hs
    have hcommand : (s.logicalLine number st rest).command? = some .continuation :=
      hc.symm.trans (h st' hs)
    rw [hn]
    simp only [obey, hcommand, go_next]

theorem scanBefore_readsOver {later mid : List Text} (hout : s.Outside)
    (h : ∀ x ∈ mid, ReadsOver x) :
    (Reader.scanBefore supported s number later mid).next = some s := by
  induction mid generalizing number with
  | nil => rfl
  | cons x mid ih =>
    obtain ⟨hx, hmid⟩ := List.forall_mem_cons.1 h
    rw [scanBefore, Outcome.andThen_of_some (step_readsOver hout hx)]
    exact ih hmid

/-- Behind the line of a rule one is outside, as in front of it. -/
theorem step_trigger (supported : Float) {st : Statement} (ht : Text.trim line ≠ []) (ho : s.openObject = none)
    (hk : LineKind.of s.inComment (Text.trim line) = .statement st)
    (hc : (s.logicalLine number st rest).command? = some .trigger) :
    ∃ next, (s.step supported number line rest).next = some next ∧ next.Outside := by
  rw [step_statement ht ho hk]
  simp only [obey, hc]
  exact ⟨_, rfl, ⟨ho, LineKind.inComment_of_statement hk⟩⟩

end State

/-- Where a context stands: the line, the lines around it, and the state in front of it. -/
structure ContextAt (supported : Float) (lines : List Text) (p : Text) (front : List Text)
    (line : Text) (back : List Text) (s : State) : Prop where
  lines_eq : lines = front ++ line :: back
  next_eq : (Reader.scanBefore supported {} 0 (line :: back) front).next = some s
  outside : s.Outside
  statement : Statement.ofLine? line = some ⟨Command.previous.mark, p⟩

open State

variable {supported : Float} {lines : List Text} {d : Document}

theorem contextAt_of_mem_rules {r : Rule} {p : Text} (h : (read supported lines).document = some d)
    (hr : r ∈ d.rules) (hp : r.previous = some p) :
    ∃ front line back s, ContextAt supported lines p front line back s := by
  obtain ⟨before, l, after, hls, hstarts, rfl⟩ := mem_rules h hr
  rw [dispatched_read h] at hls
  obtain ⟨front, x, back, s, st, rfl, hs, -, ht, ho, hk, rfl⟩ := scanBefore_cut hls
  have hc := of_decide_eq_true hstarts
  simp only [List.append_nil, Nat.zero_add] at hs hp hc
  have hst : st.command? = some .trigger := hc
  have hprevious : (gather (some .trigger) (glue (some .trigger) s.options.concat) back).previous =
      some p := by
    simpa [ruleOf, logicalLine, fold, hst] using hp
  obtain ⟨mid, line, back, rfl, hline, hmid⟩ := gather_previous hprevious
  obtain ⟨next, hnext, hout⟩ := step_trigger supported ht ho hk hc
  refine ⟨front ++ x :: mid, line, back, next, by simp, ?_, hout, hline⟩
  rw [scanBefore_append, List.cons_append, Outcome.andThen_of_some hs, scanBefore, Nat.zero_add,
    Outcome.andThen_of_some hnext, scanBefore_readsOver hout hmid]

/-- What is told at a line that is reached is told in the run. -/
theorem mem_scan_of_reached {s s' : State} {number : Nat} {front : List Text} {line : Text}
    {back : List Text} (hs : (scanBefore supported s number (line :: back) front).next = some s')
    {e : Event} (he : e ∈ (s'.step supported (number + front.length + 1) line back).events) :
    e ∈ (scan supported s number (front ++ line :: back)).events := by
  rw [scan_append, Outcome.andThen_of_some hs]
  refine List.mem_append_right _ ?_
  rw [scan_eq, scanBefore, List.append_nil]
  exact Outcome.mem_andThen he _

/-- The statement on the line of a context, as the grammar is asked about it. -/
theorem statement_of_contextAt {p : Text} {front : List Text} {line : Text} {back : List Text}
    {s : State} (h : (read supported lines).document = some d)
    (hat : ContextAt supported lines p front line back s)
    (hend : Text.occursIn blockEnd (Text.trim line) = false) :
    .statement (s.logicalLine (front.length + 1)
      (Statement.withoutComment ⟨Command.previous.mark, p⟩) back) ∈ (read supported lines).events := by
  obtain ⟨rfl, hs, hout, hline⟩ := hat
  obtain ⟨s', hs', -⟩ := next_of_document h
  rw [read_of_some hs']
  refine List.mem_append_left _ (mem_scan_of_reached hs ?_)
  rw [step_command _ _ _ hout hline (by rfl) hend, Nat.zero_add]
  exact List.mem_cons_of_mem _ List.mem_cons_self

end Reader

/-! ## Stored and checked contexts -/

/-- Nothing on the line or below it parts the context that is stored from the one that is checked:
no block comment ends on the line, no comment follows the context, nothing continues it. -/
structure Plain (line : Text) (p : Text) (back : List Text) : Prop where
  unended : Text.occursIn Reader.blockEnd (Text.trim line) = false
  uncommented : Text.cut Statement.inlineComment p = none
  uncontinued : ∀ glue, (gather (some .previous) glue back).text = []

theorem Plain.text_eq {line p : Text} {back : List Text} (h : Plain line p back) (s : Reader.State)
    (number : Nat) :
    (s.logicalLine number (Statement.withoutComment ⟨Command.previous.mark, p⟩) back).text = p := by
  have hst : Statement.withoutComment ⟨Command.previous.mark, p⟩ = ⟨Command.previous.mark, p⟩ := by
    simp only [Statement.withoutComment, h.uncommented]
  rw [hst]
  show (fold s.options.concat (some .previous) p back).text = p
  simp [fold, h.uncontinued]

section

variable {settings : Settings} {audience : Audience} {lines : List Text}

/-- Every context that a clean reading stores is the payload of a `%` line, which is met outside of
comments and code. What the grammar finds no violation in is the statement on that line, without its
comment and with its continuations, if no block comment ends there; on a plain line this is the
context itself. -/
theorem parse_contexts {d : Document} (hc : Clean settings audience lines)
    (h : (parse settings audience lines).document = some d) :
    ∀ r ∈ d.rules, ∀ p, r.previous = some p →
      ∃ front line back s, Reader.ContextAt settings.supported lines p front line back s ∧
        (Text.occursIn Reader.blockEnd (Text.trim line) = false →
          Grammar.violation? settings.utf8 (some .previous) (s.logicalLine (front.length + 1)
            (Statement.withoutComment ⟨Command.previous.mark, p⟩) back).text = none) ∧
        (Plain line p back → Grammar.violation? settings.utf8 (some .previous) p = none) := by
  intro r hr p hp
  rw [parse_document] at h
  obtain ⟨front, line, back, s, hat⟩ := Reader.contextAt_of_mem_rules h hr hp
  have checked (hend : Text.occursIn Reader.blockEnd (Text.trim line) = false) :
      Grammar.violation? settings.utf8 (some .previous) (s.logicalLine (front.length + 1)
        (Statement.withoutComment ⟨Command.previous.mark, p⟩) back).text = none := by
    have hv := violation?_of_clean hc (Reader.statement_of_contextAt h hat hend)
    have hcommand : (s.logicalLine (front.length + 1)
        (Statement.withoutComment ⟨Command.previous.mark, p⟩) back).command? = some .previous := by
      rw [LogicalLine.command?, Reader.State.logicalLine, Statement.mark_withoutComment]
      rfl
    rwa [hcommand] at hv
  refine ⟨front, line, back, s, hat, checked, ?_⟩
  intro hplain
  have hv := checked hplain.unended
  rwa [hplain.text_eq] at hv

/-- A plain line, reached over a continuation of the rule. -/
theorem parse_contexts_plain :
    let lines : List Text := [['+', 'a'], ['^', 'x'], ['%', 'b'], ['-', 'c']]
    let rule : Rule := { pattern := ['a', 'x'], replies := [['c']], previous := some ['b'] }
    ∃ d, (parse {} ⟨['s'], true⟩ lines).document = some d ∧ Clean {} ⟨['s'], true⟩ lines ∧
      rule ∈ d.rules ∧ Grammar.violation? false (some .previous) ['b'] = none := by
  intro lines rule
  have hc : Clean {} ⟨['s'], true⟩ lines := ⟨rfl, rfl, by decide⟩
  obtain ⟨d, hd, hr⟩ : ∃ d, (parse {} ⟨['s'], true⟩ lines).document = some d ∧ rule ∈ d.rules :=
    ⟨_, rfl, by decide⟩
  refine ⟨d, hd, hc, hr, ?_⟩
  obtain ⟨front, line, back, s, ⟨hl, -, -, hs⟩, -, hplain⟩ := parse_contexts hc hd rule hr ['b'] rfl
  -- of the four lines only the third one can be the line of the context
  replace hl : [['+', 'a'], ['^', 'x'], ['%', 'b'], ['-', 'c']] = front ++ line :: back := hl
  match front with
  | [] | [_] | [_, _, _] =>
    cases hl
    cases hs
  | [_, _] =>
    cases hl
    exact hplain ⟨by decide, by decide, fun _ => rfl⟩
  | _ :: _ :: _ :: _ :: front => simp at hl

/-- A clean reading stores a context that the grammar rejects. -/
def StoresUnchecked (settings : Settings) (audience : Audience) (lines : List Text) : Prop :=
  Clean settings audience lines ∧ ∃ d, (parse settings audience lines).document = some d ∧
    ∃ r ∈ d.rules, ∃ p, r.previous = some p ∧
      Grammar.violation? settings.utf8 (some .previous) p ≠ none

/-- A comment behind the context, in both grammars; a continuation below it; the end of a block
comment on its line. -/
theorem parse_contexts_unchecked :
    StoresUnchecked {} ⟨['s'], true⟩ ["+ a".toList, "% b // C".toList] ∧
      StoresUnchecked { utf8 := true } ⟨['s'], true⟩ ["+ a".toList, "% b // C".toList] ∧
      StoresUnchecked {} ⟨['s'], true⟩ ["+ a".toList, "% (b".toList, "^ c)".toList] ∧
      StoresUnchecked {} ⟨['s'], true⟩ ["+ a".toList, "% B */".toList] := by
  refine ⟨?_, ?_, ?_, ?_⟩ <;>
    exact ⟨⟨rfl, rfl, by decide⟩, _, rfl, _, List.mem_singleton.2 rfl, _, rfl, by decide⟩

end

end DialogueScript
