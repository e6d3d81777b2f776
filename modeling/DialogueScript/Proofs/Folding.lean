import DialogueScript.Proofs.Scan

/-!
# What a fold comes to

The lines below a statement that are folded into it are the longest run of lines that it passes over
(`inFold`), and behind them one line more if that is the context of a rule. Each continuation of
the run adds a separator and its payload. `foldAt?_eq` says so for every position in a script, and
that no line in front of the position or behind the end of the fold has a part in it.
-/

namespace DialogueScript

/-! ## Lines below a statement -/

/-- The payload of a line with the mark of the command. -/
def payloadOf? (c : Command) (line : Text) : Option Text :=
  match Statement.ofLine? line with
  | some st => if st.mark = c.mark then some st.payload else none
  | none => none

/-- A statement with the command is read on over the line: over what is no statement, over
continuations, and over contexts unless it is a rule or a definition. -/
def inFold (command : Option Command) (line : Text) : Bool :=
  match Statement.ofLine? line with
  | some st => st.mark = Command.continuation.mark ||
      (st.mark = Command.previous.mark && command ≠ some .trigger && command ≠ some .define)
  | none => true

/-- The context that stands at a position behind a rule. -/
def contextAt? (command : Option Command) (rest : List Text) (k : Nat) : Option Text :=
  if command = some .trigger then rest[k]?.bind (payloadOf? .previous) else none

namespace Statement

/-- The statement acts with the one above it. -/
def continues (st : Statement) : Bool :=
  st.command? = some .continuation || st.command? = some .previous

variable {line : Text} {st : Statement}

theorem not_continues_iff : st.continues = false ↔
    st.command? ≠ some .continuation ∧ st.command? ≠ some .previous := by
  simp [continues]

theorem inFold_of_none (command : Option Command) (h : ofLine? line = none) :
    inFold command line = true := by
  rw [inFold, h]

theorem inFold_iff (command : Option Command) (h : ofLine? line = some st) :
    inFold command line = true ↔ st.mark = Command.continuation.mark ∨
      st.mark = Command.previous.mark ∧ command ≠ some .trigger ∧ command ≠ some .define := by
  rw [inFold, h]
  simp [and_assoc]

theorem payloadOf?_of_ofLine? (c : Command) (h : ofLine? line = some st) :
    payloadOf? c line = if st.mark = c.mark then some st.payload else none := by
  rw [payloadOf?, h]

end Statement

theorem payloadOf?_eq_some_iff {c : Command} {line p : Text} :
    payloadOf? c line = some p ↔ Statement.ofLine? line = some ⟨c.mark, p⟩ := by
  unfold payloadOf?
  split
  · next st hs =>
    rw [hs, Option.ite_none_right_eq_some, Option.some.injEq, Option.some.injEq]
    constructor
    · rintro ⟨hm, rfl⟩
      rw [← hm]
    · rintro rfl
      exact ⟨rfl, rfl⟩
  · next hs => simp [hs]

/-! ## Reading on -/

namespace Role

/-- What a role says about its line. -/
inductive Reads (command : Option Command) (line : Text) : Role → Prop
  | skip (hp : inFold command line = true) (hc : payloadOf? .continuation line = none) :
    Reads command line .skip
  | extend (p : Text) (hp : inFold command line = true)
    (hc : payloadOf? .continuation line = some p) : Reads command line (.extend p)
  | context (p : Text) (hp : inFold command line = false) (ht : command = some .trigger)
    (hc : payloadOf? .previous line = some p) : Reads command line (.context p)
  | stop (hp : inFold command line = false)
    (hc : command = some .trigger → payloadOf? .previous line = none) : Reads command line .stop

/-- The role of a line is told by its mark and the command that is folded. -/
theorem ofLine_reads (command : Option Command) (line : Text) :
    Reads command line (ofLine command line) := by
  cases hs : Statement.ofLine? line with
  | none =>
    have hskip : ofLine command line = .skip := by rw [ofLine, hs]
    rw [hskip]
    exact .skip (Statement.inFold_of_none command hs) (by simp [payloadOf?, hs])
  | some st =>
    have hpass := Statement.inFold_iff command hs
    have hpayload (c : Command) := Statement.payloadOf?_of_ofLine? c hs
    have hcommand (c : Command) : st.command? = some c ↔ st.mark = c.mark :=
      Command.ofMark?_eq_some_iff
    by_cases hcont : st.mark = Command.continuation.mark
    · have hextend : ofLine command line = .extend st.payload := by
        rw [ofLine, hs]
        simp only [(hcommand .continuation).2 hcont]
      rw [hextend]
      exact .extend st.payload (hpass.2 (.inl hcont)) (by rw [hpayload, if_pos hcont])
    have hnone : payloadOf? .continuation line = none := by rw [hpayload, if_neg hcont]
    by_cases hprev : st.mark = Command.previous.mark
    · have hrole := (hcommand .previous).2 hprev
      have hover : inFold command line = true ↔
          command ≠ some .trigger ∧ command ≠ some .define := by
        rw [hpass]
        exact ⟨fun h => (h.resolve_left hcont).2, fun h => .inr ⟨hprev, h⟩⟩
      by_cases ht : command = some .trigger
      · have hcontext : ofLine command line = .context st.payload := by simp [ofLine, hs, hrole, ht]
        rw [hcontext]
        exact .context st.payload (by simpa [ht] using hover) ht (by rw [hpayload, if_pos hprev])
      by_cases hd : command = some .define
      · have hstop : ofLine command line = .stop := by simp [ofLine, hs, hrole, hd]
        rw [hstop]
        exact .stop (by simpa [hd] using hover) fun he => absurd he ht
      · have hskip : ofLine command line = .skip := by simp [ofLine, hs, hrole]
        rw [hskip]
        exact .skip (hover.2 ⟨ht, hd⟩) hnone
    · rw [ofLine_of_other hs (mt (hcommand _).1 hcont) (mt (hcommand _).1 hprev)]
      exact .stop (by simpa [hcont, hprev] using hpass) fun _ => by rw [hpayload, if_neg hprev]

end Role

theorem contextAt?_succ (command : Option Command) (line : Text) (rest : List Text) (k : Nat) :
    contextAt? command (line :: rest) (k + 1) = contextAt? command rest k := rfl

theorem gather_eq (command : Option Command) (glue : Text) (rest : List Text) :
    let past := rest.takeWhile (inFold command)
    let context := contextAt? command rest past.length
    gather command glue rest =
      ⟨(past.filterMap (payloadOf? .continuation)).flatMap (glue ++ ·), context,
        if context.isSome then past.length + 1 else past.length⟩ := by
  induction rest with
  | nil => simp [gather, contextAt?]
  | cons line rest ih =>
    -- a line that is read on over is one more in front of the context
    have further (n : Nat) (context : Option Text) :
        (if context.isSome then n + 1 else n) + 1 = if context.isSome then n + 1 + 1 else n + 1 := by
      split <;> rfl
    rw [gather]
    have hr := Role.ofLine_reads command line
    generalize Role.ofLine command line = role at hr
    cases hr with
    | skip hp hc =>
      simp only [ih, List.takeWhile_cons_of_pos hp, List.filterMap_cons_none hc, List.length_cons,
        contextAt?_succ, further]
    | extend p hp hc =>
      simp only [ih, List.takeWhile_cons_of_pos hp, List.filterMap_cons_some hc, List.length_cons,
        contextAt?_succ, further, List.flatMap_cons]
    | context p hp ht hc =>
      have hcontext : contextAt? command (line :: rest) 0 = some p := by
        rw [contextAt?, if_pos ht]
        exact hc
      rw [List.takeWhile_cons_of_neg (by simp [hp])]
      simp [hcontext]
    | stop hp hc =>
      have hcontext : contextAt? command (line :: rest) 0 = none := by
        unfold contextAt?
        split
        · next ht => exact hc ht
        · rfl
      rw [List.takeWhile_cons_of_neg (by simp [hp])]
      simp [hcontext]

/-- The fold ends at the first line that is not passed over, or at the context behind it, and no line
further down is looked at. -/
theorem gather_congr (command : Option Command) (glue : Text) {rest rest' : List Text}
    (h : rest'.take ((rest.takeWhile (inFold command)).length + 1) =
      rest.take ((rest.takeWhile (inFold command)).length + 1)) :
    gather command glue rest' = gather command glue rest := by
  induction rest generalizing rest' with
  | nil =>
    obtain rfl : rest' = [] := by simpa using h
    rfl
  | cons line rest ih =>
    obtain ⟨rest', rfl⟩ : ∃ more, rest' = line :: more := by
      cases rest' with
      | nil => simp at h
      | cons line' more =>
        rw [List.take_succ_cons, List.take_succ_cons] at h
        exact ⟨more, by rw [(List.cons.inj h).1]⟩
    rw [gather, gather]
    have hr := Role.ofLine_reads command line
    generalize Role.ofLine command line = role at hr
    have below (hp : inFold command line = true) :
        gather command glue rest' = gather command glue rest := by
      rw [List.takeWhile_cons_of_pos hp, List.length_cons, List.take_succ_cons,
        List.take_succ_cons] at h
      exact ih (List.cons.inj h).2
    cases hr with
    | skip hp hc => simp only [below hp]
    | extend p hp hc => simp only [below hp]
    | context => rfl
    | stop => rfl

/-! ## Positions in a script -/

/-- What stands between the parts of a text: the mark of joined lines in a definition, elsewhere what
the script asks for. -/
def separatorOf (command : Option Command) (concat : Text) : Text :=
  if command = some .define then "<crlf>".toList
  else if concat = "newline".toList then ['\n']
  else if concat = "space".toList then [' ']
  else []

theorem glue_eq (command : Option Command) (concat : Text) :
    glue command concat = separatorOf command concat := by
  unfold glue separatorOf
  split
  · rfl
  split
  · next h =>
    subst h
    rfl
  split
  · next h =>
    subst h
    rfl
  · next hn hs =>
    cases h : Joining.ofKeyword? concat with
    | none => rfl
    | some j =>
      have hj : j.keyword = concat := by simpa using List.find?_some h
      cases j with
      | none => rfl
      | newline => exact absurd hj.symm hn
      | space => exact absurd hj.symm hs

/-- The payloads of the continuations that are folded into a statement with the command. -/
def foldedPayloads (command : Option Command) (rest : List Text) : List Text :=
  (rest.takeWhile (inFold command)).filterMap (payloadOf? .continuation)

theorem mem_foldedPayloads {command : Option Command} {rest : List Text} {q : Text}
    (h : q ∈ foldedPayloads command rest) :
    ∃ line ∈ rest, payloadOf? .continuation line = some q := by
  obtain ⟨line, hline, hq⟩ := List.mem_filterMap.1 h
  exact ⟨line, (List.takeWhile_prefix _).subset hline, hq⟩

/-- A folded text is the payload with the continuations behind it, each behind the separator. -/
theorem text_fold {command : Option Command} {payload : Text}
    (h : ¬(command = some .labelOpen ∧ Text.headWord payload = Label.objectKeyword)) (concat : Text)
    (rest : List Text) :
    (fold concat command payload rest).text =
      payload ++ (foldedPayloads command rest).flatMap (separatorOf command concat ++ ·) := by
  rw [fold, if_neg h, gather_eq, glue_eq]
  rfl

/-- A folded text is put together from payloads, its own and those of continuations below. -/
theorem fold_parts (concat : Text) (command : Option Command) (payload : Text) (rest : List Text) :
    ∃ more : List Text, (∀ q ∈ more, ∃ line ∈ rest, payloadOf? .continuation line = some q) ∧
      (fold concat command payload rest).text =
        payload ++ more.flatMap (separatorOf command concat ++ ·) ∧
      ∀ p, (fold concat command payload rest).previous = some p →
        ∃ line ∈ rest, payloadOf? .previous line = some p := by
  by_cases h : command = some .labelOpen ∧ Text.headWord payload = Label.objectKeyword
  · rw [fold, if_pos h]
    exact ⟨[], by simp, by simp, by simp⟩
  · refine ⟨foldedPayloads command rest, fun q hq => mem_foldedPayloads hq,
      text_fold h concat rest, ?_⟩
    intro p hp
    rw [fold, if_neg h] at hp
    simp only [gather_eq, contextAt?] at hp
    obtain ⟨line, hl, hp⟩ := Option.bind_eq_some_iff.1 (Option.ite_none_right_eq_some.1 hp).2
    exact ⟨line, List.mem_of_getElem? hl, hp⟩

theorem foldAt?_natCast (concat : Text) (command : Option Command) (payload : Text)
    (lines : List Text) (index : Nat) :
    foldAt? concat command payload lines index =
      some (fold concat command payload (lines.drop (index + 1))) := by
  have hafter : linesAfter? lines index = some (lines.drop (index + 1)) := rfl
  unfold foldAt?
  split
  · next ho => rw [fold, if_pos ho]
  · rw [hafter, Option.map_some]

/-- At every position the text is the payload with the continuations among the lines that are passed
over, each behind a separator. A rule takes its context from the line behind them. The label of a
code object folds nothing. Lines in front of the position do not matter, and neither do those behind
the first one that is not passed over. -/
theorem foldAt?_eq (concat : Text) (command : Option Command) (payload : Text) (lines : List Text)
    (index : Nat) :
    let rest := lines.drop (index + 1)
    let past := rest.takeWhile (inFold command)
    let context := contextAt? command rest past.length
    (foldAt? concat command payload lines index =
      if command = some .labelOpen ∧ Text.headWord payload = "object".toList then
        some ⟨payload, none, 0⟩
      else
        some
          { text := payload ++ (past.filterMap (payloadOf? .continuation)).flatMap
              (separatorOf command concat ++ ·)
            previous := context
            consumed := if context.isSome then past.length + 1 else past.length }) ∧
      ∀ (lines' : List Text) (index' : Nat),
        (lines'.drop (index' + 1)).take (past.length + 1) = rest.take (past.length + 1) →
        foldAt? concat command payload lines' index' =
          foldAt? concat command payload lines index := by
  intro rest past context
  have hobject : "object".toList = Label.objectKeyword := rfl
  constructor
  · rw [foldAt?_natCast, fold, hobject]
    split
    · rfl
    · rw [gather_eq, glue_eq]
  · intro lines' index' h
    rw [foldAt?_natCast, foldAt?_natCast, fold, fold, gather_congr _ _ h]

end DialogueScript
