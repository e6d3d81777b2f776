import DialogueScript.Proofs.BlankLines
import DialogueScript.Proofs.Contexts
import DialogueScript.Proofs.Folding
import DialogueScript.Proofs.Payloads

/-!
# Line comments

A line comment fills a line or stands behind a statement. `stripComments` takes out those that a
script outside of block comments and labels can do without: it comes to the same document
(`parse_stripComments`). A comment on a line of its own stays if a continuation or a context follows,
which it parts from the statement above, and so does what stands behind these two, since a statement
above folds it as it is. `withoutComments` takes out all of them, which may change the document
(`parse_withoutComments`).
-/

namespace DialogueScript

/-! ## Lines without their comments -/

/-- The line as a whole is a comment. -/
def isComment (line : Text) : Bool := Reader.lineComment.isPrefixOf (Text.trim line)

namespace Statement

/-- The statement as a line, its payload right behind its mark. -/
def line (st : Statement) : Text := st.mark :: st.payload

/-- A blank where mark and payload would form the start or the end of a block comment. -/
def gap (st : Statement) : Text :=
  if Reader.blockStart.isPrefixOf st.line || Reader.blockEnd.isPrefixOf st.line then [' '] else []

/-- The statement as a line that is read as this statement. -/
def written (st : Statement) : Text := st.mark :: (st.gap ++ st.payload)

/-- The line of a statement without a comment behind it; what acts with the statement above is kept
as it is. -/
def stripped (st : Statement) : Text := (if st.continues then st else st.withoutComment).written

end Statement

/-- Every statement without a comment behind it, and no comment on a line of its own. -/
def withoutComments (lines : List Text) : List Text :=
  (lines.filter (!isComment ·)).map fun line =>
    match Statement.ofLine? line with
    | some st => st.withoutComment.line
    | none => line

/-- The first statement in the lines acts with the one above them. -/
def goesOn : List Text → Bool
  | [] => false
  | line :: rest =>
    match Statement.ofLine? line with
    | none => goesOn rest
    | some st => if isComment line then goesOn rest else st.continues

/-- The script without the comments that it can do without. -/
def stripComments : List Text → List Text
  | [] => []
  | line :: rest =>
    match Statement.ofLine? line with
    | none => line :: stripComments rest
    | some st =>
      if isComment line then
        if goesOn rest then line :: stripComments rest else stripComments rest
      else st.stripped :: stripComments rest

/-- A line that neither begins nor ends a block comment and opens no label. -/
structure Unblocked (line : Text) : Prop where
  start : Text.occursIn Reader.blockStart line = false
  stop : Text.occursIn Reader.blockEnd line = false
  label : (Text.trim line).head? ≠ some Command.labelOpen.mark

/-- No comment of the script makes a difference to what a statement folds, and none keeps a mark and
a payload apart. -/
structure Detached (lines : List Text) : Prop where
  comments : ∀ above line below, lines = above ++ line :: below → isComment line = true →
    goesOn below = false
  continued : ∀ line ∈ lines, ∀ st, Statement.ofLine? line = some st → st.continues = true →
    Text.cut Statement.inlineComment st.payload = none
  joined : ∀ line ∈ lines, ∀ st, Statement.ofLine? line = some st → isComment line = false →
    st.withoutComment.gap = []

/-! ## Reading a stripped line -/

namespace Statement

variable {st : Statement}

theorem ofLine?_cons {mark : Char} {blank payload : Text} (hm : Text.isBlank mark = false)
    (hb : ∀ c ∈ blank, Text.isBlank c = true) (hp : Text.Tight payload) :
    ofLine? (mark :: (blank ++ payload)) = some ⟨mark, payload⟩ := by
  have htrim : Text.trim (mark :: (blank ++ payload)) = mark :: (blank ++ payload) :=
    ((Text.tight_singleton hm).join hp blank).trim_eq
  have hpayload := Text.trim_blank_append hb hp
  obtain ⟨c, rest, hrest⟩ := List.exists_cons_of_ne_nil (l := blank ++ payload)
    (by simp [hp.ne_nil])
  rw [ofLine?, htrim]
  rw [hrest] at hpayload ⊢
  simp only [hpayload]

theorem gap_blank (st : Statement) : ∀ c ∈ st.gap, Text.isBlank c = true := by
  unfold gap
  split
  · intro c hc
    obtain rfl := List.mem_singleton.1 hc
    decide
  · simp

theorem ofLine?_written (hm : Text.isBlank st.mark = false) (hp : Text.Tight st.payload) :
    ofLine? st.written = some st := ofLine?_cons hm st.gap_blank hp

theorem withoutComment_withoutComment (st : Statement) :
    st.withoutComment.withoutComment = st.withoutComment := by
  have hnone := Text.cut_eq_none_iff.2 st.not_infix_withoutComment
  generalize st.withoutComment = kept at hnone ⊢
  rw [withoutComment, hnone]

/-- What the line of a statement is stripped to is read as this statement. -/
theorem ofLine?_stripped {line : Text} (h : ofLine? line = some st) :
    ofLine? st.stripped = some (if st.continues then st else st.withoutComment) := by
  obtain ⟨hm, hp⟩ := tight_of_ofLine? h
  unfold stripped
  split
  · exact ofLine?_written hm hp
  · exact ofLine?_written (by rw [mark_withoutComment]; exact hm) (tight_withoutComment hp)

/-- A blank behind the first character keeps it from what follows. -/
theorem infix_of_infix_spaced {a b mark : Char} {payload : Text} (ha : a ≠ ' ') (hb : b ≠ ' ')
    (h : [a, b] <:+: mark :: ' ' :: payload) : [a, b] <:+: payload := by
  rw [List.infix_cons_iff, List.infix_cons_iff] at h
  rcases h with h | h | h
  · simp [hb] at h
  · simp [ha] at h
  · exact h

/-- Where a statement is written nothing of a block comment comes up that is not in its payload. -/
theorem infix_written {w : Text} (hw : w = Reader.blockStart ∨ w = Reader.blockEnd)
    (h : w <:+: st.written) : w <:+: st.payload := by
  unfold written gap at h
  split at h
  · rcases hw with rfl | rfl
    · exact infix_of_infix_spaced (by decide) (by decide) h
    · exact infix_of_infix_spaced (by decide) (by decide) h
  · next hline =>
    simp only [Bool.or_eq_true, List.isPrefixOf_iff_prefix, not_or] at hline
    rw [List.nil_append, List.infix_cons_iff] at h
    rcases h with h | h
    · rcases hw with rfl | rfl
      · exact absurd h hline.1
      · exact absurd h hline.2
    · exact h

theorem unblocked_stripped {line : Text} (hu : Unblocked line) (h : ofLine? line = some st) :
    Unblocked st.stripped := by
  have free {w : Text} (hw : w = Reader.blockStart ∨ w = Reader.blockEnd)
      (hf : Text.occursIn w line = false) : Text.occursIn w st.stripped = false := by
    rw [Text.occursIn_eq_false_iff] at hf ⊢
    unfold stripped
    split
    · exact fun hi => hf ((infix_written hw hi).trans (payload_isInfix h))
    · exact fun hi =>
        hf (((infix_written hw hi).trans st.withoutComment_isInfix).trans (payload_isInfix h))
  refine ⟨free (.inl rfl) hu.start, free (.inr rfl) hu.stop, ?_⟩
  obtain ⟨t, ht⟩ := trim_of_ofLine? h
  obtain ⟨t', ht'⟩ := trim_of_ofLine? (ofLine?_stripped h)
  have hmark : (if st.continues then st else st.withoutComment).mark = st.mark := by
    split
    · rfl
    · exact st.mark_withoutComment
  have hlabel := hu.label
  rw [ht, List.head?_cons] at hlabel
  rw [ht', List.head?_cons, hmark]
  exact hlabel

theorem command?_of_isComment {line : Text} (h : ofLine? line = some st)
    (hc : isComment line = true) : st.command? = none := by
  obtain ⟨t, ht⟩ := trim_of_ofLine? h
  obtain ⟨rest, hrest⟩ := List.isPrefixOf_iff_prefix.1 hc
  rw [ht] at hrest
  obtain ⟨hmark, -⟩ := List.cons.inj hrest
  rw [command?, ← hmark]
  decide

end Statement

/-! ## Folding over stripped lines -/

theorem foldsAlike_of_endsFold {lines lines' : List Text} (h : EndsFold lines)
    (h' : EndsFold lines') : FoldsAlike lines lines' := by
  intro command glue
  rw [h, h']
  exact ⟨rfl, rfl⟩

theorem endsFold_of_isComment {line : Text} {st : Statement} (hs : Statement.ofLine? line = some st)
    (hc : isComment line = true) (rest : List Text) : EndsFold (line :: rest) := by
  have hcommand := Statement.command?_of_isComment hs hc
  exact endsFold_cons rest hs (by simp [hcommand]) (by simp [hcommand])

theorem foldsAlike_of_goesOn {lines : List Text} (h : goesOn lines = false) :
    FoldsAlike lines [] := by
  induction lines with
  | nil => exact fun command glue => ⟨rfl, rfl⟩
  | cons line rest ih =>
    rw [goesOn] at h
    cases hs : Statement.ofLine? line with
    | none =>
      rw [hs] at h
      intro command glue
      simp only [gather, Role.ofLine_of_none hs]
      exact ih h command glue
    | some st =>
      have hnil : EndsFold [] := fun command glue => rfl
      rw [hs] at h
      by_cases hc : isComment line = true
      · exact foldsAlike_of_endsFold (endsFold_of_isComment hs hc rest) hnil
      · simp only [hc] at h
        obtain ⟨hcontinuation, hprevious⟩ := Statement.not_continues_iff.1 h
        exact foldsAlike_of_endsFold (endsFold_cons rest hs hcontinuation hprevious) hnil

/-- Statements fold the same text and context out of the stripped lines. -/
theorem foldsAlike_stripComments (lines : List Text) :
    FoldsAlike (stripComments lines) lines := by
  induction lines with
  | nil => exact fun command glue => ⟨rfl, rfl⟩
  | cons line rest ih =>
    rw [stripComments]
    cases hs : Statement.ofLine? line with
    | none => exact ih.cons rfl
    | some st =>
      simp only
      by_cases hc : isComment line = true
      · rw [if_pos hc]
        by_cases hg : goesOn rest = true
        · rw [if_pos hg]
          exact ih.cons rfl
        · -- nothing below the comment is folded, with it or without it
          rw [if_neg hg]
          have hrest := foldsAlike_of_goesOn (eq_false_of_ne_true hg)
          have hcomment := endsFold_of_isComment hs hc rest
          intro command glue
          obtain ⟨ht, hp⟩ := ih command glue
          obtain ⟨ht', hp'⟩ := hrest command glue
          rw [hcomment, ht, hp]
          exact ⟨ht', hp'⟩
      · rw [if_neg hc]
        have hread := Statement.ofLine?_stripped hs
        by_cases hcont : st.continues = true
        · rw [if_pos hcont] at hread
          exact ih.cons (hread.trans hs.symm)
        · rw [if_neg hcont] at hread
          obtain ⟨hn, hp⟩ := Statement.not_continues_iff.1 (eq_false_of_ne_true hcont)
          have hcommand : st.withoutComment.command? = st.command? :=
            congrArg Command.ofMark? st.mark_withoutComment
          exact foldsAlike_of_endsFold
            (endsFold_cons _ hread (by rwa [hcommand]) (by rwa [hcommand]))
            (endsFold_cons _ hs hn hp)

namespace Reader

/-! ## Reading stripped lines -/

theorem LineKind.of_unblocked {line : Text} (hu : Unblocked line) (inComment : Bool) :
    of inComment (Text.trim line) ≠ .commentStart := by
  intro hk
  have hstart := starts_of_commentStart hk
  exact Text.occursIn_eq_false_iff.1 hu.start (hstart.isInfix.trans (Text.trim_isInfix line))

namespace State

variable {s s' : State} {supported : Float} {number : Nat} {line : Text} {rest rest' : List Text}

/-- A mark without a command leaves the state as it is, be it that of a comment or not. -/
theorem next_step_none (hout : s.Outside) (hu : Unblocked line) {st : Statement}
    (hs : Statement.ofLine? line = some st) (hc : st.command? = none) :
    (s.step supported number line rest).next = some s := by
  rcases next_step_outside supported number rest hout (LineKind.of_unblocked hu _) with
    hn | ⟨st', hk, hn⟩
  · exact hn
  · obtain ⟨st'', hs', hcommand⟩ := LineKind.ofLine?_of_statement hk
    rw [Statement.ofLine?_trim, hs] at hs'
    cases hs'
    have hl : (s.logicalLine number st' rest).command? = none := hcommand.symm.trans hc
    rw [hn]
    simp only [obey, hl, warn_next]

/-- Outside of comments and code the next state is decided by the statement on the line, if there is
one. -/
theorem next_step (hout : s.Outside) (hu : Unblocked line) :
    (s.step supported number line rest).next =
      match Statement.ofLine? line with
      | none => some s
      | some st => (s.obey supported (s.logicalLine number st.withoutComment rest)).next := by
  cases hs : Statement.ofLine? line with
  | none =>
    refine step_readsOver hout ?_
    intro st hst
    rw [hs] at hst
    cases hst
  | some st =>
    simp only
    by_cases hc : st.command?.isSome = true
    · rw [step_command _ _ _ hout hs hc (Text.occursIn_trim hu.stop)]
    · have hnone : st.command? = none := by simpa using hc
      have hl : (s.logicalLine number st.withoutComment rest).command? = none :=
        (congrArg Command.ofMark? st.mark_withoutComment).trans hnone
      rw [next_step_none hout hu hs hnone]
      simp only [obey, hl, warn_next]

/-- The number of a statement does not matter to the state behind it. -/
theorem next_obey (supported : Float) (s : State) (l : LogicalLine) (number : Nat) :
    (s.obey supported { l with number }).next = (s.obey supported l).next := by
  have shifted (k : Nat) : (s.obey supported { l with number := k }).next =
      (s.obey supported { l with number := 0 }).next := by
    have h := congrArg Outcome.next (s.obey_shift k supported { l with number := 0 })
    have hk : LogicalLine.shift k { l with number := 0 } = { l with number := k } := by
      simp [LogicalLine.shift]
    rw [hk] at h
    exact h
  rw [shifted number, ← shifted l.number]

theorem Outside.obey (hout : s.Outside) {l : LogicalLine} (hc : l.command? ≠ some .labelOpen)
    (h : (s.obey supported l).next = some s') : s'.Outside := by
  have hs := s.obey_obeyed supported l hout.object
  generalize s.obey supported l = outcome at hs h
  cases hs <;> cases h
  case opened hopen _ _ => exact absurd hopen hc
  all_goals exact ⟨hout.object, hout.comment⟩

theorem Outside.step (hout : s.Outside) (hu : Unblocked line)
    (h : (s.step supported number line rest).next = some s') : s'.Outside := by
  rw [next_step hout hu] at h
  split at h
  · cases h
    exact hout
  · next st hs =>
    refine hout.obey ?_ h
    obtain ⟨t, ht⟩ := Statement.trim_of_ofLine? hs
    have hlabel := hu.label
    intro hc
    rw [ht, List.head?_cons, ← st.mark_withoutComment] at hlabel
    exact hlabel (congrArg some (Command.ofMark?_eq_some_iff.1 hc))

/-- A line leads to the same state as what it is stripped to. -/
theorem next_step_stripped (hout : s.Outside) (hu : Unblocked line) {st : Statement}
    (hs : Statement.ofLine? line = some st) (hrest : FoldsAlike rest' rest) (number' : Nat) :
    (s.step supported number' st.stripped rest').next =
      (s.step supported number line rest).next := by
  have hsame : (if st.continues then st else st.withoutComment).withoutComment =
      st.withoutComment := by
    split
    · rfl
    · exact st.withoutComment_withoutComment
  rw [next_step hout (Statement.unblocked_stripped hu hs), next_step hout hu, hs,
    Statement.ofLine?_stripped hs]
  simp only [hsame]
  rw [logicalLine_of_foldsAlike hrest]
  exact next_obey supported s (s.logicalLine number st.withoutComment rest) number'

end State

theorem Outcome.andThen_next (o : Outcome) (k : State → Outcome) :
    (o.andThen k).next = o.next.bind fun s => (k s).next := by
  cases h : o.next with
  | none => rw [andThen_of_none h, h, Option.bind_none]
  | some s => rw [andThen_of_some h, Option.bind_some]

/-- Reading the stripped lines leads to the same state, wherever they stand. -/
theorem next_scan_stripComments {lines : List Text} (h : ∀ line ∈ lines, Unblocked line)
    (supported : Float) {s : State} (hout : s.Outside) (number number' : Nat) :
    (scan supported s number' (stripComments lines)).next = (scan supported s number lines).next := by
  induction lines generalizing s number number' with
  | nil => rfl
  | cons line rest ih =>
    obtain ⟨hline, hrest⟩ := List.forall_mem_cons.1 h
    have halike := foldsAlike_stripComments rest
    -- a line and what stands for it lead to one state, and so do the lines below
    have further {line' : Text} (hstep : (s.step supported (number' + 1) line' (stripComments rest)).next =
        (s.step supported (number + 1) line rest).next) :
        (scan supported s number' (line' :: stripComments rest)).next =
          (scan supported s number (line :: rest)).next := by
      rw [scan_cons, scan_cons, Outcome.andThen_next, Outcome.andThen_next, hstep]
      cases hnext : (s.step supported (number + 1) line rest).next with
      | none => rfl
      | some next => exact ih hrest (hout.step hline hnext) (number + 1) (number' + 1)
    rw [stripComments]
    cases hs : Statement.ofLine? line with
    | none =>
      refine further ?_
      rw [State.next_step hout hline, State.next_step hout hline, hs]
    | some st =>
      simp only
      by_cases hc : isComment line = true
      · have hcommand := Statement.command?_of_isComment hs hc
        have hstep (number : Nat) (rest : List Text) :
            (s.step supported number line rest).next = some s :=
          State.next_step_none hout hline hs hcommand
        rw [if_pos hc]
        by_cases hg : goesOn rest = true
        · rw [if_pos hg]
          exact further ((hstep _ _).trans (hstep _ _).symm)
        · rw [if_neg hg, scan_cons, Outcome.andThen_next, hstep, Option.bind_some]
          exact ih hrest hout (number + 1) number'
      · rw [if_neg hc]
        exact further (State.next_step_stripped hout hline hs halike _)

theorem document_read_stripComments {lines : List Text} (h : ∀ line ∈ lines, Unblocked line)
    (supported : Float) :
    (read supported (stripComments lines)).document = (read supported lines).document := by
  have hnext := next_scan_stripComments h supported (s := {}) ⟨rfl, rfl⟩ 0 0
  rw [read_eq_finish, read_eq_finish, Outcome.finish, Outcome.finish, hnext]

end Reader

/-! ## Taking out all comments -/

theorem isComment_of_none {line : Text} (h : Statement.ofLine? line = none) :
    isComment line = false := by
  unfold Statement.ofLine? at h
  split at h
  · cases h
  · next hshort =>
    rw [← Bool.not_eq_true]
    intro hc
    obtain ⟨rest, hrest⟩ := List.isPrefixOf_iff_prefix.1 hc
    exact hshort _ _ _ hrest.symm

theorem Detached.tail {line : Text} {rest : List Text} (h : Detached (line :: rest)) :
    Detached rest := by
  refine ⟨?_, ?_, ?_⟩
  · rintro above line' below rfl
    exact h.comments (line :: above) line' below rfl
  · exact fun line' hl => h.continued line' (List.mem_cons_of_mem _ hl)
  · exact fun line' hl => h.joined line' (List.mem_cons_of_mem _ hl)

theorem Detached.stripped_eq {line : Text} {rest : List Text} (h : Detached (line :: rest))
    {st : Statement} (hs : Statement.ofLine? line = some st) (hc : isComment line = false) :
    st.stripped = st.withoutComment.line := by
  have hgap := h.joined line List.mem_cons_self st hs hc
  unfold Statement.stripped
  split
  · next hcont =>
    have hcut := h.continued line List.mem_cons_self st hs hcont
    have hsame : st.withoutComment = st := by simp only [Statement.withoutComment, hcut]
    rw [hsame] at hgap ⊢
    rw [Statement.written, hgap]
    rfl
  · rw [Statement.written, hgap]
    rfl

/-- If no comment makes a difference, the script can do without all of them. -/
theorem Detached.stripComments_eq {lines : List Text} (h : Detached lines) :
    stripComments lines = withoutComments lines := by
  induction lines with
  | nil => rfl
  | cons line rest ih =>
    have hrest := ih h.tail
    rw [stripComments]
    cases hs : Statement.ofLine? line with
    | none => simp [withoutComments, isComment_of_none hs, hs, hrest]
    | some st =>
      simp only
      by_cases hc : isComment line = true
      · rw [if_pos hc, h.comments [] line rest rfl hc, if_neg (by decide), hrest]
        simp [withoutComments, hc]
      · have hc : isComment line = false := by simpa using hc
        rw [if_neg (by simp [hc]), h.stripped_eq hs hc, hrest]
        simp [withoutComments, hc, hs]

instance (line : Text) : Decidable (Unblocked line) :=
  decidable_of_iff (Text.occursIn Reader.blockStart line = false ∧
      Text.occursIn Reader.blockEnd line = false ∧
      (Text.trim line).head? ≠ some Command.labelOpen.mark)
    ⟨fun h => ⟨h.1, h.2.1, h.2.2⟩, fun h => ⟨h.start, h.stop, h.label⟩⟩

/-- Where block comments and labels are absent, a script comes to the same document without its line
comments: those behind a statement, and those on a line of their own. What stays is a comment on a
line of its own with a continuation or a context as the next statement below, and what stands behind
these two. A script in which neither occurs, and no mark forms one of a block comment with what
follows it, can do without all comments. -/
theorem parse_stripComments (settings : Settings) (audience : Audience) {lines : List Text}
    (h : ∀ line ∈ lines, Unblocked line) :
    (parse settings audience (stripComments lines)).document =
        (parse settings audience lines).document ∧
      (Detached lines → stripComments lines = withoutComments lines) := by
  refine ⟨?_, fun hd => hd.stripComments_eq⟩
  rw [parse_document, parse_document]
  exact Reader.document_read_stripComments h settings.supported

/-- Comments on lines of their own and behind a pattern and a response; one of the three lines is
needed, since it parts the response from a continuation. The first two lines alone need none. -/
theorem parse_stripComments_response :
    let lines : List Text := ["// a".toList, "+ b // c".toList, "// d".toList, "- e // f".toList,
      "// g".toList, "^ h // i".toList]
    let kept : List Text := ["+b".toList, "-e".toList, "// g".toList, "^h // i".toList]
    (∀ line ∈ lines, Unblocked line) ∧ stripComments lines = kept ∧
      (parse {} ⟨['s'], true⟩ kept).document = (parse {} ⟨['s'], true⟩ lines).document ∧
      Detached (lines.take 2) ∧ withoutComments (lines.take 2) = ["+b".toList] ∧
      (parse {} ⟨['s'], true⟩ ["+b".toList]).document =
        (parse {} ⟨['s'], true⟩ (lines.take 2)).document := by
  intro lines kept
  have hu : ∀ line ∈ lines, Unblocked line := by decide
  have hkept : stripComments lines = kept := by decide
  have hone : withoutComments (lines.take 2) = ["+b".toList] := by decide
  have hdetached : Detached (lines.take 2) := by
    refine ⟨?_, ?_, ?_⟩
    · intro above line below hl hc
      replace hl : ["// a".toList, "+ b // c".toList] = above ++ line :: below := hl
      match above with
      | [] =>
        cases hl
        decide
      | [_] =>
        cases hl
        exact absurd hc (by decide)
      | _ :: _ :: above => simp at hl
    · intro line hl st hs hcont
      rcases List.mem_cons.1 hl with rfl | hl
      · cases hs
        exact absurd hcont (by decide)
      · obtain rfl := List.mem_singleton.1 hl
        cases hs
        exact absurd hcont (by decide)
    · intro line hl st hs hc
      rcases List.mem_cons.1 hl with rfl | hl
      · exact absurd hc (by decide)
      · obtain rfl := List.mem_singleton.1 hl
        cases hs
        decide
  obtain ⟨hdocument, -⟩ := parse_stripComments {} ⟨['s'], true⟩ hu
  have hu' : ∀ line ∈ lines.take 2, Unblocked line :=
    fun line hl => hu line (List.mem_of_mem_take hl)
  obtain ⟨hdocument', hall⟩ := parse_stripComments {} ⟨['s'], true⟩ hu'
  rw [hkept] at hdocument
  rw [hall hdetached, hone] at hdocument'
  exact ⟨hu, hkept, hdocument, hdetached, hone, hdocument'⟩

/-- The script comes to another document if all comments are taken out. -/
def NeedsComments (settings : Settings) (audience : Audience) (lines : List Text) : Prop :=
  (∀ line ∈ lines, Unblocked line) ∧
    (parse settings audience (withoutComments lines)).document ≠
      (parse settings audience lines).document

/-- A comment between a pattern and what would continue it; a comment behind a continuation; a mark
and a payload that form the start of a block comment, and its end. -/
theorem parse_withoutComments :
    NeedsComments {} ⟨['s'], true⟩ ["+ a".toList, "// b".toList, "^ c".toList] ∧
      NeedsComments {} ⟨['s'], true⟩ ["+ a".toList, "^ b // c".toList] ∧
      NeedsComments {} ⟨['s'], true⟩ ["/ * a".toList, "+ b".toList] ∧
      NeedsComments {} ⟨['s'], true⟩ ["+ a".toList, "* / b".toList] := by
  refine ⟨?_, ?_, ?_, ?_⟩ <;> exact ⟨by decide, by decide⟩

end DialogueScript
