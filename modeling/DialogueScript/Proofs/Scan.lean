import DialogueScript.Proofs.Steps
import DialogueScript.Proofs.Texts

/-!
# Reading in parts

A script can be read part by part: `scanBefore` reads some lines in view of the lines behind them,
and reading two parts in a row is reading both (`scanBefore_append`). The view ends at a line that
no statement folds (`EndsFold`), so a part that such a line follows is read as if it stood alone.
The numbers of the lines are only handed on (`scan_shift`).
-/

namespace DialogueScript

/-! ## Where folding ends -/

/-- No statement above the lines goes on in them. -/
def EndsFold (lines : List Text) : Prop :=
  ∀ command glue, gather command glue lines = ⟨[], none, 0⟩

/-- A statement of its own stops the folding of the lines above. -/
theorem Role.ofLine_of_other {line : Text} {st : Statement} (hs : Statement.ofLine? line = some st)
    (hc : st.command? ≠ some .continuation) (hp : st.command? ≠ some .previous)
    (command : Option Command) : Role.ofLine command line = .stop := by
  unfold Role.ofLine
  rw [hs]
  simp only
  split <;> first | rfl | contradiction

/-- Lines that begin with a statement of their own are out of view from above. -/
theorem endsFold_cons {line : Text} (lines : List Text) {st : Statement}
    (hs : Statement.ofLine? line = some st) (hc : st.command? ≠ some .continuation)
    (hp : st.command? ≠ some .previous) : EndsFold (line :: lines) := by
  intro command glue
  rw [gather, Role.ofLine_of_other hs hc hp]

theorem Statement.mark_withoutComment (st : Statement) : st.withoutComment.mark = st.mark := by
  unfold withoutComment
  split <;> rfl

/-- A line is a statement if it has the form of one and nothing about it is a comment. -/
theorem Reader.LineKind.of_eq_statement_iff {inComment : Bool} {line : Text} {st : Statement} :
    of inComment line = .statement st ↔
      lineComment.isPrefixOf line = false ∧ deprecatedMark.isPrefixOf line = false ∧
        blockStart.isPrefixOf line = false ∧ Text.occursIn blockEnd line = false ∧
        inComment = false ∧ ∃ st', Statement.ofLine? line = some st' ∧ st'.withoutComment = st := by
  unfold of
  cases lineComment.isPrefixOf line with
  | true => simp
  | false =>
  cases deprecatedMark.isPrefixOf line with
  | true => simp
  | false =>
  cases blockStart.isPrefixOf line with
  | true =>
    cases Text.occursIn blockEnd line <;> simp
  | false =>
  cases Text.occursIn blockEnd line with
  | true => simp
  | false =>
  cases inComment with
  | true => simp
  | false =>
  cases Statement.ofLine? line <;> simp

theorem Reader.LineKind.ofLine?_of_statement {inComment : Bool} {line : Text} {st : Statement}
    (h : of inComment line = .statement st) :
    ∃ st', Statement.ofLine? line = some st' ∧ st'.command? = st.command? := by
  obtain ⟨-, -, -, -, -, st', hs, rfl⟩ := of_eq_statement_iff.1 h
  exact ⟨st', hs, congrArg Command.ofMark? st'.mark_withoutComment.symm⟩

theorem Reader.LineKind.inComment_of_statement {inComment : Bool} {line : Text} {st : Statement}
    (h : of inComment line = .statement st) : inComment = false := by
  obtain ⟨-, -, -, -, hc, -⟩ := of_eq_statement_iff.1 h
  exact hc

theorem Statement.ofLine?_trim (line : Text) : ofLine? (Text.trim line) = ofLine? line := by
  simp only [ofLine?, Text.trim_trim]

theorem Statement.ofLine?_eq_none_iff {line : Text} :
    ofLine? line = none ↔ (Text.trim line).length < 2 := by
  unfold ofLine?
  split
  · next h => simp [h]
  · next h =>
    refine ⟨fun _ => ?_, fun _ => rfl⟩
    match ht : Text.trim line with
    | [] => simp
    | [_] => simp
    | mark :: c :: rest => exact absurd ht (h mark c rest)

theorem Statement.trim_of_ofLine? {line : Text} {st : Statement} (h : ofLine? line = some st) :
    ∃ t, Text.trim line = st.mark :: t := by
  unfold ofLine? at h
  split at h
  · next hline =>
    cases h
    exact ⟨_, hline⟩
  · cases h

theorem endsFold_of_statement {inComment : Bool} {line : Text} {st : Statement}
    (h : Reader.LineKind.of inComment (Text.trim line) = .statement st)
    (hc : st.command? = some .labelOpen) (lines : List Text) : EndsFold (line :: lines) := by
  obtain ⟨st', hs, he⟩ := Reader.LineKind.ofLine?_of_statement h
  rw [Statement.ofLine?_trim] at hs
  exact endsFold_cons lines hs (by simp [he, hc]) (by simp [he, hc])

/-- What is gathered does not depend on the lines behind the end of the fold. -/
theorem gather_append {later : List Text} (h : EndsFold later) (command : Option Command)
    (glue : Text) (rest : List Text) :
    gather command glue (rest ++ later) = gather command glue rest := by
  induction rest with
  | nil => exact h command glue
  | cons line rest ih => simp only [List.cons_append, gather, ih]

theorem fold_append {later : List Text} (h : EndsFold later) (concat : Text)
    (command : Option Command) (payload : Text) (rest : List Text) :
    fold concat command payload (rest ++ later) = fold concat command payload rest := by
  simp only [fold, gather_append h]

namespace Reader

/-! ## One part after the other -/

/-- Goes on from the next state, if there is one. -/
def Outcome.andThen (o : Outcome) (k : State → Outcome) : Outcome :=
  match o.next with
  | none => o
  | some s => ⟨o.events ++ (k s).events, (k s).next⟩

theorem Outcome.andThen_of_none {o : Outcome} (h : o.next = none) (k : State → Outcome) :
    o.andThen k = o := by
  simp [Outcome.andThen, h]

theorem Outcome.andThen_of_some {o : Outcome} {s : State} (h : o.next = some s)
    (k : State → Outcome) : o.andThen k = ⟨o.events ++ (k s).events, (k s).next⟩ := by
  simp [Outcome.andThen, h]

/-- What comes to its end went on from a state in between. -/
theorem Outcome.next_andThen {o : Outcome} {k : State → Outcome} {s' : State}
    (h : (o.andThen k).next = some s') :
    ∃ s, o.next = some s ∧ (k s).next = some s' ∧
      (o.andThen k).events = o.events ++ (k s).events := by
  cases hn : o.next with
  | none =>
    rw [andThen_of_none hn, hn] at h
    cases h
  | some s =>
    rw [andThen_of_some hn] at h ⊢
    exact ⟨s, rfl, h, rfl⟩

theorem Outcome.mem_andThen {o : Outcome} {e : Event} (h : e ∈ o.events) (k : State → Outcome) :
    e ∈ (o.andThen k).events := by
  cases hn : o.next with
  | none => rwa [andThen_of_none hn]
  | some s =>
    rw [andThen_of_some hn]
    exact List.mem_append_left _ h

theorem Outcome.andThen_assoc (o : Outcome) (k k' : State → Outcome) :
    (o.andThen k).andThen k' = o.andThen fun s => (k s).andThen k' := by
  cases h : o.next with
  | none => rw [andThen_of_none h, andThen_of_none h, andThen_of_none h]
  | some s =>
    rw [andThen_of_some h, andThen_of_some h]
    cases hk : (k s).next with
    | none => rw [andThen_of_none (o := ⟨_, _⟩) rfl, andThen_of_none hk, hk]
    | some s' =>
      rw [andThen_of_some (o := ⟨_, _⟩) rfl, andThen_of_some hk, List.append_assoc]

/-- Reads `lines` in view of the lines `later` behind them, which are not read themselves. -/
def scanBefore (supported : Float) (s : State) (number : Nat) (later : List Text) :
    List Text → Outcome
  | [] => s.go []
  | line :: rest =>
    (s.step supported (number + 1) line (rest ++ later)).andThen fun next =>
      scanBefore supported next (number + 1) later rest

/-- A script is read like the part of a longer one that nothing stands behind. -/
theorem scan_eq (supported : Float) (s : State) (number : Nat) (lines : List Text) :
    scan supported s number lines = scanBefore supported s number [] lines := by
  induction lines generalizing s number with
  | nil => rfl
  | cons line rest ih =>
    simp only [scan, scanBefore, List.append_nil, ih]
    rfl

/-- A part in two pieces is read one piece after the other, the first one in view of the second. -/
theorem scanBefore_append (supported : Float) (s : State) (number : Nat)
    (later first second : List Text) :
    scanBefore supported s number later (first ++ second) =
      (scanBefore supported s number (second ++ later) first).andThen fun next =>
        scanBefore supported next (number + first.length) later second := by
  induction first generalizing s number with
  | nil => simp [scanBefore, Outcome.andThen_of_some (State.go_next s [])]
  | cons line rest ih =>
    simp only [List.cons_append, scanBefore, Outcome.andThen_assoc, List.append_assoc, ih,
      List.length_cons]
    congr 1
    funext next
    simp only [Nat.add_assoc, Nat.add_comm 1]

theorem scan_append (supported : Float) (s : State) (number : Nat) (first second : List Text) :
    scan supported s number (first ++ second) =
      (scanBefore supported s number second first).andThen fun next =>
        scan supported next (number + first.length) second := by
  simp only [scan_eq, scanBefore_append, List.append_nil]

/-! ## Lines out of view -/

/-- Lines behind the end of the fold do not change how a line is read. -/
theorem State.step_append {later : List Text} (h : EndsFold later) (supported : Float) (s : State)
    (number : Nat) (line : Text) (rest : List Text) :
    s.step supported number line (rest ++ later) = s.step supported number line rest := by
  simp only [State.step, State.readLine, State.logicalLine, fold_append h]

/-- Lines behind the end of the fold do not change how the lines in front of them are read. -/
theorem scanBefore_of_endsFold {later : List Text} (h : EndsFold later) (supported : Float)
    (s : State) (number : Nat) (lines : List Text) :
    scanBefore supported s number later lines = scan supported s number lines := by
  rw [scan_eq]
  induction lines generalizing s number with
  | nil => rfl
  | cons line rest ih => simp only [scanBefore, State.step_append h, List.append_nil, ih]

/-- A part that ends a fold is read from the state that the lines before it leave behind. -/
theorem scan_append_of_endsFold {second : List Text} (h : EndsFold second) (supported : Float)
    (s : State) (number : Nat) (first : List Text) :
    scan supported s number (first ++ second) =
      (scan supported s number first).andThen fun next =>
        scan supported next (number + first.length) second := by
  rw [scan_append, scanBefore_of_endsFold h]

/-! ## What every step keeps -/

/-- What every step keeps is kept by a run of them. -/
theorem scanBefore_keeps {supported : Float} {P : State → Prop}
    (hstep : ∀ (s s' : State) number line rest, P s →
      (s.step supported number line rest).next = some s' → P s')
    {s s' : State} {number : Nat} {later lines : List Text} (hs : P s)
    (h : (scanBefore supported s number later lines).next = some s') : P s' := by
  induction lines generalizing s number with
  | nil =>
    cases h
    exact hs
  | cons line rest ih =>
    obtain ⟨next, hn, hrest, -⟩ := Outcome.next_andThen h
    exact ih (hstep s next _ _ _ hs hn) hrest

/-- Each event of a run is told at one of its lines. -/
theorem scanBefore_forall {supported : Float} {P : Nat → Text → Event → Prop}
    (hstep : ∀ (s : State) number line rest,
      ∀ e ∈ (s.step supported number line rest).events, P number line e)
    {s : State} {number : Nat} {later lines : List Text} :
    ∀ e ∈ (scanBefore supported s number later lines).events,
      ∃ k line, lines[k]? = some line ∧ P (number + k + 1) line e := by
  induction lines generalizing s number with
  | nil =>
    intro e he
    cases he
  | cons line rest ih =>
    intro e he
    have here : e ∈ (s.step supported (number + 1) line (rest ++ later)).events →
        ∃ k line', (line :: rest)[k]? = some line' ∧ P (number + k + 1) line' e :=
      fun he => ⟨0, line, rfl, hstep _ _ _ _ e he⟩
    rw [scanBefore] at he
    cases hnext : (s.step supported (number + 1) line (rest ++ later)).next with
    | none =>
      rw [Outcome.andThen_of_none hnext] at he
      exact here he
    | some next =>
      rw [Outcome.andThen_of_some hnext] at he
      rcases List.mem_append.1 he with he | he
      · exact here he
      · obtain ⟨k, line', hline, hp⟩ := ih e he
        exact ⟨k + 1, line', hline, Nat.add_right_comm number 1 k ▸ hp⟩

/-! ## Readings -/

section

variable {supported : Float} {lines : List Text}

theorem read_of_none (h : (scan supported {} 0 lines).next = none) :
    read supported lines = ⟨(scan supported {} 0 lines).events, none⟩ := by
  unfold read
  simp only [h]

theorem read_of_some {s : State} (h : (scan supported {} 0 lines).next = some s) :
    read supported lines =
      ⟨(scan supported {} 0 lines).events ++ closing s lines.length, some s.document⟩ := by
  unfold read
  simp only [h]

/-- A document comes from the state behind the last line. -/
theorem next_of_document {d : Document} (h : (read supported lines).document = some d) :
    ∃ s, (scan supported {} 0 lines).next = some s ∧ s.document = d := by
  cases hn : (scan supported {} 0 lines).next with
  | none =>
    rw [read_of_none hn] at h
    cases h
  | some s =>
    rw [read_of_some hn] at h
    exact ⟨s, rfl, Option.some.inj h⟩

end

/-! ## Line numbers -/

end Reader

/-- The same line, `k` lines further down. -/
def LogicalLine.shift (k : Nat) (l : LogicalLine) : LogicalLine := { l with number := l.number + k }

@[simp] theorem LogicalLine.shift_text (k : Nat) (l : LogicalLine) : (l.shift k).text = l.text := rfl

@[simp] theorem LogicalLine.shift_number (k : Nat) (l : LogicalLine) :
    (l.shift k).number = l.number + k := rfl

@[simp] theorem LogicalLine.shift_command? (k : Nat) (l : LogicalLine) :
    (l.shift k).command? = l.command? := rfl

def Event.shift (k : Nat) : Event → Event
  | .statement l => .statement (l.shift k)
  | .problem p number => .problem p (number + k)
  | e => e

namespace Reader

def Outcome.shift (k : Nat) (o : Outcome) : Outcome := ⟨o.events.map (Event.shift k), o.next⟩

theorem Outcome.shift_andThen (k : Nat) (o : Outcome) (f : State → Outcome) :
    (o.andThen f).shift k = (o.shift k).andThen fun s => (f s).shift k := by
  cases h : o.next with
  | none => rw [andThen_of_none h, andThen_of_none (by exact h)]
  | some s =>
    rw [andThen_of_some h, andThen_of_some (o := o.shift k) (by exact h)]
    simp [shift]

namespace State

theorem shift_complete (k : Nat) (s : State) (d : Definition) (number : Nat) (o : Outcome) :
    s.complete d (number + k) (o.shift k) = (s.complete d number o).shift k := by
  unfold complete
  split
  · rfl
  · split <;> rfl

theorem define_shift (k : Nat) (supported : Float) (s : State) (l : LogicalLine) :
    s.define supported (l.shift k) = (s.define supported l).shift k := by
  simp only [define, LogicalLine.shift_text, LogicalLine.shift_number]
  cases (Definition.ofText l.text).kind with
  | version =>
    simp only [checkVersion]
    split
    · rfl
    · split <;> rfl
  | option =>
    simp only [← shift_complete]
    rfl
  | table t =>
    cases t <;> simp only [← shift_complete] <;> rfl
  | unknown word =>
    simp only [← shift_complete]
    rfl

theorem openLabel_shift (k : Nat) (s : State) (l : LogicalLine) :
    s.openLabel (l.shift k) = (s.openLabel l).shift k := by
  simp only [openLabel, LogicalLine.shift_text, LogicalLine.shift_number]
  split <;> rfl

theorem closeLabel_shift (k : Nat) (s : State) (l : LogicalLine) :
    s.closeLabel (l.shift k) = (s.closeLabel l).shift k := by
  by_cases ht : l.text = Label.beginKeyword ∨ l.text = Label.topicKeyword
  · rw [s.closeLabel_topic ht, s.closeLabel_topic (l := l.shift k) ht]
    rfl
  by_cases ho : l.text = Label.objectKeyword
  · rw [s.closeLabel_object ht ho, s.closeLabel_object (l := l.shift k) ht ho]
    rfl
  · rw [s.closeLabel_unknown ht ho, s.closeLabel_unknown (l := l.shift k) ht ho]
    rfl

theorem extendRule_shift (k : Nat) (s : State) (f : Rule → Rule) (n : Note) (stray : Problem)
    (number : Nat) :
    s.extendRule f n stray (number + k) = (s.extendRule f n stray number).shift k := by
  unfold extendRule
  split <;> rfl

/-- What a statement does does not depend on the number of its line, which is only told. -/
theorem obey_shift (k : Nat) (supported : Float) (s : State) (l : LogicalLine) :
    s.obey supported (l.shift k) = (s.obey supported l).shift k := by
  simp only [obey, LogicalLine.shift_command?, LogicalLine.shift_number, LogicalLine.shift_text,
    define_shift, openLabel_shift, closeLabel_shift, extendRule_shift]
  split <;> rfl

/-- What a line does does not depend on its number, which is only told. -/
theorem step_shift (k : Nat) (supported : Float) (s : State) (number : Nat) (line : Text)
    (rest : List Text) :
    s.step supported (number + k) line rest = (s.step supported number line rest).shift k := by
  unfold step
  simp only
  split
  · rfl
  split
  · rfl
  · unfold readLine
    split
    all_goals try rfl
    rename_i st _
    have hl : s.logicalLine (number + k) st rest = (s.logicalLine number st rest).shift k := rfl
    simp only [hl, obey_shift]
    rfl

end State

/-- A part of a script can be moved down, and all that is told of it moves along. -/
theorem scanBefore_shift (k : Nat) (supported : Float) (s : State) (number : Nat)
    (later lines : List Text) :
    scanBefore supported s (number + k) later lines =
      (scanBefore supported s number later lines).shift k := by
  induction lines generalizing s number with
  | nil => rfl
  | cons line rest ih =>
    have hn : number + k + 1 = number + 1 + k := by omega
    simp only [scanBefore, hn, State.step_shift, ih, Outcome.shift_andThen]

theorem scan_shift (k : Nat) (supported : Float) (s : State) (number : Nat) (lines : List Text) :
    scan supported s (number + k) lines = (scan supported s number lines).shift k := by
  simp only [scan_eq, scanBefore_shift]

theorem closing_shift (k : Nat) (s : State) (number : Nat) :
    closing s (number + k) = (closing s number).map (Event.shift k) := by
  unfold closing
  cases s.openObject <;> rfl

end Reader

end DialogueScript
