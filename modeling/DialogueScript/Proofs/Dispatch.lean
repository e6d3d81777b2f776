import DialogueScript.Proofs.Scan

/-!
# Statements in a run

`dispatched` are the statements in a run that have a command, in order. Each of them stands on a
line of its own: a run can be cut at the line of any statement (`scanBefore_cut`), and what is told
about a part of a script carries the numbers of its lines (`scanBefore_numbers`).
-/

namespace DialogueScript

/-! ## Dispatched statements -/

/-- The statement of an event, if it has a command. -/
def Event.dispatched? : Event → Option LogicalLine
  | .statement l => if l.command?.isSome then some l else none
  | _ => none

def dispatched (events : List Event) : List LogicalLine := events.filterMap Event.dispatched?

/-- The number of the line that an event is about, if it is a statement or a problem. -/
def Event.number? : Event → Option Nat
  | .statement l => some l.number
  | .problem _ number => some number
  | _ => none

/-- Name and language of the code object that a statement opens. -/
def LogicalLine.object? (l : LogicalLine) : Option (Text × Text) :=
  match l.command?, Label.ofText l.text with
  | some .labelOpen, .object name language => some (name, language.getD defaultLanguage)
  | _, _ => none

/-- A label opens a code object if its first word is the keyword for it. The next two words are
name and language. -/
theorem LogicalLine.object?_eq_some_iff {l : LogicalLine} {name language : Text} :
    l.object? = some (name, language) ↔
      l.command? = some .labelOpen ∧ ∃ rest, Text.words l.text = Label.objectKeyword :: rest ∧
        name = rest.headD [] ∧
        language = ((rest.drop 1).head?.map Text.lowercase).getD defaultLanguage := by
  constructor
  · intro h
    unfold object? at h
    split at h
    · next hc hl =>
      cases h
      obtain ⟨rest, hw, hname, rfl⟩ := Label.ofText_eq_object_iff.1 hl
      exact ⟨hc, rest, hw, hname, rfl⟩
    · cases h
  · rintro ⟨hc, rest, hw, rfl, rfl⟩
    simp only [object?, hc, Label.ofText_eq_object_iff.2 ⟨rest, hw, rfl, rfl⟩]

section

variable (events : List Event)

theorem dispatched_append (events' : List Event) :
    dispatched (events ++ events') = dispatched events ++ dispatched events' :=
  List.filterMap_append

@[simp] theorem dispatched_nil : dispatched [] = [] := rfl

@[simp] theorem dispatched_problem (p : Problem) (number : Nat) :
    dispatched (.problem p number :: events) = dispatched events := rfl

theorem dispatched_statement (l : LogicalLine) :
    dispatched (.statement l :: events) =
      if l.command?.isSome then l :: dispatched events else dispatched events := by
  unfold dispatched
  by_cases h : l.command?.isSome
  · rw [List.filterMap_cons_some (b := l) (by simp [Event.dispatched?, h]), if_pos h]
  · rw [List.filterMap_cons_none (by simp [Event.dispatched?, h]), if_neg h]

theorem statement_of_dispatched {events : List Event} {l : LogicalLine}
    (h : l ∈ dispatched events) : .statement l ∈ events := by
  obtain ⟨e, he, hd⟩ := List.mem_filterMap.1 h
  cases e with
  | statement l' =>
    obtain rfl : l' = l := (Option.ite_none_right_eq_some.1 hd).2 |> Option.some.inj
    exact he
  | _ => cases hd

@[simp] theorem dispatched_notes (notes : List Note) : dispatched (notes.map .note) = [] := by
  induction notes with
  | nil => rfl
  | cons n notes ih => exact ih

@[simp] theorem dispatched_problems (problems : List Problem) (number : Nat) :
    dispatched (problems.map (.problem · number)) = [] := by
  induction problems with
  | nil => rfl
  | cons p problems ih => exact ih

end

namespace Reader

namespace State

variable {s : State} {supported : Float} {number : Nat} {line : Text} {rest : List Text}

@[simp] theorem dispatched_seen (events : List Event) :
    dispatched (s.seen line :: events) = dispatched events := rfl

/-! ## The events of a line -/

/-- A statement does not dispatch another one. -/
theorem dispatched_obey (supported : Float) (l : LogicalLine) (ho : s.openObject = none) :
    dispatched (s.obey supported l).events = [] := by
  have hk := s.obey_obeyed supported l ho
  generalize s.obey supported l = outcome at hk
  cases hk with
  | entered => simp
  | opened => simp
  | _ => rfl

/-- A line outside of code objects. -/
theorem step_outside (h : Text.trim line ≠ []) (ho : s.openObject = none) :
    s.step supported number line rest =
      ⟨s.seen line :: (s.readLine supported number (Text.trim line) rest).events,
        (s.readLine supported number (Text.trim line) rest).next⟩ := by
  unfold step seen
  rw [if_neg h, ho]

/-- A statement on a line of its own. -/
theorem step_statement {st : Statement} (h : Text.trim line ≠ []) (ho : s.openObject = none)
    (hk : LineKind.of s.inComment (Text.trim line) = .statement st) :
    s.step supported number line rest =
      ⟨s.seen line :: .statement (s.logicalLine number st rest) ::
        (s.obey supported (s.logicalLine number st rest)).events,
        (s.obey supported (s.logicalLine number st rest)).next⟩ := by
  rw [step_outside h ho]
  simp only [readLine, hk]

/-- At most one statement is told of a line; if there is one, the line is outside of code. -/
theorem step_dispatched (s : State) (supported : Float) (number : Nat) (line : Text)
    (rest : List Text) :
    dispatched (s.step supported number line rest).events = [] ∨
      ∃ st, Text.trim line ≠ [] ∧ s.openObject = none ∧
        LineKind.of s.inComment (Text.trim line) = .statement st ∧
        dispatched (s.step supported number line rest).events = [s.logicalLine number st rest] := by
  have hk := s.step_stepped supported number line rest
  generalize s.step supported number line rest = outcome at hk
  cases hk with
  | blank => exact .inl rfl
  | code => exact .inl rfl
  | aside inComment problems => exact .inl (by simp)
  | statement st h ho hk =>
    have hd := dispatched_obey supported (s.logicalLine number st rest) ho
    by_cases hc : (s.logicalLine number st rest).command?.isSome
    · exact .inr ⟨st, h, ho, hk, by simp [dispatched_statement, hc, hd]⟩
    · exact .inl (by simp [dispatched_statement, hc, hd])

/-- A statement tells nothing about other lines. -/
theorem obey_numbers {l : LogicalLine} (ho : s.openObject = none) {e : Event} {k : Nat}
    (he : e ∈ (s.obey supported l).events) (hn : e.number? = some k) : k = l.number := by
  have hk := s.obey_obeyed supported l ho
  generalize s.obey supported l = outcome at hk he
  cases hk with
  | entered name links notes =>
    obtain ⟨n, -, rfl⟩ := List.mem_map.1 he
    cases hn
  | opened name language problems =>
    obtain ⟨p, -, rfl⟩ := List.mem_map.1 he
    exact (Option.some.inj hn).symm
  | ignored => cases he
  | _ =>
    obtain rfl := List.mem_singleton.1 he
    cases hn <;> rfl

/-- A line tells nothing about other lines. -/
theorem step_numbers {e : Event} {k : Nat} (he : e ∈ (s.step supported number line rest).events)
    (hn : e.number? = some k) : k = number := by
  have hk := s.step_stepped supported number line rest
  generalize s.step supported number line rest = outcome at hk he
  cases hk with
  | blank => cases he
  | code =>
    obtain rfl := List.mem_singleton.1 he
    cases hn
  | aside inComment problems =>
    rcases List.mem_cons.1 he with rfl | he
    · cases hn
    · obtain ⟨p, -, rfl⟩ := List.mem_map.1 he
      exact (Option.some.inj hn).symm
  | statement st h ho hk =>
    rcases List.mem_cons.1 he with rfl | he
    · cases hn
    rcases List.mem_cons.1 he with rfl | he
    · exact (Option.some.inj hn).symm
    · exact obey_numbers ho he hn

end State

/-! ## The events of a run -/

variable {supported : Float} {number : Nat} {s : State} {later lines : List Text}

/-- A part of a script tells nothing about lines that are not in it. -/
theorem scanBefore_numbers {e : Event} {k : Nat}
    (he : e ∈ (scanBefore supported s number later lines).events) (hn : e.number? = some k) :
    number < k ∧ k ≤ number + lines.length := by
  obtain ⟨n, line, hline, hp⟩ :=
    scanBefore_forall (P := fun n _ e => ∀ k, e.number? = some k → k = n)
      (fun _ _ _ _ _ he _ hn => State.step_numbers he hn) e he
  obtain ⟨hlength, -⟩ := List.getElem?_eq_some_iff.1 hline
  rw [hp k hn]
  omega

/-- What is dispatched is dispatched in order, up to where the reading ends. -/
theorem Outcome.dispatched_andThen (o : Outcome) (k : State → Outcome) :
    dispatched (o.andThen k).events =
      dispatched o.events ++ o.next.elim [] fun s => dispatched (k s).events := by
  cases h : o.next with
  | none =>
    rw [andThen_of_none h]
    simp
  | some s =>
    rw [andThen_of_some h, dispatched_append]
    rfl

/-- The statement `l` stands on a line in `lines`, behind the statements `before`. -/
inductive Cut (supported : Float) (s : State) (number : Nat) (later lines : List Text)
    (before : List LogicalLine) (l : LogicalLine) : Prop
  | intro (front : List Text) (line : Text) (back : List Text) (s' : State) (st : Statement)
    (hlines : lines = front ++ line :: back)
    (hs : (scanBefore supported s number (line :: back ++ later) front).next = some s')
    (hb : dispatched (scanBefore supported s number (line :: back ++ later) front).events = before)
    (hl : Text.trim line ≠ []) (ho : s'.openObject = none)
    (hk : LineKind.of s'.inComment (Text.trim line) = .statement st)
    (he : l = s'.logicalLine (number + front.length + 1) st (back ++ later))

/-- A cut below a line is a cut of the part that begins with the line. -/
theorem Cut.cons {line : Text} {rest : List Text} {next : State} {before : List LogicalLine}
    {l : LogicalLine}
    (hnext : (s.step supported (number + 1) line (rest ++ later)).next = some next)
    (h : Cut supported next (number + 1) later rest before l) :
    Cut supported s number later (line :: rest)
      (dispatched (s.step supported (number + 1) line (rest ++ later)).events ++ before) l := by
  obtain ⟨front, line', back, s', st, rfl, hs, hb, hl, ho, hk, rfl⟩ := h
  have hstep : scanBefore supported s number (line' :: back ++ later) (line :: front) =
      ⟨(s.step supported (number + 1) line (front ++ line' :: back ++ later)).events ++
        (scanBefore supported next (number + 1) (line' :: back ++ later) front).events, some s'⟩ := by
    rw [scanBefore, ← List.append_assoc, Outcome.andThen_of_some hnext, hs]
  refine ⟨line :: front, line', back, s', st, rfl, ?_, ?_, hl, ho, hk, ?_⟩
  · rw [hstep]
  · rw [hstep, dispatched_append, hb]
  · rw [List.length_cons, Nat.add_right_comm number, Nat.add_assoc number]

/-- A run can be cut at the line of each of its statements. -/
theorem scanBefore_cut {before after : List LogicalLine} {l : LogicalLine}
    (h : dispatched (scanBefore supported s number later lines).events = before ++ l :: after) :
    Cut supported s number later lines before l := by
  induction lines generalizing s number before with
  | nil => simp [scanBefore] at h
  | cons line rest ih =>
    rw [scanBefore, Outcome.dispatched_andThen] at h
    have further : ∀ before',
        ((s.step supported (number + 1) line (rest ++ later)).next.elim [] fun next =>
          dispatched (scanBefore supported next (number + 1) later rest).events) =
            before' ++ l :: after →
        Cut supported s number later (line :: rest)
          (dispatched (s.step supported (number + 1) line (rest ++ later)).events ++ before') l := by
      intro before' hafter
      cases hnext : (s.step supported (number + 1) line (rest ++ later)).next with
      | none => simp [hnext] at hafter
      | some next =>
        rw [hnext] at hafter
        exact .cons hnext (ih hafter)
    rcases s.step_dispatched supported (number + 1) line (rest ++ later) with
      hd | ⟨st, hl, ho, hk, hd⟩
    · rw [hd] at h further
      exact further before h
    · rw [hd] at h further
      cases before with
      | nil =>
        cases h
        exact ⟨[], line, rest, s, st, rfl, rfl, rfl, hl, ho, hk, rfl⟩
      | cons b before =>
        obtain ⟨rfl, hafter⟩ := List.cons.inj h
        exact further before hafter

theorem dispatched_read {d : Document} (h : (read supported lines).document = some d) :
    dispatched (read supported lines).events =
      dispatched (scanBefore supported {} 0 [] lines).events := by
  obtain ⟨s, hs, -⟩ := next_of_document h
  rw [read_of_some hs, dispatched_append, scan_eq, closing]
  split <;> simp

end Reader

end DialogueScript
