import DialogueScript.Proofs.BlockComments

/-!
# Statements that are reached

A reading comes to a statement if it gets through the lines above and no code object is open there
(`Reached`). It ends before its last line only at a statement that it comes to
(`scan_next_eq_none_iff`). What is told of the statement's line is told apart from the rest of the
report by the number of the line (`Reached.read_events`).
-/

namespace DialogueScript

namespace Reader

/-- The reading of a script comes to the statement `l` on the line between `front` and `back`, in
the state `s`. -/
structure Reached (supported : Float) (front : List Text) (line : Text) (back : List Text)
    (s : State) (l : LogicalLine) : Prop where
  next : (scanBefore supported {} 0 (line :: back) front).next = some s
  outside : s.openObject = none
  statement : ∃ st, LineKind.of s.inComment (Text.trim line) = .statement st ∧
    l = s.logicalLine (front.length + 1) st back

theorem LineKind.ne_nil_of_statement {inComment : Bool} {line : Text} {st : Statement}
    (h : of inComment line = .statement st) : line ≠ [] := by
  rintro rfl
  obtain ⟨-, -, -, -, -, st', hs, -⟩ := of_eq_statement_iff.1 h
  cases hs

/-! ## Where a reading ends -/

/-- A reading without a next state comes to a line that has none. -/
theorem exists_of_next_eq_none {supported : Float} {s : State} {number : Nat}
    {later lines : List Text} (h : (scanBefore supported s number later lines).next = none) :
    ∃ front line back s', lines = front ++ line :: back ∧
      (scanBefore supported s number (line :: back ++ later) front).next = some s' ∧
      (s'.step supported (number + front.length + 1) line (back ++ later)).next = none := by
  induction lines generalizing s number with
  | nil => cases h
  | cons line rest ih =>
    cases hn : (s.step supported (number + 1) line (rest ++ later)).next with
    | none => exact ⟨[], line, rest, s, rfl, rfl, hn⟩
    | some next =>
      rw [scanBefore, Outcome.andThen_of_some hn] at h
      obtain ⟨front, line', back, s', rfl, hfront, hstep⟩ := ih h
      refine ⟨line :: front, line', back, s', rfl, ?_, ?_⟩
      · rw [scanBefore, ← List.append_assoc, Outcome.andThen_of_some hn]
        exact hfront
      · rwa [List.length_cons, Nat.add_comm front.length, ← Nat.add_assoc]

/-- Only a statement can end the reading. -/
theorem State.statement_of_next_eq_none {s : State} {supported : Float} {number : Nat} {line : Text}
    {rest : List Text} (h : (s.step supported number line rest).next = none) :
    ∃ st, s.openObject = none ∧ LineKind.of s.inComment (Text.trim line) = .statement st ∧
      (s.obey supported (s.logicalLine number st rest)).next = none := by
  have hs := s.step_stepped supported number line rest
  generalize s.step supported number line rest = outcome at hs h
  cases hs with
  | blank => cases h
  | code => cases h
  | aside => cases h
  | statement st _ ho hk => exact ⟨st, ho, hk, h⟩

namespace Reached

variable {supported : Float} {front back : List Text} {line : Text} {s : State} {l : LogicalLine}

theorem number (h : Reached supported front line back s l) : l.number = front.length + 1 := by
  obtain ⟨st, -, rfl⟩ := h.statement
  rfl

theorem step_eq (h : Reached supported front line back s l) :
    s.step supported (front.length + 1) line back =
      ⟨s.seen line :: .statement l :: (s.obey supported l).events, (s.obey supported l).next⟩ := by
  obtain ⟨st, hk, rfl⟩ := h.statement
  exact State.step_statement (LineKind.ne_nil_of_statement hk) h.outside hk

/-- The reading of a script up to a statement, the statement, and the lines below it. -/
theorem scan_eq (h : Reached supported front line back s l) :
    scan supported {} 0 (front ++ line :: back) =
      Outcome.andThen
        ⟨(scanBefore supported {} 0 (line :: back) front).events ++
          s.seen line :: .statement l :: (s.obey supported l).events, (s.obey supported l).next⟩
        fun next => scan supported next (front.length + 1) back := by
  rw [scan_append, Outcome.andThen_of_some h.next, Nat.zero_add, scan_cons, h.step_eq]
  cases hn : (s.obey supported l).next with
  | none => rw [Outcome.andThen_of_none rfl, Outcome.andThen_of_none rfl]
  | some next =>
    rw [Outcome.andThen_of_some (s := next) rfl, Outcome.andThen_of_some (s := next) rfl,
      List.append_assoc]

end Reached

/-- A reading ends before its last line just if it comes to a statement that ends it. -/
theorem scan_next_eq_none_iff {supported : Float} {lines : List Text} :
    (scan supported {} 0 lines).next = none ↔
      ∃ front line back s l, lines = front ++ line :: back ∧
        Reached supported front line back s l ∧ (s.obey supported l).next = none := by
  constructor
  · intro h
    rw [Reader.scan_eq] at h
    obtain ⟨front, line, back, s, rfl, hfront, hstep⟩ := exists_of_next_eq_none h
    rw [List.append_nil] at hfront hstep
    rw [Nat.zero_add] at hstep
    obtain ⟨st, ho, hk, hobey⟩ := State.statement_of_next_eq_none hstep
    exact ⟨front, line, back, s, _, rfl, ⟨hfront, ho, st, hk, rfl⟩, hobey⟩
  · rintro ⟨front, line, back, s, l, rfl, h, hobey⟩
    rw [h.scan_eq, Outcome.andThen_of_none (by exact hobey)]
    exact hobey

/-! ## What is told of a statement's line -/

namespace Reached

variable {supported : Float} {front back : List Text} {line : Text} {s : State} {l : LogicalLine}

theorem above_numbers (h : Reached supported front line back s l) :
    ∀ e ∈ (scanBefore supported {} 0 (line :: back) front).events, ∀ k, e.number? = some k →
      k < l.number := by
  intro e he k hk
  have := (scanBefore_numbers he hk).2
  rw [h.number]
  omega

/-- Nothing below the line of a statement that opens no code object is told of this line. -/
theorem below_numbers {s' : State} (ho : s'.openObject = none) (supported : Float) (number : Nat)
    (back : List Text) :
    ∀ e ∈ ((scan supported s' number back).finish (number + back.length)).events,
      ∀ k, e.number? = some k → number < k := by
  cases back with
  | nil =>
    intro e he
    simp [scan, Outcome.finish, closing, ho] at he
  | cons line back =>
    refine finish_numbers supported s' (Nat.le_refl number) ?_ _
    rw [List.length_cons]
    omega

/-- The events of a script with the statement, if it opens no code object. -/
theorem read_events (h : Reached supported front line back s l)
    (ho : ∀ s', (s.obey supported l).next = some s' → s'.openObject = none) :
    ∃ first last, (read supported (front ++ line :: back)).events =
        first ++ (s.seen line :: .statement l :: (s.obey supported l).events) ++ last ∧
      (∀ e ∈ first, ∀ k, e.number? = some k → k < l.number) ∧
      ∀ e ∈ last, ∀ k, e.number? = some k → l.number < k := by
  have hlength : (front ++ line :: back).length = front.length + 1 + back.length := by
    rw [List.length_append, List.length_cons]
    omega
  rw [read_eq_finish, h.scan_eq, hlength]
  refine ⟨(scanBefore supported {} 0 (line :: back) front).events, ?_⟩
  cases hn : (s.obey supported l).next with
  | none => exact ⟨[], by simp [Outcome.andThen, Outcome.finish], h.above_numbers, by simp⟩
  | some next =>
    have hbelow := below_numbers (ho next hn) supported (front.length + 1) back
    rw [← h.number] at hbelow
    refine ⟨_, ?_, h.above_numbers, hbelow⟩
    rw [Outcome.andThen_of_some rfl, Outcome.finish_append, h.number]

/-- The warnings at the line of a statement that opens no code object. -/
theorem filter_warnings {settings : Settings} (h : Reached settings.supported front line back s l)
    (ho : ∀ s', (s.obey settings.supported l).next = some s' → s'.openObject = none)
    (audience : Audience) :
    (parse settings audience (front ++ line :: back)).warnings.filter (·.number = l.number) =
      (Event.statement l :: (s.obey settings.supported l).events).flatMap
        (Event.warnings settings.utf8 audience.source) := by
  obtain ⟨first, last, hevents, hfirst, hlast⟩ := h.read_events ho
  have hother (events : List Event)
      (hne : ∀ e ∈ events, ∀ k, e.number? = some k → k ≠ l.number) :
      (events.flatMap (Event.warnings settings.utf8 audience.source)).filter
        (·.number = l.number) = [] := by
    refine List.filter_eq_nil_iff.2 fun w hw => ?_
    obtain ⟨e, he, hw⟩ := List.mem_flatMap.1 hw
    simpa using hne e he _ (Event.number_of_mem_warnings hw)
  have hhere : ∀ w ∈ (Event.statement l :: (s.obey settings.supported l).events).flatMap
      (Event.warnings settings.utf8 audience.source), w.number = l.number := by
    intro w hw
    obtain ⟨e, he, hw⟩ := List.mem_flatMap.1 hw
    have hnumber := Event.number_of_mem_warnings hw
    rcases List.mem_cons.1 he with rfl | he
    · exact (Option.some.inj hnumber).symm
    · exact State.obey_numbers h.outside he hnumber
  rw [parse_warnings, hevents, List.flatMap_append, List.flatMap_append, List.filter_append,
    List.filter_append, hother first fun e he k hk => Nat.ne_of_lt (hfirst e he k hk),
    hother last fun e he k hk => Nat.ne_of_gt (hlast e he k hk), List.nil_append, List.append_nil]
  exact List.filter_eq_self.2 fun w hw => by simpa using hhere w hw

/-- The report ends with the statement at which the reading ends. -/
theorem entries_of_next_eq_none {settings : Settings}
    (h : Reached settings.supported front line back s l)
    (hnext : (s.obey settings.supported l).next = none) (audience : Audience) :
    (parse settings audience (front ++ line :: back)).entries =
      ((scanBefore settings.supported {} 0 (line :: back) front).events ++
          [s.seen line, .statement l] ++ (s.obey settings.supported l).events).flatMap
        (Event.entries settings audience) := by
  have hscan := h.scan_eq
  rw [Outcome.andThen_of_none (by exact hnext)] at hscan
  have hnone : (scan settings.supported {} 0 (front ++ line :: back)).next = none := by
    rw [hscan]
    exact hnext
  simp only [parse_eq, read_of_none hnone, hscan]
  simp

end Reached

end Reader

end DialogueScript
