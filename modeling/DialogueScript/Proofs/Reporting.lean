import DialogueScript.Parse

/-!
# Reporting on the way

A parser reports while it reads, and checks every statement in the middle of its line. It comes to
the same as reading the script first and reporting on the events afterwards (`parse_eq`): the check
leaves the state as it is (`check_eq`), so each line does to the state what `step` does, and reports
what `step` tells (`line_eq`); by induction so does a whole script (`lines_eq`).
-/

namespace DialogueScript

variable {settings : Settings} {audience : Audience} {s : Reader.State}

/-- The outcome with the report on its events. -/
def Reader.Outcome.reported (settings : Settings) (audience : Audience) (o : Outcome) :
    Parser.Result Unit :=
  ⟨o.events.flatMap (Event.entries settings audience), o.next.map ((), ·)⟩

namespace Parser

/-! ## Actions in a row -/

section

variable {α β : Type} {p : Parser α} {k : α → Parser β}

@[simp] theorem settings_bind (k : Settings → Parser β) :
    (Parser.settings >>= k).run settings audience s = (k settings).run settings audience s := rfl

@[simp] theorem audience_bind (k : Audience → Parser β) :
    (Parser.audience >>= k).run settings audience s = (k audience).run settings audience s := rfl

@[simp] theorem state_bind (k : Reader.State → Parser β) :
    (state >>= k).run settings audience s = (k s).run settings audience s := rfl

/-- What is reported does not touch the state. -/
@[simp] theorem report_bind (entries : List Entry) (k : Unit → Parser β) :
    (report entries >>= k).run settings audience s =
      ⟨entries ++ ((k ()).run settings audience s).entries, ((k ()).run settings audience s).next⟩ := rfl

theorem bind_of_some {a : α} {s' : Reader.State} {entries : List Entry}
    (h : p.run settings audience s = ⟨entries, some (a, s')⟩) :
    (p >>= k).run settings audience s =
      ⟨entries ++ ((k a).run settings audience s').entries, ((k a).run settings audience s').next⟩ := by
  simp only [bind, h]

theorem bind_of_none {entries : List Entry} (h : p.run settings audience s = ⟨entries, none⟩) :
    (p >>= k).run settings audience s = ⟨entries, none⟩ := by
  simp only [bind, h]

end

/-! ## Lines -/

/-- A fault is reported to whom it concerns, and reading goes on in the same state. -/
theorem reportFault_eq (e : Fault) (number : Nat) :
    (reportFault e number).run settings audience s =
      ⟨.warned ⟨e.message .author, audience.source, number⟩ ::
          if settings.strict && audience.listening then [.failed (e.message .developer)] else [],
        some ((), s)⟩ := by
  have hwarn : (warn (e.message .author) number).run settings audience s =
      ⟨[.warned ⟨e.message .author, audience.source, number⟩], some ((), s)⟩ := rfl
  rw [reportFault, bind_of_some hwarn, settings_bind, audience_bind]
  split
  · rfl
  · rfl

/-- The check of a statement reports its faults and leaves the state as it is. -/
theorem check_eq (l : LogicalLine) :
    (check l).run settings audience s = ⟨Event.faultEntries settings audience l, some ((), s)⟩ := by
  rw [check, settings_bind, audience_bind, Event.faultEntries]
  cases Event.fault? settings.utf8 audience.source l with
  | none => rfl
  | some e => exact reportFault_eq e l.number

theorem obey_eq (l : LogicalLine) :
    (obey l).run settings audience s = (s.obey settings.supported l).reported settings audience := by
  rw [obey, settings_bind, state_bind, perform, settings_bind, audience_bind, report_bind, goOn,
    List.append_nil]
  rfl

theorem statement_eq (number : Nat) (st : Statement) (rest : List Text) :
    let l := s.logicalLine number st rest
    let outcome := s.obey settings.supported l
    (statement number st rest).run settings audience s =
      Reader.Outcome.reported settings audience
        { outcome with events := .statement l :: outcome.events } := by
  intro l outcome
  rw [statement, state_bind, bind_of_some (check_eq l), say, report_bind, obey_eq]
  simp only [Reader.Outcome.reported, List.flatMap_cons, Event.entries, List.append_assoc]
  rfl

theorem plainLine_eq (number : Nat) (trimmed : Text) (rest : List Text) :
    (plainLine number trimmed rest).run settings audience s =
      (s.readLine settings.supported number trimmed rest).reported settings audience := by
  rw [plainLine, state_bind, Reader.State.readLine]
  cases Reader.LineKind.of s.inComment trimmed with
  | statement st => exact statement_eq number st rest
  | _ => rfl

/-- A line does to the state what `step` does and reports what `step` tells. -/
theorem line_eq (number : Nat) (text : Text) (rest : List Text) :
    (line number text rest).run settings audience s =
      (s.step settings.supported number text rest).reported settings audience := by
  rw [line, Reader.State.step]
  simp only
  split
  · rfl
  · rw [state_bind, say, report_bind]
    cases s.openObject with
    | some o => rfl
    | none =>
      simp only [plainLine_eq]
      rfl

/-! ## Scripts -/

theorem lines_eq (number : Nat) (text : List Text) :
    (lines number text).run settings audience s =
      (Reader.scan settings.supported s number text).reported settings audience := by
  induction text generalizing s number with
  | nil => rfl
  | cons first rest ih =>
    have hline : (line (number + 1) first rest).run settings audience s =
        (s.step settings.supported (number + 1) first rest).reported settings audience :=
      line_eq (number + 1) first rest
    rw [lines, Reader.scan]
    generalize s.step settings.supported (number + 1) first rest = outcome at hline ⊢
    obtain ⟨events, next⟩ := outcome
    cases next with
    | none => rw [bind_of_none hline]; rfl
    | some s' =>
      rw [bind_of_some hline, ih]
      simp only [Reader.Outcome.reported, List.flatMap_append]

theorem closing_eq (number : Nat) :
    (closing number).run settings audience s =
      ⟨(Reader.closing s number).flatMap (Event.entries settings audience), some ((), s)⟩ := by
  rw [closing, state_bind, Reader.closing]
  cases s.openObject with
  | some o => rfl
  | none => rfl

end Parser

/-- Parsing comes to the document that is read, and to the report on all that was told. -/
theorem parse_eq (settings : Settings) (audience : Audience) (lines : List Text) :
    parse settings audience lines =
      { document := (Reader.read settings.supported lines).document
        entries := (Reader.read settings.supported lines).events.flatMap
          (Event.entries settings audience) } := by
  have hlines : (Parser.lines 0 lines).run settings audience {} =
      (Reader.scan settings.supported {} 0 lines).reported settings audience :=
    Parser.lines_eq 0 lines
  rw [parse, Parser.script, Reader.read]
  generalize Reader.scan settings.supported {} 0 lines = outcome at hlines ⊢
  obtain ⟨events, next⟩ := outcome
  cases next with
  | none => rw [Parser.bind_of_none hlines]; rfl
  | some s =>
    rw [Parser.bind_of_some hlines, Parser.closing_eq, ← List.flatMap_append]
    rfl

end DialogueScript
