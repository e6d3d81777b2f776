import DialogueScript.Proofs.Reporting
import Mathlib.Data.List.Forall2

/-!
# Reports and settings

Every statement is checked in the middle of its line, under the settings and for the audience, but
by `parse_eq` nothing of it reaches the state: what is left of settings and audience is how the
events are reported. `said_entries` and `warnings_entries` tell what an event adds to each view of
the report; for whole scripts they give `parse_noninterference`: strictness, the class of pattern
characters, the source's name and the listener decide only which violations of the grammar are
reported and to whom.
-/

namespace DialogueScript

/-! ## Violations of the grammar -/

def syntaxPrefix : Text := "Syntax error: ".toList

namespace Warning

/-- The warning is about the grammar. -/
def isSyntax (w : Warning) : Bool := syntaxPrefix.isPrefixOf w.message

/-- The same warning under another source's name. -/
def inSource (source : Text) (w : Warning) : Warning := { w with source }

/-- The error gives the reason of the warning, behind the warning's source and line. -/
def Reports (w : Warning) (error : Text) : Prop :=
  ∃ reason near : Text, w.message = syntaxPrefix ++ reason ∧
    error = "Syntax error in ".toList ++ Location.place ⟨some w.source, some w.number, none, none⟩ ++
      " (".toList ++ near ++ "): ".toList ++ reason

end Warning

/-- The letter that the message begins with. -/
def Problem.initial : Problem → Char
  | deprecatedComment | unknownCommand _ | missingName | missingValue | unknownDefinition _
  | unsupportedVersion _ | unknownLabel _ => 'U'
  | lone _ => 'W'
  | badVersion => 'E'
  | unnamedTopic | unknownLanguage => 'T'
  | strayResponse | strayRedirect => 'R'
  | strayCondition => 'C'
  | unclosedObject _ => 'O'

theorem UnsupportedVersion.head?_message (e : UnsupportedVersion) : e.message.head? = some 'U' := by
  unfold message
  simp

theorem Problem.head?_message (p : Problem) : p.message.head? = some p.initial := by
  unfold message
  cases p with
  | unsupportedVersion e => exact e.head?_message
  | _ => simp [initial]

theorem not_syntax_of_head? {message : Text} {c : Char} (h : message.head? = some c)
    (hc : c ≠ 'S') : syntaxPrefix.isPrefixOf message = false := by
  obtain ⟨rest, rfl⟩ := List.head?_eq_some_iff.1 h
  unfold syntaxPrefix
  simp [List.isPrefixOf, hc.symm]

theorem Problem.not_syntax (p : Problem) : syntaxPrefix.isPrefixOf p.message = false := by
  have hp : p.initial ≠ 'S' := by cases p <;> simp [initial]
  exact not_syntax_of_head? p.head?_message hp

theorem Fault.isSyntax_author (e : Fault) (source : Text) (number : Nat) :
    Warning.isSyntax ⟨e.message .author, source, number⟩ = true :=
  List.isPrefixOf_iff_prefix.2 (List.prefix_append syntaxPrefix e.reason)

theorem Location.place_ne_nil (l : Location) {number : Int} (h : l.number = some number) :
    l.place ≠ [] := by
  unfold place
  simp only [h, Option.map_some, Option.toList_some]
  split <;> simp [List.intercalate]

/-- Errors are written for developers, with the place that the location names. -/
theorem Fault.message_developer (e : Fault) (mark : Text) (hm : e.location.mark = some mark)
    (hp : e.location.place ≠ []) :
    ∃ near, e.message .developer =
      "Syntax error in ".toList ++ e.location.place ++ " (".toList ++ near ++ "): ".toList ++
        e.reason := by
  refine ⟨Text.trimEnd ("near: ".toList ++ mark ++ [' '] ++ e.location.statement.getD []), ?_⟩
  unfold message Location.written
  simp [hm, hp]

namespace Event

variable (settings : Settings) (audience : Audience)

/-! ## The views of an event -/

/-- The warnings of an event. -/
def warnings (utf8 : Bool) (source : Text) : Event → List Warning
  | statement l =>
    ((fault? utf8 source l).map fun e => ⟨e.message .author, source, l.number⟩).toList
  | problem p number => [⟨p.message, source, number⟩]
  | _ => []

/-- The errors of an event, if they are listened to. -/
def errors (utf8 : Bool) (source : Text) : Event → List Text
  | statement l => ((fault? utf8 source l).map (·.message .developer)).toList
  | _ => []

theorem said_faultEntries (l : LogicalLine) :
    (faultEntries settings audience l).filterMap Entry.said? = [] := by
  unfold faultEntries
  split
  · rfl
  · split <;> rfl

theorem said_entries (settings' : Settings) (audience' : Audience) (e : Event) :
    (e.entries settings audience).filterMap Entry.said? =
      (e.entries settings' audience').filterMap Entry.said? := by
  cases e with
  | line => rfl
  | statement l => simp only [entries, List.filterMap_append, said_faultEntries]
  | note => rfl
  | problem => rfl

theorem warnings_entries (e : Event) :
    (e.entries settings audience).filterMap Entry.warning? =
      e.warnings settings.utf8 audience.source := by
  cases e with
  | line => rfl
  | statement l =>
    simp only [entries, warnings, faultEntries, List.filterMap_append]
    cases fault? settings.utf8 audience.source l with
    | none => rfl
    | some e => cases settings.strict && audience.listening <;> rfl
  | note => rfl
  | problem => rfl

theorem errors_entries (e : Event) :
    (e.entries settings audience).filterMap Entry.error? =
      if settings.strict && audience.listening then e.errors settings.utf8 audience.source
      else [] := by
  cases e with
  | statement l =>
    simp only [entries, errors, faultEntries, List.filterMap_append]
    cases fault? settings.utf8 audience.source l with
    | none => cases settings.strict && audience.listening <;> rfl
    | some e => cases settings.strict && audience.listening <;> rfl
  | _ => cases settings.strict && audience.listening <;> rfl

/-! ## Two reports of one event -/

theorem warnings_not_syntax (utf8 utf8' : Bool) (source source' : Text) (e : Event) :
    (e.warnings utf8' source').filter (!·.isSyntax) =
      ((e.warnings utf8 source).filter (!·.isSyntax)).map (.inSource source') := by
  cases e with
  | statement l =>
    have key : ∀ utf8 source,
        ((statement l).warnings utf8 source).filter (!·.isSyntax) = [] := by
      intro utf8 source
      simp only [warnings]
      cases fault? utf8 source l with
      | none => rfl
      | some e => simp [Fault.isSyntax_author]
    rw [key, key, List.map_nil]
  | problem p number =>
    simp [warnings, Warning.isSyntax, Problem.not_syntax, Warning.inSource]
  | _ => rfl

/-- A statement's warning and its error come from the same violation. -/
theorem reports (utf8 : Bool) (source : Text) (e : Event) :
    List.Forall₂ Warning.Reports ((e.warnings utf8 source).filter (·.isSyntax))
      (e.errors utf8 source) := by
  cases e with
  | statement l =>
    simp only [warnings, errors, fault?]
    cases Grammar.violation? utf8 l.command? l.text with
    | none => exact .nil
    | some v =>
      simp only [Option.map_some, Option.toList_some, List.filter_cons, Fault.isSyntax_author,
        if_true, List.filter_nil]
      obtain ⟨near, hn⟩ := Fault.message_developer
        ⟨v.message, some source, some l.number, some [l.mark], some l.text⟩ [l.mark] rfl
        (Location.place_ne_nil _ rfl)
      exact .cons ⟨v.message, near, rfl, hn⟩ .nil
  | problem p number => simp [warnings, errors, Warning.isSyntax, Problem.not_syntax]
  | _ => exact .nil

end Event

/-! ## Reports of whole scripts -/

section

variable (settings : Settings) (audience : Audience) (lines : List Text)

theorem parse_document :
    (parse settings audience lines).document =
      (Reader.read settings.supported lines).document := by
  rw [parse_eq]

theorem parse_warnings :
    (parse settings audience lines).warnings =
      (Reader.read settings.supported lines).events.flatMap
        (Event.warnings settings.utf8 audience.source) := by
  simp only [Parsed.warnings, parse_eq, List.filterMap_flatMap, Event.warnings_entries]

theorem parse_errors :
    (parse settings audience lines).errors =
      if settings.strict && audience.listening then
        (Reader.read settings.supported lines).events.flatMap
          (Event.errors settings.utf8 audience.source)
      else [] := by
  simp only [Parsed.errors, parse_eq, List.filterMap_flatMap, Event.errors_entries]
  split
  · rfl
  · simp

theorem parse_said (settings' : Settings) (audience' : Audience)
    (h : settings.supported = settings'.supported) :
    (parse settings audience lines).said = (parse settings' audience' lines).said := by
  simp only [Parsed.said, parse_eq, List.filterMap_flatMap, h]
  congr 1
  funext e
  exact e.said_entries settings audience settings' audience'

end

/-- Warnings of one kind, if `view` finds what they are about in each event. -/
theorem filter_warnings {α : Type} {utf8 : Bool} {source : Text} {keep : Warning → Bool}
    {view : Event → Option α} {f : α → Warning}
    (h : ∀ e : Event, (e.warnings utf8 source).filter keep = ((view e).map f).toList)
    (events : List Event) :
    (events.flatMap (Event.warnings utf8 source)).filter keep = (events.filterMap view).map f := by
  induction events with
  | nil => rfl
  | cons e events ih =>
    rw [List.flatMap_cons, List.filter_append, h, ih]
    cases hv : view e <;> simp [hv]

/-- The reports of the events in a row. -/
theorem reports_events (utf8 : Bool) (source : Text) (events : List Event) :
    List.Forall₂ Warning.Reports
      ((events.flatMap (Event.warnings utf8 source)).filter (·.isSyntax))
      (events.flatMap (Event.errors utf8 source)) := by
  induction events with
  | nil => exact .nil
  | cons e events ih =>
    simp only [List.flatMap_cons, List.filter_append]
    exact List.rel_append (e.reports utf8 source) ih

/-- What is read does not depend on how it is reported. Two readings of a script that support the
same version have the same document and say the same; apart from the violations of the grammar they
warn of the same, each under its own source. The violations depend on the class of pattern
characters alone. Errors are made for strict settings and a listener, one for each violation. -/
theorem parse_noninterference (lines : List Text) (settings settings' : Settings)
    (audience audience' : Audience) (h : settings.supported = settings'.supported) :
    let p := parse settings audience lines
    let p' := parse settings' audience' lines
    p.document = p'.document ∧ p.said = p'.said ∧
      p'.warnings.filter (!·.isSyntax) =
        (p.warnings.filter (!·.isSyntax)).map (.inSource audience'.source) ∧
      (settings.utf8 = settings'.utf8 → audience.source = audience'.source →
        p.warnings = p'.warnings) ∧
      (¬(settings.strict = true ∧ audience.listening = true) → p.errors = []) ∧
      (settings.strict = true → audience.listening = true →
        List.Forall₂ Warning.Reports (p.warnings.filter (·.isSyntax)) p.errors) := by
  intro p p'
  refine ⟨?_, parse_said settings audience lines settings' audience' h, ?_, ?_, ?_, ?_⟩
  · rw [parse_document, parse_document, h]
  · have he := Event.warnings_not_syntax settings.utf8 settings'.utf8 audience.source audience'.source
    simp only [p, p', parse_warnings, h, List.filter_flatMap, List.map_flatMap, he]
  · intro hu hs
    rw [parse_warnings, parse_warnings, h, hu, hs]
  · intro hn
    have hb : (settings.strict && audience.listening) = false := by simpa using hn
    rw [parse_errors, hb]
    rfl
  · intro hs hl
    rw [parse_errors, parse_warnings, hs, hl]
    exact reports_events _ _ _

/-- A capital letter is a violation in both classes of pattern characters, told apart by the
reason; only the strict settings report it to the listener. -/
theorem parse_noninterference_capital :
    let lines : List Text := [['+', ' ', 'A'], ['-', ' ', 'b'], ['*', 'c']]
    let p := parse {} ⟨['s'], true⟩ lines
    let p' := parse { strict := false, utf8 := true } ⟨[], false⟩ lines
    ({} : Settings).supported = ({ strict := false, utf8 := true } : Settings).supported ∧
      p.document = p'.document ∧ p.said = p'.said ∧
      List.Forall₂ Warning.Reports (p.warnings.filter (·.isSyntax)) p.errors ∧
      p.errors.length = 2 ∧ p'.errors = [] := by
  intro lines p p'
  obtain ⟨hd, hs, -, -, -, hr⟩ :=
    parse_noninterference lines {} { strict := false, utf8 := true } ⟨['s'], true⟩ ⟨[], false⟩ rfl
  obtain ⟨-, -, -, -, he, -⟩ :=
    parse_noninterference lines { strict := false, utf8 := true } {} ⟨[], false⟩ ⟨['s'], true⟩ rfl
  exact ⟨rfl, hd, hs, hr rfl rfl, by decide, he (by simp)⟩

end DialogueScript
