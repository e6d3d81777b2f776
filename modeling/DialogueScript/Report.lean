import DialogueScript.Event
import DialogueScript.Location
import DialogueScript.Settings

/-!
# Reports

An event is reported by entries of three kinds: what is said about the course of the reading, the
warnings, and the errors, which are made only for a listener and only in strict settings.
-/

namespace DialogueScript

structure Warning where
  message : Text
  source : Text
  number : Nat
deriving DecidableEq, Repr

inductive Entry where
  | said (message : Text)
  | warned (w : Warning)
  | failed (message : Text)
deriving DecidableEq, Repr

/-- How a script is called in its report, and whether someone listens to errors. -/
structure Audience where
  source : Text
  listening : Bool
deriving DecidableEq, Repr

/-- What is said of a line before it is looked at. -/
def lineAnnouncement (text topic : Text) (inObject : Bool) : Text :=
  "Line: ".toList ++ text ++ " (topic: ".toList ++ topic ++ ") inobj: ".toList ++
    (if inObject then "True" else "False").toList

/-- What is said of a statement before it takes effect. -/
def LogicalLine.announcement (l : LogicalLine) : Text :=
  "Command: ".toList ++ [l.mark] ++ "; line: ".toList ++ l.text

namespace Event

/-- What the grammar finds wrong with a statement. -/
def fault? (utf8 : Bool) (source : Text) (l : LogicalLine) : Option Fault :=
  (Grammar.violation? utf8 l.command? l.text).map fun v =>
    { reason := v.message
      location := ⟨some source, some l.number, some [l.mark], some l.text⟩ }

def faultEntries (settings : Settings) (audience : Audience) (l : LogicalLine) : List Entry :=
  match fault? settings.utf8 audience.source l with
  | none => []
  | some e =>
    .warned ⟨e.message .author, audience.source, l.number⟩ ::
      if settings.strict && audience.listening then [.failed (e.message .developer)] else []

/-- The entries of an event, in order. -/
def entries (settings : Settings) (audience : Audience) : Event → List Entry
  | line text topic inObject => [.said (lineAnnouncement text topic inObject)]
  | statement l => faultEntries settings audience l ++ [.said l.announcement]
  | note n => [.said n.message]
  | problem p number => [.warned ⟨p.message, audience.source, number⟩]

end Event

/-! ## Views of a report -/

namespace Entry

def said? : Entry → Option Text
  | said message => some message
  | _ => none

def warning? : Entry → Option Warning
  | warned w => some w
  | _ => none

def error? : Entry → Option Text
  | failed message => some message
  | _ => none

end Entry

end DialogueScript
