import DialogueScript.Text.Basic

/-!
# Locations

Where in a script something went wrong, as authors see it (source and line) and as developers see
it (with the statement besides).
-/

namespace DialogueScript

/-- A place in a script, as far as it is known. -/
structure Location where
  source : Option Text := none
  number : Option Int := none
  mark : Option Text := none
  statement : Option Text := none
deriving DecidableEq, Repr

/-- For whom a place is written out. -/
inductive Detail where
  | author
  | developer
deriving DecidableEq, Repr

namespace Location

/-- Source and line, as far as they are known; an empty source is not named. -/
def place (l : Location) : Text :=
  let source := l.source.getD []
  let number := l.number.map fun n => "line ".toList ++ (toString n).toList
  [' '].intercalate ((if source = [] then [] else [source]) ++ number.toList)

/-- The mark and the statement with one space between, without blanks at the ends. -/
def near (l : Location) : Text :=
  Text.trim (l.mark.getD [] ++ [' '] ++ l.statement.getD [])

/-- Developers see the statement in parentheses behind the place. -/
def written (l : Location) : Detail → Text
  | .author => l.place
  | .developer =>
    match l.mark with
    | none => l.place
    | some mark =>
      let near := Text.trimEnd ("near: ".toList ++ mark ++ [' '] ++ l.statement.getD [])
      (if l.place = [] then [] else l.place ++ [' ']) ++ ['('] ++ near ++ [')']

end Location

/-- What is wrong with a statement, and where. -/
structure Fault where
  reason : Text
  location : Location
deriving DecidableEq, Repr

/-- Authors get the source and the line apart from the message. -/
def Fault.message (e : Fault) : Detail → Text
  | .author => "Syntax error: ".toList ++ e.reason
  | .developer =>
    "Syntax error in ".toList ++ e.location.written .developer ++ ": ".toList ++ e.reason

end DialogueScript
