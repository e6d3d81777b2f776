import DialogueScript.Command
import DialogueScript.Text.Occurrence

/-!
# Statements

A line of a script that says something is a statement: a mark, and a payload without blanks at its
ends. A trimmed line of fewer than two characters is no statement. A comment on the same line
begins at a pair of slashes between two spaces.
-/

namespace DialogueScript

structure Statement where
  mark : Char
  payload : Text
deriving DecidableEq, Repr

namespace Statement

def ofLine? (line : Text) : Option Statement :=
  match Text.trim line with
  | mark :: c :: rest => some ⟨mark, Text.trim (c :: rest)⟩
  | _ => none

def inlineComment : Text := [' ', '/', '/', ' ']

/-- The payload up to its first comment. -/
def withoutComment (s : Statement) : Statement :=
  match Text.cut inlineComment s.payload with
  | some (kept, _) => { s with payload := Text.trim kept }
  | none => s

def command? (s : Statement) : Option Command := Command.ofMark? s.mark

end Statement

end DialogueScript
