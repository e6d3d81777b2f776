import DialogueScript.Statement

/-!
# Kinds of lines

What a line outside of code objects is: part of a comment, a statement, or neither. Comments are
looked for first, and a line that holds the end of a block comment is nothing else.
-/

namespace DialogueScript.Reader

inductive LineKind where
  /-- A comment, or a line inside one. -/
  | comment
  | deprecatedComment
  /-- The start of a block comment that does not end on the line. -/
  | commentStart
  | commentEnd
  /-- A single character. -/
  | lone
  | statement (s : Statement)
deriving DecidableEq, Repr

def lineComment : Text := ['/', '/']

def deprecatedMark : Text := ['#']

def blockStart : Text := ['/', '*']

def blockEnd : Text := ['*', '/']

/-- The kind of a trimmed line. -/
def LineKind.of (inComment : Bool) (line : Text) : LineKind :=
  if lineComment.isPrefixOf line then .comment
  else if deprecatedMark.isPrefixOf line then .deprecatedComment
  else if blockStart.isPrefixOf line then
    if Text.occursIn blockEnd line then .comment else .commentStart
  else if Text.occursIn blockEnd line then .commentEnd
  else if inComment then .comment
  else
    match Statement.ofLine? line with
    | some s => .statement s.withoutComment
    | none => .lone

end DialogueScript.Reader
