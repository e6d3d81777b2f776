import DialogueScript.Continuation

/-!
# Definitions

A definition reads `kind name = value`. The value of an array lists its elements line by line; all
other values are one line, in which the marks of joined lines are dropped.
-/

namespace DialogueScript

inductive DefinitionKind where
  | version
  /-- An option of the script itself. -/
  | option
  | table (t : DefinitionTable)
  | unknown (word : Text)
deriving DecidableEq, Repr

def DefinitionKind.ofWord (w : Text) : DefinitionKind :=
  if w = "version".toList then .version
  else if w = "local".toList then .option
  else
    match DefinitionTable.ofKeyword? w with
    | some t => .table t
    | none => .unknown w

/-- A definition in its parts. A missing name or value is empty. -/
structure Definition where
  kind : DefinitionKind
  name : Text
  value : Text
deriving DecidableEq, Repr

/-- The first equals sign parts the value from the kind and the name. -/
def Definition.ofText (s : Text) : Definition :=
  let left := Text.before '=' s
  let value := Text.trim (Text.after '=' s)
  let kind := DefinitionKind.ofWord (Text.headWord left)
  { kind
    name := Text.trim (Text.afterWord left)
    value := if kind = .table .array then value else Text.remove lineJoin value }

/-! ## Arrays -/

/-- The elements on one line: parted by bars if there are any, or else by blanks. -/
def lineElements (line : Text) : List Text :=
  if line.contains '|' then line.splitOn '|' else Text.words line

def spaceEscape : Text := ['\\', 's']

/-- The elements of an array, without the empty ones. An escaped space becomes a space. -/
def arrayElements (value : Text) : List Text :=
  (((Text.pieces lineJoin value).flatMap lineElements).filter fun e => !e.isEmpty).map
    (Text.replace spaceEscape [' '])

end DialogueScript
