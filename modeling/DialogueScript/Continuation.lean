import DialogueScript.Label
import DialogueScript.Statement

/-!
# Continuations

A statement goes on in the `^` lines below it. `gather` reads the lines that follow a statement,
each according to its `Role`: a continuation extends the text, a `%` line gives a rule its context
and ends the reading, a line that is no statement is passed over, any other line ends the reading.
The label of a code object is never continued, since the lines below it are code.
-/

namespace DialogueScript

/-! ## What stands between the parts -/

/-- How a script asks for its continuation lines to be joined. -/
inductive Joining where
  | none
  | newline
  | space
deriving DecidableEq, Repr

namespace Joining

def keyword : Joining → Text
  | none => "none".toList
  | newline => "newline".toList
  | space => "space".toList

def separator : Joining → Text
  | none => []
  | newline => ['\n']
  | space => [' ']

def ofKeyword? (w : Text) : Option Joining := [none, newline, space].find? (·.keyword == w)

end Joining

/-- Stands for a line break inside the text of a definition. -/
def lineJoin : Text := ['<', 'c', 'r', 'l', 'f', '>']

/-- Definitions keep their line breaks; other commands are joined as the script asks, and directly
if it asks for something unknown. -/
def glue (command : Option Command) (concat : Text) : Text :=
  if command = some .define then lineJoin
  else ((Joining.ofKeyword? concat).map Joining.separator).getD []

/-! ## Reading on -/

inductive Role where
  | skip
  | extend (payload : Text)
  | context (payload : Text)
  | stop
deriving DecidableEq, Repr

/-- What a line does to a statement with the given command that is read above it. -/
def Role.ofLine (command : Option Command) (line : Text) : Role :=
  match Statement.ofLine? line with
  | none => .skip
  | some s =>
    match s.command?, command with
    | some .continuation, _ => .extend s.payload
    | some .previous, some .trigger => .context s.payload
    | some .previous, some .define => .stop
    | some .previous, _ => .skip
    | _, _ => .stop

/-- The text of a statement with its continuations, the context of a rule, and the number of lines
that were read for it. -/
structure Folded where
  text : Text
  previous : Option Text
  consumed : Nat
deriving DecidableEq, Repr

/-- What the following lines add to a statement. -/
def gather (command : Option Command) (glue : Text) : List Text → Folded
  | [] => ⟨[], none, 0⟩
  | line :: rest =>
    match Role.ofLine command line with
    | .skip =>
      let more := gather command glue rest
      { more with consumed := more.consumed + 1 }
    | .extend payload =>
      let more := gather command glue rest
      ⟨glue ++ payload ++ more.text, more.previous, more.consumed + 1⟩
    | .context payload => ⟨[], some payload, 1⟩
    | .stop => ⟨[], none, 0⟩

def fold (concat : Text) (command : Option Command) (payload : Text) (rest : List Text) : Folded :=
  if command = some .labelOpen ∧ Text.headWord payload = Label.objectKeyword then
    ⟨payload, none, 0⟩
  else
    let more := gather command (glue command concat) rest
    { more with text := payload ++ more.text }

/-! ## Reading on from a position -/

/-- The lines that are read after the line at `index`. A position below zero counts from the end,
and reading then goes on from the first line after the last one. There is no answer if it lies
before the first line. -/
def linesAfter? (lines : List Text) (index : Int) : Option (List Text) :=
  match index + 1 with
  | .ofNat start => some (lines.drop start)
  | .negSucc n =>
    if n < lines.length then some (lines.drop (lines.length - (n + 1)) ++ lines) else none

/-- Folds the lines after the one at `index`; the label of a code object needs none of them. -/
def foldAt? (concat : Text) (command : Option Command) (payload : Text) (lines : List Text)
    (index : Int) : Option Folded :=
  if command = some .labelOpen ∧ Text.headWord payload = Label.objectKeyword then
    some ⟨payload, none, 0⟩
  else (linesAfter? lines index).map (fold concat command payload)

end DialogueScript
