import DialogueScript.Reader.Effect
import DialogueScript.Reader.LineKind

/-!
# Reading a script

A script is read line by line. `step` reads one line in view of the lines after it, `scan` all of
them, and `read` tells what came of it. Nothing is checked or reported here; a parser does so on its
way over the same lines.
-/

namespace DialogueScript.Reader

namespace State

/-- A code object without a name is dropped. -/
def closeObject (s : State) (o : CodeObject) : State :=
  { s with
    document := if o.name = [] then s.document else s.document.addObject o
    openObject := none }

/-- A line inside a code object: its end, or a line of code kept as it is. -/
def readCode (s : State) (o : CodeObject) (line : Text) : State :=
  if Label.closesObject line then s.closeObject o
  else { s with openObject := some { o with code := o.code ++ [line] } }

/-- The statement of a line, continued by the lines after it. -/
def logicalLine (s : State) (number : Nat) (st : Statement) (rest : List Text) : LogicalLine :=
  let folded := fold s.options.concat st.command? st.payload rest
  ⟨st.mark, folded.text, folded.previous, number⟩

/-- A line outside of code objects. -/
def readLine (supported : Float) (s : State) (number : Nat) (line : Text) (rest : List Text) :
    Outcome :=
  match LineKind.of s.inComment line with
  | .comment => s.go []
  | .deprecatedComment => s.warn .deprecatedComment number
  | .commentStart => { s with inComment := true }.go []
  | .commentEnd => { s with inComment := false }.go []
  | .lone => s.warn (.lone line) number
  | .statement st =>
    let l := s.logicalLine number st rest
    let outcome := s.obey supported l
    { outcome with events := .statement l :: outcome.events }

/-- Blank lines leave no trace. -/
def step (supported : Float) (s : State) (number : Nat) (line : Text) (rest : List Text) :
    Outcome :=
  let trimmed := Text.trim line
  if trimmed = [] then s.go []
  else
    let outcome :=
      match s.openObject with
      | some o => (s.readCode o line).go []
      | none => s.readLine supported number trimmed rest
    { outcome with events := .line trimmed s.topic s.openObject.isSome :: outcome.events }

end State

/-- Reads the lines that follow the first `number` lines of a script. -/
def scan (supported : Float) (s : State) (number : Nat) : List Text → Outcome
  | [] => s.go []
  | line :: rest =>
    let outcome := s.step supported (number + 1) line rest
    match outcome.next with
    | none => outcome
    | some next =>
      let later := scan supported next (number + 1) rest
      { later with events := outcome.events ++ later.events }

/-- A code object that is still open at the end of the script. -/
def closing (s : State) (number : Nat) : List Event :=
  match s.openObject with
  | some o => [.problem (.unclosedObject o.name) number]
  | none => []

/-- What came of reading a script; there is no document if its version is not supported. -/
structure Reading where
  events : List Event
  document : Option Document

def read (supported : Float) (lines : List Text) : Reading :=
  let outcome := scan supported {} 0 lines
  match outcome.next with
  | none => ⟨outcome.events, none⟩
  | some s => ⟨outcome.events ++ closing s lines.length, some s.document⟩

end DialogueScript.Reader
