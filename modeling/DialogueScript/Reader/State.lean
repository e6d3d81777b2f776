import DialogueScript.Event
import DialogueScript.Settings

/-!
# The state of a reading

What a reader has to know between two lines: the document so far, the active topic, the rule that
responses belong to, whether a block comment is open, and the code object that is being read.
-/

namespace DialogueScript

def defaultTopic : Text := "random".toList

def beginTopic : Text := "__begin__".toList

def defaultLanguage : Text := "python".toList

/-- The place of a rule in a document. -/
structure RulePlace where
  topic : Text
  index : Nat
deriving DecidableEq, Repr

def Document.modifyRule (d : Document) (place : RulePlace) (f : Rule → Rule) : Document :=
  d.modifyTopic place.topic (·.modifyRule place.index f)

namespace Reader

structure State where
  document : Document := {}
  topic : Text := defaultTopic
  /-- The rule that responses, conditions and redirects belong to. -/
  openRule : Option RulePlace := none
  inComment : Bool := false
  /-- The code object that is open, with the lines read so far. -/
  openObject : Option CodeObject := none
  options : Options := {}
deriving DecidableEq, Repr

/-- What a line leads to: events, and the next state unless the script was refused. -/
structure Outcome where
  events : List Event
  next : Option State

namespace State

def go (s : State) (events : List Event) : Outcome := ⟨events, some s⟩

def warn (s : State) (p : Problem) (number : Nat) : Outcome := s.go [.problem p number]

def note (s : State) (n : Note) : Outcome := s.go [.note n]

end State

end Reader

end DialogueScript
