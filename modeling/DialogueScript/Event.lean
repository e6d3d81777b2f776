import DialogueScript.Continuation
import DialogueScript.Decimal.Written
import DialogueScript.Grammar

/-!
# Events

What the reading of a script tells, line by line, before anyone asks how it is to be reported.
Events do not depend on the settings apart from the supported version, nor on the source's name.
-/

namespace DialogueScript

/-- A statement with its continuations, and the number of its line. -/
structure LogicalLine where
  mark : Char
  text : Text
  previous : Option Text
  number : Nat
deriving DecidableEq, Repr

def LogicalLine.command? (l : LogicalLine) : Option Command := Command.ofMark? l.mark

/-- A version that is not supported. -/
structure UnsupportedVersion where
  version : Float
  supported : Float

def UnsupportedVersion.message (e : UnsupportedVersion) : Text :=
  "Unsupported script version ".toList ++ Decimal.written e.version ++
    ". We only support ".toList ++ Decimal.written e.supported

/-! ## Problems -/

/-- What can be wrong with a line apart from the grammar of its text. -/
inductive Problem where
  | deprecatedComment
  | lone (line : Text)
  | unknownCommand (mark : Char)
  | missingName
  | missingValue
  | unknownDefinition (word : Text)
  | badVersion
  | unsupportedVersion (e : UnsupportedVersion)
  | unnamedTopic
  | unknownLanguage
  | unknownLabel (word : Text)
  | strayResponse
  | strayCondition
  | strayRedirect
  | unclosedObject (name : Text)

def Problem.message : Problem → Text
  | deprecatedComment => "Using the # symbol for comments is deprecated".toList
  | lone line => "Weird single-character line '".toList ++ line ++ "' found.".toList
  | unknownCommand mark => "Unknown command '".toList ++ [mark] ++ "'".toList
  | missingName => "Undefined variable name".toList
  | missingValue => "Undefined variable value".toList
  | unknownDefinition word => "Unknown definition type '".toList ++ word ++ "'".toList
  | badVersion => "Error parsing script version number: not a number".toList
  | unsupportedVersion e => e.message
  | unnamedTopic => "Topic label without a name".toList
  | unknownLanguage => "Trying to parse unknown programming language".toList
  | unknownLabel word => "Unknown label type '".toList ++ word ++ "'".toList
  | strayResponse => "Response found before trigger".toList
  | strayCondition => "Condition found before trigger".toList
  | strayRedirect => "Redirect found before trigger".toList
  | unclosedObject name =>
    "Object '".toList ++ name ++ "' was never closed and has been discarded".toList

/-! ## Notes -/

/-- What a statement did. -/
inductive Note where
  | beginBlock
  | topic (name : Text)
  | endOfLabel
  | rule (pattern : Text)
  | response (text : Text)
  | condition (text : Text)
  | redirect (text : Text)
  | option (name value : Text)
  | assignment (t : TextTable) (name value : Text)
  | array (name value : Text)
deriving DecidableEq, Repr

def Note.message : Note → Text
  | beginBlock => "Found the BEGIN block.".toList
  | topic name => "Set topic to ".toList ++ name
  | endOfLabel => "End topic label.".toList
  | rule pattern => "\tTrigger pattern: ".toList ++ pattern
  | response text => "\tResponse: ".toList ++ text
  | condition text => "\tAdding condition: ".toList ++ text
  | redirect text => "\tRedirect response to: ".toList ++ text
  | option name value => "\tSet parser option ".toList ++ name ++ " = ".toList ++ value
  | assignment t name value =>
    "\tSet ".toList ++ t.keyword ++ [' '] ++ name ++ " = ".toList ++ value
  | array name value => "\tArray ".toList ++ name ++ " = ".toList ++ value

/-! ## Events -/

inductive Event where
  /-- A line that is not blank, with the active topic, inside a code object or not. -/
  | line (text topic : Text) (inObject : Bool)
  /-- A statement, before it takes effect. -/
  | statement (l : LogicalLine)
  | note (n : Note)
  | problem (p : Problem) (number : Nat)

end DialogueScript
