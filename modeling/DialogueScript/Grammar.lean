import DialogueScript.Label
import DialogueScript.Command
import DialogueScript.Text.Shape

/-!
# The grammar of statements

What is wrong with the text of a statement, by its command. `violation?` names the first thing that
is wrong, or nothing. Only definitions, opening labels, conditions and patterns have a grammar.
-/

namespace DialogueScript

inductive Bracket where
  | round
  | square
  | curly
  | angle
deriving DecidableEq, Repr

namespace Bracket

def all : List Bracket := [round, square, curly, angle]

def opening : Bracket → Char
  | round => '('
  | square => '['
  | curly => '\x7b'
  | angle => '<'

def closing : Bracket → Char
  | round => ')'
  | square => ']'
  | curly => '\x7d'
  | angle => '>'

def noun : Bracket → Text
  | round => "parenthesis".toList
  | square => "square".toList
  | curly => "curly".toList
  | angle => "angle".toList

def balanced (s : Text) (b : Bracket) : Bool := s.count b.opening == s.count b.closing

end Bracket

inductive Violation where
  | definition
  | condition
  | beginArgument
  | topicName
  | objectName
  | pattern
  | patternUtf8
  | unmatched (b : Bracket)
deriving DecidableEq, Repr

def Violation.message : Violation → Text
  | .definition =>
    ("Invalid format for !Definition line: must be " ++
      "'! type name = value' OR '! type = value'").toList
  | .condition =>
    ("Invalid format for !Condition: should be like " ++
      "'* value symbol value => response'").toList
  | .beginArgument =>
    "The 'begin' label takes no additional arguments, should be verbatim '> begin'".toList
  | .topicName => "Topics should be lowercased and contain only numbers and letters".toList
  | .objectName => "Objects can only contain numbers and letters".toList
  | .pattern =>
    ("Triggers may only contain lowercase letters, numbers, " ++
      "and these symbols: ( | ) [ ] * _ # @ \x7b \x7d < > =").toList
  | .patternUtf8 =>
    "Triggers can't contain uppercase letters, backslashes or dots in UTF-8 mode.".toList
  | .unmatched b => "Unmatched ".toList ++ b.noun ++ " brackets".toList

namespace Grammar

open Text.Shape

/-! ## Classes of characters -/

def isLower (c : Char) : Bool := 'a' ≤ c && c ≤ 'z'

def isUpper (c : Char) : Bool := 'A' ≤ c && c ≤ 'Z'

def isFigure (c : Char) : Bool := '0' ≤ c && c ≤ '9'

def isTopicChar (c : Char) : Bool :=
  isLower c || isFigure c || c == '_' || c == '-' || Text.isBlank c

def isObjectChar (c : Char) : Bool := isUpper c || isTopicChar c

def patternSymbols : List Char :=
  ['(', '|', ')', '[', ']', '*', '_', '#', '@', '\x7b', '\x7d', '<', '>', '=']

/-- A character of a pattern in ASCII. -/
def isPatternChar (c : Char) : Bool :=
  isLower c || isFigure c || patternSymbols.contains c || Text.isBlank c

/-- A character of a pattern in Unicode: all but a few. -/
def isPatternCharUtf8 (c : Char) : Bool := !(isUpper c || c == '\\' || c == '.')

/-! ## Shapes -/

def inLine (c : Char) : Bool := c != '\n'

/-- From the equals sign of a definition to its end. -/
def isAssigned : Text → Bool :=
  run Text.isBlank (literal ['='] (run Text.isBlank (run1 inLine lineEnd)))

/-- A definition has something on both sides of an equals sign; line feeds may stand only among
the blanks that part its kind from its name and both from the equals sign and the value. -/
def isDefinition : Text → Bool :=
  run1 inLine fun s => run1 Text.isBlank (run1 inLine isAssigned) s || isAssigned s

def comparisons : List Text :=
  [['=', '='], ['e', 'q'], ['!', '='], ['n', 'e'], ['<', '>'], ['<'], ['<', '='], ['>'],
   ['>', '=']]

/-- A condition compares two things and has a response behind an arrow. -/
def isCondition : Text → Bool :=
  run1 inLine <| run Text.isBlank <| oneOf comparisons <| run Text.isBlank <| run1 inLine <|
    literal ['=', '>'] <| run1 inLine lineEnd

/-! ## Violations -/

def labelViolation? (s : Text) : Option Violation :=
  let word := Text.headWord s
  let arguments := Text.afterWord s
  if word = Label.beginKeyword then if arguments = [] then none else some .beginArgument
  else if word = Label.topicKeyword then
    if arguments.all isTopicChar then none else some .topicName
  else if word = Label.objectKeyword then
    if arguments.all isObjectChar then none else some .objectName
  else none

/-- Characters come first, then the brackets, kind by kind. -/
def patternViolation? (utf8 : Bool) (s : Text) : Option Violation :=
  if utf8 && !s.all isPatternCharUtf8 then some .patternUtf8
  else if !utf8 && !s.all isPatternChar then some .pattern
  else (Bracket.all.find? fun b => !b.balanced s).map .unmatched

/-- The first violation in the text of a statement. -/
def violation? (utf8 : Bool) (command : Option Command) (s : Text) : Option Violation :=
  match command with
  | some .define => if isDefinition s then none else some .definition
  | some .labelOpen => labelViolation? s
  | some .trigger | some .previous | some .redirect => patternViolation? utf8 s
  | some .condition => if isCondition s then none else some .condition
  | _ => none

end Grammar

end DialogueScript
