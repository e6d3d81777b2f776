import DialogueScript.Text.Basic

/-!
# The lines of a text

A line ends at a line break or at the end of the text. A carriage return with a line feed right
after it is one break, and a break at the very end opens no further line.
-/

namespace DialogueScript.Text

/-- Puts a character in front of the first piece, which it opens if there is none. -/
def consHead (c : Char) : List Text → List Text
  | [] => [[c]]
  | piece :: rest => (c :: piece) :: rest

def lines : Text → List Text
  | [] => []
  | '\r' :: '\n' :: rest => [] :: lines rest
  | c :: rest => if isLineBreak c then [] :: lines rest else consHead c (lines rest)

end DialogueScript.Text
