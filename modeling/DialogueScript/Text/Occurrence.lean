import DialogueScript.Text.Lines

/-!
# Occurrences of one text in another

`cut` parts a text at the first occurrence of another one. `pieces` parts it at all of them, taken
from the left and without overlap; replacing and removing an occurrence are ways to put the pieces
together again.
-/

namespace DialogueScript.Text

/-- The texts before and after the first occurrence of `w`. -/
def cut (w : Text) : Text → Option (Text × Text)
  | [] => if w.isEmpty then some ([], []) else none
  | c :: rest =>
    match restAfter? w (c :: rest) with
    | some afterwards => some ([], afterwards)
    | none => (cut w rest).map fun p => (c :: p.1, p.2)

def occursIn (w s : Text) : Bool := (cut w s).isSome

/-- The pieces between the occurrences of `w`, after passing over the next `skip` characters,
which belong to an occurrence already found. -/
def piecesAfter (w : Text) : (skip : Nat) → Text → List Text
  | _, [] => [[]]
  | skip + 1, _ :: rest => piecesAfter w skip rest
  | 0, c :: rest =>
    if w.isPrefixOf (c :: rest) then [] :: piecesAfter w (w.length - 1) rest
    else consHead c (piecesAfter w 0 rest)

/-- The pieces between the occurrences of `w`, which is not empty. -/
def pieces (w s : Text) : List Text := piecesAfter w 0 s

def replace (w v s : Text) : Text := v.intercalate (pieces w s)

def remove (w s : Text) : Text := (pieces w s).flatten

end DialogueScript.Text
