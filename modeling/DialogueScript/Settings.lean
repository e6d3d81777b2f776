import DialogueScript.Table

/-!
# Settings

`Settings` hold for every script that is read. `Options` are what a single script sets for itself.
-/

namespace DialogueScript

structure Settings where
  /-- Violations of the grammar are reported as errors too. -/
  strict : Bool := true
  /-- Patterns may be written in Unicode. -/
  utf8 : Bool := false
  /-- The highest version that a script may declare. -/
  supported : Float := 2.0

structure Options where
  /-- The keyword for the joining of continuation lines. -/
  concat : Text := "none".toList
  extra : Table Text := []
deriving DecidableEq, Repr

/-- An option without a meaning of its own is kept under its name. -/
def Options.set (o : Options) (name value : Text) : Options :=
  if name = "concat".toList then { o with concat := value }
  else { o with extra := o.extra.assign name value }

end DialogueScript
