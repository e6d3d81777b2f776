import DialogueScript.Report

/-!
# Logs

A report may go into a log, which keeps only the records that reach its level. Errors go to their
listener and not into the log.
-/

namespace DialogueScript.Log

inductive Level where
  | debug
  | warning
deriving DecidableEq, Repr

structure Record where
  level : Level
  message : Text
deriving DecidableEq, Repr

/-- Keeps a record that reaches the threshold. -/
def keep (threshold : Level) (r : Record) : List Record :=
  if threshold = .warning ∧ r.level = .debug then [] else [r]

def ofSaid (message : Text) : Record := ⟨.debug, message⟩

/-- The place is added if both its parts are known. -/
def ofWarning (message : Text) (source : Option Text) (number : Option Int) : Record :=
  match source, number with
  | some s, some n =>
    ⟨.warning, message ++ " at ".toList ++ s ++ " line ".toList ++ (toString n).toList⟩
  | _, _ => ⟨.warning, message⟩

def ofEntry (threshold : Level) : Entry → List Record
  | .said message => keep threshold (ofSaid message)
  | .warned w => keep threshold (ofWarning w.message (some w.source) (some w.number))
  | .failed _ => []

def ofEntries (threshold : Level) (entries : List Entry) : List Record :=
  entries.flatMap (ofEntry threshold)

end DialogueScript.Log
