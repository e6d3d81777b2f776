import DialogueScript.Text.Basic
import DialogueScript.Text.CaseTable

/-!
# Lower case

Full lower-casing of a text. Each character has its own lower case except the capital sigma, which
becomes a final sigma at the end of a word: a cased letter stands before it and none after it,
where characters without influence on case are passed over.
-/

namespace DialogueScript.Text

/-- The lower case of a character out of context. -/
def lowerChar (c : Char) : Text :=
  if c = '\u0130' then ['i', '\u0307']
  else
    match caseRows.find? fun r =>
      r.first ≤ c.toNat && c.toNat ≤ r.last && (c.toNat - r.first) % r.step == 0 with
    | some r => [Char.ofNat (c.toNat + r.shift).toNat]
    | none => [c]

/-- The nearest character that can influence case is cased. -/
def meetsCased (s : Text) : Bool :=
  match s.dropWhile isCaseIgnorable with
  | [] => false
  | c :: _ => isCased c

/-- The lower case of the text `s` behind the text whose reverse is `passed`. -/
def lowerAfter (passed : Text) : Text → Text
  | [] => []
  | c :: rest =>
    (if c = 'Σ' then [if meetsCased passed && !meetsCased rest then 'ς' else 'σ']
      else lowerChar c) ++ lowerAfter (c :: passed) rest

def lowercase (s : Text) : Text := lowerAfter [] s

end DialogueScript.Text
