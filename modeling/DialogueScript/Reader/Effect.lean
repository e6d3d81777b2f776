import DialogueScript.Definition
import DialogueScript.Reader.State

/-!
# The effects of statements

`State.obey` lets a statement act on the state. A statement that cannot take effect leaves the state
as it was and tells a problem; only a definition of the script's version can end the reading.
-/

namespace DialogueScript.Reader.State

/-! ## Definitions -/

/-- A version is refused if it is higher than the supported one. -/
def checkVersion (supported : Float) (s : State) (value : Text) (number : Nat) : Outcome :=
  match Decimal.Numeral.leading? value with
  | none => s.warn .badVersion number
  | some numeral =>
    if supported < numeral.toFloat then
      ⟨[.problem (.unsupportedVersion ⟨numeral.toFloat, supported⟩) number], none⟩
    else s.go []

def assign (s : State) (t : TextTable) (name value : Text) : State :=
  { s with document.definitions := s.document.definitions.assign name value t }

def assignArray (s : State) (name : Text) (elements : List Text) : State :=
  { s with document.definitions := s.document.definitions.assignArray name elements }

/-- The outcome of a definition that has to have a name and a value. -/
def complete (s : State) (d : Definition) (number : Nat) (outcome : Outcome) : Outcome :=
  if d.name = [] then s.warn .missingName number
  else if d.value = [] then s.warn .missingValue number
  else outcome

def define (supported : Float) (s : State) (l : LogicalLine) : Outcome :=
  let d := Definition.ofText l.text
  match d.kind with
  | .version => s.checkVersion supported d.value l.number
  | .option =>
    s.complete d l.number <|
      { s with options := s.options.set d.name d.value }.note (.option d.name d.value)
  | .table (.text t) =>
    s.complete d l.number <|
      (s.assign t d.name d.value).note (.assignment t d.name d.value)
  | .table .array =>
    s.complete d l.number <|
      (s.assignArray d.name (arrayElements d.value)).note (.array d.name d.value)
  | .unknown word => s.complete d l.number <| s.warn (.unknownDefinition word) l.number

/-! ## Labels -/

/-- Makes a topic the active one and declares its relations. -/
def enterTopic (s : State) (name : Text) (links : Links) : State :=
  { s with
    document := links.foldl (fun d link => (d.ensureTopic link.2).relate name link.1 link.2)
      (s.document.ensureTopic name)
    topic := name
    openRule := none }

/-- From here on the lines are code. -/
def openObjectNamed (s : State) (name language : Text) : State :=
  { s with openRule := none, openObject := some ⟨name, language, []⟩ }

/-- Opens what the label names. The language of a code object has a default. -/
def openLabel (s : State) (l : LogicalLine) : Outcome :=
  match Label.ofText l.text with
  | .begin links =>
    (s.enterTopic beginTopic links).go [.note .beginBlock, .note (.topic beginTopic)]
  | .topic name links => (s.enterTopic name links).note (.topic name)
  | .unnamedTopic => s.warn .unnamedTopic l.number
  | .object name (some language) => (s.openObjectNamed name language).go []
  | .object name none => (s.openObjectNamed name defaultLanguage).warn .unknownLanguage l.number
  | .unknown word => s.warn (.unknownLabel word) l.number

/-- Closes a topic or the begin block, and the default topic is active again. The end of a code
object is met while its code is read, so none is open here. -/
def closeLabel (s : State) (l : LogicalLine) : Outcome :=
  if l.text = Label.beginKeyword ∨ l.text = Label.topicKeyword then
    { s with topic := defaultTopic, openRule := none }.note .endOfLabel
  else if l.text = Label.objectKeyword then { s with openObject := none }.go []
  else s.warn (.unknownLabel l.text) l.number

/-! ## Rules -/

/-- The number of rules in a topic. -/
def ruleCount (s : State) (topic : Text) : Nat :=
  ((s.document.topics.get? topic).map (·.rules.length)).getD 0

/-- Adds a rule to the active topic and leaves it open. -/
def addRule (s : State) (l : LogicalLine) : Outcome :=
  { s with
    document := s.document.addRule s.topic { pattern := l.text, previous := l.previous }
    openRule := some ⟨s.topic, s.ruleCount s.topic⟩ }.note (.rule l.text)

/-- Changes the open rule; without one the statement is a stray one. -/
def extendRule (s : State) (f : Rule → Rule) (n : Note) (stray : Problem) (number : Nat) :
    Outcome :=
  match s.openRule with
  | some place => { s with document := s.document.modifyRule place f }.note n
  | none => s.warn stray number

/-- The effect of a statement. Continuations and contexts act with the statement above them. -/
def obey (supported : Float) (s : State) (l : LogicalLine) : Outcome :=
  match l.command? with
  | some .define => s.define supported l
  | some .labelOpen => s.openLabel l
  | some .labelClose => s.closeLabel l
  | some .trigger => s.addRule l
  | some .response =>
    s.extendRule (fun r => { r with replies := r.replies ++ [l.text] }) (.response l.text)
      .strayResponse l.number
  | some .condition =>
    s.extendRule (fun r => { r with conditions := r.conditions ++ [l.text] }) (.condition l.text)
      .strayCondition l.number
  | some .redirect =>
    s.extendRule (fun r => { r with redirect := some l.text }) (.redirect l.text)
      .strayRedirect l.number
  | some .previous | some .continuation => s.go []
  | none => s.warn (.unknownCommand l.mark) l.number

end DialogueScript.Reader.State
