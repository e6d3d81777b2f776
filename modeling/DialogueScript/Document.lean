import DialogueScript.Table

/-!
# Documents

What a dialogue script describes: definition tables, topics with their rules, and code objects. A
rule is a pattern with its replies; topics are created on first mention and keep the order in which
they were created.
-/

namespace DialogueScript

/-! ## Topics -/

/-- A pattern with what is said in answer to it. -/
structure Rule where
  pattern : Text
  replies : List Text := []
  conditions : List Text := []
  /-- The pattern whose replies are given instead. -/
  redirect : Option Text := none
  /-- The pattern that the last reply must have matched. -/
  previous : Option Text := none
deriving DecidableEq, Repr

/-- How a topic may depend on another one. -/
inductive Relation where
  | includes
  | inherits
deriving DecidableEq, Repr

def Relation.keyword : Relation → Text
  | .includes => "includes".toList
  | .inherits => "inherits".toList

def Relation.ofKeyword? (w : Text) : Option Relation :=
  [includes, inherits].find? (·.keyword == w)

structure Topic where
  includes : Names := []
  inherits : Names := []
  rules : List Rule := []
deriving DecidableEq, Repr

def Topic.relate (t : Topic) : Relation → Text → Topic
  | .includes, target => { t with includes := t.includes.add target }
  | .inherits, target => { t with inherits := t.inherits.add target }

def Topic.addRule (t : Topic) (r : Rule) : Topic := { t with rules := t.rules ++ [r] }

def Topic.modifyRule (t : Topic) (i : Nat) (f : Rule → Rule) : Topic :=
  { t with rules := t.rules.modify i f }

/-- The rules agree in order, the related topics as sets. -/
def Topic.same (t u : Topic) : Bool :=
  t.includes.same u.includes && t.inherits.same u.inherits && t.rules == u.rules

/-! ## Definitions -/

/-- The tables that bind names to texts. -/
inductive TextTable where
  | global
  | var
  | sub
  | person
deriving DecidableEq, Repr

def TextTable.keyword : TextTable → Text
  | .global => "global".toList
  | .var => "var".toList
  | .sub => "sub".toList
  | .person => "person".toList

def TextTable.ofKeyword? (w : Text) : Option TextTable :=
  [global, var, sub, person].find? (·.keyword == w)

/-- All tables: the texts, and one that binds names to lists of texts. -/
inductive DefinitionTable where
  | text (t : TextTable)
  | array
deriving DecidableEq, Repr

def arrayKeyword : Text := "array".toList

def DefinitionTable.ofKeyword? (w : Text) : Option DefinitionTable :=
  if w = arrayKeyword then some .array else (TextTable.ofKeyword? w).map .text

/-- The complaint about a table that no keyword names. -/
def DefinitionTable.unknown (w : Text) : Text := "Unknown definition table: ".toList ++ w

/-- The tables that a script fills by its definitions. -/
structure Definitions where
  global : Table Text := []
  var : Table Text := []
  sub : Table Text := []
  person : Table Text := []
  array : Table (List Text) := []
deriving DecidableEq, Repr

def Definitions.get (d : Definitions) : TextTable → Table Text
  | .global => d.global
  | .var => d.var
  | .sub => d.sub
  | .person => d.person

def Definitions.assign (d : Definitions) (name value : Text) : TextTable → Definitions
  | .global => { d with global := d.global.assign name value }
  | .var => { d with var := d.var.assign name value }
  | .sub => { d with sub := d.sub.assign name value }
  | .person => { d with person := d.person.assign name value }

def Definitions.assignArray (d : Definitions) (name : Text) (elements : List Text) : Definitions :=
  { d with array := d.array.assign name elements }

def Definitions.same (d e : Definitions) : Bool :=
  d.global.same (· == ·) e.global && d.var.same (· == ·) e.var && d.sub.same (· == ·) e.sub &&
    d.person.same (· == ·) e.person && d.array.same (· == ·) e.array

/-! ## The whole -/

/-- A piece of code kept as it was written. -/
structure CodeObject where
  name : Text
  language : Text
  code : List Text := []
deriving DecidableEq, Repr

/-- The whole of what a script describes. -/
structure Document where
  definitions : Definitions := {}
  topics : Table Topic := []
  objects : List CodeObject := []
deriving DecidableEq, Repr

namespace Document

/-- Creates the topic on first mention. -/
def ensureTopic (d : Document) (name : Text) : Document :=
  { d with topics := d.topics.ensure name {} }

def modifyTopic (d : Document) (name : Text) (f : Topic → Topic) : Document :=
  { d with topics := d.topics.modify name f }

def addRule (d : Document) (topic : Text) (r : Rule) : Document :=
  (d.ensureTopic topic).modifyTopic topic (·.addRule r)

/-- Relates a topic to a target, which need not be a topic of the document. -/
def relate (d : Document) (topic : Text) (r : Relation) (target : Text) : Document :=
  (d.ensureTopic topic).modifyTopic topic (·.relate r target)

def addObject (d : Document) (o : CodeObject) : Document := { d with objects := d.objects ++ [o] }

/-- Equal up to the order of tables and sets. -/
def same (d e : Document) : Bool :=
  d.definitions.same e.definitions && d.topics.same Topic.same e.topics && d.objects == e.objects

/-- Equal documents, or none on either side. -/
def sameOption : Option Document → Option Document → Bool
  | none, none => true
  | some d, some e => d.same e
  | _, _ => false

end Document

end DialogueScript
