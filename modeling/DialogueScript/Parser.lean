import DialogueScript.Reader.Script
import DialogueScript.Report

/-!
# Parsers

A parser works on the state of a reading, under given settings and for an audience. On its way it
adds to the report, and a version that is not supported ends it. `script` goes over the lines of a
script once. Each statement is continued by the lines below it, checked by the grammar and then
obeyed; what the check finds is reported before the statement takes effect.
-/

namespace DialogueScript

/-- What a parser comes to: new entries of the report, and a value with the next state unless the
script was refused. -/
structure Parser.Result (α : Type) where
  entries : List Entry
  next : Option (α × Reader.State)

structure Parser (α : Type) where
  run : Settings → Audience → Reader.State → Parser.Result α

namespace Parser

instance : Monad Parser where
  pure a := ⟨fun _ _ s => ⟨[], some (a, s)⟩⟩
  bind p k := ⟨fun settings audience s =>
    match p.run settings audience s with
    | ⟨entries, none⟩ => ⟨entries, none⟩
    | ⟨entries, some (a, s')⟩ =>
      let later := (k a).run settings audience s'
      ⟨entries ++ later.entries, later.next⟩⟩

/-! ## Single actions -/

def settings : Parser Settings := ⟨fun settings _ s => ⟨[], some (settings, s)⟩⟩

def audience : Parser Audience := ⟨fun _ audience s => ⟨[], some (audience, s)⟩⟩

def state : Parser Reader.State := ⟨fun _ _ s => ⟨[], some (s, s)⟩⟩

def report (entries : List Entry) : Parser Unit := ⟨fun _ _ s => ⟨entries, some ((), s)⟩⟩

/-- Goes on in a state, or ends if there is none. -/
def goOn (next : Option Reader.State) : Parser Unit := ⟨fun _ _ _ => ⟨[], next.map ((), ·)⟩⟩

def setState (s : Reader.State) : Parser Unit := goOn (some s)

def say (message : Text) : Parser Unit := report [.said message]

def warn (message : Text) (number : Nat) : Parser Unit := do
  let audience ← audience
  report [.warned ⟨message, audience.source, number⟩]

def complain (p : Problem) (number : Nat) : Parser Unit := warn p.message number

/-! ## Statements -/

/-- A fault is warned of, and in strict settings a listener gets an error as well. -/
def reportFault (e : Fault) (number : Nat) : Parser Unit := do
  warn (e.message .author) number
  let settings ← settings
  let audience ← audience
  if settings.strict && audience.listening then report [.failed (e.message .developer)]

/-- Looks for what the grammar finds wrong with a statement. -/
def check (l : LogicalLine) : Parser Unit := do
  let settings ← settings
  let audience ← audience
  match Event.fault? settings.utf8 audience.source l with
  | none => pure ()
  | some e => reportFault e l.number

/-- Reports on the effect of a statement and goes on as it says. -/
def perform (o : Reader.Outcome) : Parser Unit := do
  let settings ← settings
  let audience ← audience
  report (o.events.flatMap (Event.entries settings audience))
  goOn o.next

def obey (l : LogicalLine) : Parser Unit := do
  let settings ← settings
  let s ← state
  perform (s.obey settings.supported l)

/-- The statement of a line is checked when it is complete, and obeyed whatever the check finds. -/
def statement (number : Nat) (st : Statement) (rest : List Text) : Parser Unit := do
  let s ← state
  let l := s.logicalLine number st rest
  check l
  say l.announcement
  obey l

/-! ## Lines -/

/-- A line outside of code objects. -/
def plainLine (number : Nat) (trimmed : Text) (rest : List Text) : Parser Unit := do
  let s ← state
  match Reader.LineKind.of s.inComment trimmed with
  | .comment => pure ()
  | .deprecatedComment => complain .deprecatedComment number
  | .commentStart => setState { s with inComment := true }
  | .commentEnd => setState { s with inComment := false }
  | .lone => complain (.lone trimmed) number
  | .statement st => statement number st rest

/-- Blank lines leave no trace. -/
def line (number : Nat) (line : Text) (rest : List Text) : Parser Unit := do
  let trimmed := Text.trim line
  if trimmed = [] then pure ()
  else
    let s ← state
    say (lineAnnouncement trimmed s.topic s.openObject.isSome)
    match s.openObject with
    | some o => setState (s.readCode o line)
    | none => plainLine number trimmed rest

/-- The lines that follow the first `number` lines of a script. -/
def lines (number : Nat) : List Text → Parser Unit
  | [] => pure ()
  | text :: rest => do
    line (number + 1) text rest
    lines (number + 1) rest

/-- A code object that is still open at the end of the script. -/
def closing (number : Nat) : Parser Unit := do
  let s ← state
  match s.openObject with
  | some o => complain (.unclosedObject o.name) number
  | none => pure ()

def script (text : List Text) : Parser Unit := do
  lines 0 text
  closing text.length

end Parser

end DialogueScript
