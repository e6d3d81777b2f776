import DialogueScript.Parser

/-!
# Parsing

The way in: `parse` reads the lines of a script under given settings and reports to an audience,
`parseText` does so for a text.
-/

namespace DialogueScript

/-- A document, unless the script's version is not supported, and the report on its reading. -/
structure Parsed where
  document : Option Document
  entries : List Entry

namespace Parsed

def said (p : Parsed) : List Text := p.entries.filterMap Entry.said?

def warnings (p : Parsed) : List Warning := p.entries.filterMap Entry.warning?

def errors (p : Parsed) : List Text := p.entries.filterMap Entry.error?

end Parsed

def parse (settings : Settings) (audience : Audience) (lines : List Text) : Parsed :=
  let result := (Parser.script lines).run settings audience {}
  { document := result.next.map (·.2.document)
    entries := result.entries }

def parseText (settings : Settings) (audience : Audience) (text : Text) : Parsed :=
  parse settings audience (Text.lines text)

end DialogueScript
