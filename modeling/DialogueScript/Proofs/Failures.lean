import DialogueScript.Proofs.Folding
import DialogueScript.Proofs.Payloads
import DialogueScript.Proofs.Objects

/-!
# Failures

Some operations of a reader are partial: to take the item at a position, to find the table or the
relation that a word names, to turn a text into a number. `Attempt` is a computation that tells
events and may run into a failure, and the definitions whose names begin with `try` read a script by
such computations. None of the operations fails (`tryRead_eq`): positions stay inside the lines, and
what is looked up or converted was tested before. Only a version that is not supported ends the
reading, and this failure is caught (`tryParse_eq_parse`).
-/

namespace DialogueScript

inductive Failure where
  /-- There is no item at the position. -/
  | position (i : Nat)
  /-- No table is called so. -/
  | table (w : Text)
  /-- No relation is called so. -/
  | relation (w : Text)
  /-- The text is not a number. -/
  | number (s : Text)
  /-- The version on the line is not supported. -/
  | version (e : UnsupportedVersion) (number : Nat)
  /-- A statement ended the reading that has no right to. -/
  | ended

/-- Events, and behind them a value or a failure. -/
structure Attempt (α : Type) where
  events : List Event
  result : Except Failure α

/-! ## Attempts -/

namespace Attempt

variable {α β : Type}

instance : Monad Attempt where
  pure a := ⟨[], .ok a⟩
  bind a k :=
    match a.result with
    | .ok x => ⟨a.events ++ (k x).events, (k x).result⟩
    | .error f => ⟨a.events, .error f⟩

def tell (events : List Event) : Attempt Unit := ⟨events, .ok ()⟩

def ofOption (f : Failure) : Option α → Attempt α
  | some a => pure a
  | none => ⟨[], .error f⟩

/-- The outcome of a statement that must not end the reading. -/
def ofOutcome (o : Reader.Outcome) : Attempt Reader.State :=
  ⟨o.events, o.next.elim (.error .ended) .ok⟩

theorem pure_bind (a : α) (k : α → Attempt β) : (pure a >>= k) = k a := rfl

theorem tell_bind (events : List Event) (k : Unit → Attempt β) :
    (tell events >>= k) = ⟨events ++ (k ()).events, (k ()).result⟩ := rfl

end Attempt

/-! ## Partial operations -/

/-- The item at a position. -/
def item {α : Type} (items : List α) (i : Nat) : Attempt α := .ofOption (.position i) items[i]?

/-- The table that a word names. -/
def tableNamed (w : Text) : Attempt TextTable := .ofOption (.table w) (TextTable.ofKeyword? w)

/-- The relation that a word names. -/
def relationNamed (w : Text) : Attempt Relation := .ofOption (.relation w) (Relation.ofKeyword? w)

open Text in
/-- The value of a text that consists of digits, and of a point with digits behind it if there is
one. -/
def Decimal.ofText? (s : Text) : Option Float :=
  match s.takeWhile isDigit, s.dropWhile isDigit with
  | [], _ => none
  | whole, [] => some (Numeral.toFloat ⟨whole, []⟩)
  | whole, '.' :: fraction =>
    if fraction ≠ [] ∧ fraction.all isDigit then some (Numeral.toFloat ⟨whole, fraction⟩) else none
  | _, _ => none

def floatOf (s : Text) : Attempt Float := .ofOption (.number s) (Decimal.ofText? s)

theorem item_of_drop {α : Type} {items rest : List α} {a : α} {i : Nat}
    (h : items.drop i = a :: rest) : item items i = pure a := by
  have hi : items[i]? = some a := by
    rw [← List.head?_drop, h]
    rfl
  rw [item, hi]
  rfl

/-! ## Numbers -/

namespace Decimal

/-- The numeral as it stands in the text. -/
def Numeral.text (n : Numeral) : Text :=
  n.whole ++ if n.fraction = [] then [] else '.' :: n.fraction

/-- A number at the start of a text has a digit, and digits only. -/
theorem Numeral.digits_of_leading? {s : Text} {n : Numeral} (h : leading? s = some n) :
    n.whole ≠ [] ∧ n.whole.all Text.isDigit = true ∧ n.fraction.all Text.isDigit = true := by
  have hdigits (t : Text) : (t.takeWhile Text.isDigit).all Text.isDigit = true :=
    List.all_eq_true.2 fun c hc => List.mem_takeWhile_imp hc
  unfold leading? at h
  split at h
  · cases h
  · next hne =>
    split at h <;> cases h
    · exact ⟨hne, hdigits s, hdigits _⟩
    · exact ⟨hne, hdigits s, rfl⟩

/-- A numeral reads back as its value. -/
theorem Numeral.ofText?_text {n : Numeral} (hne : n.whole ≠ [])
    (hw : n.whole.all Text.isDigit = true) (hf : n.fraction.all Text.isDigit = true) :
    ofText? n.text = some n.toFloat := by
  obtain ⟨whole, fraction⟩ := n
  have hpoint : Text.isDigit '.' = false := by decide
  have hall : ∀ c ∈ whole, Text.isDigit c = true := List.all_eq_true.1 hw
  obtain ⟨d, digits, rfl⟩ := List.exists_cons_of_ne_nil hne
  unfold ofText? text
  simp only [List.takeWhile_append_of_pos hall, List.dropWhile_append_of_pos hall]
  cases fraction with
  | nil => simp
  | cons c fraction =>
    have hfraction : (c :: fraction).all Text.isDigit = true := hf
    simp [hpoint, hfraction]

end Decimal

/-- The number at the start of a text can be converted. -/
theorem floatOf_leading? {s : Text} {n : Decimal.Numeral}
    (h : Decimal.Numeral.leading? s = some n) : floatOf n.text = pure n.toFloat := by
  obtain ⟨hne, hw, hf⟩ := Decimal.Numeral.digits_of_leading? h
  rw [floatOf, Decimal.Numeral.ofText?_text hne hw hf]
  rfl

namespace Reader

/-! ## Reading on -/

/-- A trimmed line of at least two characters is parted behind the first one. -/
def splitLine (line : Text) : Attempt (Option Statement) :=
  let stripped := Text.trim line
  if stripped.length < 2 then pure none
  else do
    let mark ← item stripped 0
    pure (some ⟨mark, Text.trim (stripped.drop 1)⟩)

/-- Splitting a line does not fail, since it looks at lines of two characters or more. -/
theorem splitLine_eq (line : Text) : splitLine line = pure (Statement.ofLine? line) := by
  unfold splitLine Statement.ofLine?
  match Text.trim line with
  | [] => rfl
  | [_] => rfl
  | _ :: _ :: _ => rfl

/-- What `n` lines from position `i` on add to a statement; each of them is looked up and parted. -/
def lookahead (command : Option Command) (glue : Text) (lines : List Text) :
    (i n : Nat) → Attempt Folded
  | _, 0 => pure ⟨[], none, 0⟩
  | i, n + 1 => do
    let line ← item lines i
    let _ ← splitLine line
    match Role.ofLine command line with
    | .skip =>
      let more ← lookahead command glue lines (i + 1) n
      pure { more with consumed := more.consumed + 1 }
    | .extend payload =>
      let more ← lookahead command glue lines (i + 1) n
      pure ⟨glue ++ payload ++ more.text, more.previous, more.consumed + 1⟩
    | .context payload => pure ⟨[], some payload, 1⟩
    | .stop => pure ⟨[], none, 0⟩

/-- Folds what follows the line at `index`, up to the last line. -/
def tryFold (concat : Text) (command : Option Command) (payload : Text) (lines : List Text)
    (index : Nat) : Attempt Folded :=
  if command = some .labelOpen ∧ Text.headWord payload = Label.objectKeyword then
    pure ⟨payload, none, 0⟩
  else do
    let more ← lookahead command (glue command concat) lines (index + 1)
      (lines.length - (index + 1))
    pure { more with text := payload ++ more.text }

/-- As long as no more lines are asked for than there are, all are found. -/
theorem lookahead_eq (command : Option Command) (glue : Text) {lines : List Text} {i n : Nat}
    (h : i + n = lines.length) :
    lookahead command glue lines i n = pure (gather command glue (lines.drop i)) := by
  induction n generalizing i with
  | zero =>
    rw [List.drop_of_length_le (by omega)]
    rfl
  | succ n ih =>
    have hi : i < lines.length := by omega
    have hdrop := List.drop_eq_getElem_cons hi
    rw [hdrop, gather, lookahead, item_of_drop hdrop, Attempt.pure_bind, splitLine_eq,
      Attempt.pure_bind]
    have hmore := ih (i := i + 1) (by omega)
    cases Role.ofLine command lines[i] with
    | skip => simp only [hmore, Attempt.pure_bind]
    | extend payload => simp only [hmore, Attempt.pure_bind]
    | context payload => rfl
    | stop => rfl

/-- The loop over the lines below a line answers as `foldAt?` does at the position of the line. -/
theorem tryFold_eq (concat : Text) (command : Option Command) (payload : Text) {lines : List Text}
    {index : Nat} (h : index < lines.length) :
    tryFold concat command payload lines index =
      .ofOption (.position index) (foldAt? concat command payload lines index) := by
  have hafter : linesAfter? lines index = some (lines.drop (index + 1)) := rfl
  unfold tryFold foldAt?
  by_cases ho : command = some .labelOpen ∧ Text.headWord payload = Label.objectKeyword
  · rw [if_pos ho, if_pos ho]
    rfl
  · rw [if_neg ho, if_neg ho, lookahead_eq _ _ (by omega), hafter, Attempt.pure_bind,
      Option.map_some, fold, if_neg ho]
    rfl

/-! ## Statements -/

namespace State

/-- The word is listed as the name of a table of texts. -/
def isTableWord (w : Text) : Bool :=
  ["global".toList, "var".toList, "sub".toList, "person".toList].any (· = w)

/-- The word is listed as the name of a relation. -/
def isRelationWord (w : Text) : Bool := ["includes".toList, "inherits".toList].any (· = w)

def told (s : State) (events : List Event) : Attempt State := ⟨events, .ok s⟩

def tryVersion (supported : Float) (s : State) (value : Text) (number : Nat) : Attempt State :=
  match Decimal.Numeral.leading? value with
  | none => s.told [.problem .badVersion number]
  | some numeral => do
    let version ← floatOf numeral.text
    if supported < version then ⟨[], .error (.version ⟨version, supported⟩ number)⟩ else pure s

/-- The kind of a definition is told by its first word; a table is looked up under this word. -/
def tryDefine (supported : Float) (s : State) (l : LogicalLine) : Attempt State :=
  let left := Text.before '=' l.text
  let word := Text.headWord left
  let name := Text.trim (Text.afterWord left)
  let whole := Text.trim (Text.after '=' l.text)
  let value := if word = arrayKeyword then whole else Text.remove lineJoin whole
  if word = "version".toList then s.tryVersion supported value l.number
  else if name = [] then s.told [.problem .missingName l.number]
  else if value = [] then s.told [.problem .missingValue l.number]
  else if word = "local".toList then
    { s with options := s.options.set name value }.told [.note (.option name value)]
  else if isTableWord word then do
    let t ← tableNamed word
    (s.assign t name value).told [.note (.assignment t name value)]
  else if word = arrayKeyword then
    (s.assignArray name (arrayElements value)).told [.note (.array name value)]
  else s.told [.problem (.unknownDefinition word) l.number]

/-- The words behind a topic's name. The last word that named a relation is kept as it was written and
looked up for each target. -/
def tryRelations (name : Text) : (mode : Option Text) → List Text → Document → Attempt Document
  | _, [], d => pure d
  | mode, w :: rest, d =>
    if isRelationWord w then tryRelations name (some w) rest d
    else
      match mode with
      | none => tryRelations name none rest d
      | some m => do
        let r ← relationNamed m
        tryRelations name (some m) rest ((d.ensureTopic w).relate name r w)

def tryTopic (s : State) (name : Text) (fields : List Text) (notes : List Note) : Attempt State := do
  Attempt.tell (notes.map .note)
  let d ← tryRelations name none fields (s.document.ensureTopic name)
  pure { s with document := d, topic := name, openRule := none }

/-- The first word of a label has to be there. -/
def tryLabel (s : State) (l : LogicalLine) : Attempt State := do
  let words := Text.words l.text
  let word ← item words 0
  let name := words.tail.headD []
  let fields := words.drop 2
  if word = Label.beginKeyword then s.tryTopic beginTopic fields [.beginBlock, .topic beginTopic]
  else if word = Label.topicKeyword then
    if name = [] then s.told [.problem .unnamedTopic l.number]
    else s.tryTopic name fields [.topic name]
  else if word = Label.objectKeyword then
    match fields with
    | language :: _ => pure (s.openObjectNamed name (Text.lowercase language))
    | [] => (s.openObjectNamed name defaultLanguage).told [.problem .unknownLanguage l.number]
  else s.told [.problem (.unknownLabel word) l.number]

/-- The other commands have no partial operations. -/
def tryObey (supported : Float) (s : State) (l : LogicalLine) : Attempt State :=
  match l.command? with
  | some .define => s.tryDefine supported l
  | some .labelOpen => s.tryLabel l
  | _ => .ofOutcome (s.obey supported l)

/-! ## Lines -/

def tryLine (supported : Float) (s : State) (lines : List Text) (index : Nat) (line : Text) :
    Attempt State :=
  match LineKind.of s.inComment line with
  | .comment => pure s
  | .deprecatedComment => s.told [.problem .deprecatedComment (index + 1)]
  | .commentStart => pure { s with inComment := true }
  | .commentEnd => pure { s with inComment := false }
  | .lone => s.told [.problem (.lone line) (index + 1)]
  | .statement st => do
    let _ ← splitLine line
    let folded ← tryFold s.options.concat st.command? st.payload lines index
    let l : LogicalLine := ⟨st.mark, folded.text, folded.previous, index + 1⟩
    Attempt.tell [.statement l]
    s.tryObey supported l

def tryStep (supported : Float) (s : State) (lines : List Text) (index : Nat) (line : Text) :
    Attempt State :=
  let trimmed := Text.trim line
  if trimmed = [] then pure s
  else do
    Attempt.tell [.line trimmed s.topic s.openObject.isSome]
    match s.openObject with
    | some o => pure (s.readCode o line)
    | none => s.tryLine supported lines index trimmed

end State

/-- Reads the lines from `index` on, in view of all lines. -/
def tryScan (supported : Float) (lines : List Text) (s : State) : (index : Nat) → List Text →
    Attempt State
  | _, [] => pure s
  | index, line :: rest => do
    let next ← s.tryStep supported lines index line
    tryScan supported lines next (index + 1) rest

/-- A version that is not supported is told of and leaves no document; no other failure is caught. -/
def tryRead (supported : Float) (lines : List Text) : Except Failure Reading :=
  let a := tryScan supported lines {} 0 lines
  match a.result with
  | .ok s => .ok ⟨a.events ++ closing s lines.length, some s.document⟩
  | .error (.version e number) =>
    .ok ⟨a.events ++ [.problem (.unsupportedVersion e) number], none⟩
  | .error f => .error f

/-! ## Attempts and outcomes -/

/-- The attempt goes on as the outcome does, and where the outcome has no next state it fails since a
version is not supported. -/
inductive Yields : Attempt State → Outcome → Prop
  | gone (events : List Event) (s : State) : Yields ⟨events, .ok s⟩ ⟨events, some s⟩
  | refused (events : List Event) (e : UnsupportedVersion) (number : Nat) :
    Yields ⟨events, .error (.version e number)⟩
      ⟨events ++ [.problem (.unsupportedVersion e) number], none⟩

namespace Yields

variable {a : Attempt State} {o : Outcome}

theorem told (events : List Event) (h : Yields a o) :
    Yields (Attempt.tell events >>= fun _ => a) ⟨events ++ o.events, o.next⟩ := by
  cases h with
  | gone later s => exact gone (events ++ later) s
  | refused later e number =>
    simp only [← List.append_assoc]
    exact refused (events ++ later) e number

/-- Attempts in a row yield the outcomes in a row. -/
theorem andThen {k : State → Attempt State} {k' : State → Outcome} (h : Yields a o)
    (hk : ∀ s, o.next = some s → Yields (k s) (k' s)) : Yields (a >>= k) (o.andThen k') := by
  cases h with
  | gone events s => exact (hk s rfl).told events
  | refused events e number => exact refused events e number

theorem ofOutcome {s : State} (h : o.next = some s) : Yields (Attempt.ofOutcome o) o := by
  obtain ⟨events, next⟩ := o
  cases h
  exact gone events s

end Yields

namespace State

variable (s : State) (supported : Float) (l : LogicalLine)

theorem tryVersion_yields (value : Text) (number : Nat) :
    Yields (s.tryVersion supported value number) (s.checkVersion supported value number) := by
  unfold tryVersion checkVersion
  cases h : Decimal.Numeral.leading? value with
  | none => exact .gone _ _
  | some numeral =>
    simp only [floatOf_leading? h, Attempt.pure_bind]
    split
    · exact .refused [] _ _
    · exact .gone [] s

/-- A word that is none of the keywords names no table. -/
theorem ofWord_unknown {w : Text} (hv : w ≠ "version".toList) (hl : w ≠ "local".toList)
    (ht : isTableWord w = false) (ha : w ≠ arrayKeyword) : DefinitionKind.ofWord w = .unknown w := by
  have hnone : TextTable.ofKeyword? w = none := by
    rw [TextTable.ofKeyword?, List.find?_eq_none]
    intro t _ hk
    obtain rfl : t.keyword = w := by simpa using hk
    have hlisted : isTableWord t.keyword = true := by cases t <;> decide
    rw [hlisted] at ht
    cases ht
  unfold DefinitionKind.ofWord DefinitionTable.ofKeyword?
  rw [if_neg hv, if_neg hl, if_neg ha, hnone]
  rfl

theorem ofWord_table {w : Text} (h : isTableWord w = true) :
    w ≠ "version".toList ∧ w ≠ "local".toList ∧ w ≠ arrayKeyword ∧
      ∃ t, tableNamed w = pure t ∧ DefinitionKind.ofWord w = .table (.text t) := by
  simp only [isTableWord, List.any_cons, List.any_nil, Bool.or_false, Bool.or_eq_true,
    decide_eq_true_eq] at h
  rcases h with rfl | rfl | rfl | rfl <;>
    exact ⟨by decide, by decide, by decide, _, rfl, rfl⟩

theorem yields_complete {a : Attempt State} {o : Outcome} (d : Definition) (number : Nat)
    (h : Yields a o) :
    Yields
      (if d.name = [] then s.told [.problem .missingName number]
        else if d.value = [] then s.told [.problem .missingValue number] else a)
      (s.complete d number o) := by
  unfold complete
  split
  · exact .gone _ _
  · split
    · exact .gone _ _
    · exact h

/-- Definitions fail only for a version that is not supported. -/
theorem tryDefine_yields : Yields (s.tryDefine supported l) (s.define supported l) := by
  unfold tryDefine define Definition.ofText
  simp only
  generalize Text.headWord (Text.before '=' l.text) = word
  generalize Text.trim (Text.afterWord (Text.before '=' l.text)) = name
  generalize Text.trim (Text.after '=' l.text) = value
  by_cases hv : word = "version".toList
  · subst hv
    exact s.tryVersion_yields supported _ _
  rw [if_neg hv]
  by_cases hl : word = "local".toList
  · subst hl
    exact s.yields_complete ⟨.option, name, _⟩ l.number (.gone _ _)
  rw [if_neg hl]
  by_cases ht : isTableWord word = true
  · obtain ⟨-, -, ha, t, hnamed, hkind⟩ := ofWord_table ht
    rw [if_pos ht, if_neg ha, hkind, hnamed]
    exact s.yields_complete ⟨.table (.text t), name, _⟩ l.number (.gone _ _)
  rw [if_neg ht]
  by_cases ha : word = arrayKeyword
  · subst ha
    exact s.yields_complete ⟨.table .array, name, _⟩ l.number (.gone _ _)
  · rw [if_neg ha, if_neg ha, ofWord_unknown hv hl (eq_false_of_ne_true ht) ha]
    exact s.yields_complete ⟨.unknown word, name, _⟩ l.number (.gone _ _)

/-! ## Labels -/

theorem relation_ofKeyword?_iff {w : Text} {r : Relation} :
    Relation.ofKeyword? w = some r ↔ w = r.keyword := by
  constructor
  · intro h
    have hk := List.find?_some h
    exact (by simpa using hk : r.keyword = w).symm
  · rintro rfl
    cases r <;> rfl

theorem isRelationWord_iff {w : Text} :
    isRelationWord w = true ↔ ∃ r : Relation, w = r.keyword := by
  constructor
  · intro h
    simp only [isRelationWord, List.any_cons, List.any_nil, Bool.or_false, Bool.or_eq_true,
      decide_eq_true_eq] at h
    rcases h with rfl | rfl
    · exact ⟨.includes, rfl⟩
    · exact ⟨.inherits, rfl⟩
  · rintro ⟨r, rfl⟩
    cases r <;> decide

/-- What is kept as the mode is the keyword of a relation, so it is found when it is looked up. -/
theorem tryRelations_eq (name : Text) (current : Option Relation) (fields : List Text)
    (d : Document) :
    tryRelations name (current.map Relation.keyword) fields d =
      pure ((Links.ofWords current fields).foldl
        (fun d link => (d.ensureTopic link.2).relate name link.1 link.2) d) := by
  induction fields generalizing current d with
  | nil => cases current <;> rfl
  | cons w fields ih =>
    unfold tryRelations Links.ofWords
    by_cases hw : isRelationWord w = true
    · obtain ⟨r, hk⟩ := isRelationWord_iff.1 hw
      have hmode := ih (some r) d
      rw [Option.map_some, ← hk] at hmode
      rw [if_pos hw, relation_ofKeyword?_iff.2 hk]
      exact hmode
    · have hr : Relation.ofKeyword? w = none := by
        cases hr : Relation.ofKeyword? w with
        | none => rfl
        | some r => exact absurd (isRelationWord_iff.2 ⟨r, relation_ofKeyword?_iff.1 hr⟩) hw
      rw [if_neg hw, hr]
      cases current with
      | none => exact ih none d
      | some r =>
        have hnamed : relationNamed r.keyword = pure r := by
          rw [relationNamed, relation_ofKeyword?_iff.2 rfl]
          rfl
        simp only [Option.map_some, hnamed, Attempt.pure_bind]
        exact ih (some r) _

theorem tryTopic_eq (name : Text) (fields : List Text) (notes : List Note) :
    s.tryTopic name fields notes =
      (s.enterTopic name (Links.ofWords none fields)).told (notes.map .note) := by
  have hrelations := tryRelations_eq name none fields (s.document.ensureTopic name)
  rw [Option.map_none] at hrelations
  simp only [tryTopic, hrelations, Attempt.pure_bind]
  simp [Attempt.tell_bind, told, enterTopic, pure]

/-- A label with a word does not fail. -/
theorem tryLabel_yields (h : Text.words l.text ≠ []) :
    Yields (s.tryLabel l) (s.openLabel l) := by
  obtain ⟨word, words, hwords⟩ := List.exists_cons_of_ne_nil h
  have hitem : item (word :: words) 0 = pure word := rfl
  unfold tryLabel openLabel Label.ofText
  simp only [hwords, hitem, Attempt.pure_bind, List.headD_cons, List.tail_cons, tryTopic_eq]
  by_cases hb : word = Label.beginKeyword
  · rw [if_pos hb, if_pos hb]
    exact .gone _ _
  rw [if_neg hb, if_neg hb]
  by_cases ht : word = Label.topicKeyword
  · rw [if_pos ht, if_pos ht]
    by_cases hn : words.headD [] = []
    · rw [if_pos hn, if_pos hn]
      exact .gone _ _
    · rw [if_neg hn, if_neg hn]
      exact .gone _ _
  rw [if_neg ht, if_neg ht]
  by_cases ho : word = Label.objectKeyword
  · rw [if_pos ho, if_pos ho]
    cases (word :: words).drop 2 with
    | nil => exact .gone _ _
    | cons language fields => exact .gone _ _
  · rw [if_neg ho, if_neg ho]
    exact .gone _ _

/-! ## Statements and lines -/

variable {s l supported}

/-- Only a definition ends the reading. -/
theorem next_obey_of_ne (supported : Float) (ho : s.openObject = none) (hd : l.command? ≠ some .define) :
    ∃ s', (s.obey supported l).next = some s' := by
  have hs := s.obey_obeyed supported l ho
  generalize s.obey supported l = outcome at hs
  cases hs with
  | refused e hc => exact absurd hc hd
  | _ => exact ⟨_, rfl⟩

/-- A statement with a word fails only for a version that is not supported. -/
theorem tryObey_yields (ho : s.openObject = none) (h : Text.words l.text ≠ []) :
    Yields (s.tryObey supported l) (s.obey supported l) := by
  unfold tryObey
  split
  · next hc =>
    simp only [obey, hc]
    exact s.tryDefine_yields supported l
  · next hc =>
    simp only [obey, hc]
    exact s.tryLabel_yields l h
  · next hd _ =>
    obtain ⟨s', hs'⟩ := next_obey_of_ne supported ho hd
    exact .ofOutcome hs'

variable {lines rest : List Text} {line : Text} {index : Nat}

/-- A line outside of code objects fails only for a version that is not supported. -/
theorem tryLine_yields (ho : s.openObject = none) (hat : lines.drop index = line :: rest)
    (trimmed : Text) :
    Yields (s.tryLine supported lines index trimmed)
      (s.readLine supported (index + 1) trimmed rest) := by
  unfold tryLine readLine
  cases hk : LineKind.of s.inComment trimmed with
  | statement st =>
    have hwords := (tight_logicalLine (s := s) (tight_of_kind hk) (index + 1) rest).text.words_ne_nil
    have hindex : index < lines.length := by
      have := congrArg List.length hat
      simp only [List.length_drop, List.length_cons] at this
      omega
    have hrest : lines.drop (index + 1) = rest := by rw [← List.tail_drop, hat, List.tail_cons]
    simp only [splitLine_eq, tryFold_eq _ _ _ hindex, foldAt?_natCast, hrest, Attempt.ofOption,
      Attempt.pure_bind]
    exact (tryObey_yields ho hwords).told _
  | _ => exact .gone _ _

/-- A line fails only for a version that is not supported. -/
theorem tryStep_yields (hat : lines.drop index = line :: rest) :
    Yields (s.tryStep supported lines index line) (s.step supported (index + 1) line rest) := by
  unfold tryStep step
  simp only
  split
  · exact .gone _ _
  · cases ho : s.openObject with
    | some o => exact .gone _ _
    | none => exact (tryLine_yields ho hat _).told _

end State

/-! ## Runs -/

/-- Lines fail only for a version that is not supported. -/
theorem tryScan_yields (supported : Float) (lines : List Text) (s : State) {rest : List Text}
    {index : Nat} (hat : lines.drop index = rest) :
    Yields (tryScan supported lines s index rest) (scan supported s index rest) := by
  induction rest generalizing s index with
  | nil => exact .gone _ _
  | cons line rest ih =>
    have hrest : lines.drop (index + 1) = rest := by
      rw [← List.tail_drop, hat, List.tail_cons]
    exact (State.tryStep_yields hat).andThen fun next _ => ih next hrest

/-- No partial operation fails. -/
theorem tryRead_eq (supported : Float) (lines : List Text) :
    tryRead supported lines = .ok (read supported lines) := by
  have h := tryScan_yields supported lines {} List.drop_zero
  unfold tryRead
  generalize tryScan supported lines {} 0 lines = a at h
  rw [read_eq_finish]
  generalize scan supported {} 0 lines = o at h
  cases h with
  | gone events s => rfl
  | refused events e number => simp [Outcome.finish]

end Reader

/-! ## Parsing -/

/-- Parsing by computations that may fail. -/
def tryParse (settings : Settings) (audience : Audience) (lines : List Text) :
    Except Failure Parsed := do
  let reading ← Reader.tryRead settings.supported lines
  pure ⟨reading.document, reading.events.flatMap (Event.entries settings audience)⟩

/-- Parsing comes to a result for all lines, settings and audiences: whatever can fail in it does not
fail or is caught. What is caught is that the version of the script is not supported, and then there
is no document; if nothing is caught, there is one. -/
theorem tryParse_eq_parse (settings : Settings) (audience : Audience) (lines : List Text) :
    tryParse settings audience lines = .ok (parse settings audience lines) ∧
      match (Reader.tryScan settings.supported lines {} 0 lines).result with
      | .ok s => (parse settings audience lines).document = some s.document
      | .error f =>
        (∃ e number, f = .version e number) ∧ (parse settings audience lines).document = none := by
  refine ⟨?_, ?_⟩
  · unfold tryParse
    rw [Reader.tryRead_eq, parse_eq]
    rfl
  · have h := Reader.tryScan_yields settings.supported lines {} List.drop_zero
    rw [parse_document, Reader.read_eq_finish]
    generalize Reader.tryScan settings.supported lines {} 0 lines = a at h ⊢
    generalize Reader.scan settings.supported {} 0 lines = o at h ⊢
    cases h with
    | gone events s => rfl
    | refused events e number => exact ⟨⟨e, number, rfl⟩, rfl⟩

end DialogueScript
