import DialogueScript.Proofs.Objects

/-!
# Blank lines

Blank lines can be put in anywhere. `spread` puts them into a script, and `lineNumber` tells which
numbers the lines of the script get. No statement folds a blank line (`foldsAlike_codeOf`) and none is
read (`scan_blank`), so the script comes to the same with its lines renumbered (`scan_spread`).
-/

namespace DialogueScript

/-! ## Lines in between -/

/-- The script with lines put in: above each line those of its gap, and at the end what is left. -/
def spread : (gaps : List (List Text)) → (lines : List Text) → List Text
  | gaps, [] => gaps.flatten
  | [], lines => lines
  | gap :: gaps, line :: lines => gap ++ line :: spread gaps lines

/-- The number that the line with a number gets. -/
def lineNumber (gaps : List (List Text)) (number : Nat) : Nat :=
  number + (gaps.take number).flatten.length

def Blank (lines : List Text) : Prop := ∀ line ∈ lines, Text.trim line = []

theorem Blank.flatten {gaps : List (List Text)} (h : ∀ gap ∈ gaps, Blank gap) :
    Blank gaps.flatten := by
  intro line hl
  obtain ⟨gap, hg, hl⟩ := List.mem_flatten.1 hl
  exact h gap hg line hl

theorem Blank.codeOf_append {blank : List Text} (h : Blank blank) (lines : List Text) :
    codeOf (blank ++ lines) = codeOf lines := by
  have hnone : codeOf blank = [] := by
    rw [codeOf, List.filter_eq_nil_iff]
    intro line hl
    simp [h line hl]
  rw [codeOf, List.filter_append]
  exact congrArg (· ++ codeOf lines) hnone

theorem codeOf_cons_congr {lines lines' : List Text} (h : codeOf lines = codeOf lines')
    (line : Text) : codeOf (line :: lines) = codeOf (line :: lines') := by
  unfold codeOf at h ⊢
  rw [List.filter_cons, List.filter_cons, h]

/-- The lines put in are the ones that are blank. -/
theorem codeOf_spread {gaps : List (List Text)} (h : ∀ gap ∈ gaps, Blank gap) (lines : List Text) :
    codeOf (spread gaps lines) = codeOf lines := by
  fun_induction spread gaps lines with
  | case1 gaps =>
    simpa using (Blank.flatten h).codeOf_append []
  | case2 => rfl
  | case3 gap gaps line lines ih =>
    have hrest := ih fun gap' hg => h gap' (List.mem_cons_of_mem _ hg)
    rw [(h gap List.mem_cons_self).codeOf_append]
    exact codeOf_cons_congr hrest line

/-! ## Folding passes blank lines over -/

theorem Role.ofLine_of_none {line : Text} (h : Statement.ofLine? line = none)
    (command : Option Command) : ofLine command line = .skip := by
  unfold ofLine
  rw [h]

theorem Role.ofLine_blank {line : Text} (h : Text.trim line = []) (command : Option Command) :
    ofLine command line = .skip := by
  refine ofLine_of_none ?_ command
  unfold Statement.ofLine?
  rw [h]

/-- The lines add the same text and context to a statement above them. -/
def FoldsAlike (lines lines' : List Text) : Prop :=
  ∀ command glue, (gather command glue lines).text = (gather command glue lines').text ∧
    (gather command glue lines).previous = (gather command glue lines').previous

theorem FoldsAlike.cons {line line' : Text} {rest rest' : List Text} (h : FoldsAlike rest rest')
    (hs : Statement.ofLine? line = Statement.ofLine? line') :
    FoldsAlike (line :: rest) (line' :: rest') := by
  intro command glue
  have hr : Role.ofLine command line = Role.ofLine command line' := by
    unfold Role.ofLine
    rw [hs]
  obtain ⟨ht, hp⟩ := h command glue
  rw [gather, gather, hr]
  cases Role.ofLine command line' with
  | skip => exact ⟨ht, hp⟩
  | extend payload => exact ⟨congrArg (glue ++ payload ++ ·) ht, hp⟩
  | context payload => exact ⟨rfl, rfl⟩
  | stop => exact ⟨rfl, rfl⟩

/-- Text and context depend on the lines that are not blank. -/
theorem foldsAlike_codeOf (lines : List Text) : FoldsAlike (codeOf lines) lines := by
  induction lines with
  | nil => exact fun command glue => ⟨rfl, rfl⟩
  | cons line lines ih =>
    by_cases h : Text.trim line = []
    · have hc : codeOf (line :: lines) = codeOf lines := by simp [codeOf, h]
      intro command glue
      rw [hc, gather, Role.ofLine_blank h]
      exact ih command glue
    · have hc : codeOf (line :: lines) = line :: codeOf lines := by simp [codeOf, h]
      rw [hc]
      exact ih.cons rfl

namespace Reader

variable {rest rest' : List Text}

theorem State.logicalLine_of_foldsAlike (h : FoldsAlike rest rest') (s : State) (number : Nat)
    (st : Statement) : s.logicalLine number st rest = s.logicalLine number st rest' := by
  obtain ⟨ht, hp⟩ := h st.command? (glue st.command? s.options.concat)
  unfold logicalLine fold
  split
  · rfl
  · simp only [ht, hp]

theorem State.logicalLine_congr (h : codeOf rest = codeOf rest') (s : State) (number : Nat)
    (st : Statement) : s.logicalLine number st rest = s.logicalLine number st rest' := by
  rw [← logicalLine_of_foldsAlike (foldsAlike_codeOf rest), h,
    logicalLine_of_foldsAlike (foldsAlike_codeOf rest')]

/-- Blank lines among those below do not change what a line does. -/
theorem State.step_congr (h : codeOf rest = codeOf rest') (supported : Float) (s : State)
    (number : Nat) (line : Text) :
    s.step supported number line rest = s.step supported number line rest' := by
  simp only [step, readLine, logicalLine_congr h]

/-! ## Reading passes blank lines over -/

theorem scan_cons (supported : Float) (s : State) (number : Nat) (line : Text) (rest : List Text) :
    scan supported s number (line :: rest) =
      (s.step supported (number + 1) line rest).andThen fun next =>
        scan supported next (number + 1) rest := rfl

/-- Blank lines only count. -/
theorem scan_blank {blank : List Text} (h : Blank blank) (supported : Float) (s : State)
    (number : Nat) (lines : List Text) :
    scan supported s number (blank ++ lines) = scan supported s (number + blank.length) lines := by
  induction blank generalizing number with
  | nil => rfl
  | cons line blank ih =>
    have hstep : s.step supported (number + 1) line (blank ++ lines) = s.go [] := by
      rw [State.step, if_pos (h line List.mem_cons_self)]
    have hrest := ih (fun line hl => h line (List.mem_cons_of_mem _ hl)) (number + 1)
    rw [List.cons_append, scan_cons, hstep, Outcome.andThen_of_some (State.go_next s []), hrest,
      List.length_cons, Nat.add_assoc, Nat.add_comm 1]
    rfl

end Reader

/-! ## Renumbering -/

def LogicalLine.renumber (f : Nat → Nat) (l : LogicalLine) : LogicalLine :=
  { l with number := f l.number }

def Event.renumber (f : Nat → Nat) : Event → Event
  | .statement l => .statement (l.renumber f)
  | .problem p number => .problem p (f number)
  | e => e

theorem Event.renumber_congr {f g : Nat → Nat} {e : Event}
    (h : ∀ number, e.number? = some number → f number = g number) :
    e.renumber f = e.renumber g := by
  cases e with
  | statement l =>
    have hn := h l.number rfl
    simp only [renumber, LogicalLine.renumber, hn]
  | problem p number =>
    have hn := h number rfl
    simp only [renumber, hn]
  | line => rfl
  | note => rfl

theorem Event.shift_eq_renumber (k : Nat) (e : Event) : e.shift k = e.renumber (· + k) := by
  cases e <;> rfl

namespace Reader

def Outcome.renumber (f : Nat → Nat) (o : Outcome) : Outcome := ⟨o.events.map (·.renumber f), o.next⟩

theorem Outcome.renumber_congr {f g : Nat → Nat} {o : Outcome}
    (h : ∀ e ∈ o.events, ∀ number, e.number? = some number → f number = g number) :
    o.renumber f = o.renumber g := by
  unfold renumber
  rw [List.map_congr_left fun e he => Event.renumber_congr (h e he)]

theorem Outcome.shift_eq_renumber (k : Nat) (o : Outcome) : o.shift k = o.renumber (· + k) := by
  unfold shift renumber
  rw [List.map_congr_left fun e _ => e.shift_eq_renumber k]

theorem Outcome.renumber_andThen (f : Nat → Nat) (o : Outcome) (k : State → Outcome) :
    (o.andThen k).renumber f = (o.renumber f).andThen fun s => (k s).renumber f := by
  cases h : o.next with
  | none => rw [andThen_of_none h, andThen_of_none (by exact h)]
  | some s =>
    rw [andThen_of_some h, andThen_of_some (o := o.renumber f) (by exact h)]
    simp [renumber]

/-- With blank lines in between a script comes to the same, with its lines renumbered. -/
theorem scan_spread {gaps : List (List Text)} (h : ∀ gap ∈ gaps, Blank gap) (supported : Float)
    (s : State) (number k : Nat) (lines : List Text) :
    scan supported s (number + k) (spread gaps lines) =
      (scan supported s number lines).renumber
        fun n => n + k + (gaps.take (n - number)).flatten.length := by
  fun_induction spread gaps lines generalizing s number k with
  | case1 gaps =>
    have hs := scan_blank (Blank.flatten h) supported s (number + k) []
    rw [List.append_nil] at hs
    rw [hs]
    rfl
  | case2 line lines =>
    rw [scan_shift, Outcome.shift_eq_renumber]
    simp
  | case3 gap gaps line lines ih =>
    have hgap := h gap List.mem_cons_self
    have hgaps : ∀ gap ∈ gaps, Blank gap := fun gap hg => h gap (List.mem_cons_of_mem _ hg)
    have hnumber : number + k + gap.length + 1 = number + 1 + (k + gap.length) := by omega
    -- the line itself is `k + gap.length` lines further down
    have hline : s.step supported (number + k + gap.length + 1) line (spread gaps lines) =
        (s.step supported (number + 1) line lines).renumber
          fun n => n + k + ((gap :: gaps).take (n - number)).flatten.length := by
      rw [State.step_congr (codeOf_spread hgaps lines), hnumber, State.step_shift,
        Outcome.shift_eq_renumber]
      refine Outcome.renumber_congr ?_
      intro e he n hn
      obtain rfl := State.step_numbers he hn
      have htake : number + 1 - number = 1 := by omega
      simp [htake, Nat.add_assoc]
    rw [scan_blank hgap, scan_cons, hline, scan_cons, Outcome.renumber_andThen]
    congr 1
    funext next
    rw [hnumber, ih hgaps]
    refine Outcome.renumber_congr ?_
    intro e he n hn
    rw [scan_eq] at he
    obtain ⟨hlow, -⟩ := scanBefore_numbers he hn
    have hgapped : n - number = n - (number + 1) + 1 := by omega
    simp only [hgapped, List.take_succ_cons, List.flatten_cons, List.length_append]
    omega

/-- A script with blank lines in between is read as it is without them, with other numbers. -/
theorem read_spread {gaps : List (List Text)} (h : ∀ gap ∈ gaps, Blank gap) (supported : Float)
    (lines : List Text) :
    read supported (spread gaps lines) =
      ⟨(scan supported {} 0 lines).events.map (·.renumber (lineNumber gaps)) ++
          (scan supported {} 0 lines).next.elim [] (closing · (spread gaps lines).length),
        (scan supported {} 0 lines).next.map (·.document)⟩ := by
  have hscan := scan_spread h supported {} 0 0 lines
  rw [read_eq_finish, hscan]
  rfl

end Reader

/-! ## Renumbered reports -/

/-- The warning at its new place; that of an object which is never closed stands at the end. -/
def Warning.renumber (f : Nat → Nat) (last : Nat) (w : Warning) : Warning :=
  { w with number := if w.isUnclosed then last else f w.number }

/-- The fault at its new place. -/
def Fault.renumber (f : Nat → Nat) (e : Fault) : Fault :=
  { e with location.number := e.location.number.map fun n => (f n.toNat : Int) }

namespace Event

/-- The faults that the errors of an event are about. -/
def faults (utf8 : Bool) (source : Text) : Event → List Fault
  | statement l => (fault? utf8 source l).toList
  | _ => []

variable (utf8 : Bool) (source : Text)

theorem errors_eq_faults (e : Event) :
    e.errors utf8 source = (e.faults utf8 source).map (·.message .developer) := by
  cases e with
  | statement l =>
    simp only [errors, faults]
    cases fault? utf8 source l <;> rfl
  | _ => rfl

theorem faults_renumber (f : Nat → Nat) (e : Event) :
    (e.renumber f).faults utf8 source = (e.faults utf8 source).map (·.renumber f) := by
  cases e with
  | statement l =>
    simp only [renumber, faults, fault?, LogicalLine.renumber, LogicalLine.command?]
    cases Grammar.violation? utf8 (Command.ofMark? l.mark) l.text <;> rfl
  | _ => rfl

/-- Warnings are renumbered with their events, but for the one at the end of a script. -/
theorem warnings_renumber (f : Nat → Nat) (last : Nat) {e : Event} (h : e.unclosed? = none) :
    (e.renumber f).warnings utf8 source = (e.warnings utf8 source).map (·.renumber f last) := by
  have hview : (e.warnings utf8 source).filter (·.isUnclosed) = [] := by
    rw [warnings_unclosed, h]
    rfl
  have hother : ∀ w ∈ e.warnings utf8 source, w.isUnclosed = false := by simpa using hview
  cases e with
  | statement l =>
    simp only [renumber, warnings, fault?, LogicalLine.renumber, LogicalLine.command?] at hother ⊢
    generalize Grammar.violation? utf8 (Command.ofMark? l.mark) l.text = v at hother ⊢
    cases v with
    | none => rfl
    | some v =>
      have hw := hother _ (List.mem_singleton.2 rfl)
      simp only [Option.map_some, Option.toList_some, List.map_cons, List.map_nil, Warning.renumber, hw]
      rfl
  | problem p number =>
    have hw := hother _ (List.mem_singleton.2 rfl)
    simp only [renumber, warnings, List.map_cons, List.map_nil, Warning.renumber, hw]
    rfl
  | line => rfl
  | note => rfl

/-- What is said has no numbers in it. -/
theorem said_renumber (settings : Settings) (audience : Audience) (f : Nat → Nat) (e : Event) :
    ((e.renumber f).entries settings audience).filterMap Entry.said? =
      (e.entries settings audience).filterMap Entry.said? := by
  cases e with
  | statement l =>
    simp only [renumber, entries, List.filterMap_append, said_faultEntries]
    rfl
  | _ => rfl

theorem flatMap_renumber {α : Type} {view : Event → List α} {f : Nat → Nat} {g : α → α}
    {events : List Event} (h : ∀ e ∈ events, view (e.renumber f) = (view e).map g) :
    (events.map (·.renumber f)).flatMap view = (events.flatMap view).map g := by
  rw [List.flatMap_map, List.map_flatMap, List.flatMap_congr h]

end Event

namespace Reader

variable (s : State) (last number : Nat)

theorem said_closing (settings : Settings) (audience : Audience) :
    ((closing s number).flatMap fun e => (e.entries settings audience).filterMap Entry.said?) = [] := by
  unfold closing
  cases s.openObject <;> rfl

theorem faults_closing (utf8 : Bool) (source : Text) :
    (closing s number).flatMap (Event.faults utf8 source) = [] := by
  unfold closing
  cases s.openObject <;> rfl

theorem warnings_closing (utf8 : Bool) (source : Text) (f : Nat → Nat) :
    (closing s last).flatMap (Event.warnings utf8 source) =
      ((closing s number).flatMap (Event.warnings utf8 source)).map (·.renumber f last) := by
  unfold closing
  cases s.openObject with
  | none => rfl
  | some o =>
    have hw : Warning.isUnclosed ⟨(Problem.unclosedObject o.name).message, source, number⟩ = true :=
      List.isPrefixOf_iff_prefix.2 ⟨_, (List.append_assoc _ _ _).symm⟩
    simp only [List.flatMap_singleton, Event.warnings, List.map_cons, List.map_nil,
      Warning.renumber, hw]
    rfl

end Reader

/-- The errors that are made of faults. -/
def errorsOf (settings : Settings) (audience : Audience) (faults : List Fault) : List Text :=
  if settings.strict && audience.listening then faults.map (·.message .developer) else []

theorem parse_said_eq (settings : Settings) (audience : Audience) (lines : List Text) :
    (parse settings audience lines).said =
      (Reader.read settings.supported lines).events.flatMap fun e =>
        (e.entries settings audience).filterMap Entry.said? := by
  simp only [Parsed.said, parse_eq, List.filterMap_flatMap]

theorem parse_errors_eq (settings : Settings) (audience : Audience) (lines : List Text) :
    (parse settings audience lines).errors =
      errorsOf settings audience ((Reader.read settings.supported lines).events.flatMap
        (Event.faults settings.utf8 audience.source)) := by
  rw [parse_errors, errorsOf, List.map_flatMap]
  congr 2
  funext e
  exact e.errors_eq_faults _ _

/-- Blank lines can be put in anywhere: above any line, below the last one, inside of comments and
of code objects. The document and what is said stay the same. Warnings and errors stay the same at
the new places of their lines, except that an object which is never closed is told at the new end. -/
theorem parse_spread (settings : Settings) (audience : Audience) (lines : List Text)
    {gaps : List (List Text)} (h : ∀ gap ∈ gaps, Blank gap) :
    let p := parse settings audience lines
    let p' := parse settings audience (spread gaps lines)
    let faults := (Reader.read settings.supported lines).events.flatMap
      (Event.faults settings.utf8 audience.source)
    p'.document = p.document ∧ p'.said = p.said ∧
      p'.warnings =
        p.warnings.map (·.renumber (lineNumber gaps) (spread gaps lines).length) ∧
      p.errors = errorsOf settings audience faults ∧
      p'.errors = errorsOf settings audience (faults.map (·.renumber (lineNumber gaps))) := by
  intro p p' faults
  have hread := Reader.read_eq_finish settings.supported lines
  have hread' := Reader.read_spread h settings.supported lines
  have hevents : ∀ e ∈ (Reader.scan settings.supported {} 0 lines).events, e.unclosed? = none := by
    rw [Reader.scan_eq]
    exact fun e he => Reader.scanBefore_unclosed he
  generalize Reader.scan settings.supported {} 0 lines = o at hread hread' hevents
  refine ⟨?_, ?_, ?_, parse_errors_eq settings audience lines, ?_⟩
  · rw [parse_document, parse_document, hread, hread']
    rfl
  · have hsaid := List.flatMap_congr fun e (_ : e ∈ o.events) =>
      e.said_renumber settings audience (lineNumber gaps)
    simp only [p, p', parse_said_eq, hread, hread', Reader.Outcome.finish, List.flatMap_append,
      List.flatMap_map, hsaid]
    cases o.next <;> simp [Reader.said_closing]
  · have hwarnings := Event.flatMap_renumber fun e he => Event.warnings_renumber settings.utf8
      audience.source (lineNumber gaps) (spread gaps lines).length (hevents e he)
    simp only [p, p', parse_warnings, hread, hread', Reader.Outcome.finish, List.flatMap_append,
      List.map_append, hwarnings]
    cases o.next with
    | none => rfl
    | some s => exact congrArg _ (Reader.warnings_closing s _ _ _ _ _)
  · have hfaults := Event.flatMap_renumber fun e (_ : e ∈ o.events) =>
      e.faults_renumber settings.utf8 audience.source (lineNumber gaps)
    rw [parse_errors_eq]
    simp only [faults, hread, hread', Reader.Outcome.finish, List.flatMap_append, hfaults]
    cases o.next <;> simp [Reader.faults_closing]

/-- Blank lines above a rule, between it and its continuation, and in an object that stays open. -/
theorem parse_spread_continuation :
    let lines : List Text :=
      [['+', 'a'], ['^', 'B'], ['>', ' ', 'o', 'b', 'j', 'e', 'c', 't', ' ', 'f', ' ', 'c']]
    let gaps : List (List Text) := [[[]], [[' '], []], [], [['\t']]]
    let p := parse {} ⟨['s'], true⟩ lines
    let p' := parse {} ⟨['s'], true⟩ (spread gaps lines)
    (∀ gap ∈ gaps, Blank gap) ∧ p'.document = p.document ∧ p.warnings.map (·.number) = [1, 3] ∧
      p'.warnings.map (·.number) = [2, 7] := by
  intro lines gaps p p'
  have hgaps : ∀ gap ∈ gaps, Blank gap := by unfold Blank; decide
  obtain ⟨hdocument, -, hwarnings, -⟩ := parse_spread {} ⟨['s'], true⟩ lines hgaps
  refine ⟨hgaps, hdocument, by decide, ?_⟩
  rw [hwarnings]
  decide

end DialogueScript
