import DialogueScript.Proofs.Invariant
import DialogueScript.Proofs.Payloads
import Mathlib.Data.List.TakeWhile

/-!
# Blocks

The lines of a code object are kept and not looked at. `block?` tells from the lines alone which
code object a statement opens: its code are the lines below that are not blank, up to the first one
that closes it. The objects of a document are the blocks of its script (`scanBefore_objects`), and
nothing is told of the lines in a block but that they were read (`scanBefore_quiet`).
-/

namespace DialogueScript

/-! ## Blocks -/

/-- The lines up to the end of the code object that they are in. -/
def bodyOf (lines : List Text) : List Text := lines.takeWhile (!Label.closesObject ·)

/-- What is kept of the lines of a code object. -/
def codeOf (lines : List Text) : List Text := lines.filter (Text.trim · ≠ [])

/-- The code object with the lines below it, if it has a name and the lines close it. -/
def CodeObject.closed? (o : CodeObject) (below : List Text) : Option CodeObject :=
  if o.name ≠ [] ∧ below.any Label.closesObject then
    some { o with code := o.code ++ codeOf (bodyOf below) }
  else none

/-- The code object with the lines below it, if they do not close it. -/
def CodeObject.unclosed? (o : CodeObject) (below : List Text) : Option Text :=
  if below.any Label.closesObject then none else some o.name

namespace LogicalLine

variable (l : LogicalLine) (lines : List Text)

/-- The code object that the line opens. -/
def opened? : Option CodeObject := l.object?.map fun p => ⟨p.1, p.2, []⟩

/-- The lines of the script below the line. -/
def below : List Text := lines.drop l.number

/-- The code object that the line opens and a line below it closes. -/
def block? : Option CodeObject := l.opened?.bind (·.closed? (l.below lines))

/-- The name of the code object that the line opens and no line below it closes. -/
def unclosed? : Option Text := l.opened?.bind (·.unclosed? (l.below lines))

/-- A line opens a code object by the words of its label. -/
theorem words_of_opened {l : LogicalLine} {o : CodeObject} (h : l.opened? = some o) :
    l.command? = some .labelOpen ∧
      ∃ rest, Text.words l.text = Label.objectKeyword :: rest ∧ o.name = rest.headD [] := by
  obtain ⟨p, hp, rfl⟩ := Option.map_eq_some_iff.1 h
  obtain ⟨hc, rest, hw, hname, -⟩ := object?_eq_some_iff.1 hp
  exact ⟨hc, rest, hw, hname⟩

end LogicalLine

/-- A line that closes a code object is not blank. -/
theorem Label.trim_of_closesObject {line : Text} (h : closesObject line = true) :
    Text.trim line ≠ [] := by
  obtain ⟨front, gap, rest, -, -, rfl⟩ := closesObject_iff.1 h
  exact Text.trim_ne_nil (c := '<') (by simp) (by decide)

section

variable {line : Text} (below : List Text) (o : CodeObject)

theorem CodeObject.closed?_of_closes (h : Label.closesObject line = true) :
    o.closed? (line :: below) = if o.name ≠ [] then some o else none := by
  simp [closed?, bodyOf, codeOf, h]

theorem CodeObject.unclosed?_of_closes (h : Label.closesObject line = true) :
    o.unclosed? (line :: below) = none := by
  simp [unclosed?, h]

theorem CodeObject.closed?_of_keeps (h : Label.closesObject line = false) (ht : Text.trim line ≠ []) :
    o.closed? (line :: below) = { o with code := o.code ++ [line] }.closed? below := by
  simp [closed?, bodyOf, codeOf, h, ht]

theorem CodeObject.unclosed?_of_keeps (h : Label.closesObject line = false) :
    o.unclosed? (line :: below) = o.unclosed? below := by
  simp [unclosed?, h]

theorem Label.closesObject_of_blank (h : Text.trim line = []) : closesObject line = false := by
  cases hc : closesObject line with
  | false => rfl
  | true => exact absurd h (trim_of_closesObject hc)

theorem CodeObject.closed?_of_blank (h : Text.trim line = []) :
    o.closed? (line :: below) = o.closed? below := by
  simp [closed?, bodyOf, codeOf, Label.closesObject_of_blank h, h]

theorem CodeObject.unclosed?_of_blank (h : Text.trim line = []) :
    o.unclosed? (line :: below) = o.unclosed? below :=
  CodeObject.unclosed?_of_keeps below o (Label.closesObject_of_blank h)

end

namespace Reader

/-! ## Steps -/

/-- What a line does to the code objects and which statements it dispatches. -/
inductive ObjectStep (s : State) (number : Nat) (line : Text) : List LogicalLine → State → Prop
  | blank (h : Text.trim line = []) : ObjectStep s number line [] s
  | closed (o : CodeObject) (ho : s.openObject = some o) (h : Label.closesObject line = true) :
    ObjectStep s number line [] (s.closeObject o)
  | kept (o : CodeObject) (ho : s.openObject = some o) (h : Label.closesObject line = false)
    (ht : Text.trim line ≠ []) :
    ObjectStep s number line [] { s with openObject := some { o with code := o.code ++ [line] } }
  | passed (s' : State) (ho : s.openObject = none)
    (hd : s'.document.objects = s.document.objects) (ho' : s'.openObject = none) :
    ObjectStep s number line [] s'
  | statement (l : LogicalLine) (s' : State) (ho : s.openObject = none) (hl : l.number = number)
    (hd : s'.document.objects = s.document.objects) (ho' : s'.openObject = l.opened?) :
    ObjectStep s number line [l] s'

namespace State

variable {s s' : State} {supported : Float}

theorem opened?_of_command {l : LogicalLine} (h : l.command? ≠ some .labelOpen) :
    l.opened? = none := by
  unfold LogicalLine.opened? LogicalLine.object?
  split
  · exact absurd ‹_› h
  · rfl

theorem opened?_of_label {l : LogicalLine}
    (h : ∀ name language, Label.ofText l.text ≠ .object name language) : l.opened? = none := by
  unfold LogicalLine.opened? LogicalLine.object?
  split
  · next hl => exact absurd hl (h _ _)
  · rfl

theorem opened?_of_rejects {l : LogicalLine} {p : Problem} (h : s.Rejects l p) : l.opened? = none := by
  have define (h : l.command? = some .define) : l.opened? = none :=
    opened?_of_command (by simp [h])
  cases p with
  | unknownCommand => exact opened?_of_command (by simp [h.1])
  | missingName => exact define h
  | missingValue => exact define h
  | unknownDefinition => exact define h
  | badVersion => exact define h
  | unnamedTopic => exact opened?_of_label (by simp [h.2])
  | unknownLabel word =>
    rcases h with ⟨-, hl⟩ | ⟨hc, -, -⟩
    · exact opened?_of_label (by simp [hl])
    · exact opened?_of_command (by simp [hc])
  | strayResponse => exact opened?_of_command (by simp [h.1])
  | strayCondition => exact opened?_of_command (by simp [h.1])
  | strayRedirect => exact opened?_of_command (by simp [h.1])
  | deprecatedComment => cases h
  | lone => cases h
  | unsupportedVersion => cases h
  | unknownLanguage => cases h
  | unclosedObject => cases h

theorem objects_enter (d : Document) (name : Text) (links : Links) :
    (d.enter name links).objects = d.objects :=
  Document.enter_induct d (P := fun e => e.objects = d.objects) (fun _ _ h => h)
    (fun _ _ _ _ h => h) name links rfl

/-- A statement opens the code object that it names, and leaves the closed ones as they are. -/
theorem obey_opened {l : LogicalLine} (ho : s.openObject = none)
    (hn : (s.obey supported l).next = some s') :
    s'.document.objects = s.document.objects ∧ s'.openObject = l.opened? := by
  have hk := s.obey_obeyed supported l ho
  generalize s.obey supported l = outcome at hk hn
  cases hk <;> cases hn
  case rejected p hp => exact ⟨rfl, by rw [opened?_of_rejects hp, ho]⟩
  case ignored hc =>
    have hl : l.command? ≠ some .labelOpen := by
      rcases hc with hc | hc
      · rintro he
        simp [he] at hc
      · simp [hc.1]
    exact ⟨rfl, by rw [opened?_of_command hl, ho]⟩
  case option hc _ _ _ => exact ⟨rfl, by rw [opened?_of_command (by simp [hc])]; exact ho⟩
  case assigned hc _ _ _ => exact ⟨rfl, by rw [opened?_of_command (by simp [hc])]; exact ho⟩
  case assignedArray hc _ _ _ => exact ⟨rfl, by rw [opened?_of_command (by simp [hc])]; exact ho⟩
  case entered name links notes hc hl =>
    refine ⟨objects_enter s.document name links, ?_⟩
    have hne : ∀ name' language, Label.ofText l.text ≠ .object name' language := by
      rcases hl with hl | ⟨hl, -⟩ <;> simp [hl]
    rw [opened?_of_label hne]
    exact ho
  case opened name language problems hc hl hp =>
    refine ⟨rfl, ?_⟩
    simp [openObjectNamed, LogicalLine.opened?, LogicalLine.object?, hc, hl]
  case left hc hl => exact ⟨rfl, by rw [opened?_of_command (by simp [hc])]; exact ho⟩
  case added hc => exact ⟨rfl, by rw [opened?_of_command (by simp [hc])]; exact ho⟩
  case extended place n hx hr =>
    have hl : l.command? ≠ some .labelOpen := by
      intro hc
      simp [LogicalLine.extendsRule, hc] at hx
    exact ⟨rfl, by rw [opened?_of_command hl]; exact ho⟩

/-- A line does to the code objects one of the things that `ObjectStep` lists. -/
theorem step_objectStep {number : Nat} {line : Text} {rest : List Text}
    (hn : (s.step supported number line rest).next = some s') :
    ObjectStep s number line (dispatched (s.step supported number line rest).events) s' := by
  have hk := s.step_stepped supported number line rest
  generalize s.step supported number line rest = outcome at hk hn ⊢
  cases hk with
  | blank h =>
    cases hn
    exact .blank h
  | code o h ho =>
    cases hn
    show ObjectStep s number line [] (s.readCode o line)
    unfold readCode
    split
    · next hc => exact .closed o ho hc
    · next hc => exact .kept o ho (by simpa using hc) h
  | aside inComment problems _ ho =>
    cases hn
    rw [go_events, dispatched_seen, dispatched_problems]
    exact .passed _ ho rfl ho
  | statement st _ ho _ =>
    have hl : (s.logicalLine number st rest).number = number := rfl
    generalize s.logicalLine number st rest = l at hn hl ⊢
    obtain ⟨hd, ho'⟩ := obey_opened ho hn
    show ObjectStep s number line
      (dispatched (s.seen line :: .statement l :: (s.obey supported l).events)) s'
    rw [dispatched_seen, dispatched_statement, dispatched_obey supported l ho]
    by_cases hc : l.command?.isSome
    · rw [if_pos hc]
      exact .statement l s' ho hl hd ho'
    · have hnone := Option.not_isSome_iff_eq_none.1 hc
      rw [if_neg hc]
      exact .passed s' ho hd (ho'.trans (opened?_of_command (by simp [hnone])))

end State

/-! ## Runs -/

variable {supported : Float} {s s' : State}

/-- The objects that are closed, and the one that is open once the lines below close it. -/
def State.objectsWith (s : State) (below : List Text) : List CodeObject :=
  s.document.objects ++ (s.openObject.bind (·.closed? below)).toList

/-- The name of the object that is open and stays so. -/
def State.unclosedWith (s : State) (below : List Text) : List Text :=
  (s.openObject.bind (·.unclosed? below)).toList

section

variable {all below : List Text} {number : Nat} {line : Text} {ls : List LogicalLine}

/-- A line adds to the objects the blocks that its statements open, once the lines below are known.
-/
theorem ObjectStep.objects (h : ObjectStep s number line ls s') (hall : all.drop number = below) :
    s'.objectsWith below = s.objectsWith (line :: below) ++ ls.filterMap (·.block? all) := by
  unfold State.objectsWith
  cases h with
  | blank h => cases s.openObject <;> simp [CodeObject.closed?_of_blank _ _ h]
  | closed o ho h =>
    simp only [State.closeObject, ho, Option.bind_some, CodeObject.closed?_of_closes _ _ h]
    by_cases hn : o.name = [] <;> simp [hn, Document.addObject]
  | kept o ho h ht => simp [ho, CodeObject.closed?_of_keeps _ _ h ht]
  | passed _ ho hd ho' => simp [hd, ho, ho']
  | statement l _ ho hl hd ho' =>
    have hb : l.block? all = l.opened?.bind (·.closed? below) := by
      rw [LogicalLine.block?, LogicalLine.below, hl, hall]
    cases hx : l.opened?.bind (·.closed? below) <;> simp [hd, ho, ho', hb, hx]

theorem ObjectStep.unclosed (h : ObjectStep s number line ls s') (hall : all.drop number = below) :
    s'.unclosedWith below = s.unclosedWith (line :: below) ++ ls.filterMap (·.unclosed? all) := by
  unfold State.unclosedWith
  cases h with
  | blank h => cases s.openObject <;> simp [CodeObject.unclosed?_of_blank _ _ h]
  | closed o ho h => simp [State.closeObject, ho, CodeObject.unclosed?_of_closes _ _ h]
  | kept o ho h ht =>
    simp only [ho, Option.bind_some, CodeObject.unclosed?_of_keeps _ _ h, List.filterMap_nil,
      List.append_nil]
    rfl
  | passed _ ho hd ho' => simp [ho, ho']
  | statement l _ ho hl hd ho' =>
    have hb : l.unclosed? all = l.opened?.bind (·.unclosed? below) := by
      rw [LogicalLine.unclosed?, LogicalLine.below, hl, hall]
    cases hx : l.opened?.bind (·.unclosed? below) <;> simp [ho, ho', hb, hx]

/-- The blocks of the statements of a run are the objects that it closes, and its last state has
the object that it leaves open. -/
theorem scanBefore_objects (hall : all.drop number = below)
    (hn : (scanBefore supported s number [] below).next = some s') :
    s'.document.objects = s.objectsWith below ++
        (dispatched (scanBefore supported s number [] below).events).filterMap (·.block? all) ∧
      (s'.openObject.map (·.name)).toList = s.unclosedWith below ++
        (dispatched (scanBefore supported s number [] below).events).filterMap (·.unclosed? all) := by
  induction below generalizing s number with
  | nil =>
    cases hn
    refine ⟨?_, ?_⟩
    · cases h : s'.openObject <;>
        simp [scanBefore, State.objectsWith, CodeObject.closed?, h]
    · cases h : s'.openObject <;>
        simp [scanBefore, State.unclosedWith, CodeObject.unclosed?, h]
  | cons line rest ih =>
    have hrest : all.drop (number + 1) = rest := by
      rw [← List.drop_drop, hall]
      rfl
    obtain ⟨next, hnext, hn, he⟩ := Outcome.next_andThen hn
    have hstep := State.step_objectStep hnext
    obtain ⟨ho, hu⟩ := ih hrest hn
    rw [hstep.objects hrest] at ho
    rw [hstep.unclosed hrest] at hu
    simp only [scanBefore, he, dispatched_append, List.filterMap_append, ho, hu, List.append_assoc,
      and_self]

end

/-! ## The lines of a block -/

/-- The lines of a code object are kept one by one, whatever they are. -/
theorem scanBefore_body (supported : Float) {o : CodeObject} (ho : s.openObject = some o)
    (number : Nat) (later : List Text) {body : List Text}
    (hb : ∀ line ∈ body, Label.closesObject line = false) :
    scanBefore supported s number later body =
      ⟨(codeOf body).map fun line => .line (Text.trim line) s.topic true,
        some { s with openObject := some { o with code := o.code ++ codeOf body } }⟩ := by
  induction body generalizing s o number with
  | nil =>
    have hs : { s with openObject := some { o with code := o.code ++ codeOf [] } } = s := by
      simp [codeOf, ← ho]
    rw [hs]
    rfl
  | cons line body ih =>
    have hline := hb line List.mem_cons_self
    have hbody := fun line hl => hb line (List.mem_cons_of_mem _ hl)
    rw [scanBefore]
    by_cases ht : Text.trim line = []
    · have hstep : s.step supported (number + 1) line (body ++ later) = s.go [] := by
        rw [State.step, if_pos ht]
      have hcode : codeOf (line :: body) = codeOf body := by simp [codeOf, ht]
      rw [hstep, Outcome.andThen_of_some (State.go_next s []), ih ho (number + 1) hbody, hcode]
      rfl
    · have hstep : s.step supported (number + 1) line (body ++ later) =
          { s with openObject := some { o with code := o.code ++ [line] } }.go
            [.line (Text.trim line) s.topic true] := by
        rw [State.step, if_neg ht, ho]
        simp only [State.readCode, hline]
        rfl
      have hcode : codeOf (line :: body) = line :: codeOf body := by simp [codeOf, ht]
      rw [hstep, Outcome.andThen_of_some (State.go_next _ _), ih rfl (number + 1) hbody, hcode]
      simp

theorem State.obey_of_opened {l : LogicalLine} {o : CodeObject} (ho : s.openObject = none)
    (hl : l.opened? = some o) (supported : Float) :
    ∃ s', (s.obey supported l).next = some s' ∧ s'.openObject = some o := by
  cases hn : (s.obey supported l).next with
  | some s' =>
    obtain ⟨-, hs'⟩ := obey_opened ho hn
    exact ⟨s', rfl, hs'.trans hl⟩
  | none =>
    have hk := s.obey_obeyed supported l ho
    generalize s.obey supported l = outcome at hk hn
    cases hk with
    | refused e hc =>
      rw [opened?_of_command (by simp [hc])] at hl
      cases hl
    | _ => cases hn

theorem closesObject_of_mem_bodyOf {lines : List Text} {line : Text} (h : line ∈ bodyOf lines) :
    Label.closesObject line = false := by
  have := List.all_eq_true.1 List.all_takeWhile line h
  simpa using this

/-- Nothing is told of a line inside a code object, except that the line was read. -/
theorem scanBefore_quiet {lines : List Text} {before after : List LogicalLine} {l : LogicalLine}
    {o : CodeObject}
    (h : dispatched (scanBefore supported s 0 [] lines).events = before ++ l :: after)
    (hl : l.opened? = some o) {e : Event} (he : e ∈ (scanBefore supported s 0 [] lines).events)
    {k : Nat} (hk : e.number? = some k) :
    k ≤ l.number ∨ l.number + (bodyOf (l.below lines)).length < k := by
  obtain ⟨front, line, back, s₁, st, rfl, hs, -, ht, ho, hkind, hlogical⟩ := scanBefore_cut h
  have hnumber : l.number = front.length + 1 := by
    rw [hlogical, Nat.zero_add]
    rfl
  have hbelow : l.below (front ++ line :: back) = back := by
    rw [LogicalLine.below, hnumber, List.append_cons, List.drop_left' (by simp)]
  rw [hbelow]
  obtain ⟨s₂, hs₂, ho₂⟩ := State.obey_of_opened ho hl supported
  have hstep : s₁.step supported (front.length + 1) line back =
      ⟨s₁.seen line :: .statement l :: (s₁.obey supported l).events, some s₂⟩ := by
    rw [State.step_statement ht ho hkind, ← hs₂]
    simp only [List.append_nil, Nat.zero_add] at hlogical
    rw [← hlogical]
  -- the lines above, the line itself, the body and the rest are read one after the other
  rw [scanBefore_append, Outcome.andThen_of_some hs] at he
  rcases List.mem_append.1 he with he | he
  · have := scanBefore_numbers he hk
    omega
  simp only [scanBefore, List.append_nil, Nat.zero_add, hstep] at he
  rw [Outcome.andThen_of_some rfl] at he
  rcases List.mem_append.1 he with he | he
  · rw [← congrArg Outcome.events hstep] at he
    have := State.step_numbers he hk
    omega
  have hback : bodyOf back ++ back.dropWhile (!Label.closesObject ·) = back :=
    List.takeWhile_append_dropWhile
  have hkeep : ∀ x ∈ bodyOf back, Label.closesObject x = false :=
    fun _ hx => closesObject_of_mem_bodyOf hx
  have hbody := scanBefore_body supported ho₂ (front.length + 1)
    (back.dropWhile (!Label.closesObject ·) ++ []) hkeep
  rw [← hback, scanBefore_append, hbody, Outcome.andThen_of_some rfl] at he
  rcases List.mem_append.1 he with he | he
  · obtain ⟨line, -, rfl⟩ := List.mem_map.1 he
    cases hk
  · have := scanBefore_numbers he hk
    omega

end Reader

end DialogueScript
