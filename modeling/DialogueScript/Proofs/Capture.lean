import DialogueScript.Proofs.Blocks
import Mathlib.Data.List.ModifyLast

/-!
# The state behind a line

A code object can be read with a flag and three registers, for its name, its language and its lines.
`Capture` reads it so beside the states of a run. A label that closes objects lowers the flag alone,
which is all there is to do: with the flag down the registers are empty. While the flag is up, no
comment and no rule is open. A rule that is open is the last one of the active topic, and so it is
always the last rule of that topic that a response, a condition or a redirect extends
(`scanBefore_settled`).
-/

namespace DialogueScript

/-! ## The last rule of a topic -/

theorem Table.modify_congr {α : Type} {t : Table α} {name : Text} {f g : α → α}
    (h : ∀ v, t.get? name = some v → f v = g v) : t.modify name f = t.modify name g := by
  induction t with
  | nil => rfl
  | cons p t ih =>
    obtain ⟨n, v⟩ := p
    by_cases hn : n = name
    · simp [modify, hn, h v (by simp [get?, hn])]
    · simp only [modify, if_neg hn]
      rw [ih fun w hw => h w (by simpa [get?, hn] using hw)]

theorem modify_eq_modifyLast {α : Type} {xs : List α} {i : Nat} (h : xs.length = i + 1)
    (f : α → α) : xs.modify i f = xs.modifyLast f := by
  rcases List.eq_nil_or_concat xs with rfl | ⟨ys, x, rfl⟩
  · cases h
  · obtain rfl : ys.length = i := by simpa using h
    rw [List.concat_eq_append, List.modifyLast_concat]
    exact List.modifyTailIdx_add (List.modifyHead f) 0 ys [x]

def Topic.modifyLastRule (t : Topic) (f : Rule → Rule) : Topic :=
  { t with rules := t.rules.modifyLast f }

/-! ## Registers -/

/-- A flag, and what is known of the code object that is being read. -/
structure Capture where
  active : Bool := false
  name : Text := []
  language : Text := []
  code : List Text := []
deriving DecidableEq, Repr

namespace Capture

variable (c : Capture)

def start (name language : Text) : Capture := ⟨true, name, language, []⟩

def keep (line : Text) : Capture := { c with code := c.code ++ [line] }

/-- Clears the flag and leaves the registers as they are. -/
def lower : Capture := { c with active := false }

/-- The code object that is open, if one is. -/
def object? : Option CodeObject := if c.active then some ⟨c.name, c.language, c.code⟩ else none

def obey (l : LogicalLine) : Capture :=
  match l.command? with
  | some .labelOpen =>
    match Label.ofText l.text with
    | .object name language => start name (language.getD defaultLanguage)
    | _ => c
  | some .labelClose => if l.text = Label.objectKeyword then c.lower else c
  | _ => c

/-- Reads a line that dispatches the statements `ls`. -/
def read (line : Text) (ls : List LogicalLine) : Capture :=
  if Text.trim line = [] then c
  else if c.active then if Label.closesObject line then {} else c.keep line
  else ls.foldl obey c

theorem object?_obey_empty (l : LogicalLine) : (obey {} l).object? = l.opened? := by
  unfold obey LogicalLine.opened? LogicalLine.object?
  split
  · next hc =>
    rw [hc]
    split
    · next hl => simp [hl, start, object?]
    · next hl =>
      split
      · next hl' => exact absurd hl' (hl _ _)
      · rfl
  · next hc =>
    simp only [hc]
    split <;> rfl
  · next hc _ =>
    split
    · next hc' _ => exact absurd hc' hc
    · rfl

theorem obey_empty_of_inactive {l : LogicalLine} (h : (obey {} l).active = false) :
    obey {} l = {} := by
  unfold obey at h ⊢
  split
  · next hc =>
    rw [hc] at h
    split
    · next hl => simp [hl, start] at h
    · rfl
  · split <;> rfl
  · rfl

end Capture

namespace Reader

/-- The registers behind `lines`, which are read in view of the lines `later` behind them. -/
def captureBefore (supported : Float) (s : State) (c : Capture) (number : Nat) (later : List Text) :
    List Text → Capture
  | [] => c
  | line :: rest =>
    let outcome := s.step supported (number + 1) line (rest ++ later)
    match outcome.next with
    | none => c
    | some next =>
      captureBefore supported next (c.read line (dispatched outcome.events)) (number + 1) later rest

namespace State

variable {s s' : State} {supported : Float} {c : Capture}

/-! ## The registers along a run -/

/-- The registers hold the code object that is open, and nothing else. -/
structure Captured (s : State) (c : Capture) : Prop where
  object : s.openObject = c.object?
  idle : c.active = false → c = {}

theorem Captured.active (h : s.Captured c) : c.active = s.openObject.isSome := by
  rw [h.object, Capture.object?]
  cases c.active <;> rfl

theorem Captured.of_empty (h : s.openObject = none) : s.Captured {} := ⟨h, fun _ => rfl⟩

/-- With no code object open the registers are empty. -/
theorem Captured.eq_empty (h : s.Captured c) (ho : s.openObject = none) : c = {} :=
  h.idle (by rw [h.active, ho]; rfl)

theorem Captured.readCode (h : s.Captured c) {o : CodeObject} (ho : s.openObject = some o)
    {line : Text} (ht : Text.trim line ≠ []) (ls : List LogicalLine) :
    (s.readCode o line).Captured (c.read line ls) := by
  have ha : c.active = true := by rw [h.active, ho]; rfl
  have hc : c.object? = some o := by rw [← h.object, ho]
  obtain rfl : ⟨c.name, c.language, c.code⟩ = o := by simpa [Capture.object?, ha] using hc
  rw [Capture.read, if_neg ht, if_pos ha]
  unfold State.readCode
  split
  · exact .of_empty rfl
  · refine ⟨by simp [Capture.object?, Capture.keep, ha], ?_⟩
    intro hn
    rw [Capture.keep, ha] at hn
    cases hn

/-- The registers follow the state at every line. -/
theorem Captured.step {number : Nat} {line : Text} {rest : List Text} (h : s.Captured c)
    (hs : (s.step supported number line rest).next = some s') :
    s'.Captured (c.read line (dispatched (s.step supported number line rest).events)) := by
  have hk := s.step_stepped supported number line rest
  generalize s.step supported number line rest = outcome at hk hs ⊢
  cases hk with
  | blank ht =>
    cases hs
    rw [Capture.read, if_pos ht]
    exact h
  | code o ht ho =>
    cases hs
    exact h.readCode ho ht _
  | aside inComment problems ht ho =>
    cases hs
    obtain rfl := h.eq_empty ho
    rw [go_events, dispatched_seen, dispatched_problems, Capture.read, if_neg ht]
    exact .of_empty ho
  | statement st ht ho hkind =>
    obtain rfl := h.eq_empty ho
    generalize s.logicalLine number st rest = l at hs ⊢
    obtain ⟨-, ho'⟩ := obey_opened ho hs
    show s'.Captured (Capture.read {} line
      (dispatched (s.seen line :: .statement l :: (s.obey supported l).events)))
    rw [dispatched_seen, dispatched_statement, dispatched_obey supported l ho, Capture.read,
      if_neg ht, if_neg (by simp)]
    by_cases hc : l.command?.isSome
    · rw [if_pos hc]
      exact ⟨ho'.trans (Capture.object?_obey_empty l).symm, Capture.obey_empty_of_inactive⟩
    · have hn : l.command? = none := Option.not_isSome_iff_eq_none.1 hc
      rw [if_neg hc]
      exact .of_empty (ho'.trans (opened?_of_command (by simp [hn])))

/-- The registers follow the state through a part of a script. -/
theorem Captured.scanBefore {number : Nat} {later lines : List Text} (h : s.Captured c)
    (hs : (Reader.scanBefore supported s number later lines).next = some s') :
    s'.Captured (captureBefore supported s c number later lines) := by
  induction lines generalizing s c number with
  | nil =>
    cases hs
    exact h
  | cons line rest ih =>
    obtain ⟨next, hnext, hrest, -⟩ := Outcome.next_andThen hs
    rw [captureBefore]
    simp only [hnext]
    exact ih (h.step hnext) hrest

/-! ## Nothing else is open -/

/-- No comment and no rule is open beside a code object. -/
def Alone (s : State) : Prop :=
  s.openObject.isSome = true → s.inComment = false ∧ s.openRule = none

theorem Alone.of_none (h : s.openObject = none) : s.Alone := by
  intro ho
  rw [h] at ho
  cases ho

end State

namespace State

variable {s s' : State} {supported : Float}

theorem Alone.obey {l : LogicalLine} (hc : s.inComment = false) (ho : s.openObject = none)
    (hs : (s.obey supported l).next = some s') : s'.Alone := by
  have hk := s.obey_obeyed supported l ho
  generalize s.obey supported l = outcome at hk hs
  cases hk with
  | refused => cases hs
  | opened name language problems =>
    cases hs
    exact fun _ => ⟨hc, rfl⟩
  | _ =>
    cases hs
    exact .of_none ho

/-- Behind every line, a code object is open only where no comment and no rule is. -/
theorem Alone.step {number : Nat} {line : Text} {rest : List Text} (h : s.Alone)
    (hs : (s.step supported number line rest).next = some s') : s'.Alone := by
  have hk := s.step_stepped supported number line rest
  generalize s.step supported number line rest = outcome at hk hs
  cases hk with
  | blank =>
    cases hs
    exact h
  | code o _ ho =>
    cases hs
    have hquiet := h (by rw [ho]; rfl)
    unfold readCode
    split
    · exact .of_none rfl
    · exact fun _ => hquiet
  | aside inComment problems _ ho =>
    cases hs
    exact .of_none ho
  | statement st _ ho hkind => exact .obey (LineKind.inComment_of_statement hkind) ho hs

theorem Alone.scanBefore {number : Nat} {later lines : List Text} (h : s.Alone)
    (hs : (Reader.scanBefore supported s number later lines).next = some s') : s'.Alone :=
  scanBefore_keeps (fun _ _ _ _ _ h hs => Alone.step h hs) h hs

/-! ## What a statement does to the open rule -/

/-- What a statement adds to the last rule of the active topic, if a rule is open. -/
def extendLast (s : State) (l : LogicalLine) : State :=
  if s.openRule.isSome then
    { s with document := s.document.modifyTopic s.topic (·.modifyLastRule (·.extendBy l)) }
  else s

theorem Attached.modifyRule_eq (h : s.Attached) {place : RulePlace} (ho : s.openRule = some place)
    (f : Rule → Rule) :
    s.document.modifyRule place f = s.document.modifyTopic s.topic (·.modifyLastRule f) := by
  obtain ⟨ht, topic, hg, hl⟩ := h place ho
  rw [Document.modifyRule, ht]
  refine congrArg (fun topics => { s.document with topics }) (Table.modify_congr ?_)
  intro t htopic
  obtain rfl : topic = t := Option.some.inj (hg.symm.trans htopic)
  exact congrArg (fun rules => { topic with rules }) (modify_eq_modifyLast hl f)

/-- What extends a rule extends the last rule of the active topic. -/
theorem obey_extends (h : s.Attached) {l : LogicalLine} (hx : l.extendsRule = true) :
    (s.obey supported l).next = some (s.extendLast l) := by
  have hc : l.command? = some .response ∨ l.command? = some .condition ∨
      l.command? = some .redirect := by
    simpa [LogicalLine.extendsRule, or_assoc] using hx
  cases ho : s.openRule with
  | none =>
    rw [extendLast, ho, if_neg (by simp)]
    rcases hc with hc | hc | hc <;> simp [obey, hc, extendRule, ho]
  | some place =>
    rw [extendLast, ho, if_pos (by rfl), ← h.modifyRule_eq ho]
    rcases hc with hc | hc | hc <;> simp [obey, hc, extendRule, ho, Rule.extendBy]

theorem obey_closesObject {l : LogicalLine} (ho : s.openObject = none)
    (hc : l.command? = some .labelClose) (hl : l.text = Label.objectKeyword) :
    (s.obey supported l).next = some s := by
  have hs : { s with openObject := none } = s := by rw [← ho]
  have ht : ¬(l.text = Label.beginKeyword ∨ l.text = Label.topicKeyword) := by
    rw [hl]
    decide
  unfold obey
  rw [hc]
  simp only [s.closeLabel_object ht hl, hs, go_next]

/-- The state behind a line with a statement is the one that the statement leads to. -/
theorem next_of_dispatched {number : Nat} {line : Text} {rest : List Text} {l : LogicalLine}
    (h : l ∈ dispatched (s.step supported number line rest).events) :
    s.openObject = none ∧ dispatched (s.step supported number line rest).events = [l] ∧
      (s.step supported number line rest).next = (s.obey supported l).next := by
  rcases s.step_dispatched supported number line rest with hd | ⟨st, ht, ho, hk, hd⟩
  · rw [hd] at h
    cases h
  · rw [hd] at h
    obtain rfl := List.mem_singleton.1 h
    exact ⟨ho, hd, by rw [step_statement ht ho hk]⟩

/-- The closing label of code objects does nothing where none is open. -/
theorem Captured.closesObject (h : s.Captured c) {number : Nat} {line : Text} {rest : List Text}
    {l : LogicalLine} (hl : l ∈ dispatched (s.step supported number line rest).events)
    (hc : l.command? = some .labelClose) (ht : l.text = Label.objectKeyword) :
    (s.step supported number line rest).next = some s ∧
      c.read line (dispatched (s.step supported number line rest).events) = c := by
  obtain ⟨ho, hd, hn⟩ := next_of_dispatched hl
  obtain rfl := h.eq_empty ho
  refine ⟨hn.trans (obey_closesObject ho hc ht), ?_⟩
  rw [hd, Capture.read]
  simp [Capture.obey, hc, ht, Capture.lower]

end State

/-! ## Behind every line -/

/-- Behind every line of a script the registers hold what is open. With the flag up no comment is
open and no rule; with the flag down the registers are empty, so that the label which only clears
the flag changes nothing when it is met. An open rule is the last one of the active topic, which is
a topic of the document, and a response, a condition or a redirect in the next line extends this
rule or none. -/
theorem scanBefore_settled (supported : Float) (front back : List Text) {s : State}
    (h : (scanBefore supported {} 0 back front).next = some s) :
    let c := captureBefore supported {} {} 0 back front
    s.openObject = c.object? ∧
      (c.active = true → s.inComment = false ∧ s.openRule = none) ∧
      (c.active = false → c.name = [] ∧ c.language = [] ∧ c.code = []) ∧
      (∀ place, s.openRule = some place → place.topic = s.topic ∧
        s.topic ∈ s.document.topics.names ∧
          (s.document.rulesOf s.topic).length = place.index + 1) ∧
      ∀ line rest,
        let outcome := s.step supported (front.length + 1) line rest
        ∀ l ∈ dispatched outcome.events,
          (l.command? = some .labelClose → l.text = Label.objectKeyword →
            outcome.next = some s ∧ c.read line (dispatched outcome.events) = c) ∧
          (l.extendsRule = true → outcome.next = some (s.extendLast l)) := by
  intro c
  have hcaptured : s.Captured c := (State.Captured.of_empty rfl).scanBefore h
  have halone : s.Alone := (State.Alone.of_none rfl).scanBefore h
  have hsound : s.Sound := State.sound_initial.scanBefore h
  refine ⟨hcaptured.object, ?_, ?_, ?_, ?_⟩
  · intro ha
    exact halone (hcaptured.active ▸ ha)
  · intro ha
    rw [hcaptured.idle ha]
    exact ⟨rfl, rfl, rfl⟩
  · intro place hp
    obtain ⟨ht, topic, hg, hl⟩ := hsound.attached place hp
    refine ⟨ht, Table.isSome_get?_iff.1 (by rw [hg]; rfl), ?_⟩
    rw [Document.rulesOf, hg]
    exact hl
  · intro line rest outcome l hl
    refine ⟨hcaptured.closesObject hl, ?_⟩
    intro hx
    obtain ⟨-, -, hn⟩ := State.next_of_dispatched hl
    exact hn.trans (State.obey_extends hsound.attached hx)

/-- Inside a code object, and further down with a rule open and a response in the next line. -/
theorem scanBefore_settled_response :
    let opener : Text := ['>', ' ', 'o', 'b', 'j', 'e', 'c', 't', ' ', 'f', ' ', 'c']
    let closer : Text := ['<', ' ', 'o', 'b', 'j', 'e', 'c', 't']
    (∃ s, (scanBefore 2.0 {} 0 [closer, ['+', 'a'], ['-', 'b']] [opener, ['+', 'x']]).next = some s ∧
        s.openObject = some ⟨['f'], ['c'], [['+', 'x']]⟩ ∧ s.openRule = none) ∧
      ∃ s, (scanBefore 2.0 {} 0 [['-', 'b']] [opener, ['+', 'x'], closer, ['+', 'a']]).next = some s ∧
        s.document.rulesOf s.topic = [{ pattern := ['a'] }] ∧
        (s.step 2.0 5 ['-', 'b'] []).next = some (s.extendLast ⟨'-', ['b'], none, 5⟩) := by
  intro opener closer
  refine ⟨⟨_, rfl, ?_⟩, ⟨_, rfl, rfl, ?_⟩⟩
  · obtain ⟨hobject, halone, -⟩ := scanBefore_settled 2.0 [opener, ['+', 'x']]
      [closer, ['+', 'a'], ['-', 'b']] rfl
    exact ⟨hobject, (halone rfl).2⟩
  · obtain ⟨-, -, -, -, hnext⟩ := scanBefore_settled 2.0 [opener, ['+', 'x'], closer, ['+', 'a']]
      [['-', 'b']] rfl
    exact (hnext ['-', 'b'] [] ⟨'-', ['b'], none, 5⟩ (List.mem_singleton.2 rfl)).2 rfl

end Reader

end DialogueScript
