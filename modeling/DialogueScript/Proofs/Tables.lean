import DialogueScript.Proofs.Conforming

/-!
# What tables store

A table is filled by the definitions of a script and by nothing else: each of its entries is what
some statement defines (`read_definedIn`), and what a statement defines stays bound
(`read_mem_namesOf_iff`). An assignment concerns one entry of all tables (`Definitions.Local`).
-/

namespace DialogueScript

/-- The statement defines the name in the table. -/
structure LogicalLine.Defines (l : LogicalLine) (t : DefinitionTable) (name value : Text) :
    Prop where
  command : l.command? = some .define
  definition : Definition.ofText l.text = ⟨.table t, name, value⟩
  name : name ≠ []
  value : value ≠ []

/-- All entries of the tables are defined by some of the statements. -/
structure Definitions.DefinedIn (ls : List LogicalLine) (d : Definitions) : Prop where
  texts : ∀ t, ∀ p ∈ d.get t, ∃ l ∈ ls, l.Defines (.text t) p.1 p.2
  arrays : ∀ p ∈ d.array, ∃ l ∈ ls, ∃ value, l.Defines .array p.1 value ∧ p.2 = arrayElements value

/-- The names that a table binds. -/
def Definitions.namesOf (d : Definitions) : DefinitionTable → Names
  | .text t => (d.get t).names
  | .array => d.array.names

/-- What a name is bound to in a table: a text, or the elements of an array. -/
def Definitions.binding? (d : Definitions) : DefinitionTable → Text → Option (Text ⊕ List Text)
  | .text t, name => ((d.get t).get? name).map .inl
  | .array, name => (d.array.get? name).map .inr

/-! ## Assigning -/

theorem Table.mem_assign {α : Type} {t : Table α} {name : Text} {value : α} {p : Text × α}
    (h : p ∈ t.assign name value) : p = (name, value) ∨ p ∈ t := by
  induction t with
  | nil => exact .inl (List.mem_singleton.1 h)
  | cons q t ih =>
    obtain ⟨n, v⟩ := q
    rw [assign] at h
    split at h
    · next hn =>
      rcases List.mem_cons.1 h with rfl | h
      · exact .inl (by rw [hn])
      · exact .inr (List.mem_cons_of_mem _ h)
    · rcases List.mem_cons.1 h with rfl | h
      · exact .inr List.mem_cons_self
      · exact (ih h).imp id (List.mem_cons_of_mem _)

namespace Definitions

variable {ls : List LogicalLine} {l : LogicalLine} {d : Definitions} {name value : Text}

theorem get_assign (d : Definitions) (name value : Text) (t u : TextTable) :
    (d.assign name value t).get u = if t = u then (d.get u).assign name value else d.get u := by
  cases t <;> cases u <;> rfl

theorem get_assignArray (d : Definitions) (name : Text) (elements : List Text) (t : TextTable) :
    (d.assignArray name elements).get t = d.get t := by
  cases t <;> rfl

theorem array_assign (d : Definitions) (name value : Text) (t : TextTable) :
    (d.assign name value t).array = d.array := by
  cases t <;> rfl

theorem definedIn_empty (ls : List LogicalLine) : DefinedIn ls {} :=
  ⟨by intro t; cases t <;> exact fun p hp => (by cases hp), fun p hp => (by cases hp)⟩

theorem DefinedIn.assign (h : d.DefinedIn ls) {t : TextTable} (hl : l ∈ ls)
    (hd : l.Defines (.text t) name value) : (d.assign name value t).DefinedIn ls := by
  refine ⟨?_, by rw [array_assign]; exact h.arrays⟩
  intro u p hp
  rw [get_assign] at hp
  split at hp
  · next htable =>
    rcases Table.mem_assign hp with rfl | hp
    · exact ⟨l, hl, htable ▸ hd⟩
    · exact h.texts u p hp
  · exact h.texts u p hp

theorem DefinedIn.assignArray (h : d.DefinedIn ls) (hl : l ∈ ls) (hd : l.Defines .array name value) :
    (d.assignArray name (arrayElements value)).DefinedIn ls := by
  refine ⟨fun t => by rw [get_assignArray]; exact h.texts t, ?_⟩
  intro p hp
  rcases Table.mem_assign hp with rfl | hp
  · exact ⟨l, hl, value, hd, rfl⟩
  · exact h.arrays p hp

theorem namesOf_assign (d : Definitions) (name value : Text) (t : TextTable) (u : DefinitionTable) :
    (d.assign name value t).namesOf u =
      if u = .text t then (d.namesOf u).add name else d.namesOf u := by
  cases u with
  | text u =>
    rw [namesOf, get_assign]
    by_cases h : t = u
    · subst h
      rw [if_pos rfl, if_pos rfl, Table.names_assign]
      rfl
    · rw [if_neg h, if_neg (by simpa using Ne.symm h)]
      rfl
  | array =>
    rw [namesOf, array_assign, if_neg (by simp)]
    rfl

theorem namesOf_assignArray (d : Definitions) (name : Text) (elements : List Text)
    (u : DefinitionTable) :
    (d.assignArray name elements).namesOf u =
      if u = .array then (d.namesOf u).add name else d.namesOf u := by
  cases u with
  | text u =>
    rw [namesOf, get_assignArray, if_neg (by simp)]
    rfl
  | array =>
    rw [if_pos rfl]
    exact Table.names_assign _ _ _

/-! ## One entry -/

theorem binding?_assign (d : Definitions) (name value : Text) (t : TextTable) (u : DefinitionTable)
    (other : Text) :
    (d.assign name value t).binding? u other =
      if (u, other) = (.text t, name) then some (.inl value) else d.binding? u other := by
  cases u with
  | array => simp [binding?, array_assign]
  | text u =>
    rw [binding?, get_assign]
    by_cases ht : t = u
    · subst ht
      by_cases hn : name = other
      · simp [hn, Table.get?_assign]
      · simp [Ne.symm hn, hn, Table.get?_assign, binding?]
    · simp [ht, Ne.symm ht, binding?]

theorem binding?_assignArray (d : Definitions) (name : Text) (elements : List Text)
    (u : DefinitionTable) (other : Text) :
    (d.assignArray name elements).binding? u other =
      if (u, other) = (.array, name) then some (.inr elements) else d.binding? u other := by
  cases u with
  | text u => simp [binding?, get_assignArray]
  | array =>
    rw [binding?, assignArray, Table.get?_assign]
    by_cases hn : name = other
    · simp [hn]
    · simp [Ne.symm hn, hn, binding?]

/-- The change concerns one entry: it leaves the others alone and depends on none of them. -/
structure Local (t : DefinitionTable) (name : Text) (f : Definitions → Definitions) : Prop where
  frame : ∀ d u other, (u, other) ≠ (t, name) → (f d).binding? u other = d.binding? u other
  congr : ∀ d e, d.binding? t name = e.binding? t name → (f d).binding? t name = (f e).binding? t name

theorem local_id (t : DefinitionTable) (name : Text) : Local t name id :=
  ⟨fun _ _ _ _ => rfl, fun _ _ h => h⟩

theorem local_assign (t : TextTable) (name value : Text) :
    Local (.text t) name (·.assign name value t) := by
  constructor
  · intro d u other hne
    rw [binding?_assign, if_neg hne]
  · intro d e _
    rw [binding?_assign, binding?_assign, if_pos rfl, if_pos rfl]

theorem local_assignArray (name : Text) (elements : List Text) :
    Local .array name (·.assignArray name elements) := by
  constructor
  · intro d u other hne
    rw [binding?_assignArray, if_neg hne]
  · intro d e _
    rw [binding?_assignArray, binding?_assignArray, if_pos rfl, if_pos rfl]

end Definitions

namespace Document

theorem definitions_enter (d : Document) (name : Text) (links : Links) :
    (d.enter name links).definitions = d.definitions :=
  enter_induct d (P := fun e => e.definitions = d.definitions) (fun _ _ h => h)
    (fun _ _ _ _ h => h) name links rfl

/-- A name that is bound stays bound. -/
theorem Edit.mem_namesOf {d e : Document} (h : d.Edit e) {t : DefinitionTable} {name : Text}
    (hn : name ∈ d.definitions.namesOf t) : name ∈ e.definitions.namesOf t := by
  cases h with
  | keep => exact hn
  | assign u other value =>
    rw [Definitions.namesOf_assign]
    split
    · exact Names.mem_add.2 (.inl hn)
    · exact hn
  | assignArray other elements =>
    rw [Definitions.namesOf_assignArray]
    split
    · exact Names.mem_add.2 (.inl hn)
    · exact hn
  | enter topic links =>
    rw [definitions_enter]
    exact hn
  | addRule => exact hn
  | modifyRule => exact hn
  | addObject => exact hn

end Document

/-! ## Definitions along a run -/

namespace Reader

namespace State

variable {ls : List LogicalLine} {s s' : State} {supported : Float}

/-- A statement stores what it defines itself. -/
theorem definedIn_obey {l : LogicalLine} (h : s.document.definitions.DefinedIn ls)
    (ho : s.openObject = none) (hl : l.command? = some .define → l ∈ ls)
    (hs : (s.obey supported l).next = some s') : s'.document.definitions.DefinedIn ls := by
  have hk := s.obey_obeyed supported l ho
  generalize s.obey supported l = outcome at hk hs
  cases hk <;> cases hs
  case assigned t name value hc hd hn hv => exact h.assign (hl hc) ⟨hc, hd, hn, hv⟩
  case assignedArray name value hc hd hn hv => exact h.assignArray (hl hc) ⟨hc, hd, hn, hv⟩
  case entered name links _ _ _ =>
    show (s.document.enter name links).definitions.DefinedIn ls
    rw [Document.definitions_enter]
    exact h
  all_goals exact h

/-- A line keeps every entry traced to a statement that defines it. -/
theorem definedIn_step {number : Nat} {line : Text} {rest : List Text}
    (h : s.document.definitions.DefinedIn ls)
    (hl : ∀ l ∈ dispatched (s.step supported number line rest).events, l ∈ ls)
    (hs : (s.step supported number line rest).next = some s') :
    s'.document.definitions.DefinedIn ls := by
  have hk := s.step_stepped supported number line rest
  generalize s.step supported number line rest = outcome at hk hs hl
  cases hk with
  | blank =>
    cases hs
    exact h
  | code o =>
    cases hs
    rw [readCode_definitions]
    exact h
  | aside =>
    cases hs
    exact h
  | statement st _ ho _ =>
    refine definedIn_obey h ho ?_ hs
    intro hc
    refine hl _ ?_
    rw [dispatched_seen, dispatched_statement, hc]
    exact List.mem_cons_self

/-- A definition of a table that has a name and a value binds the name. -/
theorem mem_namesOf_obey {l : LogicalLine} {t : DefinitionTable} {name value : Text}
    (h : l.Defines t name value) (hs : (s.obey supported l).next = some s') :
    name ∈ s'.document.definitions.namesOf t := by
  simp only [obey, h.command, define, h.definition] at hs
  cases t with
  | text t =>
    simp only [complete, if_neg h.name, if_neg h.value] at hs
    cases hs
    show name ∈ (s.document.definitions.assign name value t).namesOf (.text t)
    rw [Definitions.namesOf_assign, if_pos rfl]
    exact Names.mem_add.2 (.inr rfl)
  | array =>
    simp only [complete, if_neg h.name, if_neg h.value] at hs
    cases hs
    show name ∈ (s.document.definitions.assignArray name (arrayElements value)).namesOf .array
    rw [Definitions.namesOf_assignArray, if_pos rfl]
    exact Names.mem_add.2 (.inr rfl)

/-- A definition leaves its name in its table. -/
theorem mem_namesOf_step {number : Nat} {line : Text} {rest : List Text} {l : LogicalLine}
    {t : DefinitionTable} {name value : Text} (h : l.Defines t name value)
    (hl : l ∈ dispatched (s.step supported number line rest).events)
    (hs : (s.step supported number line rest).next = some s') :
    name ∈ s'.document.definitions.namesOf t := by
  rcases s.step_dispatched supported number line rest with hnone | ⟨st, hline, ho, hk, hone⟩
  · rw [hnone] at hl
    cases hl
  · rw [hone] at hl
    obtain rfl := List.mem_singleton.1 hl
    rw [step_statement hline ho hk] at hs
    exact mem_namesOf_obey h hs

end State

/-- The tables of a document hold what statements of the script define. -/
theorem read_definedIn {supported : Float} {lines : List Text} {d : Document}
    (h : (read supported lines).document = some d) :
    d.definitions.DefinedIn (dispatched (read supported lines).events) := by
  rw [dispatched_read h]
  obtain ⟨s, hs, rfl⟩ := next_of_document h
  rw [scan_eq] at hs
  exact scanBefore_keeps_of_dispatched (P := fun s => s.document.definitions.DefinedIn _)
    (fun _ _ _ _ _ h hl hs => State.definedIn_step h hl hs) (Definitions.definedIn_empty _)
    (fun _ hl => hl) hs

/-- The names that were defined stay defined. -/
theorem scanBefore_mem_namesOf {supported : Float} {s s' : State} {number : Nat}
    {later lines : List Text} {l : LogicalLine} {t : DefinitionTable} {name value : Text}
    (h : l.Defines t name value)
    (hl : l ∈ dispatched (scanBefore supported s number later lines).events)
    (hs : (scanBefore supported s number later lines).next = some s') :
    name ∈ s'.document.definitions.namesOf t := by
  induction lines generalizing s number with
  | nil => cases hl
  | cons line rest ih =>
    obtain ⟨next, hnext, hrest, he⟩ := Outcome.next_andThen hs
    rw [scanBefore, he, dispatched_append] at hl
    rcases List.mem_append.1 hl with hl | hl
    · exact scanBefore_keeps (P := fun s => name ∈ s.document.definitions.namesOf t)
        (fun _ _ _ _ _ h hs => (State.step_edit hs).mem_namesOf h)
        (State.mem_namesOf_step h hl hnext) hrest
    · exact ih hl hrest

/-- The names that a table binds are those that statements of the script define in it. -/
theorem read_mem_namesOf_iff {supported : Float} {lines : List Text} {d : Document}
    (h : (read supported lines).document = some d) {t : DefinitionTable} {name : Text} :
    name ∈ d.definitions.namesOf t ↔
      ∃ l ∈ dispatched (read supported lines).events, ∃ value, l.Defines t name value := by
  constructor
  · intro hn
    have hdefined := read_definedIn h
    cases t with
    | text t =>
      obtain ⟨p, hp, rfl⟩ := List.mem_map.1 hn
      obtain ⟨l, hl, hd⟩ := hdefined.texts t p hp
      exact ⟨l, hl, p.2, hd⟩
    | array =>
      obtain ⟨p, hp, rfl⟩ := List.mem_map.1 hn
      obtain ⟨l, hl, value, hd, -⟩ := hdefined.arrays p hp
      exact ⟨l, hl, value, hd⟩
  · rintro ⟨l, hl, value, hd⟩
    rw [dispatched_read h] at hl
    obtain ⟨s, hs, rfl⟩ := next_of_document h
    rw [scan_eq] at hs
    exact scanBefore_mem_namesOf hd hl hs

end Reader

end DialogueScript
