import DialogueScript.Names

/-!
# Tables

A table binds names to values and remembers in which order the names first arrived. Assigning to a
name that is bound keeps its place; two tables are `same` if they bind the same names to the same
values, in whatever order. Each operation is described through the two views of a table: the names
it binds (`names_assign`, …) and the value under a name (`get?_assign`, …).
-/

namespace DialogueScript

abbrev Table (α : Type) := List (Text × α)

namespace Table

variable {α : Type}

def names (t : Table α) : Names := t.map (·.1)

def get? : Table α → Text → Option α
  | [], _ => none
  | (n, v) :: rest, name => if n = name then some v else get? rest name

/-- Replaces the value in place, or else adds the name at the end. -/
def assign : Table α → Text → α → Table α
  | [], name, value => [(name, value)]
  | (n, v) :: rest, name, value =>
    if n = name then (n, value) :: rest else (n, v) :: assign rest name value

/-- Binds the name to `value` unless it is bound already. -/
def ensure (t : Table α) (name : Text) (value : α) : Table α :=
  if (get? t name).isSome then t else t ++ [(name, value)]

/-- Changes the value that the name is bound to, if it is bound. -/
def modify : Table α → Text → (α → α) → Table α
  | [], _, _ => []
  | (n, v) :: rest, name, f =>
    if n = name then (n, f v) :: rest else (n, v) :: modify rest name f

/-- Both tables bind the same names, to values that `eq` accepts. -/
def same (eq : α → α → Bool) (t u : Table α) : Bool :=
  t.length == u.length &&
    t.all fun p =>
      match get? u p.1 with
      | some v => eq p.2 v
      | none => false

/-! ## Names -/

theorem isSome_get?_iff {t : Table α} {name : Text} :
    (get? t name).isSome = true ↔ name ∈ names t := by
  induction t with
  | nil => simp [get?, names]
  | cons p t ih =>
    obtain ⟨n, v⟩ := p
    by_cases h : n = name
    · simp [get?, names, h]
    · simpa [get?, names, h, Ne.symm h] using ih

theorem names_assign (t : Table α) (name : Text) (value : α) :
    names (assign t name value) = (names t).add name := by
  induction t with
  | nil => rfl
  | cons p t ih =>
    obtain ⟨n, v⟩ := p
    by_cases h : n = name
    · simp [assign, names, Names.add, h]
    · rw [assign, if_neg h]
      exact (congrArg (n :: ·) ih).trans (Names.add_cons h).symm

theorem names_ensure (t : Table α) (name : Text) (value : α) :
    names (ensure t name value) = (names t).add name := by
  by_cases h : name ∈ names t
  · rw [ensure, if_pos (isSome_get?_iff.2 h), Names.add, if_pos h]
  · rw [ensure, if_neg fun he => h (isSome_get?_iff.1 he), Names.add, if_neg h]
    simp [names]

@[simp] theorem names_modify (t : Table α) (name : Text) (f : α → α) :
    names (modify t name f) = names t := by
  induction t with
  | nil => rfl
  | cons p t ih =>
    obtain ⟨n, v⟩ := p
    by_cases h : n = name
    · simp [modify, names, h]
    · simpa [modify, names, h] using ih

/-! ## Values -/

theorem get?_append (t u : Table α) (name : Text) :
    get? (t ++ u) name = (get? t name).or (get? u name) := by
  induction t with
  | nil => simp [get?]
  | cons p t ih =>
    obtain ⟨n, v⟩ := p
    by_cases h : n = name
    · simp [get?, h]
    · simpa [get?, h] using ih

theorem get?_assign (t : Table α) (name other : Text) (value : α) :
    get? (assign t name value) other = if name = other then some value else get? t other := by
  induction t with
  | nil => simp [assign, get?]
  | cons p t ih =>
    obtain ⟨n, v⟩ := p
    by_cases h : n = name
    · subst h
      by_cases ho : n = other <;> simp [assign, get?, ho]
    · by_cases ho : n = other
      · subst ho
        simp [assign, get?, h, Ne.symm h]
      · simp [assign, get?, h, ho, ih]

theorem get?_modify (t : Table α) (name other : Text) (f : α → α) :
    get? (modify t name f) other =
      if name = other then (get? t other).map f else get? t other := by
  induction t with
  | nil => simp [modify, get?]
  | cons p t ih =>
    obtain ⟨n, v⟩ := p
    by_cases h : n = name
    · subst h
      by_cases ho : n = other <;> simp [modify, get?, ho]
    · by_cases ho : n = other
      · subst ho
        simp [modify, get?, h, Ne.symm h]
      · simp [modify, get?, h, ho, ih]

theorem get?_ensure (t : Table α) (name other : Text) (value : α) :
    get? (ensure t name value) other =
      (get? t other).or (if name = other then some value else none) := by
  unfold ensure
  split
  · next h =>
    by_cases ho : name = other
    · subst ho
      obtain ⟨v, hv⟩ := Option.isSome_iff_exists.1 h
      simp [hv]
    · simp [ho]
  · rw [get?_append]
    simp [get?]

end Table

end DialogueScript
