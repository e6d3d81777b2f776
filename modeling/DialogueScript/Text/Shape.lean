import DialogueScript.Text.Basic

/-!
# Shapes of texts

A shape is tested from left to right: each test reads some characters and hands the rest of the
text to the test `k` of what follows. A run may stop at any of its characters, so the whole test
asks whether the text can be parted in some way that suits every part. The `_iff` lemma of each
test states this for the part that the test reads.
-/

namespace DialogueScript.Text.Shape

/-- Characters of the class `p`, any number of them, then `k`. -/
def run (p : Char → Bool) (k : Text → Bool) : Text → Bool
  | [] => k []
  | c :: rest => k (c :: rest) || (p c && run p k rest)

/-- At least one character of the class `p`, and then `k`. -/
def run1 (p : Char → Bool) (k : Text → Bool) : Text → Bool
  | [] => false
  | c :: rest => p c && run p k rest

/-- The text `w` itself, then `k`. -/
def literal (w : Text) (k : Text → Bool) (s : Text) : Bool :=
  match restAfter? w s with
  | some rest => k rest
  | none => false

/-- One of the texts `ws`, then `k`. -/
def oneOf (ws : List Text) (k : Text → Bool) (s : Text) : Bool :=
  ws.any fun w => literal w k s

/-- Nothing more, or a single line feed. -/
def lineEnd : Text → Bool
  | [] => true
  | [c] => c == '\n'
  | _ => false

theorem run_iff {p : Char → Bool} {k : Text → Bool} {s : Text} :
    run p k s = true ↔ ∃ a rest, s = a ++ rest ∧ (∀ c ∈ a, p c = true) ∧ k rest = true := by
  induction s with
  | nil =>
    constructor
    · intro h; exact ⟨[], [], rfl, by simp, h⟩
    · rintro ⟨a, rest, hs, -, hk⟩
      obtain ⟨rfl, rfl⟩ := List.append_eq_nil_iff.1 hs.symm
      exact hk
  | cons c s ih =>
    simp only [run, Bool.or_eq_true, Bool.and_eq_true, ih]
    constructor
    · rintro (h | ⟨hc, a, rest, rfl, ha, hk⟩)
      · exact ⟨[], c :: s, rfl, by simp, h⟩
      · exact ⟨c :: a, rest, rfl, by simpa using ⟨hc, ha⟩, hk⟩
    · rintro ⟨a, rest, hs, ha, hk⟩
      cases a with
      | nil => exact .inl (by simpa [hs] using hk)
      | cons d a =>
        obtain ⟨rfl, rfl⟩ : c = d ∧ s = a ++ rest := by simpa using hs
        exact .inr ⟨ha c (by simp), a, rest, rfl, fun x hx => ha x (by simp [hx]), hk⟩

theorem run1_iff {p : Char → Bool} {k : Text → Bool} {s : Text} :
    run1 p k s = true ↔
      ∃ a rest, s = a ++ rest ∧ a ≠ [] ∧ (∀ c ∈ a, p c = true) ∧ k rest = true := by
  cases s with
  | nil => simp [run1]
  | cons c s =>
    simp only [run1, Bool.and_eq_true, run_iff]
    constructor
    · rintro ⟨hc, a, rest, rfl, ha, hk⟩
      exact ⟨c :: a, rest, rfl, by simp, by simpa using ⟨hc, ha⟩, hk⟩
    · rintro ⟨a, rest, hs, hne, ha, hk⟩
      cases a with
      | nil => exact absurd rfl hne
      | cons d a =>
        obtain ⟨rfl, rfl⟩ : c = d ∧ s = a ++ rest := by simpa using hs
        exact ⟨ha c (by simp), a, rest, rfl, fun x hx => ha x (by simp [hx]), hk⟩

theorem literal_iff {w : Text} {k : Text → Bool} {s : Text} :
    literal w k s = true ↔ ∃ rest, s = w ++ rest ∧ k rest = true := by
  unfold literal
  constructor
  · intro h
    split at h
    · next rest hr => exact ⟨rest, restAfter?_eq_some_iff.1 hr, h⟩
    · exact absurd h (by simp)
  · rintro ⟨rest, hs, hk⟩
    rw [restAfter?_eq_some_iff.2 hs]
    exact hk

theorem oneOf_iff {ws : List Text} {k : Text → Bool} {s : Text} :
    oneOf ws k s = true ↔ ∃ w ∈ ws, ∃ rest, s = w ++ rest ∧ k rest = true := by
  simp [oneOf, literal_iff]

theorem lineEnd_iff {s : Text} : lineEnd s = true ↔ s = [] ∨ s = ['\n'] := by
  match s with
  | [] => simp [lineEnd]
  | [c] => simp [lineEnd]
  | _ :: _ :: _ => simp [lineEnd]

end DialogueScript.Text.Shape
