import DialogueScript.Proofs.Folding

/-!
# Reading on from any position

`foldAt?` takes the lines behind a position all at once. Here they are read one by one, each by its
own position (`walk?`), and both come to the same (`foldAt?_eq_walk?`). A position below zero counts
from the end, so that reading goes over the end to the first line, and a position that lies further
in front has no line. `foldAt?_wraps` says what this means for a fold at every position.
-/

namespace DialogueScript

/-! ## Line by line -/

/-- The line at a position; a position below zero counts from the end. -/
def lineAt? (lines : List Text) (i : Int) : Option Text :=
  if 0 ≤ i then lines[i.toNat]?
  else if 0 ≤ lines.length + i then lines[(lines.length + i).toNat]?
  else none

/-- The lines from a position on, which may count from the end too; all of them if it lies in front
of the first one. -/
def linesFrom (lines : List Text) (start : Int) : List Text :=
  lines.drop (if 0 ≤ start then start else lines.length + start).toNat

/-- What the lines at the `n` positions from `i` on add to a statement. There is no answer if
reading comes to a position without a line. -/
def gatherAt? (command : Option Command) (glue : Text) (lines : List Text) (i : Int) :
    Nat → Option Folded
  | 0 => some ⟨[], none, 0⟩
  | n + 1 =>
    match lineAt? lines i with
    | none => none
    | some line =>
      match Role.ofLine command line with
      | .skip =>
        (gatherAt? command glue lines (i + 1) n).map fun more =>
          { more with consumed := more.consumed + 1 }
      | .extend payload =>
        (gatherAt? command glue lines (i + 1) n).map fun more =>
          ⟨glue ++ payload ++ more.text, more.previous, more.consumed + 1⟩
      | .context payload => some ⟨[], some payload, 1⟩
      | .stop => some ⟨[], none, 0⟩

/-- Reads on line by line, from the position behind `index` to the last one. -/
def walk? (concat : Text) (command : Option Command) (payload : Text) (lines : List Text)
    (index : Int) : Option Folded :=
  if command = some .labelOpen ∧ Text.headWord payload = Label.objectKeyword then
    some ⟨payload, none, 0⟩
  else
    (gatherAt? command (glue command concat) lines (index + 1)
      (lines.length - (index + 1)).toNat).map fun more => { more with text := payload ++ more.text }

section

variable (lines : List Text)

theorem lineAt?_natCast (k : Nat) : lineAt? lines k = lines[k]? := by
  simp [lineAt?]

theorem lineAt?_of_neg {i : Int} (hi : i < 0) {k : Nat} (hk : lines.length + i = k) :
    lineAt? lines i = lines[k]? := by
  rw [lineAt?, if_neg (by omega), if_pos (by omega), hk, Int.toNat_natCast]

theorem lineAt?_eq_none {i : Int} (hi : i < -lines.length) : lineAt? lines i = none := by
  rw [lineAt?, if_neg (by omega), if_neg (by omega)]

/-- Reading by positions gathers what stands there. -/
theorem gatherAt?_eq (command : Option Command) (glue : Text) {rest : List Text} {i : Int}
    (h : ∀ j : Nat, j < rest.length → lineAt? lines (i + j) = rest[j]?) :
    gatherAt? command glue lines i rest.length = some (gather command glue rest) := by
  induction rest generalizing i with
  | nil => rfl
  | cons line rest ih =>
    have hline : lineAt? lines i = some line := by simpa using h 0 (by simp)
    have hrest : gatherAt? command glue lines (i + 1) rest.length =
        some (gather command glue rest) := by
      refine ih fun j hj => ?_
      have hnext := h (j + 1) (by simpa using hj)
      rw [List.getElem?_cons_succ] at hnext
      rw [← hnext]
      congr 1
      omega
    rw [List.length_cons, gatherAt?, gather, hline]
    dsimp only
    cases Role.ofLine command line with
    | skip => simp only [hrest, Option.map_some]
    | extend payload => simp only [hrest, Option.map_some]
    | context payload => rfl
    | stop => rfl

/-- The lines of `linesAfter?` stand at the positions that are read. -/
theorem linesAfter?_positions {index : Int} {rest : List Text}
    (h : linesAfter? lines index = some rest) :
    (lines.length - (index + 1)).toNat = rest.length ∧
      ∀ j : Nat, j < rest.length → lineAt? lines (index + 1 + j) = rest[j]? := by
  unfold linesAfter? at h
  generalize index + 1 = start at h
  cases start with
  | ofNat k =>
    obtain rfl : lines.drop k = rest := Option.some.inj h
    rw [List.length_drop]
    refine ⟨by simp, fun j _ => ?_⟩
    rw [List.getElem?_drop]
    exact lineAt?_natCast lines (k + j)
  | negSucc m =>
    obtain ⟨hm, h⟩ := Option.ite_none_right_eq_some.1 h
    obtain rfl := Option.some.inj h
    have htail : (lines.drop (lines.length - (m + 1))).length = m + 1 := by
      rw [List.length_drop]
      omega
    rw [List.length_append, htail]
    refine ⟨by omega, fun j _ => ?_⟩
    by_cases hj : j < m + 1
    · rw [List.getElem?_append_left (by omega), List.getElem?_drop]
      exact lineAt?_of_neg lines (by omega) (by omega)
    · -- past the end reading goes on from the first line
      rw [List.getElem?_append_right (by omega), htail, ← lineAt?_natCast]
      congr 1
      omega

theorem linesAfter?_eq_none_iff {index : Int} :
    linesAfter? lines index = none ↔ index + 1 < -lines.length := by
  unfold linesAfter?
  generalize index + 1 = start
  cases start with
  | ofNat k =>
    have hk : ¬Int.ofNat k < -lines.length := by
      rw [Int.ofNat_eq_natCast]
      omega
    simp only [hk, reduceCtorEq]
  | negSucc m =>
    simp only [ite_eq_right_iff, reduceCtorEq, imp_false]
    omega

/-- From a position below zero the lines up to the end are read, and then all of them. -/
theorem linesAfter?_of_neg {index : Int} (hstart : index + 1 < 0)
    (hsome : linesAfter? lines index ≠ none) :
    linesAfter? lines index = some (linesFrom lines (lines.length + index + 1) ++ lines) := by
  have hin := mt (linesAfter?_eq_none_iff lines).2 hsome
  obtain ⟨m, hm⟩ := Int.eq_negSucc_of_lt_zero hstart
  have hlt : m < lines.length := by omega
  have hdrop : linesFrom lines (lines.length + index + 1) =
      lines.drop (lines.length - (m + 1)) := by
    rw [linesFrom, if_pos (by omega)]
    congr 1
    omega
  rw [hdrop, linesAfter?, hm]
  exact if_pos hlt

theorem linesAfter?_of_last {index : Int} (hlast : lines.length - 1 ≤ index) :
    linesAfter? lines index = some [] := by
  obtain ⟨k, hk⟩ := Int.eq_ofNat_of_zero_le (by omega : 0 ≤ index + 1)
  have hdrop : lines.drop k = [] := List.drop_eq_nil_of_le (by omega)
  rw [linesAfter?, hk]
  exact congrArg some hdrop

end

theorem foldAt?_eq_walk? (concat : Text) (command : Option Command) (payload : Text)
    (lines : List Text) (index : Int) :
    foldAt? concat command payload lines index = walk? concat command payload lines index := by
  unfold foldAt? walk?
  split
  · rfl
  · next ho =>
    cases h : linesAfter? lines index with
    | some rest =>
      obtain ⟨hn, hrest⟩ := linesAfter?_positions lines h
      rw [hn, gatherAt?_eq lines command _ hrest, Option.map_some, Option.map_some, fold, if_neg ho]
    | none =>
      -- the first position that is read has no line
      have hout := (linesAfter?_eq_none_iff lines).1 h
      obtain ⟨n, hn⟩ := Nat.exists_eq_succ_of_ne_zero (n := (lines.length - (index + 1)).toNat)
        (by omega)
      rw [hn, gatherAt?, lineAt?_eq_none lines hout]
      rfl

/-- Reading starts at the position behind `index`, from wherever that is to the last line. If it
starts below zero, it is as if the lines up to the end stood once more in front of the first one. It
fails only where the first position has no line, and never behind the label of a code object. -/
theorem foldAt?_wraps (concat : Text) (command : Option Command) (payload : Text)
    (lines : List Text) (index : Int) :
    let folded := foldAt? concat command payload lines index
    folded = walk? concat command payload lines index ∧
      (folded = none ↔
        ¬(command = some .labelOpen ∧ Text.headWord payload = "object".toList) ∧
          index + 1 < -lines.length) ∧
      (∀ line, index + 1 < 0 → folded ≠ none →
        folded = foldAt? concat command payload
          (line :: (linesFrom lines (lines.length + index + 1) ++ lines)) 0) ∧
      (lines.length - 1 ≤ index → folded = some ⟨payload, none, 0⟩) := by
  intro folded
  have hobject : "object".toList = Label.objectKeyword := rfl
  rw [hobject]
  refine ⟨foldAt?_eq_walk? concat command payload lines index, ?_, ?_, ?_⟩
  · unfold folded foldAt?
    split
    · next ho => simp [ho]
    · next ho => rw [Option.map_eq_none_iff, linesAfter?_eq_none_iff, and_iff_right ho]
  · intro line hstart hsome
    have hbelow (rest : List Text) : foldAt? concat command payload (line :: rest) 0 =
        some (fold concat command payload rest) :=
      foldAt?_natCast concat command payload (line :: rest) 0
    rw [hbelow]
    unfold folded foldAt? at hsome ⊢
    split
    · next ho => rw [fold, if_pos ho]
    · next ho =>
      rw [if_neg ho] at hsome
      rw [linesAfter?_of_neg lines hstart (mt Option.map_eq_none_iff.2 hsome), Option.map_some]
  · intro hlast
    unfold folded foldAt?
    split
    · rfl
    · next ho =>
      rw [linesAfter?_of_last lines hlast, Option.map_some, fold, if_neg ho, gather]
      simp only [List.append_nil]

/-- A rule two lines above the end takes up the last line and then the first one. Five lines above
the end of three lines there is nothing to start from, though a code object would not need it. -/
theorem foldAt?_wraps_rule :
    let lines := ["^ b".toList, "- d".toList, "^ a".toList]
    let rule := foldAt? "none".toList (some .trigger) "x".toList
    let label := foldAt? "none".toList (some .labelOpen) "object x".toList
    rule lines (-2) = rule ("+ y".toList :: "^ a".toList :: lines) 0 ∧
      rule lines (-2) = some ⟨"xab".toList, none, 2⟩ ∧
      rule lines (-5) = none ∧
      label lines (-5) ≠ none ∧
      rule lines 2 = some ⟨"x".toList, none, 0⟩ := by
  intro lines rule label
  have hrule (index : Int) :=
    foldAt?_wraps "none".toList (some .trigger) "x".toList lines index
  have hlabel := foldAt?_wraps "none".toList (some .labelOpen) "object x".toList lines (-5)
  refine ⟨(hrule (-2)).2.2.1 "+ y".toList (by decide) (by decide), by rfl,
    (hrule (-5)).2.1.2 (by decide), ?_, (hrule 2).2.2.2 (by decide)⟩
  exact mt hlabel.2.1.1 (by decide)

end DialogueScript
