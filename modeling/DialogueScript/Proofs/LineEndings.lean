import DialogueScript.Parse
import Mathlib.Data.List.Basic

/-!
# Line endings

What ends the lines of a text does not matter. Lines that are ended one by one, each in its own way,
are the lines of the text they make up (`lines_text`), so the text is parsed as the lines are. The one
thing to look out for is the seam: the line feed of an empty line right behind a carriage return
would be taken for a part of it. Every text is made of ended lines (`exists_ended`), so its lines have
no line break in them (`unbroken_of_mem_lines`).
-/

namespace DialogueScript

namespace Text

/-! ## What ends a line -/

/-- No character of the text ends a line. -/
def Unbroken (line : Text) : Prop := ∀ c ∈ line, isLineBreak c = false

instance decidableUnbroken (line : Text) : Decidable (Unbroken line) := List.decidableBAll _ line

theorem unbroken_nil : Unbroken [] := fun _ hc => absurd hc List.not_mem_nil

theorem unbroken_cons_iff {c : Char} {line : Text} :
    Unbroken (c :: line) ↔ isLineBreak c = false ∧ Unbroken line := List.forall_mem_cons

/-- A carriage return with a line feed is one ending, like each of the line breaks alone. -/
def lineEndings : List Text := ['\r', '\n'] :: lineBreaks.map fun c => [c]

theorem mem_lineEndings {e : Text} :
    e ∈ lineEndings ↔ e = ['\r', '\n'] ∨ ∃ c, isLineBreak c = true ∧ e = [c] := by
  simp [lineEndings, isLineBreak, eq_comm]

/-- Only the line feed itself begins with one. -/
theorem eq_of_mem_lineEndings_of_head? {e : Text} (h : e ∈ lineEndings)
    (hfeed : e.head? = some '\n') : e = ['\n'] := by
  rcases mem_lineEndings.1 h with rfl | ⟨c, -, rfl⟩
  · cases hfeed
  · cases hfeed
    rfl

theorem lines_cons_of_not_isLineBreak {c : Char} (hc : isLineBreak c = false) (s : Text) :
    lines (c :: s) = consHead c (lines s) := by
  rw [lines, if_neg (by simp [hc])]
  rintro rest rfl
  exact absurd hc (by decide)

/-- The seam: a line feed behind a lone carriage return would end the same line. -/
theorem lines_ending {e s : Text} (he : e ∈ lineEndings)
    (hs : e = ['\r'] → s.head? ≠ some '\n') : lines (e ++ s) = [] :: lines s := by
  rcases mem_lineEndings.1 he with rfl | ⟨c, hc, rfl⟩
  · rfl
  · rw [List.singleton_append, lines, if_pos hc]
    rintro rest rfl rfl
    exact hs rfl rfl

section

variable {line : Text} (hline : Unbroken line)

include hline

theorem lines_append_ending {e s : Text} (he : e ∈ lineEndings)
    (hs : e = ['\r'] → s.head? ≠ some '\n') : lines (line ++ (e ++ s)) = line :: lines s := by
  induction line with
  | nil => exact lines_ending he hs
  | cons c line ih =>
    obtain ⟨hc, hline⟩ := unbroken_cons_iff.1 hline
    rw [List.cons_append, lines_cons_of_not_isLineBreak hc, ih hline]
    rfl

theorem lines_eq_singleton (hne : line ≠ []) : lines line = [line] := by
  induction line with
  | nil => exact absurd rfl hne
  | cons c line ih =>
    obtain ⟨hc, hline⟩ := unbroken_cons_iff.1 hline
    rw [lines_cons_of_not_isLineBreak hc]
    cases line with
    | nil => rfl
    | cons d line => rw [ih hline (List.cons_ne_nil d line)]; rfl

end

end Text

/-! ## Ended lines -/

/-- A line with what ends it. Nothing ends it if the text does. -/
structure EndedLine where
  line : Text
  ending : Text
deriving DecidableEq, Repr

namespace EndedLine

open Text

variable {l : EndedLine} {ls : List EndedLine}

def text (l : EndedLine) : Text := l.line ++ l.ending

/-- An empty line that is ended by a line feed. It must not stand behind a carriage return. -/
def bareFeed : EndedLine := ⟨[], ['\n']⟩

/-- The lines have no line break, and each of them is ended, but for the last one if it is not
empty. The seams keep two endings from being read as one. -/
inductive Ended : List EndedLine → Prop
  | nil : Ended []
  | unended (line : Text) (hline : Unbroken line) (hne : line ≠ []) :
    Ended [⟨line, []⟩]
  | cons (l : EndedLine) (ls : List EndedLine) (hline : Unbroken l.line)
    (hending : l.ending ∈ lineEndings) (hseam : l.ending = ['\r'] → ls.head? ≠ some bareFeed)
    (h : Ended ls) : Ended (l :: ls)

theorem ended_cons_iff : Ended (l :: ls) ↔ Unbroken l.line ∧
    (l.ending = [] ∧ l.line ≠ [] ∧ ls = [] ∨
      l.ending ∈ lineEndings ∧ (l.ending = ['\r'] → ls.head? ≠ some bareFeed) ∧ Ended ls) := by
  constructor
  · rintro (_ | ⟨line, hline, hne⟩ | ⟨_, _, hline, hending, hseam, h⟩)
    · exact ⟨hline, .inl ⟨rfl, hne, rfl⟩⟩
    · exact ⟨hline, .inr ⟨hending, hseam, h⟩⟩
  · obtain ⟨line, ending⟩ := l
    rintro ⟨hline, ⟨rfl, hne, rfl⟩ | ⟨hending, hseam, h⟩⟩
    · exact .unended line hline hne
    · exact .cons _ ls hline hending hseam h

instance decidableEnded : (ls : List EndedLine) → Decidable (Ended ls)
  | [] => .isTrue .nil
  | _ :: ls =>
    have := decidableEnded ls
    decidable_of_iff _ ended_cons_iff.symm

namespace Ended

/-- A text begins with a line feed only if its first line is empty and ended by that line feed. -/
theorem head?_of_feed (h : Ended ls) (hfeed : (ls.flatMap text).head? = some '\n') :
    ls.head? = some bareFeed := by
  have plain {line rest : Text} (hline : Unbroken line)
      (hfeed : (line ++ rest).head? = some '\n') : line = [] := by
    cases line with
    | nil => rfl
    | cons c line =>
      cases hfeed
      exact absurd (hline '\n' List.mem_cons_self) (by decide)
  cases h with
  | nil => cases hfeed
  | unended line hline hne =>
    rw [List.flatMap_singleton] at hfeed
    exact absurd (plain hline hfeed) hne
  | cons l ls hline hending hseam h =>
    obtain ⟨line, ending⟩ := l
    rw [List.flatMap_cons, text, List.append_assoc] at hfeed
    obtain rfl := plain hline hfeed
    have hne : ending ≠ [] := by
      rintro rfl
      exact absurd hending (by decide)
    rw [List.nil_append, List.head?_append_of_ne_nil _ hne] at hfeed
    obtain rfl := eq_of_mem_lineEndings_of_head? hending hfeed
    rfl

/-- The lines come back from the text. -/
theorem lines_text (h : Ended ls) : lines (ls.flatMap text) = ls.map line := by
  induction h with
  | nil => rfl
  | unended line hline hne => simpa [text] using lines_eq_singleton hline hne
  | cons l ls hline hending hseam h ih =>
    rw [List.flatMap_cons, text, List.append_assoc, lines_append_ending hline hending, ih,
      List.map_cons]
    exact fun he hfeed => hseam he (h.head?_of_feed hfeed)

theorem unbroken (h : Ended ls) : ∀ l ∈ ls, Unbroken l.line := by
  induction h with
  | nil => simp
  | unended line hline hne => simpa using hline
  | cons l ls hline hending hseam h ih => exact List.forall_mem_cons.2 ⟨hline, ih⟩

end Ended

/-- Every text is made of ended lines. -/
theorem exists_ended (s : Text) : ∃ ls, Ended ls ∧ ls.flatMap text = s := by
  fun_induction lines s with
  | case1 => exact ⟨[], .nil, rfl⟩
  | case2 rest ih =>
    obtain ⟨ls, h, rfl⟩ := ih
    exact ⟨⟨[], ['\r', '\n']⟩ :: ls, .cons _ _ unbroken_nil (by decide) (by simp) h, rfl⟩
  | case3 c rest hne hbreak ih =>
    obtain ⟨ls, h, rfl⟩ := ih
    have hending : [c] ∈ lineEndings := mem_lineEndings.2 (.inr ⟨c, hbreak, rfl⟩)
    refine ⟨⟨[], [c]⟩ :: ls, .cons _ _ unbroken_nil hending ?_ h, rfl⟩
    -- a line feed in front of the rest would have been read with the carriage return
    rintro hreturn hfeed
    obtain ⟨ls, rfl⟩ := List.head?_eq_some_iff.1 hfeed
    cases hreturn
    exact hne _ rfl rfl
  | case4 c rest hne hbreak ih =>
    obtain ⟨ls, h, rfl⟩ := ih
    have hc : isLineBreak c = false := by simpa using hbreak
    cases h with
    | nil =>
      exact ⟨[⟨[c], []⟩], .unended _ (unbroken_cons_iff.2 ⟨hc, unbroken_nil⟩)
        (List.cons_ne_nil c []), rfl⟩
    | unended line hline =>
      exact ⟨[⟨c :: line, []⟩], .unended _ (unbroken_cons_iff.2 ⟨hc, hline⟩)
        (List.cons_ne_nil c line), rfl⟩
    | cons l ls hline hending hseam h =>
      exact ⟨⟨c :: l.line, l.ending⟩ :: ls, .cons _ _ (unbroken_cons_iff.2 ⟨hc, hline⟩) hending
        hseam h, rfl⟩

end EndedLine

/-! ## Texts and their lines -/

open EndedLine

theorem Text.unbroken_of_mem_lines {s line : Text} (hline : line ∈ lines s) : Unbroken line := by
  obtain ⟨ls, h, rfl⟩ := exists_ended s
  rw [h.lines_text] at hline
  obtain ⟨l, hl, rfl⟩ := List.mem_map.1 hline
  exact h.unbroken l hl

/-- A text whose lines are ended one by one is parsed as the list of these lines, whatever ends them,
and no line of any text has a line break. -/
theorem parseText_ended :
    (∀ ls : List EndedLine, Ended ls →
      Text.lines (ls.flatMap text) = ls.map line ∧
      ∀ settings audience,
        parseText settings audience (ls.flatMap text) = parse settings audience (ls.map line)) ∧
    ∀ s : Text, ∀ line ∈ Text.lines s, Text.Unbroken line := by
  refine ⟨fun ls h => ⟨h.lines_text, fun settings audience => ?_⟩,
    fun s line hline => Text.unbroken_of_mem_lines hline⟩
  rw [parseText, h.lines_text]

/-- Empty lines stand behind lines that a carriage return ends, and nothing ends the last line. -/
theorem parseText_ended_mixed :
    let ls : List EndedLine :=
      [⟨"+ a".toList, ['\r']⟩, ⟨[], ['\r', '\n']⟩, ⟨"- b".toList, ['\u2028']⟩, ⟨[], ['\n']⟩,
        ⟨"+ c".toList, ['\r']⟩, ⟨[], ['\r']⟩, ⟨"- d".toList, []⟩]
    let lines := ["+ a".toList, [], "- b".toList, [], "+ c".toList, [], "- d".toList]
    Text.lines (ls.flatMap text) = lines ∧
      (∀ settings audience,
        parseText settings audience (ls.flatMap text) = parse settings audience lines) ∧
      ∀ line ∈ Text.lines (ls.flatMap text), '\r' ∉ line := by
  intro ls lines
  have h : Ended ls := by decide
  obtain ⟨hlines, hparse⟩ := parseText_ended.1 ls h
  refine ⟨hlines, hparse, fun line hline hreturn => ?_⟩
  exact absurd (parseText_ended.2 _ line hline _ hreturn) (by decide)

/-- An empty line behind a carriage return is lost if a line feed ends it. -/
example : Text.lines ([⟨['a'], ['\r']⟩, bareFeed].flatMap text) = [['a']] := by decide

end DialogueScript
