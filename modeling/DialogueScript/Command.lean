import DialogueScript.Text.Basic

/-!
# Commands

The first character of a statement is its mark. Nine marks stand for a command.
-/

namespace DialogueScript

inductive Command where
  | define
  | labelOpen
  | labelClose
  | trigger
  | response
  | condition
  | previous
  | continuation
  | redirect
deriving DecidableEq, Repr

namespace Command

def all : List Command :=
  [define, labelOpen, labelClose, trigger, response, condition, previous, continuation, redirect]

def mark : Command → Char
  | define => '!'
  | labelOpen => '>'
  | labelClose => '<'
  | trigger => '+'
  | response => '-'
  | condition => '*'
  | previous => '%'
  | continuation => '^'
  | redirect => '@'

def ofMark? (c : Char) : Option Command := all.find? (·.mark == c)

/-- The command that a text of one character stands for. -/
def ofText? : Text → Option Command
  | [c] => ofMark? c
  | _ => none

theorem mem_all (c : Command) : c ∈ all := by cases c <;> decide

theorem ofMark?_eq_some_iff {c : Char} {command : Command} :
    ofMark? c = some command ↔ c = command.mark := by
  constructor
  · intro h
    exact (by simpa using List.find?_some h : command.mark = c).symm
  · rintro rfl
    cases command <;> decide

end Command

end DialogueScript
