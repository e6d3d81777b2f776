import DialogueScript.Text.Basic

/-!
# Sets of names

A set of names is a list without repeats that keeps the order in which the names first arrived.
-/

namespace DialogueScript

abbrev Names := List Text

namespace Names

/-- Adds a name at the end unless it is there already. -/
def add (set : Names) (name : Text) : Names := if name ∈ set then set else set ++ [name]

theorem mem_add {set : Names} {x y : Text} : y ∈ add set x ↔ y ∈ set ∨ y = x := by
  unfold add
  split
  · next h => exact ⟨.inl, fun hy => hy.elim id (· ▸ h)⟩
  · simp

theorem add_cons {set : Names} {x y : Text} (h : x ≠ y) : add (x :: set) y = x :: add set y := by
  by_cases hm : y ∈ set
  · rw [add, add, if_pos (List.mem_cons_of_mem _ hm), if_pos hm]
  · have hc : y ∉ x :: set := fun hc => (List.mem_cons.1 hc).elim (fun e => h e.symm) hm
    rw [add, add, if_neg hc, if_neg hm, List.cons_append]

theorem nodup_add {set : Names} (h : set.Nodup) (x : Text) : (add set x).Nodup := by
  unfold add
  split
  · exact h
  · next hx =>
    refine List.nodup_append.2 ⟨h, by simp, fun a ha b hb e => hx ?_⟩
    rw [← List.mem_singleton.1 hb, ← e]
    exact ha

/-- The same names, in whatever order. -/
def same (a b : Names) : Bool := a.all (b.contains ·) && b.all (a.contains ·)

theorem same_iff {a b : Names} : same a b = true ↔ ∀ x, x ∈ a ↔ x ∈ b := by
  simp only [same, Bool.and_eq_true, List.all_eq_true, List.contains_iff_mem]
  exact ⟨fun h x => ⟨h.1 x, h.2 x⟩, fun h => ⟨fun x => (h x).1, fun x => (h x).2⟩⟩

end Names

end DialogueScript
