import DialogueScript.Proofs.Payloads

/-!
# Parts of a text

What is cut from a text is made of its characters, be it trimmed, parted at a character or parted at
the occurrences of another text. What is not blank at its ends is found again in a trimmed text
(`Tight.infix_trim`), and a text whose parts are joined by a mark that does not overlap itself has
the pieces of its parts (`pieces_join`).
-/

namespace DialogueScript.Text

variable {s a b w : Text} {ps : List Text}

/-! ## Trimming -/

theorem mem_of_mem_trim {c : Char} (h : c ∈ trim s) : c ∈ s :=
  (trim_isInfix s).subset h

theorem mem_of_mem_afterWord {c : Char} (h : c ∈ afterWord s) : c ∈ s := by
  have hrest := (List.dropWhile_suffix isBlank).subset h
  have hstart := (List.dropWhile_suffix fun c => !isBlank c).subset hrest
  exact (List.dropWhile_suffix isBlank).subset hstart

theorem trim_trimStart (s : Text) : trim (trimStart s) = trim s := by
  rw [trim, trimStart, trimStart, List.dropWhile_idempotent]
  rfl

/-- What begins with a character that does not stand in front is found behind it. -/
theorem infix_of_infix_append {c : Char} (hc : c ∉ a) (h : c :: w <:+: a ++ b) : c :: w <:+: b := by
  induction a with
  | nil => exact h
  | cons d a ih =>
    obtain ⟨hd, ha⟩ : c ≠ d ∧ c ∉ a := by simpa using hc
    rcases List.infix_cons_iff.1 h with hp | h
    · exact absurd (List.cons_prefix_cons.1 hp).1 hd
    · exact ih ha h

theorem infix_trimStart (hne : w ≠ []) (hw : ∀ c ∈ w.head?, isBlank c = false) (h : w <:+: s) :
    w <:+: trimStart s := by
  obtain ⟨x, y, rfl⟩ := h
  rw [trimStart, List.append_assoc, List.dropWhile_append]
  split
  · have hstart : trimStart (w ++ y) = w ++ y :=
      trimStart_of_head fun c hc => hw c (by rwa [List.head?_append_of_ne_nil _ hne] at hc)
    rw [show (w ++ y).dropWhile isBlank = w ++ y from hstart]
    exact (List.prefix_append w y).isInfix
  · exact ⟨_, y, List.append_assoc ..⟩

theorem Tight.infix_trim (hw : Tight w) (h : w <:+: s) : w <:+: trim s := by
  have hstart := infix_trimStart hw.ne_nil hw.head h
  rw [← List.reverse_infix, trim, trimEnd, List.reverse_reverse]
  refine infix_trimStart (by simpa using hw.ne_nil) ?_ (List.reverse_infix.2 hstart)
  intro c hc
  exact hw.last c (by rwa [List.head?_reverse] at hc)

theorem infix_afterWord {c : Char} (hb : isBlank c = false) (hc : c ∉ headWord s)
    (h : c :: w <:+: s) : c :: w <:+: afterWord s := by
  have head : ∀ d ∈ (c :: w).head?, isBlank d = false := by simpa using hb
  have hstart := infix_trimStart (List.cons_ne_nil c w) head h
  rw [← List.takeWhile_append_dropWhile (p := (!isBlank ·)) (l := trimStart s)] at hstart
  exact infix_trimStart (List.cons_ne_nil c w) head (infix_of_infix_append hc hstart)

/-! ## Parting at a character -/

theorem before_append_of_mem {c : Char} (h : c ∈ a) (b : Text) :
    before c (a ++ b) = before c a := by
  obtain ⟨front, back, rfl, hfront⟩ := List.eq_append_cons_of_mem h
  have hstop : ∀ d ∈ front, (d != c) = true := fun d hd => by
    simpa using fun he : d = c => hfront (he ▸ hd)
  simp [before, List.takeWhile_append_of_pos hstop]

theorem before_append_of_not_mem {c : Char} (h : c ∉ a) (b : Text) :
    before c (a ++ b) = a ++ before c b :=
  List.takeWhile_append_of_pos fun d hd => by simpa using fun he : d = c => h (he ▸ hd)

theorem after_of_not_mem {c : Char} (h : c ∉ s) : after c s = [] := by
  have hdrop : s.dropWhile (· != c) = [] :=
    List.dropWhile_eq_nil_iff.2 fun d hd => by simpa using fun he : d = c => h (he ▸ hd)
  rw [after, hdrop, List.drop_nil]

/-! ## Parting at occurrences -/

theorem mem_consHead {c : Char} {p : Text} (h : p ∈ consHead c ps) :
    p ∈ ps ∨ ∃ q, p = c :: q ∧ (q ∈ ps ∨ q = []) := by
  cases ps with
  | nil => exact .inr ⟨[], List.mem_singleton.1 h, .inr rfl⟩
  | cons q ps =>
    rcases List.mem_cons.1 h with rfl | h
    · exact .inr ⟨q, rfl, .inl List.mem_cons_self⟩
    · exact .inl (List.mem_cons_of_mem _ h)

theorem mem_of_mem_piecesAfter {skip : Nat} {p : Text} (hp : p ∈ piecesAfter w skip s) {c : Char}
    (hc : c ∈ p) : c ∈ s := by
  fun_induction piecesAfter w skip s generalizing p with
  | case1 => simp [List.mem_singleton.1 hp] at hc
  | case2 skip d rest ih => exact List.mem_cons_of_mem d (ih hp hc)
  | case3 d rest hmark ih =>
    rcases List.mem_cons.1 hp with rfl | hp
    · cases hc
    · exact List.mem_cons_of_mem d (ih hp hc)
  | case4 d rest hmark ih =>
    rcases mem_consHead hp with hp | ⟨q, rfl, hq⟩
    · exact List.mem_cons_of_mem d (ih hp hc)
    · rcases List.mem_cons.1 hc with rfl | hc
      · exact List.mem_cons_self
      rcases hq with hq | rfl
      · exact List.mem_cons_of_mem d (ih hq hc)
      · cases hc

theorem piecesAfter_ne_nil (w : Text) (skip : Nat) (s : Text) : piecesAfter w skip s ≠ [] := by
  fun_induction piecesAfter w skip s with
  | case1 => simp
  | case2 skip c rest ih => exact ih
  | case3 => simp
  | case4 c rest =>
    unfold consHead
    split <;> simp

/-- Nothing is left of a text only if there was nothing, or occurrences were dropped. -/
theorem replace_ne_nil {v : Text} (hv : v ≠ []) (hs : s ≠ []) : replace w v s ≠ [] := by
  unfold replace pieces
  cases s with
  | nil => exact absurd rfl hs
  | cons c rest =>
    rw [piecesAfter]
    split
    · cases hp : piecesAfter w (w.length - 1) rest with
      | nil => exact absurd hp (piecesAfter_ne_nil _ _ _)
      | cons b ps => simp [List.intercalate_cons_cons, hv]
    · cases piecesAfter w 0 rest with
      | nil => simp [consHead, List.intercalate]
      | cons b ps => cases ps <;> simp [consHead, List.intercalate]

theorem mem_intercalate {c : Char} (h : c ∈ w.intercalate ps) : c ∈ w ∨ ∃ p ∈ ps, c ∈ p := by
  induction ps with
  | nil => simp at h
  | cons p ps ih =>
    cases ps with
    | nil => exact .inr ⟨p, List.mem_singleton_self p, by simpa using h⟩
    | cons q ps =>
      rw [List.intercalate_cons_cons] at h
      rcases List.mem_append.1 h with h | h
      · rcases List.mem_append.1 h with h | h
        · exact .inr ⟨p, List.mem_cons_self, h⟩
        · exact .inl h
      · exact (ih h).imp id fun ⟨r, hr, hc⟩ => ⟨r, List.mem_cons_of_mem _ hr, hc⟩

/-! ## Parts joined by a mark

The first character of the mark `c :: t` is found nowhere else in it, so that no occurrence of the
mark overlaps another one. Whatever stands around it, a mark that is put between two texts is found
again, and the occurrences in the two texts are those that they had.
-/

theorem consHead_append (c : Char) (hne : ps ≠ []) (qs : List Text) :
    consHead c (ps ++ qs) = consHead c ps ++ qs := by
  cases ps with
  | nil => exact absurd rfl hne
  | cons p ps => rfl

theorem piecesAfter_length (w a b : Text) : piecesAfter w a.length (a ++ b) = pieces w b := by
  induction a with
  | nil => rfl
  | cons c a ih => rw [List.cons_append, List.length_cons, piecesAfter, ih]

theorem pieces_eq_singleton (h : ¬w <:+: s) : pieces w s = [s] := by
  induction s with
  | nil => rfl
  | cons c s ih =>
    obtain ⟨hfront, hrest⟩ := not_or.1 (mt List.infix_cons_iff.2 h)
    rw [pieces, piecesAfter, if_neg (mt List.isPrefixOf_iff_prefix.1 hfront), ← pieces, ih hrest]
    rfl

theorem remove_eq_self (h : ¬w <:+: s) : remove w s = s := by
  rw [remove, pieces_eq_singleton h, List.flatten_singleton]

section

variable {c : Char} {t : Text} (hc : c ∉ t)

include hc

/-- The mark does not begin in one text and end in the mark behind it. -/
theorem mark_prefix_append_iff (ha : a ≠ []) (b : Text) :
    c :: t <+: a ++ (c :: t ++ b) ↔ c :: t <+: a := by
  refine ⟨fun h => ?_, fun h => h.trans (List.prefix_append a _)⟩
  rcases List.prefix_or_prefix_of_prefix h (List.prefix_append a _) with hwhole | ⟨missing, hm⟩
  · exact hwhole
  cases missing with
  | nil => rw [← hm, List.append_nil]
  | cons d missing =>
    -- what is missing begins with the first character of the mark, and stands further down in it
    have hmissing : d :: missing <+: c :: t ++ b :=
      (List.prefix_append_right_inj a).1 (by rwa [hm])
    obtain ⟨rfl, -⟩ := List.cons_prefix_cons.1 hmissing
    cases a with
    | nil => exact absurd rfl ha
    | cons e a =>
      obtain ⟨-, ht⟩ := List.cons.inj hm
      exact absurd (ht ▸ List.mem_append_right a List.mem_cons_self) hc

theorem piecesAfter_append {skip : Nat} (hs : skip ≤ a.length) (b : Text) :
    piecesAfter (c :: t) skip (a ++ (c :: t ++ b)) =
      piecesAfter (c :: t) skip a ++ pieces (c :: t) b := by
  fun_induction piecesAfter (c :: t) skip a with
  | case1 skip =>
    obtain rfl : skip = 0 := by simpa using hs
    have hmark : (c :: t).isPrefixOf (c :: (t ++ b)) = true :=
      List.isPrefixOf_iff_prefix.2 (List.prefix_append (c :: t) b)
    rw [List.nil_append, List.cons_append, piecesAfter, if_pos hmark]
    exact congrArg ([] :: ·) (piecesAfter_length (c :: t) t b)
  | case2 skip d rest ih =>
    rw [List.cons_append, piecesAfter]
    exact ih (by simpa using hs)
  | case3 d rest hmark ih =>
    have hfront := List.isPrefixOf_iff_prefix.1 hmark
    have hlong : (c :: t).isPrefixOf (d :: rest ++ (c :: t ++ b)) = true :=
      List.isPrefixOf_iff_prefix.2 (hfront.trans (List.prefix_append _ _))
    have hlength : (c :: t).length - 1 ≤ rest.length := by simpa using hfront.length_le
    rw [List.cons_append] at hlong ⊢
    rw [piecesAfter, if_pos hlong, ih hlength, List.cons_append]
  | case4 d rest hmark ih =>
    have hfront : ¬(c :: t).isPrefixOf (d :: rest ++ (c :: t ++ b)) = true := by
      rw [List.isPrefixOf_iff_prefix, mark_prefix_append_iff hc (List.cons_ne_nil d rest)]
      exact mt List.isPrefixOf_iff_prefix.2 hmark
    rw [List.cons_append] at hfront ⊢
    rw [piecesAfter, if_neg hfront, ih (Nat.zero_le _),
      consHead_append d (piecesAfter_ne_nil _ _ _)]

theorem pieces_append (a b : Text) :
    pieces (c :: t) (a ++ (c :: t ++ b)) = pieces (c :: t) a ++ pieces (c :: t) b :=
  piecesAfter_append hc (Nat.zero_le _) b

/-- The pieces of parts that are joined by the mark are the pieces of the parts. -/
theorem pieces_join (a : Text) (ps : List Text) :
    pieces (c :: t) (a ++ ps.flatMap (c :: t ++ ·)) = (a :: ps).flatMap (pieces (c :: t)) := by
  induction ps generalizing a with
  | nil => simp
  | cons p ps ih => rw [List.flatMap_cons, List.append_assoc, pieces_append hc, ih, ← List.flatMap_cons]

theorem remove_join (a : Text) (ps : List Text) :
    remove (c :: t) (a ++ ps.flatMap (c :: t ++ ·)) = (a :: ps).flatMap (remove (c :: t)) := by
  show (pieces (c :: t) _).flatten = (a :: ps).flatMap fun p => (pieces (c :: t) p).flatten
  simp only [pieces_join hc, List.flatten_eq_flatMap, List.flatMap_assoc]

end

end DialogueScript.Text
