import DialogueScript.Proofs.FoldedDefinitions
import DialogueScript.Proofs.WellFormed

/-!
# Arrays as they are written

The elements of an array are written with bars between them and with an escape for each of their
spaces. They are read back whatever they begin and end with: the escape does not overlap itself, so
what is replaced by it is found again where it was, and nowhere else (`replace_replace`). What is
read never has an escape or a mark of joined lines left in it, since a text has no occurrence in its
pieces and cannot reach across what stands between them (`arrayElements_written`).
-/

namespace DialogueScript

namespace Text

variable {s a b w v p : Text} {ps : List Text} {c : Char}

/-! ## Texts with something between them -/

theorem infix_intercalate (v : Text) (h : p ∈ ps) : p <:+: v.intercalate ps := by
  induction ps with
  | nil => cases h
  | cons q ps ih =>
    by_cases hps : ps = []
    · subst hps
      rw [List.intercalate_singleton, List.mem_singleton.1 h]
    · rw [List.intercalate_cons_of_ne_nil hps]
      rcases List.mem_cons.1 h with rfl | h
      · exact ((List.prefix_append p v).trans (List.prefix_append _ _)).isInfix
      · exact (ih h).trans (List.suffix_append _ _).isInfix

theorem prefix_intercalate (v p : Text) (ps : List Text) : p <+: v.intercalate (p :: ps) := by
  cases ps with
  | nil => rw [List.intercalate_singleton]
  | cons q ps =>
    rw [List.intercalate_cons_cons, List.append_assoc]
    exact List.prefix_append p _

/-- A text does not reach across a character that it does not have. -/
theorem infix_append_cons (hc : c ∉ w) (h : w <:+: a ++ c :: b) : w <:+: a ∨ w <:+: b := by
  have reach {front : Text} (hfront : ∀ d ∈ front, d ∈ w) (h : front <+: c :: b) : front = [] := by
    cases front with
    | nil => rfl
    | cons d front =>
      obtain ⟨rfl, -⟩ := List.cons_prefix_cons.1 h
      exact absurd (hfront d List.mem_cons_self) hc
  rcases List.infix_append_iff.1 h with h | h | ⟨front, back, rfl, ha, hb⟩
  · exact .inl h
  · rcases List.infix_cons_iff.1 h with h | h
    · obtain rfl := reach (fun d hd => hd) h
      exact .inl List.nil_infix
    · exact .inr h
  · obtain rfl := reach (fun d hd => List.mem_append_right front hd) hb
    exact .inl (by simpa using ha.isInfix)

/-- What is found in joined texts, and has no character of what joins them, is found in one of
them. -/
theorem infix_of_infix_intercalate (hw : w ≠ []) (hv : v ≠ []) (hvw : ∀ c ∈ v, c ∉ w)
    (h : w <:+: v.intercalate ps) : ∃ p ∈ ps, w <:+: p := by
  obtain ⟨d, w, rfl⟩ := List.exists_cons_of_ne_nil hw
  obtain ⟨c, v, rfl⟩ := List.exists_cons_of_ne_nil hv
  obtain ⟨hc, hvw⟩ := List.forall_mem_cons.1 hvw
  induction ps with
  | nil => simp at h
  | cons p ps ih =>
    by_cases hps : ps = []
    · subst hps
      exact ⟨p, List.mem_singleton_self p, by simpa using h⟩
    · rw [List.intercalate_cons_of_ne_nil hps, List.append_assoc] at h
      rcases infix_append_cons hc h with h | h
      · exact ⟨p, List.mem_cons_self, h⟩
      · have hd : d ∉ v := fun hd => hvw d hd List.mem_cons_self
        obtain ⟨q, hq, h⟩ := ih (infix_of_infix_append hd h)
        exact ⟨q, List.mem_cons_of_mem p hq, h⟩

/-! ## Pieces -/

theorem infix_of_mem_splitOnP {f : Char → Bool} (h : p ∈ s.splitOnP f) : p <:+: s := by
  induction s generalizing p with
  | nil =>
    obtain rfl : p = [] := by simpa using h
    exact List.nil_infix
  | cons a s ih =>
    obtain ⟨ps, hps⟩ := List.head?_eq_some_iff.1 (head?_splitOnP f s)
    rw [List.splitOnP_cons_eq_if_modifyHead, hps, List.modifyHead_cons] at h
    rw [hps] at ih
    split at h
    · rcases List.mem_cons.1 h with rfl | h
      · exact List.nil_infix
      · exact (ih h).trans (List.suffix_cons a s).isInfix
    · rcases List.mem_cons.1 h with rfl | h
      · exact (List.cons_prefix_cons.2 ⟨rfl, List.takeWhile_prefix _⟩).isInfix
      · exact (ih (List.mem_cons_of_mem _ h)).trans (List.suffix_cons a s).isInfix

theorem intercalate_consHead (v : Text) (hne : ps ≠ []) :
    v.intercalate (consHead c ps) = c :: v.intercalate ps := by
  cases ps with
  | nil => exact absurd rfl hne
  | cons p ps => cases ps <;> simp [consHead, List.intercalate_cons_cons]

section

variable (hw : w ≠ [])

include hw

/-- The pieces make up the text again, behind what was passed over. -/
theorem intercalate_piecesAfter (skip : Nat) (s : Text) :
    w.intercalate (piecesAfter w skip s) = s.drop skip := by
  fun_induction piecesAfter w skip s with
  | case1 => simp
  | case2 skip c rest ih => simpa using ih
  | case3 c rest hmark ih =>
    obtain ⟨d, w, rfl⟩ := List.exists_cons_of_ne_nil hw
    obtain ⟨rfl, afterwards, rfl⟩ := List.cons_prefix_cons.1 (List.isPrefixOf_iff_prefix.1 hmark)
    rw [List.intercalate_cons_of_ne_nil (piecesAfter_ne_nil _ _ _), ih]
    simp
  | case4 c rest hmark ih =>
    rw [intercalate_consHead w (piecesAfter_ne_nil _ _ _), ih]
    rfl

theorem intercalate_pieces (s : Text) : w.intercalate (pieces w s) = s :=
  intercalate_piecesAfter hw 0 s

theorem infix_of_mem_pieces (h : p ∈ pieces w s) : p <:+: s := by
  have hfound := infix_intercalate w h
  rwa [intercalate_pieces hw] at hfound

/-- No occurrence is left in a piece. -/
theorem not_infix_of_mem_piecesAfter {skip : Nat} (h : p ∈ piecesAfter w skip s) : ¬w <:+: p := by
  fun_induction piecesAfter w skip s generalizing p with
  | case1 =>
    obtain rfl := List.mem_singleton.1 h
    simpa using hw
  | case2 skip c rest ih => exact ih h
  | case3 c rest hmark ih =>
    rcases List.mem_cons.1 h with rfl | h
    · simpa using hw
    · exact ih h
  | case4 c rest hmark ih =>
    have hrest : w.intercalate (piecesAfter w 0 rest) = rest := intercalate_pieces hw rest
    obtain ⟨q, qs, hqs⟩ := List.exists_cons_of_ne_nil (piecesAfter_ne_nil w 0 rest)
    rw [hqs] at h hrest ih
    rcases List.mem_cons.1 h with rfl | h
    · -- the first piece is the start of the text, where no occurrence begins
      have hfront : c :: q <+: c :: rest :=
        List.cons_prefix_cons.2 ⟨rfl, hrest ▸ prefix_intercalate w q qs⟩
      rintro hfound
      rcases List.infix_cons_iff.1 hfound with hstart | hfound
      · exact hmark (List.isPrefixOf_iff_prefix.2 (hstart.trans hfront))
      · exact ih List.mem_cons_self hfound
    · exact ih (List.mem_cons_of_mem q h)

theorem not_infix_of_mem_pieces (h : p ∈ pieces w s) : ¬w <:+: p :=
  not_infix_of_mem_piecesAfter hw h

end

/-! ## Replacing -/

/-- A character is replaced wherever it stands. -/
theorem replace_singleton (c : Char) (v s : Text) :
    replace [c] v s = s.flatMap fun d => if d = c then v else [d] := by
  induction s with
  | nil => rfl
  | cons d s ih =>
    have hne := piecesAfter_ne_nil [c] 0 s
    rw [replace, pieces] at ih
    rw [replace, pieces, piecesAfter, List.flatMap_cons, ← ih]
    by_cases hd : d = c
    · rw [if_pos hd, if_pos (by simp [hd])]
      exact List.intercalate_cons_of_ne_nil hne
    · rw [if_neg hd, if_neg (by simpa using Ne.symm hd), intercalate_consHead v hne]
      rfl

/-- What has no character in common with the text that is put in was there before. -/
theorem infix_of_infix_replace {x : Text} (hw : w ≠ []) (hv : v ≠ []) (hx : x ≠ [])
    (hvx : ∀ c ∈ v, c ∉ x) (h : x <:+: replace w v s) : x <:+: s := by
  obtain ⟨p, hp, hfound⟩ := infix_of_infix_intercalate hx hv hvx h
  exact hfound.trans (infix_of_mem_pieces hw hp)

/-- A replaced text is gone if it has no character of the one that is put in. -/
theorem not_infix_replace (hw : w ≠ []) (hv : v ≠ []) (hvw : ∀ c ∈ v, c ∉ w) (s : Text) :
    ¬w <:+: replace w v s := by
  intro h
  obtain ⟨p, hp, hfound⟩ := infix_of_infix_intercalate hw hv hvw h
  exact not_infix_of_mem_pieces hw hp hfound

theorem pieces_intercalate {t : Text} (hc : c ∉ t) (hps : ps ≠ [])
    (hfree : ∀ p ∈ ps, ¬c :: t <:+: p) : pieces (c :: t) ((c :: t).intercalate ps) = ps := by
  induction ps with
  | nil => exact absurd rfl hps
  | cons p ps ih =>
    obtain ⟨hp, hrest⟩ := List.forall_mem_cons.1 hfree
    by_cases hnil : ps = []
    · subst hnil
      rw [List.intercalate_singleton, pieces_eq_singleton hp]
    · rw [List.intercalate_cons_of_ne_nil hnil, List.append_assoc, pieces_append hc,
        pieces_eq_singleton hp, ih hnil hrest]
      rfl

/-- A text without the mark comes back when the mark, put in for something else, is replaced by it
again. -/
theorem replace_replace {t : Text} (hc : c ∉ t) (hw : w ≠ []) (hs : ¬c :: t <:+: s) :
    replace (c :: t) w (replace w (c :: t) s) = s := by
  have hfree : ∀ p ∈ pieces w s, ¬c :: t <:+: p :=
    fun p hp h => hs (h.trans (infix_of_mem_pieces hw hp))
  have hpieces : pieces (c :: t) (replace w (c :: t) s) = pieces w s :=
    pieces_intercalate hc (piecesAfter_ne_nil w 0 s) hfree
  rw [replace, hpieces, intercalate_pieces hw]

end Text

/-! ## Written arrays -/

open Text

/-- An element as it stands in an array. -/
def writtenElement (e : Text) : Text := e.flatMap fun c => if c = ' ' then spaceEscape else [c]

def writtenArray (elements : List Text) : Text := ['|'].intercalate (elements.map writtenElement)

/-- What can be an element of a written array. -/
@[mk_iff]
structure Writable (e : Text) : Prop where
  ne_nil : e ≠ []
  bar : '|' ∉ e
  joinFree : ¬lineJoin <:+: e
  escapeFree : ¬spaceEscape <:+: e

instance decidableWritable (e : Text) : Decidable (Writable e) :=
  decidable_of_iff _ (writable_iff e).symm

section

variable {e : Text} {elements : List Text}

theorem writtenElement_eq (e : Text) : writtenElement e = replace [' '] spaceEscape e :=
  (replace_singleton ' ' spaceEscape e).symm

theorem Writable.written_ne_nil (h : Writable e) : writtenElement e ≠ [] := by
  rw [writtenElement_eq]
  exact replace_ne_nil (by decide) h.ne_nil

theorem Writable.bar_not_mem (h : Writable e) : '|' ∉ writtenElement e := by
  intro hbar
  obtain ⟨c, hc, hbar⟩ := List.mem_flatMap.1 hbar
  split at hbar
  · exact absurd hbar (by decide)
  · exact h.bar (List.mem_singleton.1 hbar ▸ hc)

theorem Writable.joinFree_written (h : Writable e) : ¬lineJoin <:+: writtenElement e := by
  rw [writtenElement_eq]
  intro hjoin
  have hapart : ∀ c ∈ spaceEscape, c ∉ lineJoin := by simp [spaceEscape, lineJoin]
  exact h.joinFree (infix_of_infix_replace (by decide) (by decide) (by decide) hapart hjoin)

theorem Writable.read_written (h : Writable e) :
    replace spaceEscape [' '] (writtenElement e) = e := by
  rw [writtenElement_eq]
  exact replace_replace (c := '\\') (t := ['s']) (by decide) (by decide) h.escapeFree

/-- One line holds the array, for no mark reaches across a bar. -/
theorem pieces_writtenArray (h : ∀ e ∈ elements, Writable e) :
    pieces lineJoin (writtenArray elements) = [writtenArray elements] := by
  refine pieces_eq_singleton fun hjoin => ?_
  obtain ⟨w, hw, hjoin⟩ :=
    infix_of_infix_intercalate (by decide) (by decide) (by simp [lineJoin]) hjoin
  obtain ⟨e, he, rfl⟩ := List.mem_map.1 hw
  exact (h e he).joinFree_written hjoin

theorem lineElements_writtenArray (h : ∀ e ∈ elements, Writable e) (hlength : 2 ≤ elements.length) :
    lineElements (writtenArray elements) = elements.map writtenElement := by
  have hbar : (writtenArray elements).contains '|' = true := by
    match elements, hlength with
    | _ :: _ :: _, _ => simp [writtenArray, List.intercalate_cons_cons]
  rw [lineElements, if_pos hbar]
  refine List.splitOn_intercalate '|' ?_ ?_
  · simpa using fun e he => (h e he).bar_not_mem
  · rintro hnil
    obtain rfl := List.map_eq_nil_iff.1 hnil
    simp at hlength

theorem arrayElements_writtenArray (h : ∀ e ∈ elements, Writable e)
    (hlength : 2 ≤ elements.length) : arrayElements (writtenArray elements) = elements := by
  have hne : (elements.map writtenElement).filter (fun w => !w.isEmpty) =
      elements.map writtenElement := by
    refine List.filter_eq_self.2 fun w hw => ?_
    obtain ⟨e, he, rfl⟩ := List.mem_map.1 hw
    simpa using (h e he).written_ne_nil
  rw [arrayElements, pieces_writtenArray h, List.flatMap_singleton,
    lineElements_writtenArray h hlength, hne, List.map_map]
  exact (List.map_congr_left fun e he => (h e he).read_written).trans (List.map_id elements)

end

/-! ## Read elements -/

theorem infix_of_mem_lineElements {line e : Text} (h : e ∈ lineElements line) : e <:+: line := by
  unfold lineElements at h
  split at h
  · have hfound := infix_intercalate ['|'] h
    rwa [List.intercalate_splitOn] at hfound
  · exact infix_of_mem_splitOnP (List.mem_filter.1 h).1

theorem lineJoin_not_infix_of_mem_arrayElements {value e : Text} (h : e ∈ arrayElements value) :
    ¬lineJoin <:+: e := by
  intro hjoin
  obtain ⟨q, hq, rfl⟩ := List.mem_map.1 h
  obtain ⟨p, hp, hqp⟩ := List.mem_flatMap.1 (List.mem_filter.1 hq).1
  have hfound :=
    infix_of_infix_replace (by decide) (by decide) (by decide) (by simp [lineJoin]) hjoin
  exact not_infix_of_mem_pieces (by decide) hp (hfound.trans (infix_of_mem_lineElements hqp))

theorem spaceEscape_not_infix_of_mem_arrayElements {value e : Text} (h : e ∈ arrayElements value) :
    ¬spaceEscape <:+: e := by
  obtain ⟨q, hq, rfl⟩ := List.mem_map.1 h
  exact not_infix_replace (by decide) (by decide) (by simp [spaceEscape]) q

/-- An array of two or more elements is read as it was written, and no element of any array is empty
or has an escape or a mark of joined lines left in it. -/
theorem arrayElements_written :
    (∀ elements : List Text, 2 ≤ elements.length → (∀ e ∈ elements, Writable e) →
      arrayElements (writtenArray elements) = elements) ∧
    ∀ value, ∀ e ∈ arrayElements value, e ≠ [] ∧ ¬spaceEscape <:+: e ∧ ¬lineJoin <:+: e :=
  ⟨fun _ hlength h => arrayElements_writtenArray h hlength,
    fun _ _ he => ⟨ne_nil_of_mem_arrayElements he, spaceEscape_not_infix_of_mem_arrayElements he,
      lineJoin_not_infix_of_mem_arrayElements he⟩⟩

/-- The elements end in a backslash, begin with the letter of the escape, and are blank. -/
theorem arrayElements_written_seams :
    let elements := ["new\\".toList, "s york ".toList, " ".toList, "\\ s\\".toList]
    let value := "a\\\\sb  c<crlf>|\\s|<crl<crlf>f>".toList
    writtenArray elements = "new\\|s\\syork\\s|\\s|\\\\ss\\".toList ∧
      arrayElements (writtenArray elements) = elements ∧
      arrayElements value = ["a\\ b".toList, "c".toList, " ".toList, "<crl".toList, "f>".toList] ∧
      ∀ e ∈ arrayElements value, ¬spaceEscape <:+: e := by
  intro elements value
  refine ⟨by decide, arrayElements_written.1 elements (by decide) (by decide), by decide, fun e he => ?_⟩
  exact (arrayElements_written.2 value e he).2.1

end DialogueScript
