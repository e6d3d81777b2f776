import DialogueScript.Proofs.Conforming
import DialogueScript.Proofs.FoldedLines

/-!
# Labels of code objects

What stands below the label of a code object is code, so such a label is not read on. Whether a
label is one of a code object is asked twice, of its own line before it is read on and of the folded
text when it takes effect. The answers are the same unless the keyword itself is cut in two by the
end of the line (`objectLabel_folded`). Then the lines with the rest of the keyword are folded into
the label, and they are lines of its code as well (`objectLabel_cut`).
-/

namespace DialogueScript

/-! ## First words -/

namespace Text

variable {a b : Text}

/-- The first word ends where it did, unless it reaches to the end and goes on in what is appended. -/
theorem headWord_append (ha : trim a ≠ []) (b : Text) :
    headWord (a ++ b) =
      if headWord a = trimStart a then trimStart a ++ b.takeWhile (!isBlank ·) else headWord a := by
  have hne : trimStart a ≠ [] := by
    intro hnil
    exact ha (by rw [trim, hnil]; rfl)
  have hstart : trimStart (a ++ b) = trimStart a ++ b := by
    rw [trimStart, List.dropWhile_append]
    exact if_neg fun hnil => hne (List.isEmpty_iff.1 hnil)
  have hwhole : headWord a = trimStart a ↔ (headWord a).length = (trimStart a).length :=
    ⟨congrArg List.length, (List.takeWhile_prefix _).eq_of_length⟩
  rw [headWord, hstart, List.takeWhile_append]
  exact if_congr hwhole.symm rfl rfl

/-- A text that is part of a word has no other word. -/
theorem headWord_of_prefix {w : Text} (hw : w.all (!isBlank ·) = true) (h : trimStart a <+: w) :
    headWord a = trimStart a :=
  List.takeWhile_eq_self_iff.2 fun c hc => List.all_eq_true.1 hw c (h.subset hc)

end Text

/-! ## Keywords that are cut in two -/

/-- The payload is no more than the beginning of the keyword of code objects, and continuations are
joined to it with nothing in between. -/
def CutKeyword (concat payload : Text) : Prop :=
  separatorOf (some .labelOpen) concat = [] ∧ Text.trimStart payload <+: Label.objectKeyword ∧
    Text.trimStart payload ≠ Label.objectKeyword

section

variable {concat payload : Text} {rest : List Text}

theorem CutKeyword.headWord_ne (h : CutKeyword concat payload) :
    Text.headWord payload ≠ Label.objectKeyword := by
  obtain ⟨-, hpart, hne⟩ := h
  have hword : Label.objectKeyword.all (!Text.isBlank ·) = true := by decide
  rwa [Text.headWord_of_prefix hword hpart]

/-- A separator that is not empty ends the word in front of it. -/
theorem takeWhile_separatorOf {command : Option Command} (hd : command ≠ some .define)
    (hne : separatorOf command concat ≠ []) (more : Text) :
    (separatorOf command concat ++ more).takeWhile (!Text.isBlank ·) = [] := by
  unfold separatorOf at hne ⊢
  rw [if_neg hd] at hne ⊢
  split
  · rfl
  split
  · rfl
  · next hn hs =>
    rw [if_neg hn, if_neg hs] at hne
    exact absurd rfl hne

/-- If a label names a code object in its folded text and not on its own line, then the keyword was
cut in two. -/
theorem cutKeyword_of_headWord (hp : Text.trim payload ≠ [])
    (h : Text.headWord (fold concat (some .labelOpen) payload rest).text = Label.objectKeyword)
    (hne : Text.headWord payload ≠ Label.objectKeyword) : CutKeyword concat payload := by
  obtain ⟨more, -, htext, -⟩ := fold_parts concat (some .labelOpen) payload rest
  rw [htext, Text.headWord_append hp] at h
  split at h
  · next hwhole =>
    refine ⟨?_, ⟨_, h⟩, hwhole ▸ hne⟩
    by_contra hseparator
    -- behind a separator the word does not go on
    have hend : (more.flatMap (separatorOf (some .labelOpen) concat ++ ·)).takeWhile
        (!Text.isBlank ·) = [] := by
      cases more with
      | nil => rfl
      | cons q more =>
        rw [List.flatMap_cons, List.append_assoc]
        exact takeWhile_separatorOf (by simp) hseparator _
    rw [hend, List.append_nil, ← hwhole] at h
    exact hne h
  · exact absurd h hne

/-- The label of a code object folds nothing, unless its keyword is cut in two. -/
theorem fold_eq_iff_not_cutKeyword (hp : Text.trim payload ≠ [])
    (h : Text.headWord (fold concat (some .labelOpen) payload rest).text = Label.objectKeyword) :
    fold concat (some .labelOpen) payload rest = ⟨payload, none, 0⟩ ↔
      ¬CutKeyword concat payload := by
  constructor
  · intro hfold hcut
    rw [hfold] at h
    exact hcut.headWord_ne h
  · intro hcut
    by_cases hw : Text.headWord payload = Label.objectKeyword
    · rw [fold, if_pos ⟨rfl, hw⟩]
    · exact absurd (cutKeyword_of_headWord hp h hw) hcut

/-- Some line is folded into a label whose keyword is cut in two. -/
theorem exists_folded (hcut : CutKeyword concat payload)
    (h : Text.headWord (fold concat (some .labelOpen) payload rest).text = Label.objectKeyword) :
    ∃ k q, k < (fold concat (some .labelOpen) payload rest).consumed ∧
      rest[k]?.bind (payloadOf? .continuation) = some q := by
  have hguard : ¬(some Command.labelOpen = some .labelOpen ∧
      Text.headWord payload = Label.objectKeyword) := fun hg => hcut.headWord_ne hg.2
  have hsome : foldedPayloads (some .labelOpen) rest ≠ [] := by
    intro hnil
    rw [text_fold hguard, hnil, List.flatMap_nil, List.append_nil] at h
    exact hcut.headWord_ne h
  obtain ⟨q, hq⟩ := List.exists_mem_of_ne_nil _ hsome
  obtain ⟨line, hline, hq⟩ := List.mem_filterMap.1 hq
  obtain ⟨k, hk⟩ := List.mem_iff_getElem?.1 hline
  have hlt := (List.getElem?_eq_some_iff.1 hk).1
  have hsplit : rest.takeWhile (inFold (some .labelOpen)) ++
      rest.dropWhile (inFold (some .labelOpen)) = rest := List.takeWhile_append_dropWhile
  refine ⟨k, q, ?_, ?_⟩
  · rw [fold, if_neg hguard, gather_eq]
    simpa [contextAt?] using hlt
  · rw [← hsplit, List.getElem?_append_left hlt, hk]
    exact hq

end

/-! ## Lines of code -/

/-- A line that closes a code object is a statement with the mark of closing labels. -/
theorem ofLine?_of_closesObject {line : Text} (h : Label.closesObject line = true) :
    ∃ p, Statement.ofLine? line = some ⟨Command.labelClose.mark, p⟩ := by
  obtain ⟨front, gap, rest, hfront, -, rfl⟩ := Label.closesObject_iff.1 h
  have hstart : Text.trimStart (front ++ '<' :: (gap ++ (Label.objectKeyword ++ rest))) =
      '<' :: (gap ++ (Label.objectKeyword ++ rest)) :=
    Text.trimStart_blank_append hfront (by simp; decide)
  -- neither the mark nor the keyword behind it is trimmed away
  have hend := Text.trimEnd_append_cons (c := 'o') (by decide) ('<' :: gap)
    (['b', 'j', 'e', 'c', 't'] ++ rest)
  have htrim : Text.trim (front ++ '<' :: (gap ++ (Label.objectKeyword ++ rest))) =
      '<' :: (gap ++ 'o' :: Text.trimEnd (['b', 'j', 'e', 'c', 't'] ++ rest)) := by
    rw [Text.trim, hstart]
    exact hend
  unfold Statement.ofLine?
  rw [htrim]
  cases gap with
  | nil => exact ⟨_, rfl⟩
  | cons c gap => exact ⟨_, rfl⟩

/-- No line that is folded into a statement closes a code object. -/
theorem closesObject_of_inFold {command : Option Command} {line : Text}
    (h : inFold command line = true) : Label.closesObject line = false := by
  by_contra hc
  obtain ⟨p, hs⟩ := ofLine?_of_closesObject (eq_true_of_ne_false hc)
  rcases (Statement.inFold_iff command hs).1 h with hm | ⟨hm, -⟩
  · cases hm
  · cases hm

namespace Reader

/-- The line between `front` and `back` is met outside of comments and code, and its statement opens
the code object. -/
structure OpensObject (supported : Float) (front : List Text) (line : Text) (back : List Text)
    (s : State) (st : Statement) (o : CodeObject) : Prop where
  reached : (scanBefore supported {} 0 (line :: back) front).next = some s
  outside : s.openObject = none
  statement : LineKind.of s.inComment (Text.trim line) = .statement st
  opens : (s.logicalLine (front.length + 1) st back).opened? = some o

/-- The fold of a statement takes in line `k` below it, a continuation. -/
def Folds (s : State) (st : Statement) (back : List Text) (k : Nat) : Prop :=
  k < (fold s.options.concat st.command? st.payload back).consumed ∧
    (back[k]?.bind (payloadOf? .continuation)).isSome

/-- Right behind line `k` below a label the code object of the label is open, and the line is the
last one of its code. -/
def Captures (supported : Float) (front : List Text) (line : Text) (back : List Text)
    (o : CodeObject) (k : Nat) : Prop :=
  ∃ s text code, back[k]? = some text ∧
    (scanBefore supported {} 0 (back.drop (k + 1)) (front ++ line :: back.take (k + 1))).next = some s ∧
    s.openObject = some { o with code := code ++ [text] }

section

variable {supported : Float} {front back : List Text} {line : Text} {s : State} {st : Statement}
  {o : CodeObject}

theorem OpensObject.command (h : OpensObject supported front line back s st o) :
    st.command? = some .labelOpen := (LogicalLine.headWord_of_opened h.opens).1

/-- The lines below a label that do not close its code object are captured, unless they are blank. -/
theorem OpensObject.captures (h : OpensObject supported front line back s st o) {k : Nat}
    {text : Text} (hk : back[k]? = some text) (ht : Text.trim text ≠ [])
    (hopen : ∀ x ∈ back.take (k + 1), Label.closesObject x = false) :
    Captures supported front line back o k := by
  obtain ⟨s', hs', ho'⟩ := State.obey_of_opened h.outside h.opens supported
  have htrim : Text.trim line ≠ [] := by
    obtain ⟨st', hst, -⟩ := LineKind.ofLine?_of_statement h.statement
    intro hnil
    rw [hnil] at hst
    cases hst
  have hstep : (s.step supported (front.length + 1) line back).next = some s' := by
    rw [State.step_statement htrim h.outside h.statement, ← hs']
  have hbody := scanBefore_body supported ho' (front.length + 1) (back.drop (k + 1)) hopen
  have hcode : ∃ code, o.code ++ codeOf (back.take (k + 1)) = code ++ [text] := by
    refine ⟨o.code ++ codeOf (back.take k), ?_⟩
    rw [List.take_add_one, hk, codeOf, codeOf, List.filter_append, List.append_assoc]
    simp [ht]
  obtain ⟨code, hcode⟩ := hcode
  refine ⟨{ s' with openObject := some { o with code := o.code ++ codeOf (back.take (k + 1)) } },
    text, code, hk, ?_, by rw [← hcode]⟩
  rw [scanBefore_append, List.cons_append, List.take_append_drop, Outcome.andThen_of_some h.reached,
    scanBefore, List.take_append_drop, Nat.zero_add, Outcome.andThen_of_some hstep, hbody]

/-- What the label of a code object takes in is captured as code below it. -/
theorem OpensObject.captures_of_folds (h : OpensObject supported front line back s st o) {k : Nat}
    (hk : Folds s st back k) : Captures supported front line back o k := by
  obtain ⟨hlt, hcontinuation⟩ := hk
  obtain ⟨p, hp⟩ := Option.isSome_iff_exists.1 hcontinuation
  obtain ⟨text, htext, hs⟩ := Option.bind_eq_some_iff.1 hp
  have htrim : Text.trim text ≠ [] := by
    intro hnil
    rw [payloadOf?_eq_some_iff, ← Statement.ofLine?_trim, hnil] at hs
    cases hs
  have hpast : k < (back.takeWhile (inFold st.command?)).length := by
    unfold fold at hlt
    split at hlt
    · cases hlt
    · rw [gather_eq, contextAt?, h.command] at hlt
      rwa [h.command]
  obtain ⟨-, hfold⟩ := lt_length_takeWhile_iff.1 hpast
  refine h.captures htext htrim fun x hx => ?_
  obtain ⟨i, hi⟩ := List.mem_iff_getElem?.1 hx
  rw [List.getElem?_take, Option.ite_none_right_eq_some] at hi
  exact closesObject_of_inFold (hfold i (by omega) x hi.2)

end

end Reader

/-! ## What is folded and what is captured -/

/-- If a label names a code object once it is folded, then it folds nothing, except that its keyword
may have been cut in two. So it is in a script: every line that is folded into the label of a code
object is captured as its code as well, and there is such a line if the keyword was cut in two and
only then. -/
theorem objectLabel_folded (supported : Float) (concat payload : Text) (lines : List Text)
    (index : Nat) :
    (Text.trim payload ≠ [] →
      ∃ f, foldAt? concat (some .labelOpen) payload lines index = some f ∧
        (Text.headWord f.text = Label.objectKeyword →
          (f = ⟨payload, none, 0⟩ ↔ ¬CutKeyword concat payload))) ∧
    ∀ front line back s st o, lines = front ++ line :: back →
      Reader.OpensObject supported front line back s st o →
        (∀ k, Reader.Folds s st back k → Reader.Captures supported front line back o k) ∧
        ((∃ k, Reader.Folds s st back k) ↔ CutKeyword s.options.concat st.payload) := by
  constructor
  · intro hp
    exact ⟨_, foldAt?_natCast .., fold_eq_iff_not_cutKeyword hp⟩
  · intro front line back s st o _ h
    refine ⟨fun k hk => h.captures_of_folds hk, ?_⟩
    have hword : Text.headWord
        (fold s.options.concat (some .labelOpen) st.payload back).text = Label.objectKeyword := by
      rw [← h.command]
      exact (LogicalLine.headWord_of_opened h.opens).2.1
    have hp : Text.trim st.payload ≠ [] := by
      have htight := Reader.State.tight_of_kind h.statement
      rw [htight.trim_eq]
      exact htight.ne_nil
    constructor
    · rintro ⟨k, hlt, -⟩
      by_contra hcut
      rw [h.command, (fold_eq_iff_not_cutKeyword hp hword).2 hcut] at hlt
      cases hlt
    · intro hcut
      obtain ⟨k, q, hlt, hq⟩ := exists_folded hcut hword
      exact ⟨k, by rwa [h.command], by rw [hq]; rfl⟩

/-- A label with a continuation sign in the first line of its code, behind a rule, and a label whose
keyword is cut in two. -/
theorem objectLabel_folded_caret :
    let back : List Text := ["^ x".toList, "< object".toList]
    let cut : List Text := ["^ject f c".toList, "< object".toList]
    let o : CodeObject := ⟨['f'], ['c'], []⟩
    (∃ s st, Reader.OpensObject 2.0 ["+ a".toList] "> object f c".toList back s st o ∧
      foldAt? s.options.concat (some .labelOpen) st.payload
        ("+ a".toList :: "> object f c".toList :: back) 1 = some ⟨"object f c".toList, none, 0⟩ ∧
      ∀ k, ¬Reader.Folds s st back k) ∧
    ∃ s st, Reader.OpensObject 2.0 [] "> ob".toList cut s st o ∧
      CutKeyword s.options.concat st.payload ∧
      ∃ k, Reader.Folds s st cut k ∧ Reader.Captures 2.0 [] "> ob".toList cut o k := by
  intro back cut o
  constructor
  · obtain ⟨hfold, hscript⟩ := objectLabel_folded 2.0 "none".toList "object f c".toList
      ("+ a".toList :: "> object f c".toList :: back) 1
    have hopens : Reader.OpensObject 2.0 ["+ a".toList] "> object f c".toList back
        { document := { topics := [(defaultTopic, { rules := [{ pattern := ['a'] }] })] }
          openRule := some ⟨defaultTopic, 0⟩ } ⟨'>', "object f c".toList⟩ o :=
      ⟨rfl, rfl, by decide, by decide⟩
    have hcut : ¬CutKeyword "none".toList "object f c".toList := by
      rintro ⟨-, hpart, -⟩
      exact absurd hpart (by decide)
    refine ⟨_, _, hopens, ?_, fun k hk => hcut ((hscript _ _ _ _ _ _ rfl hopens).2.1 ⟨k, hk⟩)⟩
    obtain ⟨f, hf, hiff⟩ := hfold (by decide)
    obtain rfl : f = ⟨"object f c".toList, none, 0⟩ := by
      refine (hiff ?_).2 hcut
      rw [← Option.some.inj hf]
      decide
    exact hf
  · obtain ⟨-, hscript⟩ := objectLabel_folded 2.0 "none".toList "ob".toList
      ("> ob".toList :: cut) 0
    have hopens : Reader.OpensObject 2.0 [] "> ob".toList cut {} ⟨'>', "ob".toList⟩ o :=
      ⟨rfl, rfl, by decide, by decide⟩
    have hcut : CutKeyword "none".toList "ob".toList := ⟨by decide, by decide, by decide⟩
    obtain ⟨hcaptures, hfolds⟩ := hscript _ _ _ _ _ _ rfl hopens
    obtain ⟨k, hk⟩ := hfolds.2 hcut
    exact ⟨_, _, hopens, hcut, k, hk, hcaptures k hk⟩

/-- The label names a code object in its folded text and folds a line all the same, and this line is
captured as its code too. -/
def FoldsCode (supported : Float) (lines : List Text) : Prop :=
  ∃ front line back s st o, lines = front ++ line :: back ∧
    Reader.OpensObject supported front line back s st o ∧
    (∃ f, foldAt? s.options.concat (some .labelOpen) st.payload lines front.length = some f ∧
      Text.headWord f.text = Label.objectKeyword ∧ f.text ≠ st.payload ∧ f.consumed ≠ 0) ∧
    ∃ k, Reader.Folds s st back k ∧ Reader.Captures supported front line back o k

/-- A keyword with its second half on the next line. The line ends up in the label and in the code. -/
theorem objectLabel_cut :
    let lines : List Text := ["> ob".toList, "^ject f c".toList, "< object".toList]
    FoldsCode 2.0 lines ∧
      ∃ d, (parse {} ⟨['s'], true⟩ lines).document = some d ∧
        d.objects = [⟨['f'], ['c'], ["^ject f c".toList]⟩] := by
  intro lines
  refine ⟨⟨[], "> ob".toList, ["^ject f c".toList, "< object".toList], {}, ⟨'>', "ob".toList⟩,
    ⟨['f'], ['c'], []⟩, rfl, ⟨rfl, rfl, by decide, by decide⟩, ?_, ?_⟩, _, rfl, rfl⟩
  · exact ⟨⟨"object f c".toList, none, 1⟩, by decide, by decide, by decide, by decide⟩
  · exact ⟨0, ⟨by decide, by decide⟩, _, "^ject f c".toList, [], rfl, rfl, rfl⟩

end DialogueScript
