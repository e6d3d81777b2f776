import DialogueScript.Proofs.Folding
import DialogueScript.Proofs.Payloads
import Mathlib.Data.List.Nodup

/-!
# Which statement a continuation goes to

A head is a statement that acts for itself. The lines that a head consumes lie between it and the
next head, so a continuation is consumed by the head above it or by none
(`continuation_consumed`). It is by none if a `%` line cuts it off from a rule or a definition, or if
the head is the label of a code object; otherwise its payload is added to the text of the head once.
-/

namespace DialogueScript

/-! ## Heads -/

def statementAt? (lines : List Text) (i : Nat) : Option Statement := lines[i]?.bind Statement.ofLine?

/-- Line `i` is the statement, and the statement acts for itself. -/
structure HeadAt (lines : List Text) (i : Nat) (st : Statement) : Prop where
  statement : statementAt? lines i = some st
  acts : st.continues = false

/-- Line `i` is the first head that is met on the way up from line `j`. -/
structure HeadAbove (lines : List Text) (i : Nat) (st : Statement) (j : Nat) : Prop where
  head : HeadAt lines i st
  above : i < j
  nearest : ∀ m, i < m → m < j → ∀ st', ¬HeadAt lines m st'

/-- The payload as it stands on the line, and as it is read there. -/
def Statement.payloads (st : Statement) : List Text := [st.payload, st.withoutComment.payload]

/-- Line `j` is among those that the head on line `i` consumes. -/
def Consumes (concat : Text) (lines : List Text) (i : Nat) (payload : Text) (j : Nat) : Prop :=
  ∃ st f, HeadAt lines i st ∧ payload ∈ st.payloads ∧
    foldAt? concat st.command? payload lines i = some f ∧ i < j ∧ j ≤ i + f.consumed

/-- The head is the label of a code object, or a rule or a definition that a `%` line ends above
line `j`. -/
def CutOff (lines : List Text) (i : Nat) (st : Statement) (j : Nat) : Prop :=
  st.command? = some .labelOpen ∧ Text.headWord st.payload = Label.objectKeyword ∨
    (st.command? = some .trigger ∨ st.command? = some .define) ∧
      ∃ m st', i < m ∧ m < j ∧ statementAt? lines m = some st' ∧ st'.mark = Command.previous.mark

/-- What a line adds to a text that it is folded into: a continuation its payload behind a
separator, any other line nothing. -/
def addition (separator : Text) (lines : List Text) (m : Nat) : Text :=
  ((lines[m]?.bind (payloadOf? .continuation)).map (separator ++ ·)).getD []

/-! ## Lines by their positions -/

theorem lt_length_takeWhile_iff {α : Type} {p : α → Bool} {l : List α} {n : Nat} :
    n < (l.takeWhile p).length ↔
      n < l.length ∧ ∀ m ≤ n, ∀ x, l[m]? = some x → p x = true := by
  induction l generalizing n with
  | nil => simp
  | cons a l ih =>
    by_cases ha : p a = true
    · rw [List.takeWhile_cons_of_pos ha]
      cases n with
      | zero => simpa using ha
      | succ n =>
        rw [List.length_cons, List.length_cons, Nat.succ_lt_succ_iff, Nat.succ_lt_succ_iff, ih]
        refine and_congr_right fun _ => ⟨?_, ?_⟩
        · intro h m hm x hx
          cases m with
          | zero =>
            obtain rfl : a = x := by simpa using hx
            exact ha
          | succ m => exact h m (by omega) x hx
        · exact fun h m hm x hx => h (m + 1) (by omega) x hx
    · rw [List.takeWhile_cons_of_neg ha]
      constructor
      · intro h
        simp at h
      · intro h
        exact absurd (h.2 0 (Nat.zero_le n) a rfl) ha

theorem gather_text (command : Option Command) (glue : Text) (rest : List Text) :
    (gather command glue rest).text =
      (List.range (gather command glue rest).consumed).flatMap (addition glue rest) := by
  induction rest with
  | nil => rfl
  | cons line rest ih =>
    rw [gather]
    have hr := Role.ofLine_reads command line
    generalize Role.ofLine command line = role at hr
    have further (n : Nat) : (List.range (n + 1)).flatMap (addition glue (line :: rest)) =
        addition glue (line :: rest) 0 ++ (List.range n).flatMap (addition glue rest) := by
      rw [List.range_succ_eq_map, List.flatMap_cons, List.flatMap_map]
      rfl
    have here : addition glue (line :: rest) 0 =
      ((payloadOf? .continuation line).map (glue ++ ·)).getD [] := rfl
    cases hr with
    | skip hp hc => simp only [further, here, hc, ih, Option.map_none, Option.getD_none, List.nil_append]
    | extend p hp hc => simp only [further, here, hc, ih, Option.map_some, Option.getD_some]
    | context p hp ht hc =>
      have hnone : payloadOf? .continuation line = none := by
        rw [payloadOf?_eq_some_iff] at hc
        rw [Statement.payloadOf?_of_ofLine? _ hc]
        rfl
      simp only [further, here, hnone]
      rfl
    | stop => rfl

/-! ## What a head consumes -/

section

variable {lines : List Text} {i j : Nat} {st c : Statement} {concat payload : Text}

/-- Of a continuation below the head it depends on the lines down to it whether it is consumed. -/
theorem consumed_iff (hc : statementAt? lines j = some c) (hm : c.mark = Command.continuation.mark)
    (hij : i < j) {f : Folded} (hf : foldAt? concat st.command? payload lines i = some f) :
    j ≤ i + f.consumed ↔
      ¬(st.command? = some .labelOpen ∧ Text.headWord payload = Label.objectKeyword) ∧
        ∀ m, i < m → m ≤ j → ∀ line, lines[m]? = some line → inFold st.command? line = true := by
  rw [foldAt?_natCast] at hf
  obtain rfl := Option.some.inj hf
  obtain ⟨n, rfl⟩ : ∃ n, j = i + 1 + n := ⟨j - (i + 1), by omega⟩
  unfold fold
  split
  · next ho =>
    constructor
    · intro h
      simp at h
      omega
    · exact fun h => absurd ho h.1
  · next ho =>
    obtain ⟨line, hline, hs⟩ := Option.bind_eq_some_iff.1 hc
    have hrest : (lines.drop (i + 1))[n]? = some line := by rw [List.getElem?_drop, hline]
    rw [gather_eq]
    simp only
    generalize hk : ((lines.drop (i + 1)).takeWhile (inFold st.command?)).length = k
    -- the line behind the run may be a context, but line `j` is none
    have hcontinuation : (contextAt? st.command? (lines.drop (i + 1)) k).isSome = true → n ≠ k := by
      rintro hsome rfl
      have hnone : payloadOf? .previous line = none := by
        rw [Statement.payloadOf?_of_ofLine? _ hs, if_neg (by rw [hm]; decide)]
      rw [contextAt?, hrest] at hsome
      split at hsome
      · simp [hnone] at hsome
      · cases hsome
    have hinside : i + 1 + n ≤ i + (if (contextAt? st.command? (lines.drop (i + 1)) k).isSome
        then k + 1 else k) ↔ n < k := by
      split
      · next hsome =>
        have := hcontinuation hsome
        omega
      · omega
    rw [hinside, ← hk, lt_length_takeWhile_iff]
    have hn : n < (lines.drop (i + 1)).length := (List.getElem?_eq_some_iff.1 hrest).1
    constructor
    · intro h
      refine ⟨ho, fun m hl hu x hx => h.2 (m - (i + 1)) (by omega) x ?_⟩
      rw [List.getElem?_drop, ← hx]
      congr 1
      omega
    · intro h
      refine ⟨hn, fun m hle x hx => h.2 (i + 1 + m) (by omega) (by omega) x ?_⟩
      rw [← hx, List.getElem?_drop]

/-- The text of a head is its payload with what the consumed lines add, one after the other. -/
theorem text_of_foldAt? {command : Option Command} {f : Folded}
    (hf : foldAt? concat command payload lines i = some f) :
    f.text = payload ++
      (List.range' (i + 1) f.consumed).flatMap (addition (separatorOf command concat) lines) := by
  rw [foldAt?_natCast] at hf
  obtain rfl := Option.some.inj hf
  unfold fold
  split
  · simp
  · have hshift : addition (separatorOf command concat) (lines.drop (i + 1)) =
        fun m => addition (separatorOf command concat) lines (i + 1 + m) := by
      funext m
      rw [addition, List.getElem?_drop]
      rfl
    simp only
    rw [gather_text, glue_eq, hshift, List.range'_eq_map_range, List.flatMap_map]

theorem continues_of_inFold {command : Option Command} {line : Text}
    (hs : Statement.ofLine? line = some st) (h : inFold command line = true) :
    st.continues = true := by
  rcases (Statement.inFold_iff command hs).1 h with hm | ⟨hm, -⟩
  · simp [Statement.continues, Statement.command?, hm, Command.ofMark?_eq_some_iff]
  · simp [Statement.continues, Statement.command?, hm, Command.ofMark?_eq_some_iff]

theorem HeadAbove.unique {i' : Nat} {st' : Statement} (h : HeadAbove lines i st j)
    (h' : HeadAbove lines i' st' j) : i = i' := by
  rcases Nat.lt_trichotomy i i' with hlt | he | hgt
  · exact absurd h'.head (h.nearest i' hlt h'.above st')
  · exact he
  · exact absurd h.head (h'.nearest i hgt h.above st)

section

variable (hc : statementAt? lines j = some c) (hm : c.mark = Command.continuation.mark)

include hc hm

theorem headAbove_of_consumes (h : Consumes concat lines i payload j) :
    ∃ st, HeadAbove lines i st j := by
  obtain ⟨st, f, hhead, -, hf, hij, hjf⟩ := h
  obtain ⟨-, hinside⟩ := (consumed_iff hc hm hij hf).1 hjf
  refine ⟨st, hhead, hij, ?_⟩
  intro m hl hu st' hhead'
  obtain ⟨line, hline, hs⟩ := Option.bind_eq_some_iff.1 hhead'.statement
  have hcontinues := continues_of_inFold hs (hinside m hl (by omega) line hline)
  rw [hhead'.acts] at hcontinues
  cases hcontinues

theorem consumes_iff_not_cutOff (h : HeadAbove lines i st j) (hp : payload ∈ st.payloads)
    (concat : Text) : Consumes concat lines i payload j ↔ ¬CutOff lines i st j := by
  have htight : Text.Tight st.payload := by
    obtain ⟨line, -, hs⟩ := Option.bind_eq_some_iff.1 h.head.statement
    exact (Statement.tight_of_ofLine? hs).2
  have hword : Text.headWord payload = Text.headWord st.payload := by
    simp only [Statement.payloads, List.mem_cons, List.not_mem_nil, or_false] at hp
    rcases hp with rfl | rfl
    · rfl
    · exact Statement.headWord_withoutComment htight
  constructor
  · rintro ⟨st', f, hhead, -, hf, hij, hjf⟩ hcut
    obtain rfl : st = st' := Option.some.inj (h.head.statement.symm.trans hhead.statement)
    obtain ⟨hlabel, hinside⟩ := (consumed_iff hc hm hij hf).1 hjf
    rcases hcut with ⟨hopen, hobject⟩ | ⟨hcommand, m, st', hl, hu, hst', hmark⟩
    · exact hlabel ⟨hopen, hword.trans hobject⟩
    · obtain ⟨line, hline, hs⟩ := Option.bind_eq_some_iff.1 hst'
      rcases (Statement.inFold_iff _ hs).1 (hinside m hl (by omega) line hline) with
        hcont | ⟨-, htrigger, hdefine⟩
      · rw [hmark] at hcont
        cases hcont
      · exact hcommand.elim htrigger hdefine
  · intro hcut
    have hf := foldAt?_natCast concat st.command? payload lines i
    refine ⟨st, _, h.head, hp, hf, h.above, (consumed_iff hc hm h.above hf).2 ⟨?_, ?_⟩⟩
    · rintro ⟨hopen, hobject⟩
      exact hcut (.inl ⟨hopen, hword.symm.trans hobject⟩)
    · intro m hl hu line hline
      cases hs : Statement.ofLine? line with
      | none => exact Statement.inFold_of_none _ hs
      | some st' =>
        have hst' : statementAt? lines m = some st' := Option.bind_eq_some_iff.2 ⟨line, hline, hs⟩
        rw [Statement.inFold_iff _ hs]
        rcases Nat.lt_or_eq_of_le hu with hlt | rfl
        · have hcontinues : st'.continues = true := by
            by_contra hn
            exact h.nearest m hl hlt st' ⟨hst', eq_false_of_ne_true hn⟩
          simp only [Statement.continues, Bool.or_eq_true, decide_eq_true_eq] at hcontinues
          rcases hcontinues with hcont | hprev
          · exact .inl (Command.ofMark?_eq_some_iff.1 hcont)
          · have hmark := Command.ofMark?_eq_some_iff.1 hprev
            refine .inr ⟨hmark, ?_, ?_⟩
            · exact fun ht => hcut (.inr ⟨.inl ht, m, st', hl, hlt, hst', hmark⟩)
            · exact fun hd => hcut (.inr ⟨.inr hd, m, st', hl, hlt, hst', hmark⟩)
        · obtain rfl : st' = c := Option.some.inj (hst'.symm.trans hc)
          exact .inl hm

end

/-- A continuation is consumed by one head at most, and only by the first one above it. Unless it is
cut off from this head it is among the lines that the head consumes; the text of the head is its
payload with what each of these lines adds, one after the other, and the continuation adds its
payload. Without a head above it no head consumes it. -/
theorem continuation_consumed (hc : statementAt? lines j = some c)
    (hm : c.mark = Command.continuation.mark) :
    (∀ concat i payload, Consumes concat lines i payload j → ∃ st, HeadAbove lines i st j) ∧
    (∀ concat i payload concat' i' payload', Consumes concat lines i payload j →
      Consumes concat' lines i' payload' j → i = i') ∧
    (∀ i st, HeadAbove lines i st j → ∀ concat, ∀ payload ∈ st.payloads,
      (Consumes concat lines i payload j ↔ ¬CutOff lines i st j) ∧
      (¬CutOff lines i st j → ∃ f, foldAt? concat st.command? payload lines i = some f ∧
        f.text = payload ++ (List.range' (i + 1) f.consumed).flatMap
          (addition (separatorOf st.command? concat) lines) ∧
        (List.range' (i + 1) f.consumed).count j = 1 ∧
        addition (separatorOf st.command? concat) lines j =
          separatorOf st.command? concat ++ c.payload)) ∧
    ((∀ i < j, ∀ st, ¬HeadAt lines i st) → ∀ concat i payload,
      ¬Consumes concat lines i payload j) := by
  refine ⟨fun _ _ _ h => headAbove_of_consumes hc hm h, ?_, ?_, ?_⟩
  · intro concat i payload concat' i' payload' h h'
    obtain ⟨st, habove⟩ := headAbove_of_consumes hc hm h
    obtain ⟨st', habove'⟩ := headAbove_of_consumes hc hm h'
    exact habove.unique habove'
  · intro i st h concat payload hp
    have hiff := consumes_iff_not_cutOff hc hm h hp concat
    refine ⟨hiff, fun hcut => ?_⟩
    obtain ⟨st', f, hhead, -, hf, hij, hjf⟩ := hiff.2 hcut
    obtain rfl : st = st' := Option.some.inj (h.head.statement.symm.trans hhead.statement)
    refine ⟨f, hf, text_of_foldAt? hf, ?_, ?_⟩
    · refine List.count_eq_one_of_mem List.nodup_range' ?_
      rw [List.mem_range'_1]
      omega
    · obtain ⟨line, hline, hs⟩ := Option.bind_eq_some_iff.1 hc
      rw [addition, hline, Option.bind_some, Statement.payloadOf?_of_ofLine? _ hs, if_pos hm]
      rfl
  · intro hnone concat i payload h
    obtain ⟨st, habove⟩ := headAbove_of_consumes hc hm h
    exact hnone i habove.above st habove.head

/-- A rule with a short line and a continuation below it, and a context that cuts off a second one. -/
theorem continuation_consumed_context :
    let lines : List Text := [['+', 'a'], ['-'], ['^', 'b'], ['%', 'd'], ['^', 'e']]
    HeadAbove lines 0 ⟨'+', ['a']⟩ 2 ∧ ¬CutOff lines 0 ⟨'+', ['a']⟩ 2 ∧
      Consumes [] lines 0 ['a'] 2 ∧ foldAt? [] (some .trigger) ['a'] lines 0 =
        some ⟨['a', 'b'], some ['d'], 3⟩ ∧
      HeadAbove lines 0 ⟨'+', ['a']⟩ 4 ∧ CutOff lines 0 ⟨'+', ['a']⟩ 4 ∧
      ¬Consumes [] lines 0 ['a'] 4 := by
  intro lines
  have hhead : HeadAt lines 0 ⟨'+', ['a']⟩ := ⟨by decide, by decide⟩
  have habove (j : Nat) (hj : 0 < j) (hj' : j < 5) : HeadAbove lines 0 ⟨'+', ['a']⟩ j := by
    refine ⟨hhead, hj, ?_⟩
    rintro m hl hu st' ⟨hs, hacts⟩
    match m, hl, (show m < 5 by omega) with
    | 1, _, _ => cases hs
    | 2, _, _ | 3, _, _ | 4, _, _ =>
      cases hs
      revert hacts
      decide
  have hnot : ¬CutOff lines 0 ⟨'+', ['a']⟩ 2 := by
    rintro (⟨ho, -⟩ | ⟨-, m, st', hl, hu, hs, -⟩)
    · revert ho
      decide
    · obtain rfl : m = 1 := by omega
      cases hs
  have hcut : CutOff lines 0 ⟨'+', ['a']⟩ 4 :=
    .inr ⟨.inl rfl, 3, ⟨'%', ['d']⟩, by omega, by omega, by decide, rfl⟩
  have hb : statementAt? lines 2 = some ⟨'^', ['b']⟩ := by decide
  have he : statementAt? lines 4 = some ⟨'^', ['e']⟩ := by decide
  obtain ⟨-, -, hfirst, -⟩ := continuation_consumed hb rfl
  obtain ⟨-, -, hsecond, -⟩ := continuation_consumed he rfl
  have hpayload : ['a'] ∈ Statement.payloads ⟨'+', ['a']⟩ := List.mem_cons_self
  refine ⟨habove 2 (by omega) (by omega), hnot, ?_, by decide, habove 4 (by omega) (by omega), hcut,
    ?_⟩
  · exact (hfirst 0 _ (habove 2 (by omega) (by omega)) [] ['a'] hpayload).1.2 hnot
  · exact fun h => (hsecond 0 _ (habove 4 (by omega) (by omega)) [] ['a'] hpayload).1.1 h hcut

end

end DialogueScript
