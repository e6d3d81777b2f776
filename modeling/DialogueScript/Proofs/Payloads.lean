import DialogueScript.Proofs.Dispatch
import Mathlib.Data.List.Infix

/-!
# The texts of statements

A text is `Tight` if it is not empty and has no blank at either end. The payload of a statement is
tight, with its comment and without it, and folding joins tight payloads to a tight text. So no
statement is dispatched without a word (`tight_of_dispatched`).
-/

namespace DialogueScript

namespace Text

/-! ## Tight texts -/

structure Tight (s : Text) : Prop where
  ne_nil : s ≠ []
  head : ∀ c ∈ s.head?, isBlank c = false
  last : ∀ c ∈ s.getLast?, isBlank c = false

variable {s a b : Text}

theorem trimEnd_of_last (h : ∀ c ∈ s.getLast?, isBlank c = false) : trimEnd s = s := by
  have hr : trimStart s.reverse = s.reverse :=
    trimStart_of_head fun c hc => h c (by rwa [List.head?_reverse] at hc)
  rw [trimEnd, show s.reverse.dropWhile isBlank = s.reverse from hr, List.reverse_reverse]

theorem Tight.trim_eq (h : Tight s) : trim s = s := by
  rw [trim, trimStart_of_head h.head, trimEnd_of_last h.last]

theorem tight_trim (h : trim s ≠ []) : Tight (trim s) := by
  refine ⟨h, ?_, ?_⟩
  · intro c hc
    have hnot := List.head?_dropWhile_not isBlank (trim s)
    rw [show (trim s).dropWhile isBlank = trim s from trimStart_trim s, hc] at hnot
    simpa using hnot
  · intro c hc
    have hnot := List.head?_dropWhile_not isBlank (trimStart s).reverse
    have hl : ((trimStart s).reverse.dropWhile isBlank).head? = some c := by
      rw [← List.getLast?_reverse]
      exact hc
    rw [hl] at hnot
    simpa using hnot

/-- Only blanks are trimmed away at the end. -/
theorem eq_trimEnd_append (s : Text) :
    ∃ blank : Text, (∀ c ∈ blank, isBlank c = true) ∧ s = trimEnd s ++ blank := by
  refine ⟨(s.reverse.takeWhile isBlank).reverse, ?_, ?_⟩
  · intro c hc
    exact List.mem_takeWhile_imp (List.mem_reverse.1 hc)
  · rw [trimEnd, ← List.reverse_append, List.takeWhile_append_dropWhile, List.reverse_reverse]

/-- What is not blank is not trimmed away. -/
theorem trim_ne_nil {c : Char} (hc : c ∈ s) (hb : isBlank c = false) : trim s ≠ [] := by
  intro h
  obtain ⟨front, hfront, hs⟩ := eq_append_trimStart s
  obtain ⟨back, hback, hrest⟩ := eq_trimEnd_append (trimStart s)
  rw [show trimEnd (trimStart s) = [] from h, List.nil_append] at hrest
  rw [hs, hrest] at hc
  rcases List.mem_append.1 hc with hc | hc
  · rw [hfront c hc] at hb
    cases hb
  · rw [hback c hc] at hb
    cases hb

/-- A word in front of a blank ends there. -/
theorem takeWhile_append_of_blank {s rest : Text} (h : ∀ c ∈ rest.head?, isBlank c = true) :
    (s ++ rest).takeWhile (!isBlank ·) = s.takeWhile (!isBlank ·) := by
  induction s with
  | nil =>
    cases rest with
    | nil => rfl
    | cons c rest => simp [h c rfl]
  | cons c s ih => rw [List.cons_append, List.takeWhile_cons, List.takeWhile_cons, ih]

/-- Tight texts stay tight when they are joined, whatever stands between them. -/
theorem Tight.join (ha : Tight a) (hb : Tight b) (glue : Text) : Tight (a ++ glue ++ b) := by
  refine ⟨by simp [ha.ne_nil], ?_, ?_⟩
  · intro c hc
    rw [List.append_assoc, List.head?_append_of_ne_nil _ ha.ne_nil] at hc
    exact ha.head c hc
  · intro c hc
    rw [List.getLast?_append_of_ne_nil _ hb.ne_nil] at hc
    exact hb.last c hc

/-- Nothing is trimmed away in front of what a tight text begins with. -/
theorem Tight.trimStart_of_prefix (h : Tight s) (hp : a <+: s) : trimStart a = a := by
  obtain ⟨rest, rfl⟩ := hp
  exact trimStart_of_head fun c hc => h.head c (List.mem_head?_append_of_mem_head? hc)

theorem tight_singleton {c : Char} (h : isBlank c = false) : Tight [c] :=
  ⟨by simp, by simpa using h, by simpa using h⟩

theorem trim_blank_append {blank : Text} (hb : ∀ c ∈ blank, isBlank c = true) (hs : Tight s) :
    trim (blank ++ s) = s := by
  rw [trim, trimStart_blank_append hb hs.head, trimEnd_of_last hs.last]

/-- A text that begins with a word has one. -/
theorem Tight.words_ne_nil (h : Tight s) : words s ≠ [] := by
  intro hw
  have hhead := headD_words s
  rw [hw, headWord, trimStart_of_head h.head] at hhead
  cases s with
  | nil => exact h.ne_nil rfl
  | cons c s =>
    have hc := h.head c rfl
    simp [hc] at hhead

/-! ## Occurrences -/

variable {w kept rest : Text}

theorem restAfter?_isSome_iff : (restAfter? w s).isSome = true ↔ w <+: s := by
  rw [Option.isSome_iff_exists]
  constructor
  · rintro ⟨rest, h⟩
    exact ⟨rest, (restAfter?_eq_some_iff.1 h).symm⟩
  · rintro ⟨rest, h⟩
    exact ⟨rest, restAfter?_eq_some_iff.2 h.symm⟩

theorem occursIn_iff : occursIn w s = true ↔ w <:+: s := by
  induction s with
  | nil => cases w <;> simp [occursIn, cut]
  | cons c s ih =>
    rw [List.infix_cons_iff, ← restAfter?_isSome_iff, ← ih, occursIn, cut]
    cases hr : restAfter? w (c :: s) with
    | some rest => simp
    | none => simp [occursIn]

theorem occursIn_eq_false_iff : occursIn w s = false ↔ ¬w <:+: s := by
  rw [← Bool.not_eq_true, occursIn_iff]

/-- Cutting loses nothing. -/
theorem eq_of_cut (h : cut w s = some (kept, rest)) : s = kept ++ w ++ rest := by
  induction s generalizing kept with
  | nil =>
    rw [cut] at h
    split at h
    · next hw =>
      cases h
      simpa using hw
    · cases h
  | cons c s ih =>
    rw [cut] at h
    split at h
    · next hr =>
      cases h
      simpa using restAfter?_eq_some_iff.1 hr
    · obtain ⟨⟨k, r⟩, hcut, he⟩ := Option.map_eq_some_iff.1 h
      cases he
      rw [ih hcut]
      simp

/-- A text is cut at the first occurrence. -/
theorem not_infix_of_cut (hw : w ≠ []) (h : cut w s = some (kept, rest)) : ¬w <:+: kept := by
  induction s generalizing kept with
  | nil => simp [cut, hw] at h
  | cons c s ih =>
    rw [cut] at h
    split at h
    · cases h
      simpa using hw
    · next hr =>
      obtain ⟨⟨k, r⟩, hcut, he⟩ := Option.map_eq_some_iff.1 h
      cases he
      rw [List.infix_cons_iff]
      rintro (hp | hi)
      · -- an occurrence at the front would have been the first one
        have hs : c :: k <+: c :: s := by
          rw [eq_of_cut hcut]
          exact ⟨w ++ r, by simp⟩
        have := restAfter?_isSome_iff.2 (hp.trans hs)
        rw [hr] at this
        cases this
      · exact ih hcut hi

theorem cut_eq_none_iff : cut w s = none ↔ ¬w <:+: s := by
  rw [← occursIn_iff, occursIn]
  cases cut w s <;> simp

theorem trim_isInfix (s : Text) : trim s <:+: s := by
  have hend := trimEnd_prefix (trimStart s)
  exact hend.isInfix.trans (List.dropWhile_suffix isBlank).isInfix

theorem occursIn_trim (h : occursIn w s = false) : occursIn w (trim s) = false := by
  rw [occursIn_eq_false_iff] at h ⊢
  intro hi
  exact h (hi.trans (trim_isInfix s))

end Text

/-! ## Payloads -/

namespace Statement

variable {line : Text} {st : Statement}

/-- A statement fills a trimmed line: its mark, what is trimmed to its payload, nothing else. -/
theorem tight_of_ofLine? (h : ofLine? line = some st) :
    Text.isBlank st.mark = false ∧ Text.Tight st.payload := by
  unfold ofLine? at h
  split at h
  · next mark c rest hline =>
    cases h
    have ht : Text.Tight (mark :: c :: rest) := hline ▸ Text.tight_trim (by simp [hline])
    refine ⟨ht.head mark rfl, Text.tight_trim ?_⟩
    obtain ⟨d, hd⟩ : ∃ d, (c :: rest).getLast? = some d :=
      ⟨_, List.getLast?_eq_some_getLast (List.cons_ne_nil c rest)⟩
    have hb : Text.isBlank d = false := ht.last d (by rw [List.getLast?_cons_cons]; exact hd)
    exact Text.trim_ne_nil (List.mem_of_getLast? hd) hb
  · cases h

theorem tight_withoutComment (h : Text.Tight st.payload) : Text.Tight st.withoutComment.payload := by
  unfold withoutComment
  split
  · next kept rest hcut =>
    have hs := Text.eq_of_cut hcut
    cases kept with
    | nil =>
      -- the payload would begin with the blank in front of the slashes
      have hb := h.head ' ' (by rw [hs]; rfl)
      cases hb
    | cons c kept =>
      have hb := h.head c (by rw [hs]; rfl)
      exact Text.tight_trim (Text.trim_ne_nil List.mem_cons_self hb)
  · exact h

theorem payload_isInfix (h : ofLine? line = some st) : st.payload <:+: line := by
  unfold ofLine? at h
  split at h
  · next mark c rest hline =>
    cases h
    have hrest : c :: rest <:+: Text.trim line := by
      rw [hline]
      exact (List.suffix_cons mark (c :: rest)).isInfix
    exact ((Text.trim_isInfix _).trans hrest).trans (Text.trim_isInfix line)
  · cases h

theorem withoutComment_isInfix (st : Statement) : st.withoutComment.payload <:+: st.payload := by
  unfold withoutComment
  split
  · next kept rest hcut =>
    have hkept : kept <:+: st.payload := by
      rw [Text.eq_of_cut hcut, List.append_assoc]
      exact (List.prefix_append kept _).isInfix
    exact (Text.trim_isInfix kept).trans hkept
  · exact List.infix_rfl

/-- No second comment is left: in what is kept it would have been the first one. -/
theorem not_infix_withoutComment (st : Statement) : ¬inlineComment <:+: st.withoutComment.payload := by
  unfold withoutComment
  split
  · next kept rest hcut =>
    intro hi
    exact Text.not_infix_of_cut (by decide) hcut (hi.trans (Text.trim_isInfix kept))
  · next hcut => exact Text.cut_eq_none_iff.1 hcut

/-- A comment cuts off the end of the payload. -/
theorem withoutComment_isPrefix (h : Text.Tight st.payload) :
    st.withoutComment.payload <+: st.payload := by
  unfold withoutComment
  split
  · next kept rest hcut =>
    have hkept : kept <+: st.payload := by
      rw [Text.eq_of_cut hcut, List.append_assoc]
      exact List.prefix_append kept _
    rw [Text.trim, h.trimStart_of_prefix hkept]
    exact (Text.trimEnd_prefix kept).trans hkept
  · exact List.prefix_rfl

/-- A comment stands behind the first word. -/
theorem headWord_withoutComment {st : Statement} (h : Text.Tight st.payload) :
    Text.headWord st.withoutComment.payload = Text.headWord st.payload := by
  have htight := tight_withoutComment h
  rw [Text.headWord, Text.headWord, Text.trimStart_of_head htight.head,
    Text.trimStart_of_head h.head]
  unfold withoutComment
  split
  · next kept rest hcut =>
    have hkept : Text.trimStart kept = kept := by
      refine h.trimStart_of_prefix ?_
      rw [Text.eq_of_cut hcut, List.append_assoc]
      exact List.prefix_append kept _
    obtain ⟨blank, hblank, hk⟩ := Text.eq_trimEnd_append kept
    have htrim : (Text.trim kept).takeWhile (!Text.isBlank ·) = kept.takeWhile (!Text.isBlank ·) := by
      rw [Text.trim, hkept]
      conv_rhs => rw [hk]
      exact (Text.takeWhile_append_of_blank fun c hc => hblank c (List.mem_of_head? hc)).symm
    rw [htrim, Text.eq_of_cut hcut, List.append_assoc]
    refine (Text.takeWhile_append_of_blank ?_).symm
    intro c hc
    obtain rfl : ' ' = c := by simpa [inlineComment] using hc
    decide
  · rfl

end Statement

/-! ## Folded texts -/

namespace Role

variable {command : Option Command} {line p : Text}

theorem tight_of_ofLine (h : ofLine command line = .extend p ∨ ofLine command line = .context p) :
    Text.Tight p := by
  unfold ofLine at h
  split at h
  · simp at h
  · next st hs =>
    have ht := (Statement.tight_of_ofLine? hs).2
    split at h <;> simp at h
    · exact h ▸ ht
    · exact h ▸ ht

end Role

/-- What is gathered behind a tight payload leaves it tight. -/
theorem tight_gather {command : Option Command} {glue p : Text} (hp : Text.Tight p)
    (rest : List Text) : Text.Tight (p ++ (gather command glue rest).text) := by
  induction rest generalizing p with
  | nil => simpa [gather] using hp
  | cons line rest ih =>
    rw [gather]
    cases hr : Role.ofLine command line with
    | skip => exact ih hp
    | extend payload =>
      have hjoin := ih (hp.join (Role.tight_of_ofLine (.inl hr)) glue)
      simpa [List.append_assoc] using hjoin
    | context payload => simpa using hp
    | stop => simpa using hp

theorem tight_gather_previous {command : Option Command} {glue p : Text} {rest : List Text}
    (h : (gather command glue rest).previous = some p) : Text.Tight p := by
  induction rest with
  | nil => cases h
  | cons line rest ih =>
    rw [gather] at h
    cases hr : Role.ofLine command line with
    | skip =>
      rw [hr] at h
      exact ih h
    | extend payload =>
      rw [hr] at h
      exact ih h
    | context payload =>
      rw [hr] at h
      cases h
      exact Role.tight_of_ofLine (.inr hr)
    | stop =>
      rw [hr] at h
      cases h

/-- The text of the line is tight, and so is the context if there is one. -/
structure LogicalLine.Tight (l : LogicalLine) : Prop where
  text : Text.Tight l.text
  previous : ∀ p, l.previous = some p → Text.Tight p

namespace Reader

namespace State

/-- A statement is tight behind the fold, if its payload is. -/
theorem tight_logicalLine {s : State} {st : Statement} (h : Text.Tight st.payload) (number : Nat)
    (rest : List Text) : (s.logicalLine number st rest).Tight := by
  have hfold : Text.Tight (fold s.options.concat st.command? st.payload rest).text ∧
      ∀ p, (fold s.options.concat st.command? st.payload rest).previous = some p →
        Text.Tight p := by
    unfold fold
    split
    · exact ⟨h, by simp⟩
    · exact ⟨tight_gather h rest, fun p hp => tight_gather_previous hp⟩
  exact ⟨hfold.1, hfold.2⟩

/-- Every statement that is read has a tight payload. -/
theorem tight_of_kind {inComment : Bool} {line : Text} {st : Statement}
    (hk : LineKind.of inComment line = .statement st) : Text.Tight st.payload := by
  obtain ⟨-, -, -, -, -, st', hs, rfl⟩ := LineKind.of_eq_statement_iff.1 hk
  exact Statement.tight_withoutComment (Statement.tight_of_ofLine? hs).2

end State

/-- Every statement that is dispatched in a run has a tight text. -/
theorem tight_of_dispatched {supported : Float} {s : State} {number : Nat}
    {later lines : List Text} {l : LogicalLine}
    (h : l ∈ dispatched (scanBefore supported s number later lines).events) : l.Tight := by
  obtain ⟨before, after, hls⟩ := List.append_of_mem h
  obtain ⟨front, line, back, s', st, -, -, -, -, -, hk, rfl⟩ := scanBefore_cut hls
  exact State.tight_logicalLine (State.tight_of_kind hk) _ _

end Reader

end DialogueScript
