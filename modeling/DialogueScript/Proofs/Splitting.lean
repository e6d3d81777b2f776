import DialogueScript.Proofs.Growth
import DialogueScript.Proofs.LineComments
import DialogueScript.Proofs.Objects

/-!
# Splitting lines

A line is split into a mark and a payload in one way only, and the payload is never empty: written
again with any blanks in between, it is split the same (`Statement.Canonical`). So nobody who splits
a line has to look for an empty payload. `Role.guarded` and `LineKind.guarded` do look for it and come
to nothing else, and what is complained about as a single character is one (`split_canonical`).
-/

namespace DialogueScript

namespace Statement

/-- The statement on a line; if `inline`, without the comment behind it. -/
def split (inline : Bool) (line : Text) : Option Statement :=
  (ofLine? line).map fun st => if inline then st.withoutComment else st

/-- What is known of the parts that a line is split into. -/
structure Canonical (inline : Bool) (line : Text) (st : Statement) : Prop where
  mark : line.find? (!Text.isBlank ·) = some st.mark
  payload : Text.Tight st.payload
  comment : inline = true → ¬inlineComment <:+: st.payload ∧
    ∃ whole, split false line = some whole ∧ st.payload <+: whole.payload
  again : ∀ gap : Text, (∀ c ∈ gap, Text.isBlank c = true) →
    split inline (st.mark :: (gap ++ st.payload)) = some st

end Statement

/-- The role of a line, with a test for statements without a payload: they would end the fold. -/
def Role.guarded (command : Option Command) (line : Text) : Role :=
  match Statement.split false line with
  | none => .skip
  | some st => if st.payload = [] then .stop else .ofLine command line

/-- The kind of a line, with a test for statements without a payload: they would be like single
characters. -/
def Reader.LineKind.guarded (inComment : Bool) (line : Text) : LineKind :=
  match LineKind.of inComment line with
  | .lone | .statement _ =>
    match Statement.split true line with
    | none => .lone
    | some st => if st.payload = [] then .lone else .statement st
  | kind => kind

/-! ## The parts of a line -/

namespace Statement

variable {inline : Bool} {line : Text} {st : Statement}

theorem split_eq_some_iff : split inline line = some st ↔
    ∃ whole, ofLine? line = some whole ∧ (if inline then whole.withoutComment else whole) = st :=
  Option.map_eq_some_iff

theorem split_eq_none_iff : split inline line = none ↔ (Text.trim line).length < 2 := by
  rw [split, Option.map_eq_none_iff, ofLine?_eq_none_iff]

theorem tight_of_split (h : split inline line = some st) : Text.Tight st.payload := by
  obtain ⟨whole, hs, rfl⟩ := split_eq_some_iff.1 h
  have ht := (tight_of_ofLine? hs).2
  split
  · exact tight_withoutComment ht
  · exact ht

/-- Trimming leaves the first character that is not blank at the front. -/
theorem find?_of_ofLine? (h : ofLine? line = some st) :
    line.find? (!Text.isBlank ·) = some st.mark := by
  obtain ⟨t, ht⟩ := trim_of_ofLine? h
  obtain ⟨blank, hblank⟩ := Text.trimEnd_prefix (Text.trimStart line)
  rw [show Text.trimEnd (Text.trimStart line) = st.mark :: t from ht] at hblank
  have hhead : (line.dropWhile Text.isBlank).head? = some st.mark := by
    rw [show line.dropWhile Text.isBlank = Text.trimStart line from rfl, ← hblank]
    rfl
  simpa [List.find?_eq_head?_dropWhile_not] using hhead

theorem mark_of_split (h : split inline line = some st) :
    line.find? (!Text.isBlank ·) = some st.mark := by
  obtain ⟨whole, hs, rfl⟩ := split_eq_some_iff.1 h
  rw [find?_of_ofLine? hs]
  split
  · rw [mark_withoutComment]
  · rfl

theorem comment_of_split (h : split true line = some st) : ¬inlineComment <:+: st.payload ∧
    ∃ whole, split false line = some whole ∧ st.payload <+: whole.payload := by
  obtain ⟨whole, hs, rfl⟩ := split_eq_some_iff.1 h
  exact ⟨whole.not_infix_withoutComment, whole, split_eq_some_iff.2 ⟨whole, hs, rfl⟩,
    withoutComment_isPrefix (tight_of_ofLine? hs).2⟩

/-- Mark and payload, with or without blanks in between, are split into the same again. -/
theorem split_again (h : split inline line = some st) {gap : Text}
    (hgap : ∀ c ∈ gap, Text.isBlank c = true) :
    split inline (st.mark :: (gap ++ st.payload)) = some st := by
  have hmark : Text.isBlank st.mark = false := by simpa using List.find?_some (mark_of_split h)
  refine split_eq_some_iff.2 ⟨st, ofLine?_cons hmark hgap (tight_of_split h), ?_⟩
  obtain ⟨whole, -, rfl⟩ := split_eq_some_iff.1 h
  cases inline with
  | false => rfl
  | true => exact whole.withoutComment_withoutComment

theorem canonical_of_split (h : split inline line = some st) : st.Canonical inline line where
  mark := mark_of_split h
  payload := tight_of_split h
  comment := by
    rintro rfl
    exact comment_of_split h
  again := fun _ => split_again h

end Statement

/-! ## Tests that never fail -/

theorem Role.guarded_eq (command : Option Command) (line : Text) :
    guarded command line = ofLine command line := by
  unfold guarded
  split
  · next h =>
    obtain hs : Statement.ofLine? line = none := Option.map_eq_none_iff.1 h
    rw [ofLine_of_none hs]
  · next st h => rw [if_neg (Statement.tight_of_split h).ne_nil]

namespace Reader

theorem LineKind.guarded_eq (inComment : Bool) (line : Text) :
    guarded inComment line = of inComment line := by
  unfold guarded
  cases hk : of inComment line with
  | lone =>
    have hs : Statement.split true line = none := Option.map_eq_none_iff.2 (ofLine?_of_lone hk)
    simp only [hs]
  | statement st =>
    obtain ⟨-, -, -, -, -, whole, hw, rfl⟩ := of_eq_statement_iff.1 hk
    have hs : Statement.split true line = some whole.withoutComment :=
      Statement.split_eq_some_iff.2 ⟨whole, hw, rfl⟩
    simp only [hs, if_neg (Statement.tight_of_split hs).ne_nil]
  | _ => rfl

/-! ## Single characters -/

/-- A line that is complained about as a single character is one, up to blanks. -/
theorem State.step_lone {s : State} {supported : Float} {number k : Nat} {line x : Text}
    {rest : List Text} (h : .problem (.lone x) k ∈ (s.step supported number line rest).events) :
    k = number ∧ ∃ c, Text.trim line = [c] ∧ x = [c] := by
  refine ⟨step_numbers h rfl, ?_⟩
  obtain ⟨hline, (ha | ⟨ha, hnone⟩) | ⟨l, hr | hr | ⟨e, hr⟩⟩⟩ := step_disputes h
  · cases ha
  · cases ha
    have hlength := Statement.ofLine?_eq_none_iff.1 hnone
    have hpos := List.length_pos_iff.2 hline
    rw [Text.trim_trim] at hlength
    obtain ⟨c, hc⟩ := List.length_eq_one_iff.1 (by omega : (Text.trim line).length = 1)
    exact ⟨c, hc, hc⟩
  · cases hr
  · cases hr
  · cases hr

theorem read_lone {supported : Float} {lines : List Text} {x : Text} {number : Nat}
    (h : .problem (.lone x) number ∈ (read supported lines).events) :
    ∃ k line c, lines[k]? = some line ∧ Text.trim line = [c] ∧ x = [c] ∧ number = k + 1 := by
  have hscan : .problem (.lone x) number ∈ (scanBefore supported {} 0 [] lines).events := by
    rw [← scan_eq]
    cases hn : (scan supported {} 0 lines).next with
    | none => rwa [read_of_none hn] at h
    | some s =>
      rw [read_of_some hn] at h
      rcases List.mem_append.1 h with h | h
      · exact h
      · obtain ⟨name, he⟩ := mem_closing h
        cases he
  obtain ⟨k, line, hline, hlone⟩ := scanBefore_forall
    (P := fun n line e => ∀ x number, e = .problem (.lone x) number →
      number = n ∧ ∃ c, Text.trim line = [c] ∧ x = [c])
    (fun _ _ _ _ e he x number hx => State.step_lone (hx ▸ he)) _ hscan
  obtain ⟨hnumber, c, hc, hx⟩ := hlone x number rfl
  exact ⟨k, line, c, hline, hc, hx, by omega⟩

end Reader

/-- The complaint about a single character, in the report. -/
theorem parse_lone {settings : Settings} {audience : Audience} {lines : List Text} {w : Warning}
    (h : w ∈ (parse settings audience lines).warnings)
    (hw : "Weird single-character line".toList <+: w.message) :
    ∃ k line c, lines[k]? = some line ∧ Text.trim line = [c] ∧
      w = ⟨(Problem.lone [c]).message, audience.source, k + 1⟩ := by
  have hhead : w.message.head? = some 'W' := by
    obtain ⟨rest, hrest⟩ := hw
    rw [← hrest]
    rfl
  rw [parse_warnings] at h
  obtain ⟨e, he, hmem⟩ := List.mem_flatMap.1 h
  obtain ⟨p, rfl, hmessage⟩ :=
    Event.problem_of_mem_warnings hmem (not_syntax_of_head? hhead (by decide))
  rw [hmessage, p.head?_message] at hhead
  cases p with
  | lone x =>
    obtain ⟨k, line, c, hline, hc, rfl, hnumber⟩ := Reader.read_lone he
    have heq := List.mem_singleton.1 hmem
    rw [hnumber] at heq
    exact ⟨k, line, c, hline, hc, heq⟩
  | _ => simp [Problem.initial] at hhead

/-- A line is split unless it has fewer than two characters between its blanks. Its parts are
canonical. No line has an empty payload, so that neither folding nor reading a line needs to test for
one, and every line that is complained about as a single character is one. -/
theorem split_canonical :
    (∀ inline line,
      (Statement.split inline line = none ↔ (Text.trim line).length < 2) ∧
        ∀ st, Statement.split inline line = some st → st.Canonical inline line) ∧
      (∀ command line, Role.guarded command line = Role.ofLine command line) ∧
      (∀ inComment line, Reader.LineKind.guarded inComment line = Reader.LineKind.of inComment line) ∧
      ∀ settings audience lines, ∀ w ∈ (parse settings audience lines).warnings,
        "Weird single-character line".toList <+: w.message →
        ∃ k line c, lines[k]? = some line ∧ Text.trim line = [c] ∧
          w = ⟨(Problem.lone [c]).message, audience.source, k + 1⟩ :=
  ⟨fun _ _ => ⟨Statement.split_eq_none_iff, fun _ => Statement.canonical_of_split⟩,
    Role.guarded_eq, Reader.LineKind.guarded_eq, fun _ _ _ _ => parse_lone⟩

/-- Comments that overlap, one without a blank in front of it, and a line with a single character. -/
theorem split_canonical_overlapping :
    let line := "  + a // // b ".toList
    let st : Statement := ⟨'+', ['a']⟩
    let lines := [line, " y ".toList]
    Statement.split true line = some st ∧ st.Canonical true line ∧
      Statement.split true "+// b".toList = some ⟨'+', "// b".toList⟩ ∧
      ∃ w ∈ (parse {} ⟨['s'], false⟩ lines).warnings,
        ∃ k line c, lines[k]? = some line ∧ Text.trim line = [c] ∧
          w = ⟨(Problem.lone [c]).message, ['s'], k + 1⟩ := by
  intro line st lines
  have hst : Statement.split true line = some st := by rfl
  obtain ⟨hsplit, -, -, hlone⟩ := split_canonical
  have hw : ⟨(Problem.lone ['y']).message, ['s'], 2⟩ ∈ (parse {} ⟨['s'], false⟩ lines).warnings := by
    decide
  exact ⟨hst, (hsplit true line).2 st hst, by rfl, _, hw, hlone {} ⟨['s'], false⟩ lines _ hw (by decide)⟩

end DialogueScript
