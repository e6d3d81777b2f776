import DialogueScript.Proofs.FoldedLines
import DialogueScript.Proofs.WellFormed

/-!
# Marks of joined lines

A definition is folded with a mark where its lines were joined, and no script that is free of the
first character of the mark should find the mark in its document. Values and elements are freed of
it, and other statements never have it (`parse_joinMarks`). The name of a definition keeps it: a
definition that is continued in front of its equals sign is stored under a name with the mark in it
(`parse_joinMarks_leak`).
-/

namespace DialogueScript

/-! ## The texts of a document -/

def TextTable.all : List TextTable := [.global, .var, .sub, .person]

/-- The names that the tables bind. -/
def Definitions.names (d : Definitions) : List Text :=
  TextTable.all.flatMap (fun t => (d.get t).names) ++ d.array.names

/-- What the tables bind names to. -/
def Definitions.values (d : Definitions) : List Text :=
  TextTable.all.flatMap (fun t => (d.get t).map (·.2)) ++ d.array.flatMap (·.2)

def Rule.texts (r : Rule) : List Text :=
  r.pattern :: r.replies ++ r.conditions ++ r.redirect.toList ++ r.previous.toList

def Topic.texts (t : Topic) : List Text := t.includes ++ t.inherits ++ t.rules.flatMap Rule.texts

def CodeObject.texts (o : CodeObject) : List Text := o.name :: o.language :: o.code

/-- All texts of a document except for the names that its tables bind. -/
def Document.texts (d : Document) : List Text :=
  d.definitions.values ++ d.topics.flatMap (fun t => t.1 :: t.2.texts) ++
    d.objects.flatMap CodeObject.texts

theorem TextTable.mem_all (t : TextTable) : t ∈ all := by cases t <;> decide

theorem Definitions.mem_names {d : Definitions} {name : Text} :
    name ∈ d.names ↔ ∃ t, name ∈ d.namesOf t := by
  rw [names, List.mem_append, List.mem_flatMap]
  constructor
  · rintro (⟨t, -, h⟩ | h)
    · exact ⟨.text t, h⟩
    · exact ⟨.array, h⟩
  · rintro ⟨t | -, h⟩
    · exact .inl ⟨t, t.mem_all, h⟩
    · exact .inr h

namespace Text

/-! ## Texts with the mark -/

/-- The first character of the mark is found in the text as part of a mark only. -/
def Joined (s : Text) : Prop := ∀ rest, '<' :: rest <:+ s → lineJoin <+: '<' :: rest

variable {s t a b : Text} {ps : List Text}

theorem Joined.of_suffix (h : Joined s) (hs : t <:+ s) : Joined t :=
  fun rest hrest => h rest (hrest.trans hs)

theorem joined_of_not_mem (h : '<' ∉ s) : Joined s :=
  fun _ hrest => absurd (hrest.subset List.mem_cons_self) h

theorem Joined.append (ha : '<' ∉ a) (hb : Joined b) : Joined (a ++ b) := by
  induction a with
  | nil => exact hb
  | cons c a ih =>
    obtain ⟨hc, ha⟩ : '<' ≠ c ∧ '<' ∉ a := by simpa using ha
    intro rest hrest
    rcases List.suffix_cons_iff.1 hrest with he | hrest
    · exact absurd (List.cons.inj he).1 hc
    · exact ih ha rest hrest

theorem Joined.mark (h : Joined s) : Joined (lineJoin ++ s) := by
  have hrest : Joined ("crlf>".toList ++ s) := .append (by decide) h
  intro rest hs
  rcases List.suffix_cons_iff.1 hs with he | hs
  · rw [he]
    exact ⟨s, rfl⟩
  · exact hrest rest hs

theorem joined_flatMap (h : ∀ p ∈ ps, '<' ∉ p) : Joined (ps.flatMap (lineJoin ++ ·)) := by
  induction ps with
  | nil => exact joined_of_not_mem (by simp)
  | cons p ps ih =>
    rw [List.flatMap_cons, List.append_assoc]
    exact ((ih fun q hq => h q (List.mem_cons_of_mem _ hq)).append (h p List.mem_cons_self)).mark

/-- A joined text stays one if it ends in front of a character that the mark does not have. -/
theorem Joined.of_append (h : Joined (a ++ b)) (hb : ∀ c ∈ b.head?, c ∉ lineJoin) : Joined a := by
  rintro rest ⟨front, rfl⟩
  have hmark : lineJoin <+: '<' :: rest ++ b := h _ ⟨front, by simp⟩
  rcases List.prefix_or_prefix_of_prefix hmark (List.prefix_append ('<' :: rest) b) with
    hwhole | ⟨missing, hm⟩
  · exact hwhole
  · -- the end of the mark would stand behind the text
    rw [← hm, List.prefix_append_right_inj] at hmark
    cases missing with
    | nil =>
      rw [← hm, List.append_nil]
    | cons c missing =>
      obtain ⟨more, rfl⟩ := hmark
      exact absurd (hm ▸ List.mem_append_right _ List.mem_cons_self) (hb c rfl)

theorem blank_not_mem_lineJoin {c : Char} (h : isBlank c = true) : c ∉ lineJoin := by
  have hmark : lineJoin.all (!isBlank ·) = true := by decide
  intro hc
  have := List.all_eq_true.1 hmark c hc
  simp [h] at this

theorem tight_lineJoin : Tight lineJoin := by
  refine ⟨by decide, ?_, ?_⟩
  · intro c hc
    obtain rfl : '<' = c := by simpa [lineJoin] using hc
    decide
  · intro c hc
    obtain rfl : '>' = c := by simpa [lineJoin] using hc
    decide

/-- Trimming does not cut into a mark, since no character of it is blank. -/
theorem Joined.trim (h : Joined s) : Joined (trim s) := by
  have hstart : Joined (trimStart s) := h.of_suffix (List.dropWhile_suffix isBlank)
  obtain ⟨blank, hblank, hs⟩ := eq_trimEnd_append (trimStart s)
  rw [hs] at hstart
  exact hstart.of_append fun c hc => blank_not_mem_lineJoin (hblank c (List.mem_of_head? hc))

theorem Joined.after (h : Joined s) (c : Char) : Joined (after c s) :=
  h.of_suffix ((List.drop_suffix _ _).trans (List.dropWhile_suffix _))

/-- Parting at a character that is not in the mark does not cut into a mark. -/
theorem Joined.before (h : Joined s) {c : Char} (hc : c ∉ lineJoin) :
    Joined (Text.before c s) := by
  have hsplit : Text.before c s ++ s.dropWhile (· != c) = s := List.takeWhile_append_dropWhile
  rw [← hsplit] at h
  refine h.of_append fun d hd => ?_
  have hnot := List.head?_dropWhile_not (· != c) s
  rw [hd] at hnot
  obtain rfl : d = c := by simpa using hnot
  exact hc

theorem Joined.afterWord (h : Joined s) : Joined (afterWord s) :=
  h.of_suffix (((List.dropWhile_suffix _).trans (List.dropWhile_suffix _)).trans
    (List.dropWhile_suffix _))

/-! ## Texts freed of the mark -/

theorem not_mem_of_mem_piecesAfter (skip : Nat) {p : Text} (h : Joined s)
    (hp : p ∈ piecesAfter lineJoin skip s) : '<' ∉ p := by
  fun_induction piecesAfter lineJoin skip s generalizing p with
  | case1 => simp [List.mem_singleton.1 hp]
  | case2 skip c rest ih => exact ih (h.of_suffix (List.suffix_cons c rest)) hp
  | case3 c rest hmark ih =>
    rcases List.mem_cons.1 hp with rfl | hp
    · simp
    · exact ih (h.of_suffix (List.suffix_cons c rest)) hp
  | case4 c rest hmark ih =>
    have hrest {q : Text} := ih (p := q) (h.of_suffix (List.suffix_cons c rest))
    have hc : '<' ≠ c := by
      rintro rfl
      exact hmark (List.isPrefixOf_iff_prefix.2 (h rest List.suffix_rfl))
    rcases mem_consHead hp with hp | ⟨q, rfl, hq | rfl⟩
    · exact hrest hp
    · exact List.not_mem_cons_of_ne_of_not_mem hc (hrest hq)
    · exact List.not_mem_cons_of_ne_of_not_mem hc List.not_mem_nil

theorem not_mem_remove (h : Joined s) : '<' ∉ remove lineJoin s := by
  intro hc
  obtain ⟨p, hp, hcp⟩ := List.mem_flatten.1 hc
  exact not_mem_of_mem_piecesAfter 0 h hp hcp

end Text

/-! ## Definitions with the mark -/

section

open Text

variable {l : LogicalLine} {t : DefinitionTable} {name value p : Text} {more : List Text}

theorem not_mem_of_ofWord_table {w : Text} (h : DefinitionKind.ofWord w = .table t) : '<' ∉ w := by
  unfold DefinitionKind.ofWord DefinitionTable.ofKeyword? at h
  split at h
  · cases h
  split at h
  · cases h
  by_cases ha : w = arrayKeyword
  · rw [ha]
    decide
  · rw [if_neg ha] at h
    cases hk : TextTable.ofKeyword? w with
    | none => simp [hk] at h
    | some u =>
      obtain rfl : u.keyword = w := by simpa using List.find?_some hk
      cases u <;> decide

theorem mem_lineElements {line e : Text} (h : e ∈ lineElements line) : ∀ c ∈ e, c ∈ line := by
  unfold lineElements at h
  split at h
  · rw [List.splitOn_eq_splitOnP] at h
    exact fun c hc => (of_mem_splitOnP h c hc).2
  · exact fun c hc => ((mem_words h).2 c hc).2

/-- The elements of an array are free of the character, since its lines are cut at the marks. -/
theorem not_mem_of_mem_arrayElements {element : Text} (h : Joined value)
    (h' : element ∈ arrayElements value) : '<' ∉ element := by
  obtain ⟨e, he, rfl⟩ := List.mem_map.1 h'
  obtain ⟨piece, hpiece, hmem⟩ := List.mem_flatMap.1 (List.mem_filter.1 he).1
  have hfree := not_mem_of_mem_piecesAfter 0 h hpiece
  intro hc
  rcases mem_intercalate hc with hc | ⟨q, hq, hc⟩
  · exact absurd hc (by decide)
  · exact hfree (mem_lineElements hmem _ (mem_of_mem_piecesAfter hq hc))

namespace LogicalLine.Defines

theorem kind (h : l.Defines t name value) :
    DefinitionKind.ofWord (headWord (before '=' l.text)) = .table t :=
  congrArg Definition.kind h.definition

theorem name_eq (h : l.Defines t name value) : name = trim (afterWord (before '=' l.text)) :=
  (congrArg Definition.name h.definition).symm

theorem value_eq (h : l.Defines t name value) :
    value = if t = .array then trim (after '=' l.text)
      else Text.remove lineJoin (trim (after '=' l.text)) := by
  have hv := congrArg Definition.value h.definition
  simp only [Definition.ofText, h.kind, DefinitionKind.table.injEq] at hv
  exact hv.symm

theorem not_mem_value {t : TextTable} (h : l.Defines (.text t) name value) (hl : Joined l.text) :
    '<' ∉ value := by
  rw [h.value_eq, if_neg (by simp)]
  exact not_mem_remove (hl.after '=').trim

theorem not_mem_element (h : l.Defines .array name value) (hl : Joined l.text) :
    ∀ element ∈ arrayElements value, '<' ∉ element := by
  intro element he
  have hvalue : Joined value := by
    rw [h.value_eq, if_pos rfl]
    exact (hl.after '=').trim
  exact not_mem_of_mem_arrayElements hvalue he

theorem not_mem_remove_name (h : l.Defines t name value) (hl : Joined l.text) :
    '<' ∉ Text.remove lineJoin name := by
  rw [h.name_eq]
  exact not_mem_remove (hl.before (by decide)).afterWord.trim

/-- A definition with a value has an equals sign. -/
theorem equals_mem (h : l.Defines t name value) : '=' ∈ l.text := by
  by_contra hnone
  refine h.value ?_
  rw [h.value_eq, after_of_not_mem hnone]
  split <;> rfl

/-- The name of a folded definition has the mark in it if the first line ends in front of the equals
sign, and only then. -/
theorem lineJoin_infix_name_iff (h : l.Defines t name value) (hp : '<' ∉ p)
    (hl : l.text = p ++ more.flatMap (lineJoin ++ ·)) : lineJoin <:+: name ↔ '=' ∉ p := by
  constructor
  · intro hmark hequals
    have hname : '<' ∈ name := hmark.subset List.mem_cons_self
    rw [h.name_eq, hl, before_append_of_mem hequals] at hname
    exact hp ((List.takeWhile_prefix _).subset (mem_of_mem_afterWord (mem_of_mem_trim hname)))
  · intro hequals
    have hleft : lineJoin <:+: before '=' l.text := by
      have hmem := h.equals_mem
      rw [hl] at hmem ⊢
      cases more with
      | nil => exact absurd (by simpa using hmem) hequals
      | cons q more =>
        rw [List.flatMap_cons, List.append_assoc, before_append_of_not_mem hequals,
          before_append_of_not_mem (by decide)]
        exact ⟨p, _, List.append_assoc ..⟩
    have hword := not_mem_of_ofWord_table h.kind
    rw [h.name_eq]
    exact tight_lineJoin.infix_trim (infix_afterWord (by decide) hword hleft)

end LogicalLine.Defines

end

/-! ## Statements without the mark in their lines -/

theorem payloadOf?_isInfix {c : Command} {line p : Text} (h : payloadOf? c line = some p) :
    p <:+: line :=
  Statement.payload_isInfix (payloadOf?_eq_some_iff.1 h)

theorem LogicalLine.Enters.not_mem {l : LogicalLine} {name : Text} {links : Links}
    (h : l.Enters name links) (hl : '<' ∉ l.text) :
    '<' ∉ name ∧ ∀ link ∈ links, '<' ∉ link.2 := by
  have word : ∀ w ∈ Text.words (Text.afterWord l.text), '<' ∉ w := fun w hw hc =>
    hl (Text.mem_of_mem_afterWord ((Text.mem_words hw).2 _ hc).2)
  obtain ⟨hname, hlinks⟩ := h.mem_words
  refine ⟨?_, fun link hm => word _ (hlinks link hm)⟩
  rcases hname with rfl | hname
  · decide
  · exact word name hname

/-- The statement is read off the lines: its text is the payload of its own line with the
continuations below, its context the payload of a line below. -/
inductive LogicalLine.ReadOff (lines : List Text) (l : LogicalLine) : Prop
  | intro (line : Text) (st : Statement) (concat : Text) (more : List Text)
    (hline : lines[l.number - 1]? = some line) (hs : Statement.ofLine? line = some st)
    (hm : l.mark = st.mark) (hmore : ∀ q ∈ more, ∃ line ∈ lines, q <:+: line)
    (ht : l.text =
      st.withoutComment.payload ++ more.flatMap (separatorOf l.command? concat ++ ·))
    (hp : ∀ p, l.previous = some p → ∃ line ∈ lines, p <:+: line)

namespace Reader

/-- What is folded at a line is read off the lines. -/
theorem State.readOff_logicalLine (s : State) {front back : List Text} {line : Text}
    {st : Statement} (hs : Statement.ofLine? line = some st) :
    (s.logicalLine (front.length + 1) st.withoutComment back).ReadOff (front ++ line :: back) := by
  have below {c : Command} {p : Text} (h : ∃ line' ∈ back, payloadOf? c line' = some p) :
      ∃ line' ∈ front ++ line :: back, p <:+: line' := by
    obtain ⟨line', hl, hp⟩ := h
    exact ⟨line', List.mem_append_right _ (List.mem_cons_of_mem _ hl), payloadOf?_isInfix hp⟩
  obtain ⟨more, hmore, htext, hprevious⟩ :=
    fold_parts s.options.concat st.withoutComment.command? st.withoutComment.payload back
  exact ⟨line, st, s.options.concat, more, by simp [logicalLine], hs, st.mark_withoutComment,
    fun q hq => below (hmore q hq), htext, fun p hp => below (hprevious p hp)⟩

/-- Every statement of a script is read off its lines. -/
theorem readOff_of_dispatched {supported : Float} {lines : List Text} {d : Document}
    (h : (read supported lines).document = some d) {l : LogicalLine}
    (hl : l ∈ dispatched (read supported lines).events) : l.ReadOff lines := by
  rw [dispatched_read h] at hl
  obtain ⟨before, after, hls⟩ := List.append_of_mem hl
  obtain ⟨front, line, back, s, st, rfl, -, -, -, -, hk, rfl⟩ := scanBefore_cut hls
  obtain ⟨-, -, -, -, -, st', hs, rfl⟩ := LineKind.of_eq_statement_iff.1 hk
  rw [Statement.ofLine?_trim] at hs
  simpa using s.readOff_logicalLine hs

end Reader

/-! ## Documents -/

/-- The definition goes on below its line before its equals sign is read. -/
def LogicalLine.SplitName (lines : List Text) (l : LogicalLine) : Prop :=
  ∃ st, statementAt? lines (l.number - 1) = some st ∧ '=' ∉ st.withoutComment.payload

section

variable {lines : List Text} (hlines : ∀ line ∈ lines, '<' ∉ line)

include hlines

theorem not_mem_of_isInfix {p : Text} (h : ∃ line ∈ lines, p <:+: line) : '<' ∉ p := by
  obtain ⟨line, hl, hp⟩ := h
  exact fun hc => hlines line hl (hp.subset hc)

theorem not_mem_payload {line : Text} {st : Statement} {i : Nat}
    (hline : lines[i]? = some line) (hs : Statement.ofLine? line = some st) :
    '<' ∉ st.withoutComment.payload :=
  not_mem_of_isInfix hlines ⟨line, List.mem_of_getElem? hline,
    st.withoutComment_isInfix.trans (Statement.payload_isInfix hs)⟩

namespace LogicalLine

variable {l : LogicalLine} {t : DefinitionTable} {name value : Text}

theorem ReadOff.not_mem_previous (h : l.ReadOff lines) : ∀ p, l.previous = some p → '<' ∉ p := by
  obtain ⟨line, st, concat, more, hline, hs, hm, hmore, ht, hp⟩ := h
  exact fun p hprevious => not_mem_of_isInfix hlines (hp p hprevious)

/-- Only definitions are joined by the mark. -/
theorem ReadOff.not_mem_text (h : l.ReadOff lines) (hc : l.command? ≠ some .define) :
    '<' ∉ l.text := by
  obtain ⟨line, st, concat, more, hline, hs, hm, hmore, ht, hp⟩ := h
  have hseparator : '<' ∉ separatorOf l.command? concat := by
    rw [separatorOf, if_neg hc]
    split
    · decide
    split
    · decide
    · simp
  rw [ht, List.mem_append, List.mem_flatMap]
  rintro (hmem | ⟨q, hq, hmem⟩)
  · exact not_mem_payload hlines hline hs hmem
  rcases List.mem_append.1 hmem with hmem | hmem
  · exact hseparator hmem
  · exact not_mem_of_isInfix hlines (hmore q hq) hmem

/-- Folding puts the character into a statement as part of the mark only. -/
theorem ReadOff.joined_text (h : l.ReadOff lines) : Text.Joined l.text := by
  by_cases hc : l.command? = some .define
  · obtain ⟨line, st, concat, more, hline, hs, hm, hmore, ht, hp⟩ := h
    rw [ht, hc]
    refine .append (not_mem_payload hlines hline hs) ?_
    exact Text.joined_flatMap fun q hq => not_mem_of_isInfix hlines (hmore q hq)
  · exact Text.joined_of_not_mem (h.not_mem_text hlines hc)

theorem ReadOff.splitName_iff (h : l.ReadOff lines) (hd : l.Defines t name value) :
    Text.occursIn lineJoin name = true ↔ l.SplitName lines := by
  obtain ⟨line, st, concat, more, hline, hs, hm, hmore, ht, hp⟩ := h
  have hst : statementAt? lines (l.number - 1) = some st :=
    Option.bind_eq_some_iff.2 ⟨line, hline, hs⟩
  rw [hd.command] at ht
  rw [Text.occursIn_iff,
    hd.lineJoin_infix_name_iff (not_mem_payload hlines hline hs) ht]
  constructor
  · exact fun hequals => ⟨st, hst, hequals⟩
  · rintro ⟨st', hst', hequals⟩
    obtain rfl : st = st' := Option.some.inj (hst.symm.trans hst')
    exact hequals

end LogicalLine

theorem not_closesObject : ∀ line ∈ lines, Label.closesObject line = false := by
  intro line hl
  refine eq_false_of_ne_true fun hc => ?_
  obtain ⟨front, gap, rest, -, -, rfl⟩ := Label.closesObject_iff.1 hc
  exact hlines _ hl (by simp)

namespace Reader

variable {supported : Float} {d : Document} (h : (read supported lines).document = some d)

include h

/-- Without the mark of closing labels no code object is closed. -/
theorem read_noObjects : d.objects = [] := by
  refine List.eq_nil_iff_forall_not_mem.2 fun o ho => ?_
  obtain ⟨l, -, o', -, -, hany, -⟩ := mem_objects h o ho
  obtain ⟨line, hl, hcloses⟩ := List.any_eq_true.1 hany
  rw [not_closesObject hlines line (List.mem_of_mem_drop hl)] at hcloses
  cases hcloses

theorem read_joined : ∀ l ∈ dispatched (read supported lines).events, Text.Joined l.text :=
  fun _ hl => (readOff_of_dispatched h hl).joined_text hlines

theorem read_values : ∀ text ∈ d.definitions.values, '<' ∉ text := by
  have hdefined := read_definedIn h
  intro text ht
  rcases List.mem_append.1 ht with ht | ht
  · obtain ⟨t, -, ht⟩ := List.mem_flatMap.1 ht
    obtain ⟨p, hp, rfl⟩ := List.mem_map.1 ht
    obtain ⟨l, hl, hd⟩ := hdefined.texts t p hp
    exact hd.not_mem_value (read_joined hlines h l hl)
  · obtain ⟨p, hp, ht⟩ := List.mem_flatMap.1 ht
    obtain ⟨l, hl, value, hd, he⟩ := hdefined.arrays p hp
    exact hd.not_mem_element (read_joined hlines h l hl) text (he ▸ ht)

theorem read_rule_texts : ∀ r ∈ d.rules, ∀ text ∈ r.texts, '<' ∉ text := by
  have stated {c : Command} (hc : c ≠ .define) {text : Text}
      (ht : ∃ l ∈ dispatched (read supported lines).events, l.command? = some c ∧ l.text = text) :
      '<' ∉ text := by
    obtain ⟨l, hl, hcommand, rfl⟩ := ht
    exact (readOff_of_dispatched h hl).not_mem_text hlines (by simpa [hcommand] using hc)
  intro r hr text ht
  have hstated := rule_statedIn h r hr
  obtain ⟨l, hl, hc, hpattern, hprevious⟩ := hstated.pattern
  simp only [Rule.texts, List.cons_append, List.mem_cons, List.mem_append, Option.mem_toList]
    at ht
  rcases ht with rfl | ((ht | ht) | ht) | ht
  · exact stated (by simp) ⟨l, hl, hc, hpattern⟩
  · exact stated (by simp) (hstated.replies text ht)
  · exact stated (by simp) (hstated.conditions text ht)
  · exact stated (by simp) (hstated.redirect text ht)
  · exact (readOff_of_dispatched h hl).not_mem_previous hlines text (hprevious.trans ht)

theorem read_topic_texts : ∀ t ∈ d.topics, ∀ text ∈ t.1 :: t.2.texts, '<' ∉ text := by
  obtain ⟨s, hs, hsound, -⟩ := read_ruleRun h
  have htopics : d.TopicsIn ('<' ∉ ·) := by
    refine read_topicsIn h (by decide) fun l hl name links henters => henters.not_mem ?_
    exact (readOff_of_dispatched h hl).not_mem_text hlines (by simp [henters.1])
  intro t ht text htext
  have hrelated := htopics.targets t.1 t.2 (Table.get?_of_mem (hs ▸ hsound.distinct.topics) ht)
  simp only [Topic.texts, List.mem_cons, List.mem_append, List.mem_flatMap] at htext
  rcases htext with rfl | (hincludes | hinherits) | ⟨r, hr, htext⟩
  · exact htopics.names t.1 (List.mem_map_of_mem ht)
  · exact hrelated text (.inl hincludes)
  · exact hrelated text (.inr hinherits)
  · exact read_rule_texts hlines h r (List.mem_flatMap.2 ⟨t, ht, hr⟩) text htext

theorem read_texts : ∀ text ∈ d.texts, '<' ∉ text := by
  intro text ht
  rw [Document.texts, read_noObjects hlines h, List.flatMap_nil, List.append_nil,
    List.mem_append, List.mem_flatMap] at ht
  rcases ht with ht | ⟨t, ht, htext⟩
  · exact read_values hlines h text ht
  · exact read_topic_texts hlines h t ht text htext

end Reader

end

/-- From a script without the first character of the mark, no text of the document has it except
that names of definitions may have it in a mark. The mark is in those names for which some definition
goes on below its line before its equals sign is read. -/
theorem parse_joinMarks (settings : Settings) (audience : Audience) {lines : List Text}
    (hlines : ∀ line ∈ lines, '<' ∉ line) {d : Document}
    (h : (parse settings audience lines).document = some d) :
    (∀ text ∈ d.texts, '<' ∉ text) ∧
    (∀ name ∈ d.definitions.names, '<' ∉ Text.remove lineJoin name) ∧
    ∀ name, name ∈ d.definitions.names ∧ Text.occursIn lineJoin name = true ↔
      ∃ l ∈ dispatched (Reader.read settings.supported lines).events,
        (∃ t value, l.Defines t name value) ∧ l.SplitName lines := by
  rw [parse_document] at h
  have defined {name : Text} : name ∈ d.definitions.names ↔
      ∃ l ∈ dispatched (Reader.read settings.supported lines).events,
        ∃ t value, l.Defines t name value := by
    rw [Definitions.mem_names]
    constructor
    · rintro ⟨t, hn⟩
      obtain ⟨l, hl, value, hd⟩ := (Reader.read_mem_namesOf_iff h).1 hn
      exact ⟨l, hl, t, value, hd⟩
    · rintro ⟨l, hl, t, value, hd⟩
      exact ⟨t, (Reader.read_mem_namesOf_iff h).2 ⟨l, hl, value, hd⟩⟩
  refine ⟨Reader.read_texts hlines h, ?_, fun name => ⟨?_, ?_⟩⟩
  · intro name hn
    obtain ⟨l, hl, t, value, hd⟩ := defined.1 hn
    exact hd.not_mem_remove_name (Reader.read_joined hlines h l hl)
  · rintro ⟨hn, hmark⟩
    obtain ⟨l, hl, t, value, hd⟩ := defined.1 hn
    exact ⟨l, hl, ⟨t, value, hd⟩,
      ((Reader.readOff_of_dispatched h hl).splitName_iff hlines hd).1 hmark⟩
  · rintro ⟨l, hl, ⟨t, value, hd⟩, hsplit⟩
    exact ⟨defined.2 ⟨l, hl, t, value, hd⟩,
      ((Reader.readOff_of_dispatched h hl).splitName_iff hlines hd).2 hsplit⟩

/-- An array and a variable that are continued behind the equals sign, and a variable that is
continued in front of it. -/
theorem parse_joinMarks_array :
    let lines : List Text :=
      ["! array a = x|y".toList, "^ z".toList, "! var b = c".toList, "^ d".toList,
        "! var foo".toList, "^ = bar".toList]
    ∃ d, (parse {} ⟨['s'], true⟩ lines).document = some d ∧ (∀ text ∈ d.texts, '<' ∉ text) ∧
      d.definitions.array = [(['a'], [['x'], ['y'], ['z']])] ∧
      d.definitions.var = [(['b'], ['c', 'd']), ("foo<crlf>".toList, "bar".toList)] ∧
      ∃ l ∈ dispatched (Reader.read 2.0 lines).events,
        (∃ t value, l.Defines t "foo<crlf>".toList value) ∧ l.SplitName lines := by
  intro lines
  have hlines : ∀ line ∈ lines, '<' ∉ line := by decide
  obtain ⟨d, hd, harray, hvar, hname⟩ : ∃ d, (parse {} ⟨['s'], true⟩ lines).document = some d ∧
      d.definitions.array = [(['a'], [['x'], ['y'], ['z']])] ∧
      d.definitions.var = [(['b'], ['c', 'd']), ("foo<crlf>".toList, "bar".toList)] ∧
      "foo<crlf>".toList ∈ d.definitions.names := ⟨_, rfl, rfl, rfl, by decide⟩
  obtain ⟨htexts, -, hnames⟩ := parse_joinMarks {} ⟨['s'], true⟩ hlines hd
  exact ⟨d, hd, htexts, harray, hvar, (hnames _).1 ⟨hname, by decide⟩⟩

/-- The lines are free of the first character of the mark, and some text of the document that they
are read to, be it a name, has the mark in it. -/
def Leaks (settings : Settings) (audience : Audience) (lines : List Text) : Prop :=
  (∀ line ∈ lines, '<' ∉ line) ∧
    ∃ d, (parse settings audience lines).document = some d ∧
      ∃ text ∈ d.definitions.names ++ d.texts, Text.occursIn lineJoin text = true

/-- A variable and an array whose names are continued by the equals sign. -/
theorem parse_joinMarks_leak :
    Leaks {} ⟨['s'], true⟩ ["! var foo".toList, "^ = bar".toList] ∧
      Leaks {} ⟨['s'], true⟩ ["! array foo".toList, "^ = bar".toList] := by
  have hmark : Text.occursIn lineJoin "foo<crlf>".toList = true := by decide
  constructor
  · exact ⟨by decide, _, rfl, "foo<crlf>".toList, List.mem_append_left _ (by decide), hmark⟩
  · exact ⟨by decide, _, rfl, "foo<crlf>".toList, List.mem_append_left _ (by decide), hmark⟩

end DialogueScript
