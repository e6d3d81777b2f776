import DialogueScript.Proofs.FoldedDefinitions
import DialogueScript.Proofs.LineComments
import DialogueScript.Proofs.Merge
import Mathlib.Data.Sum.Basic

/-!
# Independent definitions

Two definitions can change places if they define different names or are for different tables
(`parse_definitions_comm`). A definition concerns one entry of the tables and looks at no other
(`Definitions.Local`), so two of them commute up to the order of the names. What follows is read as if
nothing had been defined before and then laid on top of the earlier definitions (`upon_commutes`), so
that their order stays without consequence.
-/

namespace DialogueScript

open Text

/-! ## Entries -/

namespace Definitions

/-- The same entries, in whatever order. -/
def Alike (d e : Definitions) : Prop := ∀ t name, d.binding? t name = e.binding? t name

/-- Changes of different entries commute. -/
theorem Local.comm {t u : DefinitionTable} {name other : Text} {f g : Definitions → Definitions}
    (hf : Local t name f) (hg : Local u other g) (hne : (t, name) ≠ (u, other)) (d : Definitions) :
    (g (f d)).Alike (f (g d)) := by
  intro v x
  by_cases hv : (v, x) = (t, name)
  · obtain ⟨rfl, rfl⟩ := Prod.mk.inj hv
    rw [hg.frame _ _ _ hne]
    exact (hf.congr _ _ (hg.frame _ _ _ hne)).symm
  rw [hf.frame (g d) v x hv]
  by_cases hx : (v, x) = (u, other)
  · obtain ⟨rfl, rfl⟩ := Prod.mk.inj hx
    exact hg.congr _ _ (hf.frame _ _ _ hv)
  · rw [hg.frame _ _ _ hx, hf.frame _ _ _ hv, hg.frame _ _ _ hx]

end Definitions

/-! ## Equal up to order -/

theorem Table.same_of_get? {α : Type} {eq : α → α → Bool} (hr : ∀ v, eq v v = true) {t u : Table α}
    (ht : t.names.Nodup) (hu : u.names.Nodup) (h : ∀ name, t.get? name = u.get? name) :
    t.same eq u = true := by
  have hperm : t.names.Perm u.names := by
    refine (List.perm_ext_iff_of_nodup ht hu).2 fun name => ?_
    rw [← isSome_get?_iff, ← isSome_get?_iff, h]
  have hlength : t.length = u.length := by simpa [names] using hperm.length_eq
  rw [same, hlength, BEq.rfl, Bool.true_and, List.all_eq_true]
  intro p hp
  rw [← h, get?_of_mem ht hp]
  exact hr p.2

namespace Document

variable {d e : Document}

theorem same_of_alike (hd : d.Distinct) (he : e.Distinct) (h : d.definitions.Alike e.definitions)
    (ht : d.topics = e.topics) (ho : d.objects = e.objects) : d.same e = true := by
  have texts (t : TextTable) (name : Text) :
      (d.definitions.get t).get? name = (e.definitions.get t).get? name :=
    Option.map_injective Sum.inl_injective (h (.text t) name)
  have arrays (name : Text) : d.definitions.array.get? name = e.definitions.array.get? name :=
    Option.map_injective Sum.inr_injective (h .array name)
  have equal {α : Type} [BEq α] [ReflBEq α] (v : α) : (v == v) = true := BEq.rfl
  have hdefinitions : d.definitions.same e.definitions = true := by
    simp only [Definitions.same, Bool.and_eq_true]
    exact ⟨⟨⟨⟨Table.same_of_get? equal hd.global he.global (texts .global),
      Table.same_of_get? equal hd.var he.var (texts .var)⟩,
      Table.same_of_get? equal hd.sub he.sub (texts .sub)⟩,
      Table.same_of_get? equal hd.person he.person (texts .person)⟩,
      Table.same_of_get? equal hd.array he.array arrays⟩
  have htopic (t : Topic) : t.same t = true := by
    simp [Topic.same, Names.same_iff.2 fun _ => Iff.rfl]
  have htopics : d.topics.same Topic.same e.topics = true := by
    rw [← ht]
    exact Table.same_of_get? htopic hd.topics hd.topics fun _ => rfl
  simp [same, hdefinitions, htopics, ho]

/-- An entry of the upper document hides that of the lower one. -/
theorem binding?_merge (d : Document) (he : e.Distinct) (t : DefinitionTable) (name : Text) :
    (d.merge e).definitions.binding? t name =
      (e.definitions.binding? t name).or (d.definitions.binding? t name) := by
  have either {α β : Type} (f : α → β) (x y : Option α) : (x.or y).map f = (x.map f).or (y.map f) := by
    cases x <;> rfl
  cases t with
  | array => exact (congrArg _ (Table.get?_assignAll _ he.array name)).trans (either ..)
  | text t =>
    cases t with
    | global => exact (congrArg _ (Table.get?_assignAll _ he.global name)).trans (either ..)
    | var => exact (congrArg _ (Table.get?_assignAll _ he.var name)).trans (either ..)
    | sub => exact (congrArg _ (Table.get?_assignAll _ he.sub name)).trans (either ..)
    | person => exact (congrArg _ (Table.get?_assignAll _ he.person name)).trans (either ..)

end Document

namespace Reader

/-! ## Definitions on top of others -/

/-- The state of a script that began with the definitions of `base` and has defined more since. -/
def State.upon (base : Document) (s : State) : State :=
  { s with document.definitions := (base.merge s.document).definitions }

theorem upon_commutes {base : Document} (hb : base.Distinct) :
    Commutes (·.document.Distinct) (.upon base) :=
  mapped_commutes (f := fun d => (base.merge { definitions := d }).definitions) (g := id)
    (fun _ t name value hs =>
      congrArg Document.definitions (Document.merge_assign hb hs t name value))
    (fun _ name elements hs =>
      congrArg Document.definitions (Document.merge_assignArray hb hs name elements))
    fun _ _ => rfl

/-- Where only the order of the definitions differs, reading on leads to documents that differ in it
alone, or to none. -/
theorem sameOption_of_alike {s : State} {definitions definitions' : Definitions}
    (hd : Document.Distinct { s.document with definitions })
    (hd' : Document.Distinct { s.document with definitions := definitions' })
    (h : definitions.Alike definitions') (supported : Float) (number : Nat) (lines : List Text) :
    let read (definitions : Definitions) : Option Document :=
      (scan supported { s with document.definitions := definitions } number lines).next.map (·.document)
    Document.sameOption (read definitions) (read definitions') = true := by
  intro read
  have kept {s s' : State} (hs : s.document.Distinct)
      (hn : (scanBefore supported s number [] lines).next = some s') : s'.document.Distinct :=
    scanBefore_keeps (P := (·.document.Distinct))
      (fun _ _ _ _ _ hs hn => hs.edit (State.step_edit hn)) hs hn
  -- both are read like the state without definitions, on top of what was defined before
  let bare : State := { s with document.definitions := {} }
  have hbare : bare.document.Distinct :=
    ⟨List.nodup_nil, List.nodup_nil, List.nodup_nil, List.nodup_nil, List.nodup_nil, hd.topics⟩
  have hrun {definitions : Definitions} (hd : Document.Distinct { s.document with definitions }) :
      (scanBefore supported { s with document.definitions := definitions } number [] lines).next =
        (scanBefore supported bare number [] lines).next.map
          (.upon { s.document with definitions }) :=
    congrArg Outcome.next ((upon_commutes hd).scanBefore
      (fun _ _ _ _ _ hs hn => hs.edit (State.step_edit hn)) hbare number [] lines)
  have hread {definitions : Definitions} : read definitions =
      (scanBefore supported { s with document.definitions := definitions } number [] lines).next.map
        (·.document) := by
    rw [← scan_eq]
  rw [hread, hread]
  have hone := hrun hd
  have htwo := hrun hd'
  cases hn : (scanBefore supported bare number [] lines).next with
  | none =>
    rw [hone, htwo, hn]
    rfl
  | some w =>
    rw [hn, Option.map_some] at hone htwo
    have hw := kept hbare hn
    rw [hone, htwo, Option.map_some, Option.map_some]
    refine Document.same_of_alike (kept hd hone) (kept hd' htwo) ?_ rfl rfl
    intro t name
    have halike := h t name
    show (Document.merge _ w.document).definitions.binding? t name =
      (Document.merge _ w.document).definitions.binding? t name
    rw [Document.binding?_merge _ hw, Document.binding?_merge _ hw, halike]

end Reader

/-! ## Definitions on a line -/

/-- The line reads `! keyword name = value`, with any blanks around the mark and behind the keyword. -/
inductive DefinitionTable.WritesLine (t : DefinitionTable) (name value : Text) : Text → Prop
  | intro (lead space gap : Text) (hlead : ∀ c ∈ lead, isBlank c = true)
    (hspace : ∀ c ∈ space, isBlank c = true) (hgap : ∀ c ∈ gap, isBlank c = true) (hne : gap ≠ []) :
    WritesLine t name value (lead ++ '!' :: (space ++ (t.keyword ++ (gap ++ name) ++ '=' :: value)))

/-- The lines go on with something else than a continuation, if with anything. -/
def NotContinued (lines : List Text) : Prop :=
  ∀ line, lines.find? (fun line => 2 ≤ (trim line).length) = some line →
    (trim line).head? ≠ some Command.continuation.mark

section

variable {t : DefinitionTable} {name value line : Text}

/-- The statement on the line of a definition: its text in front of the equals sign, and behind it. -/
theorem DefinitionTable.WritesLine.statement (h : t.WritesLine name value line) :
    ∃ gap, gap ≠ [] ∧ (∀ c ∈ gap, isBlank c = true) ∧
      Statement.ofLine? line =
        some ⟨Command.define.mark, t.keyword ++ (gap ++ name) ++ '=' :: trimEnd value⟩ := by
  obtain ⟨lead, space, gap, hlead, hspace, hgap, hne⟩ := h
  refine ⟨gap, hne, hgap, ?_⟩
  generalize hfront : t.keyword ++ (gap ++ name) = front
  have hequals : isBlank '=' = false := by decide
  have hhead : ∀ c ∈ (front ++ '=' :: value).head?, isBlank c = false := by
    intro c hc
    obtain ⟨hkeyword, hchars⟩ := t.keyword_chars
    rw [← hfront, List.append_assoc, List.head?_append_of_ne_nil _ hkeyword] at hc
    exact (hchars c (List.mem_of_head? hc)).1
  have hpayload : trim (front ++ '=' :: value) = front ++ '=' :: trimEnd value := by
    rw [trim, trimStart_of_head hhead, trimEnd_append_cons hequals]
  have htight : Tight (front ++ '=' :: trimEnd value) := by
    rw [← hpayload]
    exact tight_trim (by simp [hpayload])
  have hline : trim (lead ++ '!' :: (space ++ (front ++ '=' :: value))) =
      '!' :: (space ++ (front ++ '=' :: trimEnd value)) := by
    have hend := trimEnd_append_cons hequals ('!' :: (space ++ front)) value
    rw [trim, trimStart, List.dropWhile_append_of_pos hlead, List.dropWhile_cons_of_neg (by decide)]
    simpa using hend
  rw [← Statement.ofLine?_trim, hline]
  exact Statement.ofLine?_cons (by decide) hspace htight

theorem DefinitionTable.WritesLine.trim_eq (h : t.WritesLine name value line) :
    2 ≤ (trim line).length ∧ (trim line).head? = some Command.define.mark := by
  obtain ⟨_, _, _, hs⟩ := h.statement
  obtain ⟨rest, hrest⟩ := Statement.trim_of_ofLine? hs
  have hlength := mt Statement.ofLine?_eq_none_iff.2 (by simp [hs] : Statement.ofLine? line ≠ none)
  exact ⟨by omega, by rw [hrest]; rfl⟩

theorem DefinitionTable.WritesLine.endsFold (h : t.WritesLine name value line) (rest : List Text) :
    EndsFold (line :: rest) := by
  obtain ⟨_, _, _, hs⟩ := h.statement
  have hdefine : Command.ofMark? Command.define.mark = some .define := by decide
  exact endsFold_cons rest hs (by simp [Statement.command?, hdefine])
    (by simp [Statement.command?, hdefine])

theorem DefinitionTable.WritesLine.notContinued (h : t.WritesLine name value line) (rest : List Text) :
    NotContinued (line :: rest) := by
  intro found hfound
  obtain ⟨hlength, hhead⟩ := h.trim_eq
  rw [List.find?_cons_of_pos (by simpa using hlength)] at hfound
  obtain rfl := Option.some.inj hfound
  rw [hhead]
  decide

theorem foldedPayloads_of_notContinued {rest : List Text} (h : NotContinued rest) :
    foldedPayloads (some .define) rest = [] := by
  induction rest with
  | nil => rfl
  | cons line rest ih =>
    by_cases hl : 2 ≤ (trim line).length
    · have hhead := h line (List.find?_cons_of_pos (by simpa using hl))
      cases hs : Statement.ofLine? line with
      | none =>
        have := Statement.ofLine?_eq_none_iff.1 hs
        omega
      | some st =>
        obtain ⟨more, hmore⟩ := Statement.trim_of_ofLine? hs
        have hmark : st.mark ≠ Command.continuation.mark := by simpa [hmore] using hhead
        have hstop : ¬inFold (some .define) line = true := by
          rw [Statement.inFold_iff _ hs]
          simp [hmark]
        rw [foldedPayloads, List.takeWhile_cons_of_neg hstop]
        rfl
    · have hs : Statement.ofLine? line = none := Statement.ofLine?_eq_none_iff.2 (by omega)
      have hrest : NotContinued rest := by
        intro found hfound
        exact h found (by rwa [List.find?_cons_of_neg (by simpa using hl)])
      rw [foldedPayloads, List.takeWhile_cons_of_pos (Statement.inFold_of_none _ hs),
        List.filterMap_cons_none (by rw [payloadOf?, hs])]
      exact ih hrest

/-- With a comment behind it the definition is still one in the table. Either the comment leaves no
value, or it leaves the name. -/
theorem DefinitionTable.WritesLine.definition (h : t.WritesLine name value line) (hname : '=' ∉ name) :
    ∃ st, Statement.ofLine? line = some st ∧ st.command? = some .define ∧
      (Definition.ofText st.withoutComment.payload).kind = .table t ∧
      ((Definition.ofText st.withoutComment.payload).value = [] ∨
        (Definition.ofText st.withoutComment.payload).name = trim name) := by
  obtain ⟨gap, hne, hgap, hs⟩ := h.statement
  obtain ⟨hkeyword, hchars⟩ := t.keyword_chars
  generalize hst : Statement.mk Command.define.mark _ = st at hs
  have hpayload : st.payload = t.keyword ++ (gap ++ name) ++ '=' :: trimEnd value := by rw [← hst]
  refine ⟨st, hs, by rw [← hst]; rfl, ?_⟩
  have hwords := words_split hkeyword (fun c hc => (hchars c hc).1) hgap hne
  have htight := (Statement.tight_of_ofLine? hs).2
  have hhead : headWord st.withoutComment.payload = t.keyword := by
    rw [Statement.headWord_withoutComment htight, hpayload, List.append_assoc, List.append_assoc]
    exact (hwords _).1
  have hfront : '=' ∉ t.keyword ++ (gap ++ name) := by
    simp only [List.mem_append, not_or]
    refine ⟨fun hc => (hchars _ hc).2 rfl, fun hc => ?_, hname⟩
    exact absurd (hgap _ hc) (by decide)
  obtain ⟨more, hmore⟩ := Statement.withoutComment_isPrefix htight
  generalize st.withoutComment.payload = text at hhead hmore
  by_cases hequals : '=' ∈ text
  · have hbefore : before '=' text = t.keyword ++ (gap ++ name) := by
      rw [← before_append_of_mem hequals more, hmore, hpayload, before_append_cons hfront]
    have hparts := hwords name
    simp only [Definition.ofText, hbefore, hparts, DefinitionKind.ofWord_keyword, trim_trimStart,
      or_true, and_self]
  · have hbefore : before '=' text = text := by
      simpa [before] using before_append_of_not_mem hequals []
    simp only [Definition.ofText, hbefore, hhead, after_of_not_mem hequals,
      DefinitionKind.ofWord_keyword]
    refine ⟨trivial, .inl ?_⟩
    split <;> rfl

end

namespace Reader.State

/-- The state with a change of its definitions. -/
def changed (f : Definitions → Definitions) (s : State) : State :=
  { s with document.definitions := f s.document.definitions }

variable {supported : Float} {t : DefinitionTable} {name value line : Text}

/-- A definition without a name or a value has no effect. -/
theorem next_complete_of_lacking (s : State) {d : Definition} (h : ¬(d.name ≠ [] ∧ d.value ≠ []))
    (number : Nat) (outcome : Outcome) : (s.complete d number outcome).next = some s := by
  unfold complete
  split
  · rfl
  · next hname =>
    split
    · rfl
    · next hvalue => exact absurd ⟨hname, hvalue⟩ h

/-- A definition in a table changes the entry of its name, or nothing. -/
theorem obey_local (supported : Float) {text : Text}
    (hkind : (Definition.ofText text).kind = .table t)
    (hname : (Definition.ofText text).value = [] ∨ (Definition.ofText text).name = name) :
    ∃ f, Definitions.Local t name f ∧
      ∀ (s : State) (l : LogicalLine), l.command? = some .define → l.text = text →
        (s.obey supported l).next = some (s.changed f) := by
  generalize hd : Definition.ofText text = d at hkind hname
  obtain ⟨kind, defined, value⟩ := d
  simp only at hkind hname
  subst hkind
  have hobey (s : State) {l : LogicalLine} (hc : l.command? = some .define) (hl : l.text = text) :
      s.obey supported l = s.define supported l ∧
        Definition.ofText l.text = ⟨.table t, defined, value⟩ :=
    ⟨by simp only [obey, hc], by rw [hl, hd]⟩
  by_cases hfull : defined ≠ [] ∧ value ≠ []
  · obtain rfl := hname.resolve_left hfull.2
    cases t with
    | text t =>
      refine ⟨_, Definitions.local_assign t defined value, fun s l hc hl => ?_⟩
      obtain ⟨ho, hdef⟩ := hobey s hc hl
      simp only [ho, define, hdef, complete, if_neg hfull.1, if_neg hfull.2]
      rfl
    | array =>
      refine ⟨_, Definitions.local_assignArray defined (arrayElements value), fun s l hc hl => ?_⟩
      obtain ⟨ho, hdef⟩ := hobey s hc hl
      simp only [ho, define, hdef, complete, if_neg hfull.1, if_neg hfull.2]
      rfl
  · refine ⟨id, Definitions.local_id t name, fun s l hc hl => ?_⟩
    obtain ⟨ho, hdef⟩ := hobey s hc hl
    rw [ho, define, hdef]
    cases t with
    | text t => exact next_complete_of_lacking s hfull l.number _
    | array => exact next_complete_of_lacking s hfull l.number _

/-- Outside of comments and code the line changes the definitions, if it is not continued. -/
def Changes (supported : Float) (line : Text) (f : Definitions → Definitions) : Prop :=
  ∀ (s : State) (number : Nat) (rest : List Text), s.Outside → NotContinued rest →
    (s.step supported number line rest).next = some (s.changed f)

theorem exists_changes (h : t.WritesLine name value line) (hname : '=' ∉ name) (supported : Float) :
    ∃ f, Definitions.Local t (trim name) f ∧ Changes supported line f := by
  obtain ⟨st, hs, hc, hkind, hvalue⟩ := h.definition hname
  have hcommand : st.command?.isSome = true := by rw [hc]; rfl
  by_cases hend : occursIn blockEnd (trim line) = true
  · refine ⟨id, Definitions.local_id t _, fun s number rest hout _ => ?_⟩
    rw [step_command_ended supported number rest hout hs hcommand hend]
    rfl
  · obtain ⟨f, hf, hobey⟩ := obey_local supported hkind hvalue
    refine ⟨f, hf, fun s number rest hout hrest => ?_⟩
    rw [step_command supported number rest hout hs hcommand (eq_false_of_ne_true hend)]
    have hdefine : st.withoutComment.command? = some .define := by
      rw [Statement.command?, st.mark_withoutComment]
      exact hc
    refine hobey s _ hdefine ?_
    have hlabel : ¬(some Command.define = some .labelOpen ∧
        headWord st.withoutComment.payload = Label.objectKeyword) := by simp
    have htext := text_fold hlabel s.options.concat rest
    rw [foldedPayloads_of_notContinued hrest] at htext
    simpa only [logicalLine, hdefine, List.flatMap_nil, List.append_nil] using htext

section

variable {f g : Definitions → Definitions} {line' : Text} {rest : List Text} {s : State}
  (hf : Changes supported line f) (hg : Changes supported line' g) (hout : s.Outside)
  (hrest : NotContinued (line' :: rest)) (hrest' : NotContinued rest)

include hf hg hout hrest hrest'

/-- Two lines that change the definitions, one below the other. -/
theorem next_scan_pair (number : Nat) :
    (scan supported s number (line :: line' :: rest)).next =
      (scan supported ((s.changed f).changed g) (number + 1 + 1) rest).next := by
  have hout' : (s.changed f).Outside := ⟨hout.object, hout.comment⟩
  rw [scan_cons, Outcome.andThen_next, hf s _ _ hout hrest, Option.bind_some, scan_cons,
    Outcome.andThen_next, hg _ _ _ hout' hrest', Option.bind_some]

theorem Sound.changed_pair (h : s.Sound) : ((s.changed f).changed g).Sound := by
  have hout' : (s.changed f).Outside := ⟨hout.object, hout.comment⟩
  exact (h.step (hf s 0 _ hout hrest)).step (hg _ 0 _ hout' hrest')

end

end Reader.State

/-- Definitions of different entries, one on the line below the other, can change places. -/
theorem parse_definitions_comm (settings : Settings) (audience : Audience) {first second : List Text}
    {t u : DefinitionTable} {name other value value' line line' : Text}
    (hline : t.WritesLine name value line) (hname : '=' ∉ name)
    (hline' : u.WritesLine other value' line') (hother : '=' ∉ other)
    (hne : (t, trim name) ≠ (u, trim other))
    (hfirst : ∀ s, (Reader.scan settings.supported {} 0 first).next = some s → s.Outside)
    (hsecond : NotContinued second) :
    Document.sameOption (parse settings audience (first ++ [line, line'] ++ second)).document
      (parse settings audience (first ++ [line', line] ++ second)).document = true := by
  obtain ⟨f, hf, hstep⟩ := Reader.State.exists_changes hline hname settings.supported
  obtain ⟨g, hg, hstep'⟩ := Reader.State.exists_changes hline' hother settings.supported
  have hread {lines : List Text} (h : EndsFold lines) :
      (parse settings audience (first ++ lines)).document =
        ((Reader.scan settings.supported {} 0 first).next.bind fun s =>
          (Reader.scan settings.supported s first.length lines).next).map (·.document) := by
    rw [parse_document, Reader.read_eq_finish, Reader.scan_append_of_endsFold h,
      Reader.Outcome.finish, Reader.Outcome.andThen_next, Nat.zero_add]
  simp only [List.append_assoc, List.cons_append, List.nil_append]
  rw [hread (hline.endsFold _), hread (hline'.endsFold _)]
  cases hn : (Reader.scan settings.supported {} 0 first).next with
  | none => rfl
  | some s =>
    have hout := hfirst s hn
    have hsound : s.Sound := by
      rw [Reader.scan_eq] at hn
      exact Reader.State.sound_initial.scanBefore hn
    have hrest := hline.notContinued second
    have hrest' := hline'.notContinued second
    rw [Option.bind_some, Option.bind_some,
      Reader.State.next_scan_pair hstep hstep' hout hrest' hsecond,
      Reader.State.next_scan_pair hstep' hstep hout hrest hsecond]
    exact Reader.sameOption_of_alike (hsound.changed_pair hstep hstep' hout hrest' hsecond).distinct
      (hsound.changed_pair hstep' hstep hout hrest hsecond).distinct
      (hf.comm hg hne s.document.definitions) settings.supported _ second

/-- The topic in front of the definitions and the redefinition behind them do not matter, nor does
the comment that cuts the second value. -/
theorem parse_definitions_comm_var :
    let first := ["+ x".toList]
    let line := "! var b = 1".toList
    let line' := "!var a =2 // c".toList
    let second := ["% y".toList, "! var b = 4".toList]
    let whole := (parse {} ⟨['s'], false⟩ (first ++ [line, line'] ++ second)).document
    let other := (parse {} ⟨['s'], false⟩ (first ++ [line', line] ++ second)).document
    Document.sameOption whole other = true ∧
      whole.map (·.definitions.var.names) = some ["b".toList, "a".toList] ∧
      other.map (·.definitions.var.names) = some ["a".toList, "b".toList] := by
  intro first line line' second whole other
  refine ⟨?_, by rfl, by rfl⟩
  have hblank : ∀ c ∈ [' '], isBlank c = true := by simp; decide
  have hnone : ∀ c ∈ [], isBlank c = true := nofun
  have hline : DefinitionTable.WritesLine (.text .var) "b ".toList " 1".toList line :=
    .intro [] [' '] [' '] hnone hblank hblank (by simp)
  have hline' : DefinitionTable.WritesLine (.text .var) "a ".toList "2 // c".toList line' :=
    .intro [] [] [' '] hnone hnone hblank (by simp)
  refine parse_definitions_comm {} ⟨['s'], false⟩ hline (by decide) hline' (by decide) (by decide)
    ?_ ?_
  · intro s hs
    have hopen : (Reader.scan ({} : Settings).supported {} 0 first).next.map
        (fun s => (s.openObject, s.inComment)) = some (none, false) := by rfl
    rw [hs] at hopen
    obtain ⟨ho, hc⟩ := Prod.mk.inj (Option.some.inj hopen)
    exact ⟨ho, hc⟩
  · intro found hfound
    obtain rfl : "% y".toList = found := Option.some.inj hfound
    decide

end DialogueScript
