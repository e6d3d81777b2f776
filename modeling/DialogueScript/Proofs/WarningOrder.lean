import DialogueScript.Proofs.Versions

/-!
# The order of warnings

Warnings are given line by line. Of each line at most two are given, and of two the first is about
the grammar (`step_lineWarnings`); the warnings of a run stand in the order of its lines
(`scanBefore_located`). Two of them stand only at the end of a report: that the version is refused,
since nothing is read behind it (`scanBefore_ends`), and that a code object was never closed, which is
told when all lines are read (`parse_located`).
-/

namespace DialogueScript

/-! ## Warnings of one line -/

/-- The warning refuses the version of the script. -/
def Warning.isRefusal (w : Warning) : Bool := "Unsupported script version ".toList.isPrefixOf w.message

/-- What is warned of at one line: a violation of the grammar, and behind it something else. Neither of
the two need be there. -/
inductive LineWarnings : List Warning → Prop
  | intro (fault other : Option Warning) (hf : ∀ w ∈ fault, w.isSyntax = true)
    (ho : ∀ w ∈ other, w.isSyntax = false) : LineWarnings (fault.toList ++ other.toList)

namespace LineWarnings

variable {ws : List Warning}

theorem nil : LineWarnings [] := .intro none none (by simp) (by simp)

theorem problem (p : Problem) (source : Text) (number : Nat) :
    LineWarnings [⟨p.message, source, number⟩] := by
  refine .intro none (some _) (by simp) fun w hw => ?_
  obtain rfl := Option.some.inj hw
  exact p.not_syntax

theorem length_le (h : LineWarnings ws) : ws.length ≤ 2 := by
  obtain ⟨fault, other, -, -⟩ := h
  cases fault <;> cases other <;> simp

/-- If a line is warned of twice, the violation of the grammar comes first. -/
theorem pair {w w' : Warning} (h : LineWarnings [w, w']) :
    w.isSyntax = true ∧ w'.isSyntax = false := by
  generalize hws : [w, w'] = ws at h
  obtain ⟨fault, other, hf, ho⟩ := h
  cases fault with
  | none => cases other <;> simp at hws
  | some fault =>
    cases other with
    | none => simp at hws
    | some other =>
      obtain ⟨rfl, rfl⟩ : w = fault ∧ w' = other := by simpa using hws
      exact ⟨hf w rfl, ho w' rfl⟩

end LineWarnings

/-- The warnings stand under the name of the source behind its first `low` lines and not behind the
first `high` ones, line by line. -/
structure Located (source : Text) (low high : Nat) (ws : List Warning) : Prop where
  source : ∀ w ∈ ws, w.source = source
  bounds : ∀ w ∈ ws, low < w.number ∧ w.number ≤ high
  sorted : ws.Pairwise (·.number ≤ ·.number)
  lines : ∀ n, LineWarnings (ws.filter (·.number = n))

namespace Located

variable {source : Text} {low mid high : Nat} {ws ws' : List Warning}

theorem nil (source : Text) (low high : Nat) : Located source low high [] :=
  ⟨by simp, by simp, .nil, fun _ => .nil⟩

theorem line {number : Nat} (h : LineWarnings ws) (hs : ∀ w ∈ ws, w.source = source)
    (hn : ∀ w ∈ ws, w.number = number) (hl : low < number) (hh : number ≤ high) :
    Located source low high ws where
  source := hs
  bounds := fun w hw => by rw [hn w hw]; exact ⟨hl, hh⟩
  sorted := List.pairwise_of_forall_mem_list fun w hw w' hw' => by rw [hn w hw, hn w' hw']
  lines := by
    intro n
    by_cases he : number = n
    · rwa [List.filter_eq_self.2 fun w hw => by simpa [hn w hw] using he]
    · rw [List.filter_eq_nil_iff.2 fun w hw => by simpa [hn w hw] using he]
      exact .nil

/-- What is warned of further down comes behind, and at other lines. -/
theorem append (h : Located source low mid ws) (h' : Located source mid high ws')
    (hl : low ≤ mid) (hh : mid ≤ high) : Located source low high (ws ++ ws') where
  source := List.forall_mem_append.2 ⟨h.source, h'.source⟩
  bounds := List.forall_mem_append.2
    ⟨fun w hw => ⟨(h.bounds w hw).1, (h.bounds w hw).2.trans hh⟩,
      fun w hw => ⟨hl.trans_lt (h'.bounds w hw).1, (h'.bounds w hw).2⟩⟩
  sorted := List.pairwise_append.2 ⟨h.sorted, h'.sorted, fun w hw w' hw' =>
    (h.bounds w hw).2.trans (h'.bounds w' hw').1.le⟩
  lines := by
    intro n
    rw [List.filter_append]
    by_cases hn : n ≤ mid
    · have hnone : ws'.filter (·.number = n) = [] := List.filter_eq_nil_iff.2 fun w hw => by
        simpa using (hn.trans_lt (h'.bounds w hw).1).ne'
      rw [hnone, List.append_nil]
      exact h.lines n
    · have hnone : ws.filter (·.number = n) = [] := List.filter_eq_nil_iff.2 fun w hw => by
        simpa using ((h.bounds w hw).2.trans_lt (Nat.not_le.1 hn)).ne
      rw [hnone, List.nil_append]
      exact h'.lines n

end Located

namespace Event

variable {utf8 : Bool} {source : Text} {e : Event} {w : Warning}

theorem source_of_mem_warnings (h : w ∈ e.warnings utf8 source) : w.source = source := by
  cases e with
  | statement l =>
    obtain ⟨f, -, rfl⟩ := Option.map_eq_some_iff.1 (Option.mem_toList.1 h)
    rfl
  | problem p number =>
    obtain rfl := List.mem_singleton.1 h
    rfl
  | line => cases h
  | note => cases h

/-- The event refuses the version of the script. -/
def isRefusal : Event → Bool
  | problem (.unsupportedVersion _) _ => true
  | _ => false

theorem isRefusal_of_mem_warnings (h : w ∈ e.warnings utf8 source) :
    w.isRefusal = e.isRefusal := by
  cases e with
  | statement l =>
    obtain ⟨f, -, rfl⟩ := Option.map_eq_some_iff.1 (Option.mem_toList.1 h)
    rfl
  | problem p number =>
    obtain rfl := List.mem_singleton.1 h
    cases p with
    | unsupportedVersion e =>
      refine List.isPrefixOf_iff_prefix.2 ?_
      unfold Problem.message UnsupportedVersion.message
      simp only [List.append_assoc]
      exact List.prefix_append _ _
    | _ => rfl
  | line => cases h
  | note => cases h

theorem isUnclosed_of_mem_warnings (he : e.unclosed? = none) (h : w ∈ e.warnings utf8 source) :
    w.isUnclosed = false := by
  have hnone := e.warnings_unclosed utf8 source
  rw [he] at hnone
  simpa using List.filter_eq_nil_iff.1 hnone w h

end Event

namespace Reader

/-! ## Where a run ends -/

/-- Nothing is told behind the refusal of a version, and nothing else ends a run. -/
inductive Outcome.Ends : Outcome → Prop
  | last (events : List Event) (s : State) (h : ∀ e ∈ events, e.isRefusal = false) :
    Ends ⟨events, some s⟩
  | refused (events : List Event) (e : UnsupportedVersion) (number : Nat)
    (h : ∀ e ∈ events, e.isRefusal = false) :
    Ends ⟨events ++ [.problem (.unsupportedVersion e) number], none⟩

theorem Outcome.Ends.append {o : Outcome} (h : o.Ends) {events : List Event}
    (he : ∀ e ∈ events, e.isRefusal = false) : Ends ⟨events ++ o.events, o.next⟩ := by
  cases h with
  | last later s h => exact .last _ s (List.forall_mem_append.2 ⟨he, h⟩)
  | refused later e number h =>
    simp only [← List.append_assoc]
    exact .refused _ e number (List.forall_mem_append.2 ⟨he, h⟩)

/-- Of two parts only the last one can end in a refusal. -/
theorem Outcome.Ends.andThen {o : Outcome} (h : o.Ends) {k : State → Outcome}
    (hk : ∀ s, (k s).Ends) : (o.andThen k).Ends := by
  cases h with
  | last events s h =>
    rw [andThen_of_some rfl]
    exact (hk s).append h
  | refused events e number h =>
    rw [andThen_of_none rfl]
    exact .refused events e number h

namespace State

variable {s : State} {supported : Float}

/-- A version that is not supported is not rejected but ends the reading. -/
theorem Rejects.isRefusal {l : LogicalLine} {p : Problem} (h : s.Rejects l p) (number : Nat) :
    (Event.problem p number).isRefusal = false := by
  cases p with
  | unsupportedVersion => cases h
  | _ => rfl

/-- A statement ends the reading just if it is refused, and that is the last it tells. -/
theorem obey_ends (l : LogicalLine) (ho : s.openObject = none) : (s.obey supported l).Ends := by
  have hk := s.obey_obeyed supported l ho
  generalize s.obey supported l = outcome at hk
  cases hk with
  | refused e => exact .refused [] e l.number (by simp)
  | rejected p hp => exact .last _ _ (by simpa using hp.isRefusal l.number)
  | opened name language problems _ _ hp =>
    refine .last _ _ fun e he => ?_
    obtain ⟨p, hmem, rfl⟩ := List.mem_map.1 he
    rw [hp p hmem]
    rfl
  | entered => exact .last _ _ (by simp [Event.isRefusal])
  | _ => exact .last _ _ (by simp [Event.isRefusal])

/-- A line ends the reading just if its statement is refused, and that is the last it tells. -/
theorem step_ends (s : State) (supported : Float) (number : Nat) (line : Text) (rest : List Text) :
    (s.step supported number line rest).Ends := by
  have hk := s.step_stepped supported number line rest
  generalize s.step supported number line rest = outcome at hk
  cases hk with
  | blank => exact .last _ _ (by simp)
  | code => exact .last _ _ (by simp [Event.isRefusal, seen])
  | aside inComment problems _ _ hp =>
    refine .last _ _ (List.forall_mem_cons.2 ⟨rfl, fun e he => ?_⟩)
    obtain ⟨p, hmem, rfl⟩ := List.mem_map.1 he
    rcases hp p hmem with rfl | ⟨rfl, -⟩ <;> rfl
  | statement st _ ho _ =>
    have hline : ∀ e ∈ [s.seen line, .statement (s.logicalLine number st rest)],
        e.isRefusal = false := by simp [Event.isRefusal, seen]
    exact (obey_ends _ ho).append hline

/-! ## Warnings of a line -/

/-- What is told when a statement is obeyed: notes, or a single problem. -/
inductive Told (number : Nat) : List Event → Prop
  | notes (notes : List Note) : Told number (notes.map .note)
  | problem (p : Problem) : Told number [.problem p number]

/-- The events of a statement make one warning at most, and none of the grammar. -/
theorem Told.warnings {number : Nat} {events : List Event} (h : Told number events) (utf8 : Bool)
    (source : Text) : ∃ other : Option Warning, (∀ w ∈ other, w.isSyntax = false) ∧
      events.flatMap (Event.warnings utf8 source) = other.toList := by
  cases h with
  | notes notes =>
    refine ⟨none, by simp, List.flatMap_eq_nil_iff.2 fun e he => ?_⟩
    obtain ⟨n, -, rfl⟩ := List.mem_map.1 he
    rfl
  | problem p =>
    refine ⟨some ⟨p.message, source, number⟩, fun w hw => ?_, rfl⟩
    obtain rfl := Option.some.inj hw
    exact p.not_syntax

/-- A statement tells of one problem at most. -/
theorem obey_told (supported : Float) (l : LogicalLine) (ho : s.openObject = none) :
    Told l.number (s.obey supported l).events := by
  have hk := s.obey_obeyed supported l ho
  generalize hobey : s.obey supported l = outcome at hk
  cases hk with
  | refused e => exact .problem _
  | rejected p => exact .problem p
  | ignored => exact .notes []
  | option name value => exact .notes [.option name value]
  | assigned t name value => exact .notes [.assignment t name value]
  | assignedArray name value => exact .notes [.array name value]
  | entered name links notes => exact .notes notes
  | opened name language problems hc hl =>
    rw [← hobey]
    simp only [obey, hc, openLabel, hl]
    cases language with
    | some language => exact .notes []
    | none => exact .problem .unknownLanguage
  | left => exact .notes [.endOfLabel]
  | added => exact .notes [.rule l.text]
  | extended place n => exact .notes [n]

/-- The warnings of a line are a violation of the grammar and another problem, or less. -/
theorem readLine_lineWarnings (ho : s.openObject = none) (number : Nat) (line : Text)
    (rest : List Text) (utf8 : Bool) (source : Text) :
    LineWarnings ((s.readLine supported number line rest).events.flatMap
      (Event.warnings utf8 source)) := by
  unfold readLine
  split
  · exact .nil
  · exact .problem ..
  · exact .nil
  · exact .nil
  · exact .problem ..
  · rename_i st _
    obtain ⟨other, hother, hwarnings⟩ :=
      (obey_told supported (s.logicalLine number st rest) ho).warnings utf8 source
    simp only [List.flatMap_cons, hwarnings]
    refine .intro _ other (fun w hw => ?_) hother
    exact Event.isSyntax_of_statement (Option.mem_toList.2 hw)

/-- Code is not warned of, and a line outside of code is warned of twice at most. -/
theorem step_lineWarnings (s : State) (supported : Float) (number : Nat) (line : Text)
    (rest : List Text) (utf8 : Bool) (source : Text) :
    LineWarnings ((s.step supported number line rest).events.flatMap
      (Event.warnings utf8 source)) := by
  by_cases ht : Text.trim line = []
  · rw [step, if_pos ht]
    exact .nil
  cases ho : s.openObject with
  | none =>
    rw [step_outside ht ho]
    exact readLine_lineWarnings ho number _ rest utf8 source
  | some o =>
    simp only [step, if_neg ht, ho]
    exact .nil

end State

/-! ## Warnings of a run -/

section

variable {supported : Float} {s : State} {number : Nat} {later lines : List Text} {utf8 : Bool}
  {source : Text}

/-- A reading ends early just at a refusal, and nothing is told behind it. -/
theorem scanBefore_ends (supported : Float) (s : State) (number : Nat) (later lines : List Text) :
    (scanBefore supported s number later lines).Ends := by
  induction lines generalizing s number with
  | nil => exact .last [] s (by simp)
  | cons line rest ih => exact (s.step_ends supported _ line _).andThen fun next => ih next _

/-- The warnings of a line carry its number. -/
theorem step_located (s : State) (supported : Float) (number : Nat) (line : Text)
    (rest : List Text) (utf8 : Bool) (source : Text) {high : Nat} (hh : number + 1 ≤ high) :
    Located source number high ((s.step supported (number + 1) line rest).events.flatMap
      (Event.warnings utf8 source)) := by
  refine .line (s.step_lineWarnings ..) (fun w hw => ?_) (fun w hw => ?_) (Nat.lt_succ_self _) hh
  · obtain ⟨e, -, hw⟩ := List.mem_flatMap.1 hw
    exact Event.source_of_mem_warnings hw
  · obtain ⟨e, he, hw⟩ := List.mem_flatMap.1 hw
    exact State.step_numbers he (Event.number_of_mem_warnings hw)

/-- The warnings of a part of a script are in order, and carry the numbers of its lines. -/
theorem scanBefore_located (supported : Float) (s : State) (number : Nat)
    (later lines : List Text) (utf8 : Bool) (source : Text) :
    Located source number (number + lines.length)
      ((scanBefore supported s number later lines).events.flatMap
        (Event.warnings utf8 source)) := by
  induction lines generalizing s number with
  | nil => exact .nil ..
  | cons line rest ih =>
    rw [scanBefore, List.length_cons]
    have hhigh : number + 1 + rest.length = number + (rest.length + 1) := by omega
    cases hnext : (s.step supported (number + 1) line (rest ++ later)).next with
    | none =>
      rw [Outcome.andThen_of_none hnext]
      exact step_located s supported number line _ utf8 source (by omega)
    | some next =>
      rw [Outcome.andThen_of_some hnext, List.flatMap_append, ← hhigh]
      exact (step_located s supported number line _ utf8 source (Nat.le_refl _)).append
        (ih next (number + 1)) (Nat.le_succ _) (Nat.le_add_right _ _)

theorem isRefusal_of_events {events : List Event} (h : ∀ e ∈ events, e.isRefusal = false) :
    ∀ w ∈ events.flatMap (Event.warnings utf8 source), w.isRefusal = false := by
  intro w hw
  obtain ⟨e, he, hw⟩ := List.mem_flatMap.1 hw
  rw [Event.isRefusal_of_mem_warnings hw, h e he]

/-- A run that comes to its end refuses no version, and a run that refuses one does so last of all. -/
theorem Outcome.Ends.warnings {o : Outcome} (h : o.Ends) (utf8 : Bool) (source : Text) :
    let ws := o.events.flatMap (Event.warnings utf8 source)
    (o.next.isSome = true → ∀ w ∈ ws, w.isRefusal = false) ∧
      ∀ w ∈ ws.dropLast, w.isRefusal = false := by
  intro ws
  cases h with
  | last events s h =>
    have hall : ∀ w ∈ events.flatMap (Event.warnings utf8 source), w.isRefusal = false :=
      isRefusal_of_events h
    exact ⟨fun _ => hall, fun w hw => hall w (List.mem_of_mem_dropLast hw)⟩
  | refused events e number h =>
    have hws : ws = events.flatMap (Event.warnings utf8 source) ++
        [⟨(Problem.unsupportedVersion e).message, source, number⟩] := List.flatMap_append
    rw [hws, List.dropLast_concat]
    exact ⟨by simp, isRefusal_of_events h⟩

end

end Reader

/-! ## Reports -/

/-- The warnings of a report are those of the lines, `run`, and one behind them, `last`, if a code
object is open when all lines are read. -/
structure ReportWarnings (source : Text) (high : Nat) (run : List Warning) (last : Option Warning) :
    Prop where
  located : Located source 0 high run
  unclosed : ∀ w ∈ run, w.isUnclosed = false
  refusal : ∀ w ∈ run.dropLast, w.isRefusal = false
  last : ∀ w ∈ last, 0 < high ∧ (∃ name, w = ⟨(Problem.unclosedObject name).message, source, high⟩) ∧
    ∀ w' ∈ run, w'.isRefusal = false

/-- A report is the warnings of the run, and the one of an open code object behind them. -/
theorem parse_reportWarnings (settings : Settings) (audience : Audience) (lines : List Text) :
    ∃ run last, (parse settings audience lines).warnings = run ++ last.toList ∧
      ReportWarnings audience.source lines.length run last := by
  have hscan := Reader.scan_eq settings.supported {} 0 lines
  have hlocated := Reader.scanBefore_located settings.supported {} 0 [] lines settings.utf8
    audience.source
  obtain ⟨hsome, hdrop⟩ := (Reader.scanBefore_ends settings.supported {} 0 [] lines).warnings
    settings.utf8 audience.source
  rw [← hscan, Nat.zero_add] at hlocated
  rw [← hscan] at hsome hdrop
  have hunclosed : ∀ w ∈ (Reader.scan settings.supported {} 0 lines).events.flatMap
      (Event.warnings settings.utf8 audience.source), w.isUnclosed = false := by
    intro w hw
    obtain ⟨e, he, hw⟩ := List.mem_flatMap.1 hw
    exact Event.isUnclosed_of_mem_warnings (Reader.scanBefore_unclosed (hscan ▸ he)) hw
  rw [parse_warnings]
  cases hnext : (Reader.scan settings.supported {} 0 lines).next with
  | none =>
    rw [Reader.read_of_none hnext]
    exact ⟨_, none, (List.append_nil _).symm, hlocated, hunclosed, hdrop, by simp⟩
  | some s =>
    rw [Reader.read_of_some hnext, List.flatMap_append]
    cases ho : s.openObject with
    | none =>
      simp only [Reader.closing, ho, List.flatMap_nil]
      exact ⟨_, none, rfl, hlocated, hunclosed, hdrop, by simp⟩
    | some o =>
      have hhigh : 0 < lines.length := by
        rw [List.length_pos_iff]
        rintro rfl
        cases hnext
        cases ho
      simp only [Reader.closing, ho]
      refine ⟨_, some _, rfl, hlocated, hunclosed, hdrop, fun w hw => ?_⟩
      obtain rfl := Option.some.inj hw
      exact ⟨hhigh, ⟨o.name, rfl⟩, hsome (by rw [hnext]; rfl)⟩

theorem Problem.isUnclosed_unclosedObject (name source : Text) (number : Nat) :
    Warning.isUnclosed ⟨(unclosedObject name).message, source, number⟩ = true :=
  List.isPrefixOf_iff_prefix.2 ⟨_, (List.append_assoc ..).symm⟩

namespace ReportWarnings

variable {source : Text} {high : Nat} {run : List Warning} {last : Option Warning}

theorem last_eq (h : ReportWarnings source high run last) {w : Warning} (hw : w ∈ last) :
    w.source = source ∧ w.number = high ∧ w.isUnclosed = true ∧ w.isRefusal = false := by
  obtain ⟨-, ⟨name, rfl⟩, -⟩ := h.last w hw
  exact ⟨rfl, rfl, Problem.isUnclosed_unclosedObject name source high, rfl⟩

theorem filter_unclosed (h : ReportWarnings source high run last) :
    (run ++ last.toList).filter (·.isUnclosed) = last.toList ∧
      (run ++ last.toList).filter (!·.isUnclosed) = run := by
  have hlast : ∀ w ∈ last.toList, w.isUnclosed = true := fun w hw =>
    (h.last_eq (Option.mem_toList.1 hw)).2.2.1
  constructor
  · rw [List.filter_append, List.filter_eq_nil_iff.2 (by simpa using h.unclosed),
      List.filter_eq_self.2 hlast, List.nil_append]
  · rw [List.filter_append, List.filter_eq_self.2 (by simpa using h.unclosed),
      List.filter_eq_nil_iff.2 (by simpa using hlast), List.append_nil]

theorem mem_dropLast (h : ReportWarnings source high run last) {w : Warning}
    (hw : w ∈ (run ++ last.toList).dropLast) : w.isUnclosed = false ∧ w.isRefusal = false := by
  cases hlast : last with
  | none =>
    rw [hlast, Option.toList_none, List.append_nil] at hw
    exact ⟨h.unclosed w (List.mem_of_mem_dropLast hw), h.refusal w hw⟩
  | some last =>
    rw [hlast, Option.toList_some, List.dropLast_concat] at hw
    obtain ⟨-, -, hrefusal⟩ := h.last last hlast
    exact ⟨h.unclosed w hw, hrefusal w hw⟩

theorem sorted (h : ReportWarnings source high run last) :
    (run ++ last.toList).Pairwise (·.number ≤ ·.number) := by
  refine List.pairwise_append.2 ⟨h.located.sorted, by cases last <;> simp, fun w hw w' hw' => ?_⟩
  rw [(h.last_eq (Option.mem_toList.1 hw')).2.1]
  exact (h.located.bounds w hw).2

end ReportWarnings

/-- Every warning names the source and a line of the script, and the lines do not go back. There are at
most two for a line, apart from the warning of a code object that was never closed, and the first of
two is about the grammar and the second is not. That warning is the last one if it is given, under the
number of the last line, and a warning that refuses the version is the last one too; so at most one of
the two is given, and once at most. -/
theorem parse_located (settings : Settings) (audience : Audience) (lines : List Text) :
    let ws := (parse settings audience lines).warnings
    (∀ w ∈ ws, w.source = audience.source ∧ 1 ≤ w.number ∧ w.number ≤ lines.length) ∧
    ws.Pairwise (·.number ≤ ·.number) ∧
    (∀ n, let here := (ws.filter (!·.isUnclosed)).filter (·.number = n)
      here.length ≤ 2 ∧ ∀ w w', here = [w, w'] → w.isSyntax = true ∧ w'.isSyntax = false) ∧
    (ws.filter (·.isUnclosed)).length ≤ 1 ∧
    (∀ w ∈ ws, w.isUnclosed = true → w.number = lines.length) ∧
    (∀ w ∈ ws.dropLast, w.isUnclosed = false ∧ w.isRefusal = false) ∧
    ∀ w ∈ ws, ∀ w' ∈ ws, w.isRefusal = true → w'.isUnclosed = false := by
  intro ws
  obtain ⟨run, last, hws, h⟩ : ∃ run last, ws = run ++ last.toList ∧
      ReportWarnings audience.source lines.length run last :=
    parse_reportWarnings settings audience lines
  clear_value ws
  subst hws
  obtain ⟨hunclosed, hothers⟩ := h.filter_unclosed
  have mem {w : Warning} (hw : w ∈ run ++ last.toList) : w ∈ run ∨ w ∈ last :=
    (List.mem_append.1 hw).imp id Option.mem_toList.1
  refine ⟨fun w hw => ?_, h.sorted, fun n => ?_, ?_, fun w hw hopen => ?_,
    fun w hw => h.mem_dropLast hw, fun w hw w' hw' hrefused => ?_⟩
  · rcases mem hw with hw | hw
    · exact ⟨h.located.source w hw, h.located.bounds w hw⟩
    · obtain ⟨hsource, hnumber, -⟩ := h.last_eq hw
      exact ⟨hsource, hnumber ▸ (h.last w hw).1, hnumber.le⟩
  · rw [hothers]
    exact ⟨(h.located.lines n).length_le, fun w w' he => (he ▸ h.located.lines n).pair⟩
  · rw [hunclosed]
    cases last <;> simp
  · rcases mem hw with hw | hw
    · rw [h.unclosed w hw] at hopen
      cases hopen
    · exact (h.last_eq hw).2.1
  · rcases mem hw' with hw' | hw'
    · exact h.unclosed w' hw'
    · -- behind a code object that is not closed no version was refused
      have hnot : w.isRefusal = false := by
        rcases mem hw with hw | hw
        · exact (h.last w' hw').2.2 w hw
        · exact (h.last_eq hw).2.2.2
      rw [hnot] at hrefused
      cases hrefused

/-- Two warnings at one line, a code object that stays open, and in another script a version that is
refused in front of such an object. -/
theorem parse_located_unclosed :
    let opener : Text := "> object f c".toList
    let ws := (parse {} ⟨['s'], false⟩ ["* b".toList, opener, "- x".toList]).warnings
    let ws' := (parse {} ⟨['s'], false⟩ ["# b".toList, "! version = 9".toList, opener]).warnings
    ws.map (·.number) = [1, 1, 3] ∧ ws'.map (·.number) = [1, 2] ∧
      (∃ w w', (ws.filter (!·.isUnclosed)).filter (·.number = 1) = [w, w'] ∧
        w.isSyntax = true ∧ w'.isSyntax = false) ∧
      (∃ w ∈ ws, w.isUnclosed = true ∧ ∀ w' ∈ ws, w'.isRefusal = false) ∧
      ∃ w ∈ ws', w.isRefusal = true ∧ ∀ w' ∈ ws', w'.isUnclosed = false := by
  intro opener ws ws'
  obtain ⟨-, -, hline, -, -, -, hone⟩ :=
    parse_located {} ⟨['s'], false⟩ ["* b".toList, opener, "- x".toList]
  obtain ⟨-, -, -, -, -, -, hone'⟩ :=
    parse_located {} ⟨['s'], false⟩ ["# b".toList, "! version = 9".toList, opener]
  obtain ⟨w, w', hhere⟩ : ∃ w w', (ws.filter (!·.isUnclosed)).filter (·.number = 1) = [w, w'] :=
    List.length_eq_two.1 (by decide)
  obtain ⟨unclosed, hunclosed, hopen⟩ : ∃ w ∈ ws, w.isUnclosed = true := by decide
  obtain ⟨refusal, hrefusal, hrefused⟩ : ∃ w ∈ ws', w.isRefusal = true := by decide
  refine ⟨by decide, by decide, ⟨w, w', hhere, (hline 1).2 w w' hhere⟩,
    ⟨unclosed, hunclosed, hopen, fun v hv => ?_⟩, refusal, hrefusal, hrefused,
    fun v hv => hone' refusal hrefusal v hv hrefused⟩
  by_contra h
  cases hopen.symm.trans (hone v hv unclosed hunclosed (by simpa using h))

end DialogueScript
