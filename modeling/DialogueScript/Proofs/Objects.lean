import DialogueScript.Proofs.Blocks
import DialogueScript.Proofs.Diagnostics
import DialogueScript.Proofs.Simulation

/-!
# Code objects

Code objects are captured as they are written. What is in a block matters to the code of its object
only: with other lines in it the script comes to the same around them (`read_block`). An object that
stays open is told once, at the end of the script (`read_unclosed`).
-/

namespace DialogueScript

namespace Reader

variable {supported : Float} {s : State}

/-! ## Other lines in a block -/

/-- The state after other objects were closed. -/
def State.behind (objects : List CodeObject) (s : State) : State :=
  { s with document.objects := objects ++ s.document.objects }

/-- The objects that were closed before are of no account for what follows. -/
theorem behind_commutes (objects : List CodeObject) : Commutes (fun _ => True) (.behind objects) :=
  mapped_commutes (f := id) (fun _ _ _ _ _ => rfl) (fun _ _ _ _ => rfl)
    fun closed o => (List.append_assoc objects closed [o]).symm

/-- What is left of a reading when the lines behind an outcome are all read. -/
def Outcome.finish (o : Outcome) (number : Nat) : Reading :=
  ⟨o.events ++ o.next.elim [] (closing · number), o.next.map (·.document)⟩

theorem read_eq_finish (supported : Float) (lines : List Text) :
    read supported lines = (scan supported {} 0 lines).finish lines.length := by
  unfold Outcome.finish
  cases hn : (scan supported {} 0 lines).next with
  | none =>
    rw [read_of_none hn]
    simp
  | some s =>
    rw [read_of_some hn]
    rfl

/-- The code object `o` with `code` in it is open. -/
def State.holding (s : State) (o : CodeObject) (code : List Text) : State :=
  { s with openObject := some { o with code } }

section

variable {tail : List Text} {o : CodeObject}

theorem closed?_body (hcode : o.code = []) (closer : Text) (rest : List Text) {body : List Text}
    (hc : Label.closesObject closer = true)
    (hb : ∀ line ∈ body, Label.closesObject line = false) :
    o.closed? (body ++ closer :: rest) =
      if o.name = [] then none else some { o with code := codeOf body } := by
  have hbody : bodyOf (body ++ closer :: rest) = body := by
    rw [bodyOf, List.takeWhile_append_of_pos (by simpa using hb)]
    simp [hc]
  simp [CodeObject.closed?, hbody, hc, hcode]

/-- Behind its body, what is in a code object matters to that object only. -/
theorem scan_holding (supported : Float) (s : State) (hcode : o.code = [])
    (ht : ∀ line ∈ tail.head?, Label.closesObject line = true) :
    ∃ (below : List Event) (objects : List CodeObject) (d : Option Document),
      ∀ body, (∀ line ∈ body, Label.closesObject line = false) →
        (scan supported (s.holding o (codeOf body)) 0 tail).finish tail.length =
          ⟨below, d.map fun d =>
            { d with objects := objects ++ (o.closed? (body ++ tail)).toList ++ d.objects }⟩ := by
  cases tail with
  | nil =>
    refine ⟨[.problem (.unclosedObject o.name) 0], s.document.objects,
      some { s.document with objects := [] }, ?_⟩
    intro body hb
    have hn : o.closed? (body ++ []) = none := by
      simpa [CodeObject.closed?] using fun _ line hl => hb line hl
    rw [hn]
    simp [scan, Outcome.finish, State.go, State.holding, closing]
  | cons closer rest =>
    have hc : Label.closesObject closer = true := ht closer rfl
    have htrim := Label.trim_of_closesObject hc
    -- the state behind the object, with the objects closed so far set aside
    let base : State :=
      { s with document := { s.document with objects := [] }, openObject := none }
    let later := scan supported base 1 rest
    refine ⟨.line (Text.trim closer) s.topic true ::
      later.events ++ later.next.elim [] (closing · (rest.length + 1)),
      s.document.objects, later.next.map (·.document), ?_⟩
    intro body hb
    have hclose : (s.holding o (codeOf body)).closeObject { o with code := codeOf body } =
        base.behind (s.document.objects ++ (o.closed? (body ++ closer :: rest)).toList) := by
      rw [closed?_body hcode closer rest hc hb]
      by_cases hn : o.name = []
      · simp [State.closeObject, State.holding, State.behind, base, hn]
      · simp [State.closeObject, State.holding, State.behind, base, hn, Document.addObject]
    generalize s.document.objects ++ (o.closed? (body ++ closer :: rest)).toList = closed at hclose ⊢
    have hstep : (s.holding o (codeOf body)).step supported 1 closer rest =
        (base.behind closed).go [.line (Text.trim closer) s.topic true] := by
      rw [← hclose, State.step, if_neg htrim]
      simp only [State.holding, State.readCode, hc]
      rfl
    have hlater : scan supported (base.behind closed) 1 rest = later.map (.behind closed) := by
      simp only [later, scan_eq]
      exact (behind_commutes closed).scanBefore (fun _ _ _ _ _ _ _ => trivial) trivial 1 [] rest
    simp only [scan, hstep, State.go_next, State.go_events, Nat.zero_add, hlater, Outcome.finish,
      Outcome.map]
    cases later.next with
    | none => simp
    | some t => simp [State.behind, closing]

theorem Outcome.finish_shift (o : Outcome) (number k : Nat) :
    (o.shift k).finish (number + k) =
      ⟨(o.finish number).events.map (Event.shift k), (o.finish number).document⟩ := by
  unfold finish shift
  cases o.next with
  | none => simp
  | some s => simp [closing_shift]

theorem Outcome.finish_append (events : List Event) (o : Outcome) (number : Nat) :
    finish ⟨events ++ o.events, o.next⟩ number =
      ⟨events ++ (o.finish number).events, (o.finish number).document⟩ := by
  simp [finish]

/-- Whatever lines the body of a block has, the script comes to the same but for the code of one
object, the trace of these lines, and the line numbers below them. -/
def Opaque (supported : Float) (front : List Text) (opener : Text) (tail : List Text) : Prop :=
  ∃ (o : CodeObject) (topic : Text) (above below : List Event) (objects : List CodeObject)
    (d : Option Document), ∀ body, (∀ line ∈ body, Label.closesObject line = false) →
      read supported (front ++ opener :: (body ++ tail)) =
        ⟨above ++ ((codeOf body).map fun line => .line (Text.trim line) topic true) ++
            below.map (Event.shift (front.length + 1 + body.length)),
          d.map fun d =>
            { d with objects := objects ++ (o.closed? (body ++ tail)).toList ++ d.objects }⟩

/-- A label whose first word is that of code objects opens one, whatever lines are below it. -/
theorem step_opens (supported : Float) (number : Nat) {opener : Text} {st : Statement}
    (ho : s.openObject = none) (hk : LineKind.of s.inComment (Text.trim opener) = .statement st)
    (hc : st.command? = some .labelOpen) (hw : Text.headWord st.payload = Label.objectKeyword) :
    ∃ (o : CodeObject) (events : List Event) (s₁ : State), o.code = [] ∧ s₁.openObject = some o ∧
      ∀ rest, s.step supported number opener rest = ⟨events, some s₁⟩ := by
  let l : LogicalLine := ⟨st.mark, st.payload, none, number⟩
  have hwords : Text.words l.text = Label.objectKeyword :: Text.words (Text.afterWord l.text) := by
    rw [← hw]
    exact Text.words_of_headWord (by rw [hw]; decide)
  obtain ⟨name, language, hobject⟩ : ∃ name language, l.object? = some (name, language) :=
    ⟨_, _, LogicalLine.object?_eq_some_iff.2 ⟨hc, _, hwords, rfl, rfl⟩⟩
  let o : CodeObject := ⟨name, language, []⟩
  have hopen : l.opened? = some o := by
    rw [LogicalLine.opened?, hobject]
    rfl
  obtain ⟨s₁, hs₁, ho₁⟩ := State.obey_of_opened ho hopen supported
  have htrim : Text.trim opener ≠ [] := by
    intro hnil
    obtain ⟨st', hst, -⟩ := LineKind.ofLine?_of_statement hk
    rw [hnil] at hst
    cases hst
  refine ⟨o, s.seen opener :: .statement l :: (s.obey supported l).events, s₁, rfl, ho₁, ?_⟩
  intro rest
  have hlogical : s.logicalLine number st rest = l := by
    rw [State.logicalLine, fold, if_pos ⟨hc, hw⟩]
  rw [State.step_statement htrim ho hk, hlogical, hs₁]

/-- The body of a code object is read first, and what is behind it then. -/
theorem finish_body (supported : Float) (ho : s.openObject = some o) (hcode : o.code = [])
    (number : Nat) (tail : List Text) {body : List Text}
    (hb : ∀ line ∈ body, Label.closesObject line = false) :
    (scan supported s number (body ++ tail)).finish (tail.length + (number + body.length)) =
      ⟨((codeOf body).map fun line => .line (Text.trim line) s.topic true) ++
          ((scan supported (s.holding o (codeOf body)) 0 tail).finish tail.length).events.map
            (Event.shift (number + body.length)),
        ((scan supported (s.holding o (codeOf body)) 0 tail).finish tail.length).document⟩ := by
  have hbody : scanBefore supported s number tail body =
      ⟨(codeOf body).map fun line => .line (Text.trim line) s.topic true,
        some (s.holding o (codeOf body))⟩ := by
    rw [scanBefore_body supported ho number tail hb, hcode]
    rfl
  have htail := scan_shift (number + body.length) supported (s.holding o (codeOf body)) 0 tail
  rw [Nat.zero_add] at htail
  rw [scan_append, hbody, Outcome.andThen_of_some rfl, Outcome.finish_append, htail,
    Outcome.finish_shift]

theorem read_block {supported : Float} {front : List Text} {opener : Text} {st : Statement}
    (hs : (scan supported {} 0 front).next = some s) (ho : s.openObject = none)
    (hk : LineKind.of s.inComment (Text.trim opener) = .statement st)
    (hc : st.command? = some .labelOpen) (hw : Text.headWord st.payload = Label.objectKeyword)
    (ht : ∀ line ∈ tail.head?, Label.closesObject line = true) :
    Opaque supported front opener tail := by
  obtain ⟨o, events, s₁, hcode, ho₁, hstep⟩ := step_opens supported (front.length + 1) ho hk hc hw
  obtain ⟨below, objects, d, hbelow⟩ := scan_holding supported s₁ hcode ht
  refine ⟨o, s₁.topic, (scan supported {} 0 front).events ++ events, below, objects, d, ?_⟩
  intro body hb
  have hends := endsFold_of_statement hk hc (body ++ tail)
  have hlength : (front ++ opener :: (body ++ tail)).length =
      tail.length + (front.length + 1 + body.length) := by
    simp only [List.length_append, List.length_cons]
    omega
  have hbody := finish_body supported ho₁ hcode (front.length + 1) tail hb
  rw [hbelow body hb] at hbody
  -- the lines above are read as if nothing followed, then the label, then the body and the rest
  rw [read_eq_finish, scan_append_of_endsFold hends, Outcome.andThen_of_some hs, Nat.zero_add]
  simp only [scan, hstep, hlength, ← List.append_assoc]
  rw [Outcome.finish_append, hbody]
  simp only [List.append_assoc]

end

end Reader

/-! ## Objects that stay open -/

/-- The name in the complaint about a code object that is never closed, and the line it blames. -/
def Event.unclosed? : Event → Option (Text × Nat)
  | .problem (.unclosedObject name) number => some (name, number)
  | _ => none

def Warning.isUnclosed (w : Warning) : Bool := "Object '".toList.isPrefixOf w.message

theorem Warning.not_unclosed {w : Warning} {c : Char} (h : w.message.head? = some c)
    (hc : c ≠ 'O') : w.isUnclosed = false := by
  obtain ⟨rest, hm⟩ := List.head?_eq_some_iff.1 h
  unfold isUnclosed
  simp [hm, List.isPrefixOf, hc.symm]

theorem Event.warnings_unclosed (utf8 : Bool) (source : Text) (e : Event) :
    (e.warnings utf8 source).filter (·.isUnclosed) =
      (e.unclosed?.map fun q => ⟨(Problem.unclosedObject q.1).message, source, q.2⟩).toList := by
  cases e with
  | statement l =>
    simp only [warnings, unclosed?]
    cases fault? utf8 source l with
    | none => rfl
    | some e =>
      have he : Warning.isUnclosed ⟨e.message .author, source, l.number⟩ = false :=
        Warning.not_unclosed rfl (c := 'S') (by decide)
      simp [he]
  | problem p number =>
    have other (hp : p.initial ≠ 'O') :
        Warning.isUnclosed ⟨p.message, source, number⟩ = false :=
      Warning.not_unclosed p.head?_message hp
    cases p with
    | unclosedObject name =>
      have hw : Warning.isUnclosed ⟨(Problem.unclosedObject name).message, source, number⟩ = true :=
        List.isPrefixOf_iff_prefix.2 ⟨_, (List.append_assoc _ _ _).symm⟩
      simp [warnings, unclosed?, hw]
    | _ =>
      have hw := other (by simp [Problem.initial])
      simp [warnings, unclosed?, hw]
  | line => rfl
  | note => rfl

namespace Reader

variable {supported : Float} {s : State}

theorem step_unclosed {number : Nat} {line : Text} {rest : List Text} :
    ∀ e ∈ (s.step supported number line rest).events, e.unclosed? = none := by
  intro e he
  cases e with
  | problem p k =>
    cases p with
    | unclosedObject name =>
      rcases (State.step_disputes he).2 with ha | ⟨l, hr | hr | ⟨e, hr⟩⟩
      · simp [State.Aside] at ha
      · cases hr
      · cases hr
      · cases hr
    | _ => rfl
  | _ => rfl

/-- Only the end of a script tells that a code object was never closed. -/
theorem scanBefore_unclosed {number : Nat} {later lines : List Text} {e : Event}
    (he : e ∈ (scanBefore supported s number later lines).events) : e.unclosed? = none := by
  obtain ⟨-, -, -, hp⟩ := scanBefore_forall (P := fun _ _ e => e.unclosed? = none)
    (fun _ _ _ _ => step_unclosed) e he
  exact hp

theorem closing_unclosed (s : State) (number : Nat) :
    (closing s number).filterMap Event.unclosed? =
      (s.openObject.map (·.name)).toList.map fun name => (name, number) := by
  unfold closing
  cases s.openObject <;> rfl

theorem mem_closing {e : Event} {number : Nat} (h : e ∈ closing s number) :
    ∃ name, e = .problem (.unclosedObject name) number := by
  unfold closing at h
  split at h
  · next o _ => exact ⟨o.name, List.mem_singleton.1 h⟩
  · cases h

section

variable {lines : List Text} {d : Document} (h : (read supported lines).document = some d)

include h

theorem read_objects :
    d.objects = (dispatched (read supported lines).events).filterMap (·.block? lines) := by
  obtain ⟨s, hs, rfl⟩ := next_of_document h
  have hall : lines.drop 0 = lines := rfl
  rw [scan_eq] at hs
  rw [dispatched_read h, (scanBefore_objects hall hs).1]
  rfl

/-- Each object of a document was opened by a statement and closed by a line below it. -/
theorem mem_objects : ∀ o ∈ d.objects, ∃ l ∈ dispatched (read supported lines).events,
    ∃ o', l.opened? = some o' ∧ o'.name ≠ [] ∧ (l.below lines).any Label.closesObject = true ∧
      o = { o' with code := o'.code ++ codeOf (bodyOf (l.below lines)) } := by
  intro o ho
  rw [read_objects h] at ho
  obtain ⟨l, hl, hblock⟩ := List.mem_filterMap.1 ho
  obtain ⟨o', hopened, hclosed⟩ := Option.bind_eq_some_iff.1 hblock
  obtain ⟨⟨hn, hany⟩, hclosed⟩ := Option.ite_none_right_eq_some.1 hclosed
  exact ⟨l, hl, o', hopened, hn, hany, (Option.some.inj hclosed).symm⟩

theorem read_unclosed :
    ((dispatched (read supported lines).events).filterMap (·.unclosed? lines)).length ≤ 1 ∧
      (read supported lines).events.filterMap Event.unclosed? =
        ((dispatched (read supported lines).events).filterMap (·.unclosed? lines)).map
          fun name => (name, lines.length) := by
  have hdispatched := dispatched_read h
  obtain ⟨s, hs, -⟩ := next_of_document h
  have hall : lines.drop 0 = lines := rfl
  have hopen := (scanBefore_objects hall ((scan_eq supported {} 0 lines) ▸ hs)).2
  rw [← hdispatched] at hopen
  have hopen : (s.openObject.map (·.name)).toList =
      (dispatched (read supported lines).events).filterMap (·.unclosed? lines) := hopen
  rw [← hopen]
  refine ⟨by cases s.openObject <;> simp, ?_⟩
  have hnone : (scan supported {} 0 lines).events.filterMap Event.unclosed? = [] := by
    rw [scan_eq, List.filterMap_eq_nil_iff]
    exact fun e he => scanBefore_unclosed he
  rw [read_of_some hs, List.filterMap_append, hnone, closing_unclosed]
  rfl

/-- What is told of a line inside a code object is told at the end of the script. -/
theorem read_quiet {l : LogicalLine} (hl : l ∈ dispatched (read supported lines).events)
    (ho : l.opened?.isSome = true) {e : Event} (he : e ∈ (read supported lines).events) {k : Nat}
    (hk : e.number? = some k) (hlow : l.number < k)
    (hhigh : k ≤ l.number + (bodyOf (l.below lines)).length) :
    ∃ name, e = .problem (.unclosedObject name) lines.length := by
  rw [dispatched_read h] at hl
  obtain ⟨s, hs, -⟩ := next_of_document h
  obtain ⟨o, ho⟩ := Option.isSome_iff_exists.1 ho
  obtain ⟨before, after, hsplit⟩ := List.append_of_mem hl
  rw [read_of_some hs, scan_eq] at he
  rcases List.mem_append.1 he with he | he
  · have := scanBefore_quiet hsplit ho he hk
    omega
  · exact mem_closing he

end

end Reader

/-! ## Capture -/

/-- Code objects are captured as they are written. The objects of a document are the blocks of its
script: a named object with the lines below its label that are not blank, up to the first line that
closes it. At most one object is never closed; it is dropped, with one warning at the end of the
script. Nothing but that warning is told of a line inside an object, and other lines in its place
change its code and no more. -/
theorem parse_objects (settings : Settings) (audience : Audience) (lines : List Text) {d : Document}
    (h : (parse settings audience lines).document = some d) :
    let events := (Reader.read settings.supported lines).events
    let ls := dispatched events
    d.objects = ls.filterMap (·.block? lines) ∧
      (ls.filterMap (·.unclosed? lines)).length ≤ 1 ∧
      (parse settings audience lines).warnings.filter (·.isUnclosed) =
        ((ls.filterMap (·.unclosed? lines)).map fun name =>
          ⟨(Problem.unclosedObject name).message, audience.source, lines.length⟩) ∧
      (∀ l ∈ ls, l.opened?.isSome = true → ∀ e ∈ events, ∀ k, e.number? = some k →
        l.number < k → k ≤ l.number + (bodyOf (l.below lines)).length →
          ∃ name, e = .problem (.unclosedObject name) lines.length) ∧
      ∀ front opener tail s st, (Reader.scan settings.supported {} 0 front).next = some s →
        s.openObject = none →
        Reader.LineKind.of s.inComment (Text.trim opener) = .statement st →
        st.command? = some .labelOpen → Text.headWord st.payload = Label.objectKeyword →
        (∀ line ∈ tail.head?, Label.closesObject line = true) →
          Reader.Opaque settings.supported front opener tail := by
  intro events ls
  rw [parse_document] at h
  obtain ⟨hone, hunclosed⟩ := Reader.read_unclosed h
  refine ⟨Reader.read_objects h, hone, ?_, ?_, ?_⟩
  · rw [parse_warnings, filter_warnings (Event.warnings_unclosed _ _), hunclosed, List.map_map]
    rfl
  · intro l hl ho e he k hk hlow hhigh
    exact Reader.read_quiet h hl ho he hk hlow hhigh
  · intro front opener tail s st hs ho hk hc hw ht
    exact Reader.read_block hs ho hk hc hw ht

/-- An object whose line of code looks like a rule, and one that is never closed. -/
theorem parse_objects_unclosed :
    let opener : Text := ['>', ' ', 'o', 'b', 'j', 'e', 'c', 't', ' ', 'f', ' ', 'L', 'u', 'a']
    let tail : List Text :=
      [['<', ' ', 'o', 'b', 'j', 'e', 'c', 't'],
        ['>', ' ', 'o', 'b', 'j', 'e', 'c', 't', ' ', 'g', ' ', 'c'], ['-', ' ', 'x']]
    let lines : List Text := opener :: ([[' ', '+', ' ', 'y'], []] ++ tail)
    ∃ d, (parse {} ⟨[], false⟩ lines).document = some d ∧
      d.objects = [⟨['f'], ['l', 'u', 'a'], [[' ', '+', ' ', 'y']]⟩] ∧
      (parse {} ⟨[], false⟩ lines).warnings.filter (·.isUnclosed) =
        [⟨(Problem.unclosedObject ['g']).message, [], 6⟩] ∧
      (∀ e ∈ (Reader.read ({} : Settings).supported lines).events, e.number? ≠ some 2) ∧
      Reader.Opaque ({} : Settings).supported [] opener tail := by
  intro opener tail lines
  obtain ⟨d, hd⟩ : ∃ d, (parse {} ⟨[], false⟩ lines).document = some d := ⟨_, rfl⟩
  obtain ⟨hobjects, -, hwarnings, hquiet, hopaque⟩ := parse_objects {} ⟨[], false⟩ lines hd
  have hls : dispatched (Reader.read ({} : Settings).supported lines).events =
      [⟨'>', ['o', 'b', 'j', 'e', 'c', 't', ' ', 'f', ' ', 'L', 'u', 'a'], none, 1⟩,
        ⟨'>', ['o', 'b', 'j', 'e', 'c', 't', ' ', 'g', ' ', 'c'], none, 5⟩] := rfl
  rw [hls] at hobjects hwarnings hquiet
  refine ⟨d, hd, ?_, ?_, ?_, ?_⟩
  · rw [hobjects]
    decide
  · rw [hwarnings]
    decide
  · intro e he hk
    obtain ⟨name, rfl⟩ := hquiet _ List.mem_cons_self rfl e he 2 hk (by decide) (by decide)
    have hlast : lines.length = 2 := Option.some.inj hk
    exact absurd hlast (by decide)
  · have hclose : ∀ line ∈ tail.head?, Label.closesObject line = true := by
      intro line hl
      cases hl
      rfl
    exact hopaque [] opener tail {}
      ⟨'>', ['o', 'b', 'j', 'e', 'c', 't', ' ', 'f', ' ', 'L', 'u', 'a']⟩ rfl rfl rfl rfl rfl hclose

end DialogueScript
