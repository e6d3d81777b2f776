import DialogueScript.Proofs.BlankLines
import DialogueScript.Proofs.Concatenation
import DialogueScript.Proofs.Payloads

/-!
# Block comments

Whatever stands in a block comment, the script comes to the same: its body is passed over line by
line (`scanBefore_inside`), no statement above folds the opener, and what follows is read as it is
behind an empty comment, further down (`aroundComment`). A body is told of only where one of its
lines begins with the deprecated mark.
-/

namespace DialogueScript

/-- The body between an opener and a closer, each on a line of its own. -/
def blockComment (body : List Text) : List Text := Reader.blockStart :: (body ++ [Reader.blockEnd])

/-- The numbers of the lines that begin with the deprecated mark; the first line has `number`. -/
def deprecations (number : Nat) (lines : List Text) : List Nat :=
  ((lines.zipIdx number).filter fun p =>
    Reader.deprecatedMark.isPrefixOf (Text.trim p.1)).map (·.2)

theorem length_blockComment (body : List Text) : (blockComment body).length = body.length + 2 := by
  simp [blockComment]

namespace Reader

/-! ## Lines inside a comment -/

/-- Inside a comment a line that does not end it is a comment itself, or opens one once more. -/
theorem LineKind.of_inside {line : Text} (h : Text.occursIn blockEnd line = false) :
    of true line = if deprecatedMark.isPrefixOf line then .deprecatedComment
      else if blockStart.isPrefixOf line then .commentStart else .comment := by
  unfold of
  by_cases hslash : lineComment.isPrefixOf line = true
  · -- two slashes begin neither with the deprecated mark nor with an opener
    obtain ⟨t, rfl⟩ := List.isPrefixOf_iff_prefix.1 hslash
    rfl
  rw [if_neg hslash]
  by_cases hmark : deprecatedMark.isPrefixOf line = true
  · rw [if_pos hmark, if_pos hmark]
  rw [if_neg hmark, if_neg hmark, h]
  split <;> rfl

namespace State

variable (s : State) {supported : Float}

/-- What is told of a line inside a comment. -/
def passed (number : Nat) (line : Text) : List Event :=
  if Text.trim line = [] then []
  else s.seen line ::
    if deprecatedMark.isPrefixOf (Text.trim line) then [.problem .deprecatedComment number] else []

variable {s}

/-- A line inside a comment is passed over, unless it ends the comment. -/
theorem step_inside (ho : s.openObject = none) (hc : s.inComment = true) {line : Text}
    (h : Text.occursIn blockEnd line = false) (number : Nat) (rest : List Text) :
    s.step supported number line rest = s.go (s.passed number line) := by
  have hk := LineKind.of_inside (Text.occursIn_trim h)
  have hopen : { s with inComment := true } = s := by rw [← hc]
  unfold passed
  by_cases ht : Text.trim line = []
  · rw [step, if_pos ht, if_pos ht]
  rw [if_neg ht, step_outside ht ho]
  simp only [readLine, hc, hk, hopen]
  by_cases hmark : deprecatedMark.isPrefixOf (Text.trim line) = true
  · rw [if_pos hmark, if_pos hmark]
    rfl
  rw [if_neg hmark, if_neg hmark]
  by_cases hstart : blockStart.isPrefixOf (Text.trim line) = true
  · rw [if_pos hstart]
    rfl
  · rw [if_neg hstart]
    rfl

theorem step_blockStart (ho : s.openObject = none) (number : Nat) (rest : List Text) :
    s.step supported number blockStart rest =
      { s with inComment := true }.go [s.seen blockStart] := by
  have hk : LineKind.of s.inComment (Text.trim blockStart) = .commentStart := rfl
  rw [step_outside (by decide) ho]
  simp only [readLine, hk]
  rfl

theorem step_blockEnd (ho : s.openObject = none) (number : Nat) (rest : List Text) :
    s.step supported number blockEnd rest =
      { s with inComment := false }.go [s.seen blockEnd] := by
  have hk : LineKind.of s.inComment (Text.trim blockEnd) = .commentEnd := rfl
  rw [step_outside (by decide) ho]
  simp only [readLine, hk]
  rfl

/-- What is told of a whole comment whose opener stands behind the first `number` lines. -/
def passedComment (s : State) (number : Nat) (body : List Text) : List Event :=
  s.seen blockStart ::
    ((body.zipIdx (number + 2)).flatMap fun p => s.passed p.2 p.1) ++ [s.seen blockEnd]

end State

/-! ## Reading over a comment -/

variable {supported : Float} {s : State} {body : List Text}

/-- Lines inside a comment leave the state as it is. -/
theorem scanBefore_inside (supported : Float) (ho : s.openObject = none) (hc : s.inComment = true)
    (h : ∀ line ∈ body, Text.occursIn blockEnd line = false) (number : Nat) (later : List Text) :
    scanBefore supported s number later body =
      s.go ((body.zipIdx (number + 1)).flatMap fun p => s.passed p.2 p.1) := by
  induction body generalizing number with
  | nil => rfl
  | cons line body ih =>
    obtain ⟨hline, hbody⟩ := List.forall_mem_cons.1 h
    rw [scanBefore, State.step_inside ho hc hline, Outcome.andThen_of_some (State.go_next s _),
      ih hbody, List.zipIdx_cons, List.flatMap_cons]
    rfl

theorem endsFold_blockComment (body below : List Text) : EndsFold (blockComment body ++ below) := by
  have hs : Statement.ofLine? blockStart = some ⟨'/', ['*']⟩ := rfl
  exact endsFold_cons _ hs (by decide) (by decide)

/-- A comment leaves no trace in the state for what stands below it. -/
theorem scan_blockComment (ho : s.openObject = none)
    (h : ∀ line ∈ body, Text.occursIn blockEnd line = false) (number : Nat) (below : List Text) :
    scan supported s number (blockComment body ++ below) =
      (State.go { s with inComment := false } (s.passedComment number body)).andThen fun next =>
        scan supported next (number + body.length + 2) below := by
  have hopened : State.openObject { s with inComment := true } = none := ho
  have hinside := scanBefore_inside supported hopened rfl h (number + 1) (blockEnd :: below)
  have hnumber : number + 1 + body.length + 1 = number + body.length + 2 := by omega
  have hlines : blockComment body ++ below = blockStart :: (body ++ blockEnd :: below) := by
    simp [blockComment]
  rw [hlines, scan_cons, State.step_blockStart ho, Outcome.andThen_of_some (State.go_next _ _),
    scan_append, hinside, Outcome.andThen_of_some (State.go_next _ _), scan_cons,
    State.step_blockEnd hopened, Outcome.andThen_of_some (State.go_next _ _), hnumber,
    Outcome.andThen_of_some (State.go_next _ _)]
  simp [State.passedComment, State.passed, State.seen]

theorem scan_numbers (supported : Float) (lines : List Text) :
    ∀ e ∈ (scan supported {} 0 lines).events, ∀ k, e.number? = some k → k ≤ lines.length := by
  rw [scan_eq]
  intro e he k hk
  have := (scanBefore_numbers he hk).2
  omega

theorem finish_numbers (supported : Float) (s : State) {low number last : Nat}
    (hnumber : low ≤ number) (hlast : low < last) (lines : List Text) :
    ∀ e ∈ ((scan supported s number lines).finish last).events, ∀ k, e.number? = some k →
      low < k := by
  intro e he k hk
  rcases List.mem_append.1 he with he | he
  · rw [scan_eq] at he
    have := (scanBefore_numbers he hk).1
    omega
  · cases hnext : (scan supported s number lines).next with
    | none =>
      rw [hnext] at he
      cases he
    | some next =>
      rw [hnext, Option.elim_some, closing] at he
      split at he
      · obtain rfl := List.mem_singleton.1 he
        cases hk
        exact hlast
      · cases he

/-- What is told above a comment, `first`, and what is told behind it if it has no body, `behind`: a
body pushes the latter down and changes nothing else about the two, nor the document. -/
structure AroundComment (supported : Float) (s : State) (above below : List Text)
    (first behind : List Event) (d : Option Document) : Prop where
  read_eq : ∀ body, (∀ line ∈ body, Text.occursIn blockEnd line = false) →
    read supported (above ++ blockComment body ++ below) =
      ⟨first ++ (s.passedComment above.length body ++ behind.map (Event.shift body.length)), d⟩
  first_numbers : ∀ e ∈ first, ∀ k, e.number? = some k → k ≤ above.length
  behind_numbers : ∀ e ∈ behind, ∀ k, e.number? = some k → above.length < k

theorem aroundComment {above : List Text} (hs : (scan supported {} 0 above).next = some s)
    (ho : s.openObject = none) (below : List Text) :
    ∃ first behind d, AroundComment supported s above below first behind d := by
  let behind := (scan supported { s with inComment := false } (above.length + 2) below).finish
    (above.length + 2 + below.length)
  refine ⟨(scan supported {} 0 above).events, behind.events, behind.document, ?_,
    scan_numbers supported above, finish_numbers supported _ (by omega) (by omega) below⟩
  intro body h
  have hnumber : above.length + body.length + 2 = above.length + 2 + body.length := by omega
  have hlength : (above ++ (blockComment body ++ below)).length =
      above.length + 2 + below.length + body.length := by
    simp only [List.length_append, length_blockComment]
    omega
  rw [read_eq_finish, List.append_assoc,
    scan_append_of_endsFold (endsFold_blockComment body below), Outcome.andThen_of_some hs,
    Nat.zero_add, scan_blockComment ho h, Outcome.andThen_of_some (State.go_next _ _), hnumber,
    scan_shift, hlength, Outcome.finish_append, Outcome.finish_append, Outcome.finish_shift]
  rfl

/-- Without a body nothing is pushed down. -/
theorem AroundComment.read_empty {above below : List Text} {first behind : List Event}
    {d : Option Document} (h : AroundComment supported s above below first behind d) :
    read supported (above ++ blockComment [] ++ below) =
      ⟨first ++ (s.passedComment above.length [] ++ behind), d⟩ := by
  have hzero : Event.shift ([] : List Text).length = id := by
    funext e
    cases e <;> rfl
  have hread := h.read_eq [] (by simp)
  rwa [hzero, List.map_id] at hread

end Reader

/-! ## Reports around a comment -/

/-- The number that a line gets when `k` lines are put in behind the first `last` ones. -/
def pushedDown (last k number : Nat) : Nat := if number ≤ last then number else number + k

namespace Event

variable {utf8 : Bool} {source : Text}

theorem number_of_mem_warnings {e : Event} {w : Warning} (h : w ∈ e.warnings utf8 source) :
    e.number? = some w.number := by
  cases e with
  | statement l =>
    obtain ⟨f, -, rfl⟩ := Option.map_eq_some_iff.1 (Option.mem_toList.1 h)
    rfl
  | problem p number =>
    obtain rfl := List.mem_singleton.1 h
    rfl
  | line => cases h
  | note => cases h

/-- Warnings of events that are told apart by their numbers are told apart by them too. -/
theorem filter_warnings_number (utf8 : Bool) (source : Text) {first last : List Event} {n : Nat}
    (hfirst : ∀ e ∈ first, ∀ number, e.number? = some number → number ≤ n)
    (hlast : ∀ e ∈ last, ∀ number, e.number? = some number → n < number) :
    let low := first.flatMap (warnings utf8 source)
    let high := last.flatMap (warnings utf8 source)
    (low ++ high).filter (·.number ≤ n) = low ∧ (low ++ high).filter (n < ·.number) = high := by
  intro low high
  have hlow : ∀ w ∈ low, w.number ≤ n := by
    intro w hw
    obtain ⟨e, he, hw⟩ := List.mem_flatMap.1 hw
    exact hfirst e he _ (number_of_mem_warnings hw)
  have hhigh : ∀ w ∈ high, n < w.number := by
    intro w hw
    obtain ⟨e, he, hw⟩ := List.mem_flatMap.1 hw
    exact hlast e he _ (number_of_mem_warnings hw)
  constructor
  · rw [List.filter_append, List.filter_eq_self.2 (by simpa using hlow),
      List.filter_eq_nil_iff.2 (by simpa using hhigh), List.append_nil]
  · rw [List.filter_append, List.filter_eq_nil_iff.2 (by simpa using hlow),
      List.filter_eq_self.2 (by simpa using hhigh), List.nil_append]

theorem renumber_pushedDown {first last : List Event} {n : Nat} (k : Nat)
    (hfirst : ∀ e ∈ first, ∀ number, e.number? = some number → number ≤ n)
    (hlast : ∀ e ∈ last, ∀ number, e.number? = some number → n < number) :
    (first ++ last).map (·.renumber (pushedDown n k)) = first ++ last.map (Event.shift k) := by
  have hf : ∀ e ∈ first, e.renumber (pushedDown n k) = e := by
    intro e he
    have hid : e.renumber (pushedDown n k) = e.renumber id :=
      renumber_congr fun number hn => if_pos (hfirst e he number hn)
    rw [hid]
    cases e <;> rfl
  have hl : ∀ e ∈ last, e.renumber (pushedDown n k) = e.shift k := by
    intro e he
    rw [shift_eq_renumber]
    exact renumber_congr fun number hn => if_neg (Nat.not_le.2 (hlast e he number hn))
  rw [List.map_append, List.map_congr_left hf, List.map_congr_left hl, List.map_id']

end Event

namespace Reader.State

variable (s : State) (utf8 : Bool) (source : Text) (number : Nat) (body : List Text)

theorem warnings_passed (line : Text) :
    (s.passed number line).flatMap (Event.warnings utf8 source) =
      if deprecatedMark.isPrefixOf (Text.trim line) then
        [⟨Problem.deprecatedComment.message, source, number⟩] else [] := by
  unfold passed
  by_cases ht : Text.trim line = []
  · simp [ht, deprecatedMark]
  · rw [if_neg ht]
    split <;> rfl

theorem faults_passed (line : Text) :
    (s.passed number line).flatMap (Event.faults utf8 source) = [] := by
  unfold passed
  split
  · rfl
  · split <;> rfl

theorem warnings_passedComment :
    (s.passedComment number body).flatMap (Event.warnings utf8 source) =
      (deprecations (number + 2) body).map fun n =>
        ⟨Problem.deprecatedComment.message, source, n⟩ := by
  have hseen (line : Text) : (s.seen line).warnings utf8 source = [] := rfl
  simp only [passedComment, deprecations, List.flatMap_append, List.flatMap_cons,
    List.flatMap_nil, hseen, List.nil_append, List.append_nil, List.flatMap_assoc, warnings_passed,
    List.map_map]
  induction body.zipIdx (number + 2) with
  | nil => rfl
  | cons p rest ih =>
    rw [List.flatMap_cons, ih, List.filter_cons]
    split <;> rfl

theorem faults_passedComment :
    (s.passedComment number body).flatMap (Event.faults utf8 source) = [] := by
  have hseen (line : Text) : (s.seen line).faults utf8 source = [] := rfl
  simp [passedComment, List.flatMap_assoc, faults_passed, hseen]

end Reader.State

/-- The body of a block comment is not read, whatever it holds: commands, versions, openers, labels
of code objects. If the lines above it do not end in a code object and their version is not refused,
the script with the body has the document of the script without it. The warnings above the body stay
where they are, those below it are pushed down by its lines, and between them one line after the other
is complained about that begins with the deprecated mark. The errors are pushed down with their
lines. -/
theorem parse_blockComment (settings : Settings) (audience : Audience)
    {above body : List Text} (below : List Text) {s : Reader.State}
    (hs : (Reader.scan settings.supported {} 0 above).next = some s) (ho : s.openObject = none)
    (h : ∀ line ∈ body, Text.occursIn Reader.blockEnd line = false) :
    let p := parse settings audience (above ++ blockComment [] ++ below)
    let p' := parse settings audience (above ++ blockComment body ++ below)
    let faults := (Reader.read settings.supported (above ++ blockComment [] ++ below)).events.flatMap
      (Event.faults settings.utf8 audience.source)
    p'.document = p.document ∧
      p'.warnings =
        p.warnings.filter (·.number ≤ above.length) ++
          (deprecations (above.length + 2) body).map
            (fun n => ⟨Problem.deprecatedComment.message, audience.source, n⟩) ++
          (p.warnings.filter (above.length < ·.number)).map (.shift body.length) ∧
      p.errors = errorsOf settings audience faults ∧
      p'.errors = errorsOf settings audience
        (faults.map (·.renumber (pushedDown above.length body.length))) := by
  intro p p' faults
  obtain ⟨first, behind, d, haround⟩ := Reader.aroundComment hs ho below
  have hread := haround.read_empty
  have hread' := haround.read_eq body h
  have hfirst := haround.first_numbers
  have hlast := haround.behind_numbers
  refine ⟨?_, ?_, parse_errors_eq settings audience _, ?_⟩
  · simp only [p, p', parse_document, hread, hread']
  · have hw : p.warnings = first.flatMap (Event.warnings settings.utf8 audience.source) ++
        behind.flatMap (Event.warnings settings.utf8 audience.source) := by
      simp only [p, parse_warnings, hread, List.flatMap_append]
      rw [Reader.State.warnings_passedComment]
      rfl
    obtain ⟨hlow, hhigh⟩ := Event.filter_warnings_number settings.utf8 audience.source hfirst hlast
    rw [hw, hlow, hhigh]
    simp only [p', parse_warnings, hread', List.flatMap_append, List.flatMap_map,
      Event.warnings_shift, Reader.State.warnings_passedComment]
    simp [List.map_flatMap]
  · have hf : faults = (first ++ behind).flatMap
        (Event.faults settings.utf8 audience.source) := by
      simp only [faults, hread, List.flatMap_append, Reader.State.faults_passedComment,
        List.nil_append]
    have hmoved := Event.renumber_pushedDown body.length hfirst hlast
    rw [parse_errors_eq, hf, ← Event.flatMap_renumber fun e _ => e.faults_renumber _ _ _, hmoved,
      hread']
    simp only [List.flatMap_append, Reader.State.faults_passedComment, List.nil_append]

/-- A comment with a line marked as deprecated, a version that would be refused and the label of a
code object, between two responses of a rule. -/
theorem parse_blockComment_version :
    let above : List Text := [['+', 'a'], ['-', 'b']]
    let body : List Text := [['#'], ['!', ' ', 'v', 'e', 'r', 's', 'i', 'o', 'n', '=', '9'],
      ['>', ' ', 'o', 'b', 'j', 'e', 'c', 't', ' ', 'f']]
    let below : List Text := [['-', 'c'], ['?', 'd']]
    let p' := parse {} ⟨['s'], true⟩ (above ++ blockComment body ++ below)
    let rule : Rule := { pattern := ['a'], replies := [['b'], ['c']] }
    p'.document = some { topics := [(defaultTopic, { rules := [rule] })] } ∧
      p'.warnings = [⟨Problem.deprecatedComment.message, ['s'], 4⟩,
        ⟨(Problem.unknownCommand '?').message, ['s'], 9⟩] := by
  intro above body below p' rule
  obtain ⟨s, hs, ho⟩ : ∃ s, (Reader.scan ({} : Settings).supported {} 0 above).next = some s ∧
      s.openObject = none := ⟨_, rfl, rfl⟩
  have hb : ∀ line ∈ body, Text.occursIn Reader.blockEnd line = false := by decide
  obtain ⟨hd, hw, -⟩ := parse_blockComment {} ⟨['s'], true⟩ below hs ho hb
  exact ⟨hd.trans (by decide), hw.trans (by decide)⟩

end DialogueScript
