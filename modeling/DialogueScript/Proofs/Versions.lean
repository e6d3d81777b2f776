import DialogueScript.Proofs.Failures
import DialogueScript.Proofs.Reached

/-!
# Versions

A script may declare a version, and a version that is too high is the only thing that keeps a script
from having a document. The number is the longest numeral at the start of the declared value
(`leading?_eq_some_iff`). Nothing is read below a version that is refused: the report ends with it
(`parse_version`). No declaration of a version leaves a trace in what is read further on.
-/

namespace DialogueScript

open Text

/-! ## Numerals -/

namespace Decimal.Numeral

variable {m n : Numeral} {s : Text}

/-- Digits, and behind a point digits or nothing at all. -/
structure Formed (n : Numeral) : Prop where
  ne_nil : n.whole ≠ []
  whole : ∀ c ∈ n.whole, isDigit c = true
  fraction : ∀ c ∈ n.fraction, isDigit c = true

/-- The longest numeral at the start of a text. -/
structure Leads (n : Numeral) (s : Text) : Prop where
  formed : n.Formed
  front : n.text <+: s
  longest : ∀ m : Numeral, m.Formed → m.text <+: s → m.text.length ≤ n.text.length

theorem formed_of_leading? (h : leading? s = some n) : n.Formed := by
  obtain ⟨hne, hwhole, hfraction⟩ := digits_of_leading? h
  exact ⟨hne, List.all_eq_true.1 hwhole, List.all_eq_true.1 hfraction⟩

theorem front_of_leading? (h : leading? s = some n) : n.text <+: s := by
  unfold leading? at h
  split at h
  · cases h
  split at h <;> cases h
  · next rest hrest =>
    have hs : s.takeWhile isDigit ++ '.' :: rest = s := by
      rw [← hrest, List.takeWhile_append_dropWhile]
    unfold text
    split
    · simpa using List.takeWhile_prefix isDigit
    · have hcut : s.takeWhile isDigit ++ '.' :: rest.takeWhile isDigit <+:
          s.takeWhile isDigit ++ '.' :: rest := by
        rw [List.prefix_append_right_inj, List.prefix_cons_inj]
        exact List.takeWhile_prefix isDigit
      rwa [hs] at hcut
  · simpa [text] using List.takeWhile_prefix isDigit

/-- Behind a numeral the reading of a number goes on, if at all, with more digits. -/
theorem leading?_append (h : n.Formed) (rest : Text) :
    ∃ m, leading? (n.text ++ rest) = some m ∧ n.text <+: m.text ∧ (rest = [] → m = n) := by
  obtain ⟨whole, fraction⟩ := n
  obtain ⟨hne, hwhole, hfraction⟩ := h
  obtain ⟨d, digits, rfl⟩ := List.exists_cons_of_ne_nil hne
  cases fraction with
  | nil =>
    have htext : text ⟨d :: digits, []⟩ = d :: digits := by simp [text]
    have htake : (d :: digits ++ rest).takeWhile isDigit = d :: digits ++ rest.takeWhile isDigit :=
      List.takeWhile_append_of_pos hwhole
    have hdrop : (d :: digits ++ rest).dropWhile isDigit = rest.dropWhile isDigit :=
      List.dropWhile_append_of_pos hwhole
    have hfront (more fraction : Text) : d :: digits <+: text ⟨d :: digits ++ more, fraction⟩ := by
      rw [text, List.append_assoc]
      exact List.prefix_append ..
    rw [htext, leading?, htake, hdrop, List.cons_append]
    simp only
    split
    · next hrest => exact ⟨_, rfl, hfront _ _, fun he => by simp [he] at hrest⟩
    · exact ⟨_, rfl, hfront _ _, fun he => by simp [he]⟩
  | cons c fraction =>
    have hpoint : isDigit '.' = false := by decide
    have htext (more : Text) :
        text ⟨d :: digits, c :: fraction ++ more⟩ = d :: digits ++ '.' :: (c :: fraction ++ more) := by
      simp [text]
    have htake (rest : Text) : (d :: digits ++ '.' :: rest).takeWhile isDigit = d :: digits := by
      rw [List.takeWhile_append_of_pos hwhole]
      simp [hpoint]
    have hdrop (rest : Text) : (d :: digits ++ '.' :: rest).dropWhile isDigit = '.' :: rest := by
      rw [List.dropWhile_append_of_pos hwhole]
      simp [hpoint]
    have hmore : (c :: fraction ++ rest).takeWhile isDigit =
        c :: fraction ++ rest.takeWhile isDigit := List.takeWhile_append_of_pos hfraction
    have hself : text ⟨d :: digits, c :: fraction⟩ = d :: digits ++ '.' :: (c :: fraction) := by
      simp [text]
    have hs : text ⟨d :: digits, c :: fraction⟩ ++ rest =
        d :: digits ++ '.' :: (c :: fraction ++ rest) := by
      rw [hself]
      simp
    refine ⟨⟨d :: digits, c :: fraction ++ rest.takeWhile isDigit⟩, ?_, ?_, ?_⟩
    · rw [hs, leading?, htake, hdrop]
      simp only [hmore]
    · rw [hself, htext]
      simp
    · rintro rfl
      simp

/-- What is read at the start of a text is the longest numeral there. -/
theorem leading?_eq_some_iff : leading? s = some n ↔ n.Leads s := by
  constructor
  · intro h
    refine ⟨formed_of_leading? h, front_of_leading? h, fun m hm hfront => ?_⟩
    obtain ⟨rest, rfl⟩ := hfront
    obtain ⟨n', hn', hle, -⟩ := leading?_append hm rest
    obtain rfl : n' = n := Option.some.inj (hn'.symm.trans h)
    exact hle.length_le
  · rintro ⟨hn, ⟨rest, rfl⟩, hlongest⟩
    obtain ⟨m, hm, hle, -⟩ := leading?_append hn rest
    have hlength := hlongest m (formed_of_leading? hm) (front_of_leading? hm)
    have htext : n.text = m.text := hle.eq_of_length_le hlength
    -- a numeral is read off its own text
    obtain ⟨n', hn', -, hself⟩ := leading?_append hn []
    obtain ⟨m', hm', -, hself'⟩ := leading?_append (formed_of_leading? hm) []
    rw [htext, hm', hself rfl, hself' rfl] at hn'
    rw [hm, hn']

end Decimal.Numeral

/-! ## Declarations of a version -/

/-- The statement defines the version, as the value. -/
structure LogicalLine.DeclaresVersion (l : LogicalLine) (value : Text) : Prop where
  command : l.command? = some .define
  word : headWord (before '=' l.text) = "version".toList
  value : value = Text.remove lineJoin (trim (after '=' l.text))

theorem DefinitionKind.ofWord_eq_version_iff {w : Text} :
    ofWord w = .version ↔ w = "version".toList := by
  unfold ofWord
  split
  · next h => simp [h]
  · next h =>
    refine ⟨fun hw => ?_, fun hw => absurd hw h⟩
    split at hw
    · cases hw
    split at hw <;> cases hw

theorem LogicalLine.declaresVersion_iff {l : LogicalLine} {value : Text} :
    l.DeclaresVersion value ↔ l.command? = some .define ∧
      (Definition.ofText l.text).kind = .version ∧ (Definition.ofText l.text).value = value := by
  have hkind : (Definition.ofText l.text).kind = .version ↔
      headWord (before '=' l.text) = "version".toList := DefinitionKind.ofWord_eq_version_iff
  have hvalue (hk : (Definition.ofText l.text).kind = .version) :
      (Definition.ofText l.text).value = Text.remove lineJoin (trim (after '=' l.text)) := by
    have hne : DefinitionKind.ofWord (headWord (before '=' l.text)) ≠ .table .array := by
      intro he
      cases he.symm.trans hk
    simp only [Definition.ofText, if_neg hne]
  constructor
  · rintro ⟨hc, hw, rfl⟩
    exact ⟨hc, hkind.2 hw, hvalue (hkind.2 hw)⟩
  · rintro ⟨hc, hk, rfl⟩
    exact ⟨hc, hkind.1 hk, hvalue hk⟩

namespace Reader.State

variable {supported : Float} {s : State} {l : LogicalLine} {value : Text}

theorem obey_version (h : l.DeclaresVersion value) (supported : Float) (s : State) :
    s.obey supported l = s.checkVersion supported value l.number := by
  obtain ⟨hc, hk, rfl⟩ := LogicalLine.declaresVersion_iff.1 h
  simp only [obey, hc, define, hk]

/-- A definition of anything but the version does not end the reading. -/
theorem next_define_of_ne (h : (Definition.ofText l.text).kind ≠ .version) (supported : Float)
    (s : State) : ∃ s', (s.define supported l).next = some s' := by
  have hcomplete (d : Definition) {outcome : Outcome} {s'' : State} (ho : outcome.next = some s'') :
      ∃ s', (s.complete d l.number outcome).next = some s' := by
    rcases s.complete_cases d l.number outcome with e | e | ⟨-, -, e⟩ <;> rw [e]
    · exact ⟨s, rfl⟩
    · exact ⟨s, rfl⟩
    · exact ⟨s'', ho⟩
  unfold define
  generalize Definition.ofText l.text = d at h
  obtain ⟨kind, name, value⟩ := d
  cases kind with
  | version => exact absurd rfl h
  | option => exact hcomplete _ (note_next ..)
  | table t => cases t <;> exact hcomplete _ (note_next ..)
  | unknown word => exact hcomplete _ (warn_next ..)

/-! What comes of a declaration depends on the numeral at the start of the value. -/

theorem obey_refused {n : Decimal.Numeral} (h : l.DeclaresVersion value) (hn : n.Leads value)
    (hlt : supported < n.toFloat) (s : State) :
    s.obey supported l =
      ⟨[.problem (.unsupportedVersion ⟨n.toFloat, supported⟩) l.number], none⟩ := by
  rw [obey_version h, checkVersion, Decimal.Numeral.leading?_eq_some_iff.2 hn]
  exact if_pos hlt

theorem obey_supported {n : Decimal.Numeral} (h : l.DeclaresVersion value) (hn : n.Leads value)
    (hlt : ¬supported < n.toFloat) (s : State) : s.obey supported l = s.go [] := by
  rw [obey_version h, checkVersion, Decimal.Numeral.leading?_eq_some_iff.2 hn]
  exact if_neg hlt

theorem obey_badVersion (h : l.DeclaresVersion value) (hn : ∀ n : Decimal.Numeral, ¬n.Leads value)
    (supported : Float) (s : State) : s.obey supported l = s.warn .badVersion l.number := by
  have hnone : Decimal.Numeral.leading? value = none := by
    cases hl : Decimal.Numeral.leading? value with
    | none => rfl
    | some n => exact absurd (Decimal.Numeral.leading?_eq_some_iff.1 hl) (hn n)
  rw [obey_version h, checkVersion, hnone]

/-- The reading ends at a version that is higher than the supported one, and nowhere else. -/
theorem next_obey_eq_none_iff (ho : s.openObject = none) :
    (s.obey supported l).next = none ↔ ∃ value n, l.DeclaresVersion value ∧
      Decimal.Numeral.Leads n value ∧ supported < n.toFloat := by
  constructor
  · intro h
    by_cases hc : l.command? = some .define
    · by_cases hk : (Definition.ofText l.text).kind = .version
      · have hdeclares := LogicalLine.declaresVersion_iff.2 ⟨hc, hk, rfl⟩
        by_cases hn : ∃ n : Decimal.Numeral, n.Leads (Definition.ofText l.text).value
        · obtain ⟨n, hn⟩ := hn
          by_cases hlt : supported < n.toFloat
          · exact ⟨_, n, hdeclares, hn, hlt⟩
          · rw [obey_supported hdeclares hn hlt] at h
            cases h
        · rw [obey_badVersion hdeclares (not_exists.1 hn)] at h
          cases h
      · obtain ⟨s', hs'⟩ := next_define_of_ne hk supported s
        rw [obey, hc] at h
        exact absurd (hs'.symm.trans h) (by simp)
    · obtain ⟨s', hs'⟩ := next_obey_of_ne supported ho hc
      exact absurd (hs'.symm.trans h) (by simp)
  · rintro ⟨value, n, hdeclares, hn, hlt⟩
    rw [obey_refused hdeclares hn hlt]

/-- Whatever version is declared, the reading goes on from the same state if it goes on at all. -/
theorem next_obey_version (h : l.DeclaresVersion value) {s' : State}
    (hs : (s.obey supported l).next = some s') : s' = s := by
  rw [obey_version h, checkVersion] at hs
  split at hs
  · exact (Option.some.inj hs).symm
  split at hs
  · cases hs
  · exact (Option.some.inj hs).symm

end Reader.State

/-! ## Reports on versions -/

theorem Event.isSyntax_of_statement {utf8 : Bool} {source : Text} {l : LogicalLine} {w : Warning}
    (h : w ∈ (Event.statement l).warnings utf8 source) : w.isSyntax = true := by
  obtain ⟨e, -, rfl⟩ := Option.map_eq_some_iff.1 (Option.mem_toList.1 h)
  exact e.isSyntax_author source l.number

namespace Reader.Reached

variable {settings : Settings} {front back : List Text} {line : Text} {s : State} {l : LogicalLine}
  {value : Text}

/-- The warnings at the line of a version that do not come from the grammar. -/
theorem filter_not_syntax (h : Reached settings.supported front line back s l)
    (hv : l.DeclaresVersion value) (audience : Audience) :
    ((parse settings audience (front ++ line :: back)).warnings.filter
        (·.number = l.number)).filter (!·.isSyntax) =
      ((s.obey settings.supported l).events.flatMap
        (Event.warnings settings.utf8 audience.source)).filter (!·.isSyntax) := by
  have hnext : ∀ s', (s.obey settings.supported l).next = some s' → s'.openObject = none := by
    intro s' hs'
    rw [State.next_obey_version hv hs', h.outside]
  rw [h.filter_warnings hnext audience, List.flatMap_cons, List.filter_append,
    List.filter_eq_nil_iff.2 fun w hw => by simp [Event.isSyntax_of_statement hw],
    List.nil_append]

end Reader.Reached

/-- A script has no document just if a version is reached that is too high: a definition whose kind
reads `version`, with a value that starts with a numeral above the supported version. The report then
ends with this line and a warning of it. A version without a numeral is warned of once, a version
that is not too high is not, and in neither case does the state of the reading change. -/
theorem parse_version (settings : Settings) (audience : Audience) (lines : List Text) :
    ((parse settings audience lines).document = none ↔
      ∃ front line back s l value n, lines = front ++ line :: back ∧
        Reader.Reached settings.supported front line back s l ∧ l.DeclaresVersion value ∧
        Decimal.Numeral.Leads n value ∧ settings.supported < n.toFloat) ∧
    ∀ front line back s l value, lines = front ++ line :: back →
      Reader.Reached settings.supported front line back s l → l.DeclaresVersion value →
      (∀ n : Decimal.Numeral, n.Leads value → settings.supported < n.toFloat →
        (parse settings audience lines).entries =
          ((Reader.scanBefore settings.supported {} 0 (line :: back) front).events ++
              [s.seen line, .statement l]).flatMap (Event.entries settings audience) ++
            [.warned ⟨UnsupportedVersion.message ⟨n.toFloat, settings.supported⟩,
              audience.source, l.number⟩]) ∧
      ((∀ n : Decimal.Numeral, ¬n.Leads value) →
        ((parse settings audience lines).warnings.filter (·.number = l.number)).filter
            (!·.isSyntax) = [⟨Problem.badVersion.message, audience.source, l.number⟩]) ∧
      (∀ n : Decimal.Numeral, n.Leads value → ¬settings.supported < n.toFloat →
        ((parse settings audience lines).warnings.filter (·.number = l.number)).filter
            (!·.isSyntax) = []) ∧
      ∀ s', (s.step settings.supported l.number line back).next = some s' → s' = s := by
  constructor
  · have hdocument : (parse settings audience lines).document = none ↔
        (Reader.scan settings.supported {} 0 lines).next = none := by
      rw [parse_document, Reader.read_eq_finish, Reader.Outcome.finish, Option.map_eq_none_iff]
    rw [hdocument, Reader.scan_next_eq_none_iff]
    constructor
    · rintro ⟨front, line, back, s, l, hlines, h, hobey⟩
      obtain ⟨value, n, hv, hn, hlt⟩ := (Reader.State.next_obey_eq_none_iff h.outside).1 hobey
      exact ⟨front, line, back, s, l, value, n, hlines, h, hv, hn, hlt⟩
    · rintro ⟨front, line, back, s, l, value, n, hlines, h, hv, hn, hlt⟩
      exact ⟨front, line, back, s, l, hlines, h,
        (Reader.State.next_obey_eq_none_iff h.outside).2 ⟨value, n, hv, hn, hlt⟩⟩
  · rintro front line back s l value rfl h hv
    refine ⟨fun n hn hlt => ?_, fun hn => ?_, fun n hn hlt => ?_, fun s' hs' => ?_⟩
    · have hobey := Reader.State.obey_refused hv hn hlt s
      rw [h.entries_of_next_eq_none (by rw [hobey]) audience, hobey, List.flatMap_append]
      rfl
    · rw [h.filter_not_syntax hv audience, Reader.State.obey_badVersion hv hn]
      simp [Event.warnings, Warning.isSyntax, Problem.not_syntax]
    · rw [h.filter_not_syntax hv audience, Reader.State.obey_supported hv hn hlt]
      rfl
    · rw [h.number, h.step_eq] at hs'
      exact Reader.State.next_obey_version hv hs'

/-- A version that becomes too high by the line below it, in front of a code object that is not
closed, and a value without a numeral. -/
theorem parse_version_folded :
    let front : List Text := ["+ a".toList]
    let back : List Text := ["^ .5 beta".toList, "> object x".toList]
    let p := parse {} ⟨"s".toList, false⟩ (front ++ "! version = 2".toList :: back)
    let p' := parse {} ⟨"s".toList, false⟩ ["! version = v2".toList]
    let n : Decimal.Numeral := ⟨['2'], ['5']⟩
    p.document = none ∧
      p.warnings = [⟨UnsupportedVersion.message ⟨n.toFloat, 2.0⟩, "s".toList, 2⟩] ∧
      p'.document = some {} ∧
      (p'.warnings.filter (·.number = 1)).filter (!·.isSyntax) =
        [⟨Problem.badVersion.message, "s".toList, 1⟩] := by
  intro front back p p' n
  let s : Reader.State :=
    { document := { topics := [(defaultTopic, { rules := [{ pattern := ['a'] }] })] }
      openRule := some ⟨defaultTopic, 0⟩ }
  let l : LogicalLine := ⟨'!', "version = 2<crlf>.5 beta".toList, none, 2⟩
  have h : Reader.Reached (2.0 : Float) front "! version = 2".toList back s l :=
    ⟨by rfl, by rfl, ⟨'!', "version = 2".toList⟩, by decide, by decide⟩
  have hv : l.DeclaresVersion "2.5 beta".toList := ⟨by decide, by decide, by decide⟩
  have hn : n.Leads "2.5 beta".toList := Decimal.Numeral.leading?_eq_some_iff.1 (by decide)
  have hlt : (2.0 : Float) < n.toFloat := by decide
  let l' : LogicalLine := ⟨'!', "version = v2".toList, none, 1⟩
  have h' : Reader.Reached (2.0 : Float) [] "! version = v2".toList [] {} l' :=
    ⟨by rfl, by rfl, ⟨'!', "version = v2".toList⟩, by decide, by decide⟩
  have hv' : l'.DeclaresVersion "v2".toList := ⟨by decide, by decide, by decide⟩
  have hn' (m : Decimal.Numeral) : ¬m.Leads "v2".toList := by
    intro hm
    have hnone : Decimal.Numeral.leading? "v2".toList = none := by decide
    cases hnone.symm.trans (Decimal.Numeral.leading?_eq_some_iff.2 hm)
  obtain ⟨hdocument, hreport⟩ := parse_version {} ⟨"s".toList, false⟩
    (front ++ "! version = 2".toList :: back)
  obtain ⟨hentries, -, -, -⟩ := hreport front _ back s l _ rfl h hv
  obtain ⟨-, hreport'⟩ := parse_version {} ⟨"s".toList, false⟩ ["! version = v2".toList]
  obtain ⟨-, hwarnings, -, -⟩ := hreport' [] _ [] {} l' _ rfl h' hv'
  refine ⟨hdocument.2 ⟨front, _, back, s, l, _, n, rfl, h, hv, hn, hlt⟩, ?_, by rfl, hwarnings hn'⟩
  show p.entries.filterMap Entry.warning? = _
  rw [hentries n hn hlt]
  rfl

end DialogueScript
