import DialogueScript.Proofs.JoinMarks

/-!
# Folded definitions

A definition is folded with a mark where its lines were joined, so that its value can be taken apart
again. The mark does not overlap itself: whatever the parts of the value begin and end with, what is
found in the folded value is the marks of its joints and those that stand in a part. So a text is
stored as the parts one after the other, each without the marks in it, and an array has the elements
of its parts (`define_folded`).
-/

namespace DialogueScript

open Text

/-! ## Definitions as they are written -/

def DefinitionTable.keyword : DefinitionTable → Text
  | .text t => t.keyword
  | .array => arrayKeyword

/-- The text reads `keyword name = value`, with any blanks around the parts. -/
inductive DefinitionTable.Writes (t : DefinitionTable) (name value : Text) : Text → Prop
  | intro (gap left right : Text) (hne : gap ≠ []) (hgap : ∀ c ∈ gap, isBlank c = true)
    (hleft : ∀ c ∈ left, isBlank c = true) (hright : ∀ c ∈ right, isBlank c = true) :
    Writes t name value (t.keyword ++ gap ++ name ++ left ++ '=' :: right ++ value)

theorem DefinitionKind.ofWord_keyword (t : DefinitionTable) : ofWord t.keyword = .table t := by
  cases t with
  | text t => cases t <;> decide
  | array => decide

theorem DefinitionTable.keyword_chars (t : DefinitionTable) :
    t.keyword ≠ [] ∧ ∀ c ∈ t.keyword, isBlank c = false ∧ c ≠ '=' := by
  have hkeyword : t.keyword ≠ [] ∧ t.keyword.all (fun c => !isBlank c && c != '=') = true := by
    cases t with
    | text t => cases t <;> decide
    | array => decide
  exact ⟨hkeyword.1, fun c hc => by simpa using List.all_eq_true.1 hkeyword.2 c hc⟩

/-! ## The parts of a text -/

namespace Text

variable {s word gap : Text}

theorem before_append_cons {c : Char} (h : c ∉ s) (rest : Text) : before c (s ++ c :: rest) = s := by
  rw [before_append_of_not_mem h]
  simp [before]

theorem after_append_cons {c : Char} (h : c ∉ s) (rest : Text) : after c (s ++ c :: rest) = rest := by
  have hpass : ∀ d ∈ s, (d != c) = true := fun d hd => by simpa using fun he : d = c => h (he ▸ hd)
  rw [after, List.dropWhile_append_of_pos hpass]
  simp

theorem trim_append_blank (hs : Tight s) (hgap : ∀ c ∈ gap, isBlank c = true) :
    trim (s ++ gap) = s := by
  have hstart : trimStart (s ++ gap) = s ++ gap := trimStart_of_head fun c hc =>
    hs.head c (by rwa [List.head?_append_of_ne_nil _ hs.ne_nil] at hc)
  have hend : (s ++ gap).reverse.dropWhile isBlank = s.reverse.dropWhile isBlank := by
    rw [List.reverse_append]
    exact List.dropWhile_append_of_pos fun c hc => hgap c (List.mem_reverse.1 hc)
  rw [trim, hstart, trimEnd, hend]
  exact trimEnd_of_last hs.last

theorem trim_blank_append_trim (hgap : ∀ c ∈ gap, isBlank c = true) (s : Text) :
    trim (gap ++ s) = trim s := by
  rw [trim, trimStart, List.dropWhile_append_of_pos hgap]
  rfl

section

variable (hne : word ≠ []) (hword : ∀ c ∈ word, isBlank c = false) (hgap : ∀ c ∈ gap, isBlank c = true)
  (hgne : gap ≠ [])

include hne hword hgap hgne

theorem words_split (rest : Text) :
    headWord (word ++ (gap ++ rest)) = word ∧ afterWord (word ++ (gap ++ rest)) = trimStart rest := by
  have hstart : trimStart (word ++ (gap ++ rest)) = word ++ (gap ++ rest) :=
    trimStart_of_head fun c hc =>
      hword c (List.mem_of_head? (by rwa [List.head?_append_of_ne_nil _ hne] at hc))
  have hpass : ∀ c ∈ word, (!isBlank c) = true := fun c hc => by simp [hword c hc]
  obtain ⟨b, gap', rfl⟩ := List.exists_cons_of_ne_nil hgne
  have hb : isBlank b = true := hgap b List.mem_cons_self
  constructor
  · rw [headWord, hstart, List.takeWhile_append_of_pos hpass]
    simp [hb]
  · have hdrop : (b :: gap' ++ rest).dropWhile (!isBlank ·) = b :: gap' ++ rest := by simp [hb]
    rw [afterWord, hstart, List.dropWhile_append_of_pos hpass, hdrop, trimStart,
      List.dropWhile_append_of_pos hgap]
    rfl

end

/-- A text that is tight stays so with tight parts behind it. -/
theorem Tight.join_all {a : Text} (ha : Tight a) (glue : Text) {ps : List Text}
    (hps : ∀ p ∈ ps, Tight p) : Tight (a ++ ps.flatMap (glue ++ ·)) := by
  induction ps generalizing a with
  | nil => simpa using ha
  | cons p ps ih =>
    rw [List.flatMap_cons, ← List.append_assoc, ← List.append_assoc]
    exact ih (ha.join (hps p List.mem_cons_self) glue) fun q hq => hps q (List.mem_cons_of_mem p hq)

end Text

/-! ## Folded values -/

theorem trim_joinedValue {v : Text} {vs : List Text} (hv : trim v = v) (hvs : ∀ w ∈ vs, Tight w) :
    trim (v ++ vs.flatMap (lineJoin ++ ·)) = v ++ vs.flatMap (lineJoin ++ ·) := by
  by_cases hne : v = []
  · subst hne
    cases vs with
    | nil => rfl
    | cons w vs =>
      obtain ⟨hw, hrest⟩ := List.forall_mem_cons.1 hvs
      -- the value begins with a mark
      have htight := (tight_lineJoin.join hw []).join_all lineJoin hrest
      rw [List.nil_append, List.flatMap_cons]
      simpa using htight.trim_eq
  · have htight : Tight v := hv ▸ tight_trim (by rwa [hv])
    exact (htight.join_all lineJoin hvs).trim_eq

theorem remove_joinedValue (v : Text) (vs : List Text) :
    Text.remove lineJoin (v ++ vs.flatMap (lineJoin ++ ·)) =
      (v :: vs).flatMap (Text.remove lineJoin) :=
  remove_join (c := '<') (by decide) v vs

theorem arrayElements_joinedValue (v : Text) (vs : List Text) :
    arrayElements (v ++ vs.flatMap (lineJoin ++ ·)) = (v :: vs).flatMap arrayElements := by
  have hpieces : pieces lineJoin (v ++ vs.flatMap (lineJoin ++ ·)) =
      (v :: vs).flatMap (pieces lineJoin) := pieces_join (c := '<') (by decide) v vs
  show _ = (v :: vs).flatMap fun w =>
    (((pieces lineJoin w).flatMap lineElements).filter fun e => !e.isEmpty).map
      (replace spaceEscape [' '])
  rw [arrayElements, hpieces, List.flatMap_assoc, List.filter_flatMap, List.map_flatMap]

theorem intercalate_joinedValue (v : Text) (vs : List Text) :
    lineJoin.intercalate (v :: vs) = v ++ vs.flatMap (lineJoin ++ ·) := by
  induction vs generalizing v with
  | nil => simp
  | cons w vs ih => rw [List.intercalate_cons_cons, ih, List.flatMap_cons]; simp

theorem remove_of_free {parts : List Text} (h : ∀ w ∈ parts, Text.occursIn lineJoin w = false) :
    parts.flatMap (Text.remove lineJoin) = parts.flatten := by
  rw [List.flatten_eq_flatMap]
  exact List.flatMap_congr fun w hw => remove_eq_self (occursIn_eq_false_iff.1 (h w hw))

/-- The lines of an array are taken apart where they were joined. -/
theorem arrayElements_append (a b : Text) :
    arrayElements (a ++ lineJoin ++ b) = arrayElements a ++ arrayElements b := by
  have h := arrayElements_joinedValue a [b]
  simpa using h

/-- The parts of a definition that goes on behind its first line. -/
theorem ofText_writes {t : DefinitionTable} {name v s : Text} (h : t.Writes name v s)
    (hname : Tight name) (hequals : '=' ∉ name) {more : Text} (hv : trim (v ++ more) = v ++ more) :
    Definition.ofText (s ++ more) =
      ⟨.table t, name, if t = .array then v ++ more else Text.remove lineJoin (v ++ more)⟩ := by
  obtain ⟨gap, left, right, hne, hgap, hleft, hright⟩ := h
  obtain ⟨hkne, hkeyword⟩ := t.keyword_chars
  have blank {c : Char} (hc : isBlank c = true) : c ≠ '=' := by
    rintro rfl
    cases hc
  have hfront : '=' ∉ t.keyword ++ gap ++ name ++ left := by
    simp only [List.mem_append, not_or]
    exact ⟨⟨⟨fun hc => (hkeyword _ hc).2 rfl, fun hc => blank (hgap _ hc) rfl⟩, hequals⟩,
      fun hc => blank (hleft _ hc) rfl⟩
  have htext : t.keyword ++ gap ++ name ++ left ++ '=' :: right ++ v ++ more =
      t.keyword ++ gap ++ name ++ left ++ '=' :: (right ++ (v ++ more)) := by simp
  have hwords := words_split hkne (fun c hc => (hkeyword c hc).1) hgap hne (name ++ left)
  have hshape : t.keyword ++ gap ++ name ++ left = t.keyword ++ (gap ++ (name ++ left)) := by simp
  have hstart : trimStart (name ++ left) = name ++ left := trimStart_of_head fun c hc =>
    hname.head c (by rwa [List.head?_append_of_ne_nil _ hname.ne_nil] at hc)
  rw [htext, Definition.ofText, before_append_cons hfront, after_append_cons hfront, hshape,
    hwords.1, hwords.2, hstart, trim_append_blank hname hleft, trim_blank_append_trim hright, hv,
    DefinitionKind.ofWord_keyword]
  simp

namespace Reader.State

/-- What comes of a definition in a table whose value is given in parts, one for each line. A text is
the parts without marks, an array the elements of the parts; nothing is stored if there is no value. -/
def defineParts (s : State) (t : DefinitionTable) (name : Text) (parts : List Text) (number : Nat) :
    Outcome :=
  match t with
  | .text t =>
    let value := parts.flatMap (Text.remove lineJoin)
    if value = [] then s.warn .missingValue number
    else (s.assign t name value).note (.assignment t name value)
  | .array =>
    if parts = [[]] then s.warn .missingValue number
    else (s.assignArray name (parts.flatMap arrayElements)).note
      (.array name (lineJoin.intercalate parts))

section

variable {t : DefinitionTable} {name v payload : Text} {vs : List Text}
  (hp : t.Writes name v payload) (hname : Tight name) (hequals : '=' ∉ name) (hv : trim v = v)
  (hvs : ∀ w ∈ vs, Tight w)

include hp hname hequals hv hvs

theorem obey_joined (supported : Float) (s : State) {l : LogicalLine}
    (hc : l.command? = some .define) (hl : l.text = payload ++ vs.flatMap (lineJoin ++ ·)) :
    s.obey supported l = s.defineParts t name (v :: vs) l.number := by
  have hd := ofText_writes hp hname hequals (trim_joinedValue hv hvs)
  rw [← hl] at hd
  simp only [obey, hc, define, hd]
  cases t with
  | text t =>
    simp only [complete, if_neg hname.ne_nil, reduceCtorEq, if_false, remove_joinedValue,
      defineParts]
  | array =>
    have hnil : v ++ vs.flatMap (lineJoin ++ ·) = [] ↔ v :: vs = [[]] := by
      cases vs <;> simp [lineJoin]
    simp only [complete, if_neg hname.ne_nil, if_true, hnil, arrayElements_joinedValue,
      intercalate_joinedValue, defineParts]

/-- A definition of a table that goes on below its line. The folded text is taken apart into the
parts of its value, whatever these begin and end with: a text is stored as the parts without the
marks in them, one after the other, and as the parts themselves if there are none; an array has the
elements of its parts, the elements of two joined texts being those of the one and of the other. -/
theorem define_folded (supported : Float) (s : State) :
    let text := payload ++ vs.flatMap (lineJoin ++ ·)
    (∀ concat rest, foldedPayloads (some .define) rest = vs →
      (fold concat (some .define) payload rest).text = text) ∧
    (∀ l : LogicalLine, l.command? = some .define → l.text = text →
      s.obey supported l = s.defineParts t name (v :: vs) l.number) ∧
    ((∀ w ∈ v :: vs, Text.occursIn lineJoin w = false) →
      (v :: vs).flatMap (Text.remove lineJoin) = (v :: vs).flatten) ∧
    ∀ a b, arrayElements (a ++ lineJoin ++ b) = arrayElements a ++ arrayElements b := by
  intro text
  refine ⟨?_, ?_, remove_of_free, arrayElements_append⟩
  · rintro concat rest rfl
    exact text_fold (by simp) concat rest
  · intro l hc hl
    exact obey_joined hp hname hequals hv hvs supported s hc hl

end

/-- Parts that begin and end in pieces of the mark: an array, a variable with a mark of its own in the
value, and a variable that has nothing but a mark for a value. -/
theorem define_folded_pieces :
    let array : Text := "array a =x<cr".toList
    let below : List Text := ["^lf>y|<crlf".toList, "^ > z".toList]
    let var : Text := "var b = x<crlf>< =".toList
    let empty : Text := "var c =".toList
    ∀ s : State,
      (fold [] (some .define) array below).text = "array a =x<cr<crlf>lf>y|<crlf<crlf>> z".toList ∧
      s.obey 2.0 ⟨'!', "array a =x<cr<crlf>lf>y|<crlf<crlf>> z".toList, none, 1⟩ =
        (s.assignArray ['a'] ["x<cr".toList, "lf>y".toList, "<crlf".toList, ['>'], ['z']]).note
          (.array ['a'] "x<cr<crlf>lf>y|<crlf<crlf>> z".toList) ∧
      s.obey 2.0 ⟨'!', var ++ "<crlf>crlf>".toList, none, 1⟩ =
        (s.assign .var ['b'] "x< =crlf>".toList).note (.assignment .var ['b'] "x< =crlf>".toList) ∧
      s.obey 2.0 ⟨'!', empty ++ "<crlf><crlf>".toList, none, 1⟩ = s.warn .missingValue 1 ∧
      Problem.missingValue.message = "Undefined variable value".toList := by
  intro array below var empty s
  have hblank : ∀ c ∈ [' '], isBlank c = true := by simp; decide
  have tight {w : Text} (h : trim w = w) (hne : w ≠ []) : Tight w := h ▸ tight_trim (by rwa [h])
  have harray : DefinitionTable.array.Writes ['a'] "x<cr".toList array :=
    .intro [' '] [' '] [] (by simp) hblank hblank (by simp)
  have hvar : (DefinitionTable.text .var).Writes ['b'] "x<crlf>< =".toList var :=
    .intro [' '] [' '] [' '] (by simp) hblank hblank hblank
  have hempty : (DefinitionTable.text .var).Writes ['c'] [] empty :=
    .intro [' '] [' '] [] (by simp) hblank hblank (by simp)
  have hlines : ∀ w ∈ ["lf>y|<crlf".toList, "> z".toList], Tight w := by
    simpa using ⟨tight (by decide) (by simp), tight (by decide) (by simp)⟩
  have hfragment : ∀ w ∈ ["crlf>".toList], Tight w := by
    simpa using tight (by decide) (by simp)
  have hmark : ∀ w ∈ ["<crlf>".toList], Tight w := by simpa using tight (by decide) (by simp)
  obtain ⟨hfold, hobey, -⟩ := define_folded harray (tight (by decide) (by simp)) (by decide)
    (by decide) hlines 2.0 s
  obtain ⟨-, hobey', -⟩ := define_folded hvar (tight (by decide) (by simp)) (by decide) (by decide)
    hfragment 2.0 s
  obtain ⟨-, hobey'', -⟩ := define_folded hempty (tight (by decide) (by simp)) (by decide)
    (by decide) hmark 2.0 s
  refine ⟨hfold [] below (by decide), ?_, ?_, ?_, rfl⟩
  · exact (hobey _ rfl rfl).trans rfl
  · exact (hobey' _ rfl rfl).trans rfl
  · exact (hobey'' _ rfl rfl).trans rfl

end Reader.State

end DialogueScript
