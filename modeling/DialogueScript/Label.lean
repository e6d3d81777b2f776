import DialogueScript.Document
import DialogueScript.Text.Lowercase

/-!
# Labels

A label opens or closes a block: the begin block, a topic, or a code object. The label of a topic
may relate it to other topics. What a label says is decided by its words (`ofText_eq_iff`).
-/

namespace DialogueScript

/-- Relations that a topic's label declares, with their targets. -/
abbrev Links := List (Relation × Text)

/-- The relation keywords set the relation of the words that follow them; words before the first
keyword have none and are dropped. -/
def Links.ofWords : Option Relation → List Text → Links
  | _, [] => []
  | current, w :: rest =>
    match Relation.ofKeyword? w, current with
    | some r, _ => ofWords (some r) rest
    | none, some r => (r, w) :: ofWords (some r) rest
    | none, none => ofWords none rest

/-- What follows the mark of an opening label. -/
inductive Label where
  | begin (links : Links)
  | topic (name : Text) (links : Links)
  | unnamedTopic
  | object (name : Text) (language : Option Text)
  | unknown (word : Text)
deriving DecidableEq, Repr

namespace Label

def beginKeyword : Text := "begin".toList

def topicKeyword : Text := "topic".toList

def objectKeyword : Text := ['o', 'b', 'j', 'e', 'c', 't']

/-- The words after the second one are a topic's relations; the first of them is the language of a
code object. -/
def ofText (s : Text) : Label :=
  let all := Text.words s
  let word := all.headD []
  let name := all.tail.headD []
  let fields := all.drop 2
  if word = beginKeyword then .begin (Links.ofWords none fields)
  else if word = topicKeyword then
    if name = [] then .unnamedTopic else .topic name (Links.ofWords none fields)
  else if word = objectKeyword then .object name (fields.head?.map Text.lowercase)
  else .unknown word

/-- The label that the words of a text make. -/
inductive Reads : List Text → Label → Prop
  | empty : Reads [] (.unknown [])
  | begin (rest : List Text) : Reads (beginKeyword :: rest) (.begin (Links.ofWords none (rest.drop 1)))
  | topic (name : Text) (fields : List Text) :
    Reads (topicKeyword :: name :: fields) (.topic name (Links.ofWords none fields))
  | unnamedTopic : Reads [topicKeyword] .unnamedTopic
  | object (rest : List Text) :
    Reads (objectKeyword :: rest)
      (.object (rest.headD []) ((rest.drop 1).head?.map Text.lowercase))
  | unknown (word : Text) (rest : List Text) (hb : word ≠ beginKeyword) (ht : word ≠ topicKeyword)
    (ho : word ≠ objectKeyword) : Reads (word :: rest) (.unknown word)

theorem reads_ofText (s : Text) : Reads (Text.words s) (ofText s) := by
  unfold ofText
  cases hw : Text.words s with
  | nil => exact .empty
  | cons word rest =>
    simp only [List.headD_cons, List.tail_cons, List.drop_succ_cons]
    split
    · next hb =>
      rw [hb]
      exact .begin rest
    split
    · next ht =>
      rw [ht]
      cases rest with
      | nil => exact .unnamedTopic
      | cons name fields =>
        have hname : name ≠ [] := Text.ne_nil_of_mem_words (s := s) (by simp [hw])
        rw [if_neg (by simpa using hname)]
        exact .topic name fields
    split
    · next ho =>
      rw [ho]
      exact .object rest
    · next hb ht ho => exact .unknown word rest hb ht ho

theorem ofText_of_reads {s : Text} {label : Label} (h : Reads (Text.words s) label) :
    ofText s = label := by
  unfold ofText
  generalize hw : Text.words s = ws at h
  cases h with
  | empty => rfl
  | begin rest => rfl
  | topic name fields =>
    have hname : name ≠ [] := Text.ne_nil_of_mem_words (s := s) (by simp [hw])
    have hword : topicKeyword ≠ beginKeyword := by decide
    simp [hname, hword]
  | unnamedTopic => rfl
  | object rest => rfl
  | unknown word rest hb ht ho => simp [hb, ht, ho]

/-- The words of a text decide on its label. -/
theorem ofText_eq_iff {s : Text} {label : Label} : ofText s = label ↔ Reads (Text.words s) label :=
  ⟨fun h => h ▸ reads_ofText s, ofText_of_reads⟩

section

variable {s name : Text} {links : Links} {language : Option Text}

theorem ofText_eq_begin_iff : ofText s = .begin links ↔
    ∃ rest, Text.words s = beginKeyword :: rest ∧ links = Links.ofWords none (rest.drop 1) := by
  rw [ofText_eq_iff]
  generalize Text.words s = ws
  constructor
  · intro h
    cases h with
    | begin rest => exact ⟨rest, rfl, rfl⟩
  · rintro ⟨rest, rfl, rfl⟩
    exact .begin rest

theorem ofText_eq_topic_iff : ofText s = .topic name links ↔
    ∃ fields, Text.words s = topicKeyword :: name :: fields ∧
      links = Links.ofWords none fields := by
  rw [ofText_eq_iff]
  generalize Text.words s = ws
  constructor
  · intro h
    cases h with
    | topic name fields => exact ⟨fields, rfl, rfl⟩
  · rintro ⟨fields, rfl, rfl⟩
    exact .topic name fields

theorem ofText_eq_object_iff : ofText s = .object name language ↔
    ∃ rest, Text.words s = objectKeyword :: rest ∧ name = rest.headD [] ∧
      language = (rest.drop 1).head?.map Text.lowercase := by
  rw [ofText_eq_iff]
  generalize Text.words s = ws
  constructor
  · intro h
    cases h with
    | object rest => exact ⟨rest, rfl, rfl, rfl⟩
  · rintro ⟨rest, rfl, rfl, rfl⟩
    exact .object rest

end

/-- The line closes a code object: its first two things are `<` and a word that starts with the
keyword of objects. -/
def closesObject (line : Text) : Bool :=
  match Text.trimStart line with
  | '<' :: rest => objectKeyword.isPrefixOf (Text.trimStart rest)
  | _ => false

theorem closesObject_iff {line : Text} : closesObject line = true ↔
    ∃ front gap rest : Text,
      (∀ c ∈ front, Text.isBlank c = true) ∧ (∀ c ∈ gap, Text.isBlank c = true) ∧
        line = front ++ '<' :: (gap ++ (objectKeyword ++ rest)) := by
  constructor
  · intro h
    unfold closesObject at h
    split at h
    · next behind hmark =>
      obtain ⟨rest, hrest⟩ := List.isPrefixOf_iff_prefix.1 h
      obtain ⟨front, hfront, hline⟩ := Text.eq_append_trimStart line
      obtain ⟨gap, hgap, hbehind⟩ := Text.eq_append_trimStart behind
      exact ⟨front, gap, rest, hfront, hgap, by rw [hrest, ← hbehind, ← hmark, ← hline]⟩
    · cases h
  · rintro ⟨front, gap, rest, hfront, hgap, rfl⟩
    have hmark : Text.trimStart (front ++ '<' :: (gap ++ (objectKeyword ++ rest))) =
        '<' :: (gap ++ (objectKeyword ++ rest)) :=
      Text.trimStart_blank_append hfront (by simp; decide)
    have hkeyword : Text.trimStart (gap ++ (objectKeyword ++ rest)) = objectKeyword ++ rest :=
      Text.trimStart_blank_append hgap (by simp [objectKeyword]; decide)
    unfold closesObject
    rw [hmark]
    simp only [hkeyword]
    exact List.isPrefixOf_iff_prefix.2 (List.prefix_append _ _)

end Label

end DialogueScript
