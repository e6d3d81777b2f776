import DialogueScript.Proofs.Dispatch
import Mathlib.Data.List.Induction
import Mathlib.Data.List.TakeWhile

/-!
# Scopes

Which statements belong to which rule, told by ranges of statements alone. The scope of a rule are
the statements below its pattern, up to the next one that begins a rule, enters or leaves a topic,
or opens a code object. `rulesFrom` are the rules that the scopes give; `strays` are the statements
that would extend a rule but are in no scope.
-/

namespace DialogueScript

namespace LogicalLine

/-! ## Where scopes begin and end -/

def startsRule (l : LogicalLine) : Bool := l.command? = some .trigger

/-- The topic that is active behind the line, if the line enters or leaves one. -/
def leadsTo? (l : LogicalLine) : Option Text :=
  match l.command? with
  | some .labelOpen =>
    match Label.ofText l.text with
    | .begin _ => some beginTopic
    | .topic name _ => some name
    | _ => none
  | some .labelClose =>
    if l.text = Label.beginKeyword ∨ l.text = Label.topicKeyword then some defaultTopic else none
  | _ => none

/-- The begin block and topics are entered by the words of an opening label, and left by a closing
label that is the keyword alone. -/
theorem leadsTo?_eq_some_iff {l : LogicalLine} {topic : Text} : l.leadsTo? = some topic ↔
    l.command? = some .labelOpen ∧
        ((∃ rest, Text.words l.text = Label.beginKeyword :: rest ∧ topic = beginTopic) ∨
          ∃ fields, Text.words l.text = Label.topicKeyword :: topic :: fields) ∨
      l.command? = some .labelClose ∧
        (l.text = Label.beginKeyword ∨ l.text = Label.topicKeyword) ∧ topic = defaultTopic := by
  constructor
  · intro h
    unfold leadsTo? at h
    split at h
    · next hc =>
      split at h
      · next hl =>
        cases h
        obtain ⟨rest, hw, -⟩ := Label.ofText_eq_begin_iff.1 hl
        exact .inl ⟨hc, .inl ⟨rest, hw, rfl⟩⟩
      · next hl =>
        cases h
        obtain ⟨fields, hw, -⟩ := Label.ofText_eq_topic_iff.1 hl
        exact .inl ⟨hc, .inr ⟨fields, hw⟩⟩
      · cases h
    · next hc =>
      obtain ⟨hk, ht⟩ := Option.ite_none_right_eq_some.1 h
      exact .inr ⟨hc, hk, (Option.some.inj ht).symm⟩
    · cases h
  · rintro (⟨hc, ⟨rest, hw, rfl⟩ | ⟨fields, hw⟩⟩ | ⟨hc, hk, rfl⟩)
    · simp only [leadsTo?, hc, Label.ofText_eq_begin_iff.2 ⟨rest, hw, rfl⟩]
    · simp only [leadsTo?, hc, Label.ofText_eq_topic_iff.2 ⟨fields, hw, rfl⟩]
    · simp only [leadsTo?, hc, if_pos hk]

def endsScope (l : LogicalLine) : Bool := l.startsRule || l.leadsTo?.isSome || l.object?.isSome

/-- Scopes end at patterns, at opening labels of the begin block, of a topic with a name and of a
code object, and at the closing labels of the begin block and of topics. -/
theorem endsScope_iff {l : LogicalLine} : l.endsScope = true ↔
    l.command? = some .trigger ∨
      l.command? = some .labelOpen ∧
        (∃ word rest, Text.words l.text = word :: rest ∧
          (word = Label.beginKeyword ∨ word = Label.topicKeyword ∧ rest ≠ [] ∨
            word = Label.objectKeyword)) ∨
      l.command? = some .labelClose ∧
        (l.text = Label.beginKeyword ∨ l.text = Label.topicKeyword) := by
  have hstarts : l.startsRule = true ↔ l.command? = some .trigger := by simp [startsRule]
  rw [endsScope, Bool.or_eq_true, Bool.or_eq_true, hstarts, Option.isSome_iff_exists,
    Option.isSome_iff_exists]
  constructor
  · rintro ((hc | ⟨topic, h⟩) | ⟨⟨name, language⟩, h⟩)
    · exact .inl hc
    · rcases leadsTo?_eq_some_iff.1 h with ⟨hc, ⟨rest, hw, -⟩ | ⟨fields, hw⟩⟩ | ⟨hc, hk, -⟩
      · exact .inr (.inl ⟨hc, _, rest, hw, .inl rfl⟩)
      · exact .inr (.inl ⟨hc, _, _, hw, .inr (.inl ⟨rfl, List.cons_ne_nil _ _⟩)⟩)
      · exact .inr (.inr ⟨hc, hk⟩)
    · obtain ⟨hc, rest, hw, -⟩ := object?_eq_some_iff.1 h
      exact .inr (.inl ⟨hc, _, rest, hw, .inr (.inr rfl)⟩)
  · rintro (hc | ⟨hc, word, rest, hw, rfl | ⟨rfl, hr⟩ | rfl⟩ | ⟨hc, hk⟩)
    · exact .inl (.inl hc)
    · exact .inl (.inr ⟨_, leadsTo?_eq_some_iff.2 (.inl ⟨hc, .inl ⟨rest, hw, rfl⟩⟩)⟩)
    · obtain ⟨name, fields, rfl⟩ := List.exists_cons_of_ne_nil hr
      exact .inl (.inr ⟨name, leadsTo?_eq_some_iff.2 (.inl ⟨hc, .inr ⟨fields, hw⟩⟩)⟩)
    · exact .inr ⟨⟨_, _⟩, object?_eq_some_iff.2 ⟨hc, rest, hw, rfl, rfl⟩⟩
    · exact .inl (.inr ⟨_, leadsTo?_eq_some_iff.2 (.inr ⟨hc, hk, rfl⟩)⟩)

/-- Only patterns and labels end scopes. -/
theorem endsScope_of_command {l : LogicalLine} (ht : l.command? ≠ some .trigger)
    (ho : l.command? ≠ some .labelOpen) (hc : l.command? ≠ some .labelClose) :
    l.endsScope = false := by
  refine eq_false_of_ne_true fun h => ?_
  rcases endsScope_iff.1 h with h | ⟨h, -⟩ | ⟨h, -⟩
  · exact ht h
  · exact ho h
  · exact hc h

theorem endsScope_of_startsRule {l : LogicalLine} (h : l.startsRule = true) : l.endsScope = true := by
  simp [endsScope, h]

theorem not_startsRule {l : LogicalLine} (h : l.endsScope = false) : l.startsRule = false := by
  cases hs : l.startsRule with
  | false => rfl
  | true => exact absurd (endsScope_of_startsRule hs) (by simp [h])

theorem leadsTo?_none {l : LogicalLine} (h : l.endsScope = false) : l.leadsTo? = none := by
  cases hl : l.leadsTo? with
  | none => rfl
  | some topic => simp [endsScope, hl] at h

/-- What extends a rule does not end its scope. -/
theorem endsScope_of_extendsRule {l : LogicalLine} (h : l.extendsRule = true) :
    l.endsScope = false := by
  have hc : l.command? = some .response ∨ l.command? = some .condition ∨
      l.command? = some .redirect := by
    simpa [extendsRule, or_assoc] using h
  rcases hc with hc | hc | hc <;> exact endsScope_of_command (by simp [hc]) (by simp [hc]) (by simp [hc])

theorem not_extendsRule {l : LogicalLine} (h : l.endsScope = true) : l.extendsRule = false := by
  cases hx : l.extendsRule with
  | false => rfl
  | true =>
    rw [endsScope_of_extendsRule hx] at h
    cases h

/-! ## Statements that leave scopes alone -/

/-- The line neither ends a scope nor extends a rule. -/
structure Passes (l : LogicalLine) : Prop where
  scope : l.endsScope = false
  rule : l.extendsRule = false

theorem passes_command {l : LogicalLine}
    (hc : l.command? ∈ [some .define, some .previous, some .continuation]) : l.Passes := by
  have hc : l.command? = some .define ∨ l.command? = some .previous ∨
      l.command? = some .continuation := by simpa using hc
  rcases hc with hc | hc | hc <;>
    exact ⟨endsScope_of_command (by simp [hc]) (by simp [hc]) (by simp [hc]),
      by simp [extendsRule, hc]⟩

theorem passes_labelOpen {l : LogicalLine} (hc : l.command? = some .labelOpen)
    (hl : Label.ofText l.text = .unnamedTopic ∨ ∃ word, Label.ofText l.text = .unknown word) :
    l.Passes := by
  rcases hl with hl | ⟨word, hl⟩ <;>
    exact ⟨by simp [endsScope, startsRule, leadsTo?, object?, hc, hl], by simp [extendsRule, hc]⟩

theorem passes_labelClose {l : LogicalLine} (hc : l.command? = some .labelClose)
    (hl : ¬(l.text = Label.beginKeyword ∨ l.text = Label.topicKeyword)) : l.Passes :=
  ⟨eq_false_of_ne_true fun h => hl (by simpa [hc] using endsScope_iff.1 h),
    by simp [extendsRule, hc]⟩

end LogicalLine

/-- The statements up to the end of the scope that they are in. -/
def scope (after : List LogicalLine) : List LogicalLine := after.takeWhile (!·.endsScope)

theorem scope_of_ends {l : LogicalLine} (h : l.endsScope = true) (after : List LogicalLine) :
    scope (l :: after) = [] := by
  simp [scope, h]

theorem scope_of_not_ends {l : LogicalLine} (h : l.endsScope = false) (after : List LogicalLine) :
    scope (l :: after) = l :: scope after := by
  simp [scope, h]

/-! ## The rules of scopes -/

/-- The texts of the statements with a command. -/
def textsOf (c : Command) (ls : List LogicalLine) : List Text :=
  (ls.filter (·.command? = some c)).map (·.text)

theorem textsOf_nil (c : Command) : textsOf c [] = [] := rfl

theorem textsOf_cons (c : Command) (l : LogicalLine) (ls : List LogicalLine) :
    textsOf c (l :: ls) = if l.command? = some c then l.text :: textsOf c ls else textsOf c ls := by
  unfold textsOf
  by_cases h : l.command? = some c <;> simp [h]

/-- The rule of a pattern with the statements below it. -/
def ruleOf (l : LogicalLine) (after : List LogicalLine) : Rule where
  pattern := l.text
  replies := textsOf .response (scope after)
  conditions := textsOf .condition (scope after)
  redirect := (textsOf .redirect (scope after)).getLast?
  previous := l.previous

/-- The rules of the patterns in order, each with the topic that is active at its pattern. -/
def rulesFrom (topic : Text) : List LogicalLine → List (Text × Rule)
  | [] => []
  | l :: after =>
    let later := rulesFrom (l.leadsTo?.getD topic) after
    if l.startsRule then (topic, ruleOf l after) :: later else later

theorem rulesFrom_of_not_starts {l : LogicalLine} (h : l.startsRule = false) (topic : Text)
    (after : List LogicalLine) :
    rulesFrom topic (l :: after) = rulesFrom (l.leadsTo?.getD topic) after := by
  rw [rulesFrom, h]
  rfl

/-- A statement inside a scope begins no rule and changes no topic. -/
theorem rulesFrom_of_not_ends {l : LogicalLine} (h : l.endsScope = false) (topic : Text)
    (after : List LogicalLine) : rulesFrom topic (l :: after) = rulesFrom topic after := by
  rw [rulesFrom_of_not_starts (LogicalLine.not_startsRule h), LogicalLine.leadsTo?_none h]
  rfl

/-- A pattern begins the rule of its scope in the active topic. -/
theorem rulesFrom_of_starts {l : LogicalLine} (h : l.startsRule = true) (topic : Text)
    (after : List LogicalLine) :
    rulesFrom topic (l :: after) = (topic, ruleOf l after) :: rulesFrom topic after := by
  have hc : l.command? = some .trigger := by simpa [LogicalLine.startsRule] using h
  have hl : l.leadsTo? = none := by simp [LogicalLine.leadsTo?, hc]
  rw [rulesFrom, h, hl]
  rfl

theorem Rule.extendBy_of_not {l : LogicalLine} (h : l.extendsRule = false) (r : Rule) :
    r.extendBy l = r := by
  unfold extendBy
  split <;> simp_all [LogicalLine.extendsRule]

/-- The rule with what the lines add to it. -/
def Rule.extendAll (r : Rule) (ls : List LogicalLine) : Rule := ls.foldl Rule.extendBy r

/-- Replies and conditions are added in order, and the last redirect counts. -/
theorem Rule.extendAll_eq (r : Rule) (ls : List LogicalLine) :
    r.extendAll ls =
      { r with
        replies := r.replies ++ textsOf .response ls
        conditions := r.conditions ++ textsOf .condition ls
        redirect := (textsOf .redirect ls).getLast?.or r.redirect } := by
  unfold extendAll
  induction ls generalizing r with
  | nil => simp [textsOf]
  | cons l ls ih =>
    rw [List.foldl_cons, ih]
    simp only [textsOf_cons, extendBy]
    split <;> simp_all [List.getLast?_cons]

theorem ruleOf_eq (l : LogicalLine) (after : List LogicalLine) :
    ruleOf l after =
      Rule.extendAll { pattern := l.text, previous := l.previous } (scope after) := by
  rw [Rule.extendAll_eq]
  simp [ruleOf]

/-! ## Strays -/

/-- The statement behind `before` is in the scope of one of them. -/
def Covered (before : List LogicalLine) : Prop :=
  ∃ front l back, before = front ++ l :: back ∧ l.startsRule = true ∧ scope back = back

theorem not_covered_nil : ¬Covered [] := by
  rintro ⟨front, l, back, h, -⟩
  simp at h

theorem scope_eq_self_iff {ls : List LogicalLine} :
    scope ls = ls ↔ ∀ l ∈ ls, l.endsScope = false := by
  rw [scope, List.takeWhile_eq_self_iff]
  simp only [Bool.not_eq_true']

/-- The last statement that ends a scope begins a new one. -/
def covers (before : List LogicalLine) : Bool :=
  before.foldl (fun covered l => if l.endsScope then l.startsRule else covered) false

theorem covers_append (before : List LogicalLine) (l : LogicalLine) :
    covers (before ++ [l]) = if l.endsScope then l.startsRule else covers before := by
  simp [covers]

section

variable {before : List LogicalLine} {l : LogicalLine}

/-- Behind the end of a scope only a pattern covers. -/
theorem covered_append_of_ends (h : l.endsScope = true) :
    Covered (before ++ [l]) ↔ l.startsRule = true := by
  constructor
  · rintro ⟨front, p, back, he, hp, hb⟩
    have hlast : (p :: back).getLast? = some l := by
      have := congrArg List.getLast? he
      simpa [List.getLast?_cons] using this.symm
    have hmem : l ∈ p :: back := List.mem_of_getLast? hlast
    rcases List.mem_cons.1 hmem with rfl | hmem
    · exact hp
    · rw [scope_eq_self_iff.1 hb l hmem] at h
      cases h
  · intro hs
    exact ⟨before, l, [], rfl, hs, rfl⟩

/-- A statement inside a scope changes nothing of what is covered. -/
theorem covered_append_of_not_ends (h : l.endsScope = false) :
    Covered (before ++ [l]) ↔ Covered before := by
  constructor
  · rintro ⟨front, p, back, he, hp, hb⟩
    rcases List.eq_nil_or_concat back with rfl | ⟨back, x, rfl⟩
    · obtain ⟨-, hl⟩ := List.append_inj' he rfl
      obtain rfl := List.singleton_inj.1 hl
      rw [LogicalLine.not_startsRule h] at hp
      cases hp
    · rw [List.concat_eq_append] at he hb
      rw [← List.cons_append, ← List.append_assoc] at he
      obtain ⟨rfl, -⟩ := List.append_inj' he rfl
      refine ⟨front, p, back, rfl, hp, scope_eq_self_iff.2 ?_⟩
      intro y hy
      exact scope_eq_self_iff.1 hb y (List.mem_append_left _ hy)
  · rintro ⟨front, p, back, rfl, hp, hb⟩
    refine ⟨front, p, back ++ [l], by simp, hp, scope_eq_self_iff.2 ?_⟩
    intro y hy
    rcases List.mem_append.1 hy with hy | hy
    · exact scope_eq_self_iff.1 hb y hy
    · rw [List.mem_singleton.1 hy, h]

/-- Being covered is decided by the last statement that ends a scope. -/
theorem covers_iff : covers before = true ↔ Covered before := by
  induction before using List.reverseRecOn with
  | nil => exact iff_of_false (by simp [covers]) not_covered_nil
  | append_singleton before l ih =>
    rw [covers_append]
    cases h : l.endsScope with
    | true => exact (covered_append_of_ends h).symm
    | false => exact ih.trans (covered_append_of_not_ends h).symm

instance (before : List LogicalLine) : Decidable (Covered before) :=
  decidable_of_iff _ covers_iff

end

/-- The statements below `before` that would extend a rule but are in no scope. -/
def strays (before : List LogicalLine) : List LogicalLine → List LogicalLine
  | [] => []
  | l :: after =>
    let later := strays (before ++ [l]) after
    if l.extendsRule ∧ ¬Covered before then l :: later else later

section

variable {before : List LogicalLine} {l : LogicalLine} (after : List LogicalLine)

theorem strays_of_stray (hx : l.extendsRule = true) (hb : ¬Covered before) :
    strays before (l :: after) = l :: strays (before ++ [l]) after := by
  rw [strays, if_pos ⟨hx, hb⟩]

theorem strays_of_covered (hb : Covered before) :
    strays before (l :: after) = strays (before ++ [l]) after := by
  rw [strays, if_neg]
  rintro ⟨-, hn⟩
  exact hn hb

theorem strays_of_not_extends (hx : l.extendsRule = false) :
    strays before (l :: after) = strays (before ++ [l]) after := by
  rw [strays, if_neg]
  rintro ⟨hn, -⟩
  rw [hx] at hn
  cases hn

/-- A statement counts among the strays of its command only if it has the command. -/
theorem textsOf_strays_cons {c : Command} (hl : l.command? ≠ some c) :
    textsOf c (strays before (l :: after)) = textsOf c (strays (before ++ [l]) after) := by
  rw [strays]
  split
  · rw [textsOf_cons, if_neg hl]
  · rfl

end

/-- Every text of a command that extends rules is in the rule of its scope, or it is a stray. -/
theorem length_textsOf {c : Command} {f : Rule → List Text}
    (hc : ∀ l : LogicalLine, l.command? = some c → l.extendsRule = true)
    (hf : ∀ l after, f (ruleOf l after) = textsOf c (scope after)) (topic : Text)
    (before ls : List LogicalLine) :
    (textsOf c ls).length =
      (if Covered before then (textsOf c (scope ls)).length else 0) +
        ((rulesFrom topic ls).flatMap fun r => f r.2).length +
        (textsOf c (strays before ls)).length := by
  induction ls generalizing topic before with
  | nil => simp [textsOf, scope, rulesFrom, strays]
  | cons l after ih =>
    cases he : l.endsScope with
    | true =>
      have hx := LogicalLine.not_extendsRule he
      have hl : l.command? ≠ some c := by
        intro hl
        rw [hc l hl] at hx
        cases hx
      rw [textsOf_cons, if_neg hl, scope_of_ends he, textsOf_nil, List.length_nil, ite_self,
        strays_of_not_extends after hx]
      cases hs : l.startsRule with
      | true =>
        have ih := ih topic (before ++ [l])
        rw [if_pos ((covered_append_of_ends he).2 hs)] at ih
        rw [rulesFrom_of_starts hs, List.flatMap_cons, List.length_append, hf]
        omega
      | false =>
        have ih := ih (l.leadsTo?.getD topic) (before ++ [l])
        have hb : ¬Covered (before ++ [l]) := by simp [covered_append_of_ends he, hs]
        rw [if_neg hb] at ih
        rw [rulesFrom_of_not_starts hs]
        exact ih
    | false =>
      have ih := ih topic (before ++ [l])
      simp only [covered_append_of_not_ends he] at ih
      rw [scope_of_not_ends he, rulesFrom_of_not_ends he]
      by_cases hl : l.command? = some c
      · rw [textsOf_cons, textsOf_cons, if_pos hl, if_pos hl, List.length_cons, List.length_cons]
        by_cases hb : Covered before
        · rw [strays_of_covered after hb]
          rw [if_pos hb] at ih ⊢
          omega
        · rw [strays_of_stray after (hc l hl) hb, textsOf_cons, if_pos hl, List.length_cons]
          rw [if_neg hb] at ih ⊢
          omega
      · rw [textsOf_strays_cons after hl, textsOf_cons, textsOf_cons, if_neg hl, if_neg hl]
        exact ih

end DialogueScript
