import DialogueScript.Proofs.Invariant

/-!
# Merging documents

`merge` lays one document on top of another: the tables are assigned entry by entry, the topics are
united and their rules put behind each other. Every edit of the upper document is the same edit of
the merged one (`merge_assign`, `merge_addRule`, …). Tables without repeats are known by their names
and values (`Table.ext`), so each of these equations is checked through the two views of a table.
-/

namespace DialogueScript

/-! ## Sets of names -/

namespace Names

def union (a b : Names) : Names := b.foldl add a

theorem mem_union {a b : Names} {x : Text} : x ∈ a.union b ↔ x ∈ a ∨ x ∈ b := by
  unfold union
  induction b generalizing a with
  | nil => simp
  | cons y b ih => simp only [List.foldl_cons, ih, mem_add, List.mem_cons, or_assoc]

theorem nodup_union {a : Names} (h : a.Nodup) (b : Names) : (a.union b).Nodup := by
  unfold union
  induction b generalizing a with
  | nil => exact h
  | cons y b ih => exact ih (nodup_add h y)

theorem union_add (a b : Names) (x : Text) : a.union (b.add x) = (a.union b).add x := by
  by_cases h : x ∈ b
  · have hu : x ∈ a.union b := mem_union.2 (.inr h)
    rw [add, add, if_pos h, if_pos hu]
  · rw [add, if_neg h, union, List.foldl_append]
    rfl

end Names

/-! ## Tables -/

namespace Table

variable {α : Type}

theorem names_cons (p : Text × α) (t : Table α) : names (p :: t) = p.1 :: names t := rfl

theorem get?_eq_none_iff {t : Table α} {name : Text} : get? t name = none ↔ name ∉ names t := by
  rw [← isSome_get?_iff]
  cases get? t name <;> simp

/-- A table that repeats no name is known by its names, in order, and the values under them. -/
theorem ext {t u : Table α} (hn : names t = names u) (ht : (names t).Nodup)
    (h : ∀ name, get? t name = get? u name) : t = u := by
  induction t generalizing u with
  | nil =>
    cases u with
    | nil => rfl
    | cons q u => simp [names] at hn
  | cons p t ih =>
    cases u with
    | nil => simp [names] at hn
    | cons q u =>
      obtain ⟨n, v⟩ := p
      obtain ⟨m, w⟩ := q
      obtain ⟨rfl, hn'⟩ : n = m ∧ names t = names u := by simpa [names] using hn
      have hnt : n ∉ names t ∧ (names t).Nodup := List.nodup_cons.1 ht
      have hv : v = w := by simpa [get?] using h n
      have hrest : ∀ name, get? t name = get? u name := by
        intro name
        by_cases he : n = name
        · subst he
          rw [get?_eq_none_iff.2 hnt.1, get?_eq_none_iff.2 (hn' ▸ hnt.1)]
        · simpa [get?, he] using h name
      rw [hv, ih hn' hnt.2 hrest]

/-- Assigns every pair of `u` in order. -/
def assignAll (t u : Table α) : Table α := u.foldl (fun t p => t.assign p.1 p.2) t

/-- The names of the second table that are new stand behind those of the first. -/
theorem names_assignAll (t u : Table α) : names (assignAll t u) = (names t).union (names u) := by
  unfold assignAll Names.union
  induction u generalizing t with
  | nil => rfl
  | cons p u ih => rw [List.foldl_cons, ih, names_assign, names_cons, List.foldl_cons]

/-- The values of the second table count. -/
theorem get?_assignAll (t : Table α) {u : Table α} (h : (names u).Nodup) (name : Text) :
    get? (assignAll t u) name = (get? u name).or (get? t name) := by
  induction u generalizing t with
  | nil => simp [assignAll, get?]
  | cons p u ih =>
    obtain ⟨n, v⟩ := p
    have hnu : n ∉ names u ∧ (names u).Nodup := List.nodup_cons.1 h
    show get? (assignAll (t.assign n v) u) name = _
    rw [ih _ hnu.2, get?_assign]
    by_cases he : n = name
    · subst he
      simp [get?, get?_eq_none_iff.2 hnu.1]
    · simp [get?, he]

/-- An assignment to the second table can be made to both together. -/
theorem assignAll_assign {t u : Table α} (ht : (names t).Nodup) (hu : (names u).Nodup) (name : Text)
    (value : α) : assignAll t (assign u name value) = assign (assignAll t u) name value := by
  have hu' : (names (assign u name value)).Nodup := names_assign u name value ▸ Names.nodup_add hu name
  apply ext
  · rw [names_assignAll, names_assign, names_assign, names_assignAll, Names.union_add]
  · rw [names_assignAll]
    exact Names.nodup_union ht _
  · intro other
    rw [get?_assignAll t hu', get?_assign, get?_assign, get?_assignAll t hu]
    split <;> rfl

end Table

/-! ## Topics -/

/-- The relations of both topics, and the rules of the first before those of the second. -/
def Topic.merge (t u : Topic) : Topic :=
  ⟨t.includes.union u.includes, t.inherits.union u.inherits, t.rules ++ u.rules⟩

theorem Topic.merge_empty (t : Topic) : t.merge {} = t := by
  simp [merge, Names.union]

theorem Topic.merge_addRule (t u : Topic) (r : Rule) :
    t.merge (u.addRule r) = (t.merge u).addRule r := by
  simp [merge, addRule]

theorem Topic.merge_relate (t u : Topic) (r : Relation) (target : Text) :
    t.merge (u.relate r target) = (t.merge u).relate r target := by
  cases r <;> simp [merge, relate, Names.union_add]

/-- The rules of the second topic stand behind those of the first, so their places move. -/
theorem Topic.merge_modifyRule (t u : Topic) (i : Nat) (f : Rule → Rule) :
    t.merge (u.modifyRule i f) = (t.merge u).modifyRule (i + t.rules.length) f := by
  have hm := List.modifyTailIdx_add (List.modifyHead f) i t.rules u.rules
  simp only [merge, modifyRule, Nat.add_comm i]
  exact congrArg _ hm.symm

namespace Table

/-- Takes the topics of `u` in order, creates each on first mention and merges it in. -/
def mergeTopics (t u : Table Topic) : Table Topic :=
  u.foldl (fun t p => (t.ensure p.1 {}).modify p.1 (·.merge p.2)) t

theorem names_mergeTopics (t u : Table Topic) :
    names (mergeTopics t u) = (names t).union (names u) := by
  unfold mergeTopics Names.union
  induction u generalizing t with
  | nil => rfl
  | cons p u ih =>
    rw [List.foldl_cons, ih, names_modify, names_ensure, names_cons, List.foldl_cons]

theorem get?_mergeTopics (t : Table Topic) {u : Table Topic} (h : (names u).Nodup) (name : Text) :
    get? (mergeTopics t u) name =
      ((get? u name).map fun v => ((get? t name).getD {}).merge v).or (get? t name) := by
  induction u generalizing t with
  | nil => simp [mergeTopics, get?]
  | cons p u ih =>
    obtain ⟨n, v⟩ := p
    have hnu : n ∉ names u ∧ (names u).Nodup := List.nodup_cons.1 h
    show get? (mergeTopics ((t.ensure n {}).modify n (·.merge v)) u) name = _
    rw [ih _ hnu.2, get?_modify, get?_ensure]
    by_cases he : n = name
    · subst he
      cases hg : get? t n <;> simp [get?, get?_eq_none_iff.2 hnu.1]
    · simp [get?, he]

theorem nodup_mergeTopics {t : Table Topic} (h : (names t).Nodup) (u : Table Topic) :
    (names (mergeTopics t u)).Nodup := by
  rw [names_mergeTopics]
  exact Names.nodup_union h _

theorem mergeTopics_ensure {t u : Table Topic} (ht : (names t).Nodup) (hu : (names u).Nodup)
    (name : Text) : mergeTopics t (u.ensure name {}) = (mergeTopics t u).ensure name {} := by
  have hu' : (names (u.ensure name {})).Nodup := names_ensure u name _ ▸ Names.nodup_add hu name
  apply ext
  · rw [names_mergeTopics, names_ensure, names_ensure, names_mergeTopics, Names.union_add]
  · exact nodup_mergeTopics ht _
  · intro other
    rw [get?_mergeTopics t hu', get?_ensure, get?_ensure, get?_mergeTopics t hu]
    cases get? u other with
    | some v => rfl
    | none =>
      by_cases he : name = other
      · cases get? t other <;> simp [he, Topic.merge_empty]
      · simp [he]

/-- A change of a topic in `u` is the change `g` of the merged topic, if merging turns the one into
the other. -/
theorem mergeTopics_modify {t u : Table Topic} (ht : (names t).Nodup) (hu : (names u).Nodup)
    {name : Text} (hn : name ∈ names u) {f g : Topic → Topic}
    (hfg : ∀ v, ((get? t name).getD {}).merge (f v) = g (((get? t name).getD {}).merge v)) :
    mergeTopics t (u.modify name f) = (mergeTopics t u).modify name g := by
  have hu' : (names (u.modify name f)).Nodup := (names_modify u name f).symm ▸ hu
  apply ext
  · rw [names_mergeTopics, names_modify, names_modify, names_mergeTopics]
  · exact nodup_mergeTopics ht _
  · intro other
    rw [get?_mergeTopics t hu', get?_modify, get?_modify, get?_mergeTopics t hu]
    by_cases he : name = other
    · subst he
      obtain ⟨v, hv⟩ := Option.isSome_iff_exists.1 (isSome_get?_iff.2 hn)
      simp [hv, hfg]
    · simp [he]

end Table

/-! ## Documents -/

namespace Document

/-- The upper document `e` on top of `d`. -/
def merge (d e : Document) : Document where
  definitions :=
    { global := d.definitions.global.assignAll e.definitions.global
      var := d.definitions.var.assignAll e.definitions.var
      sub := d.definitions.sub.assignAll e.definitions.sub
      person := d.definitions.person.assignAll e.definitions.person
      array := d.definitions.array.assignAll e.definitions.array }
  topics := d.topics.mergeTopics e.topics
  objects := d.objects ++ e.objects

theorem merge_empty (d : Document) : d.merge {} = d := by
  simp only [merge, List.append_nil]
  rfl

section

variable {d e : Document} (hd : d.Distinct) (he : e.Distinct)

include hd he

theorem merge_assign (t : TextTable) (name value : Text) :
    d.merge { e with definitions := e.definitions.assign name value t } =
      { d.merge e with definitions := (d.merge e).definitions.assign name value t } := by
  cases t with
  | global => simp only [merge, Definitions.assign, Table.assignAll_assign hd.global he.global]
  | var => simp only [merge, Definitions.assign, Table.assignAll_assign hd.var he.var]
  | sub => simp only [merge, Definitions.assign, Table.assignAll_assign hd.sub he.sub]
  | person => simp only [merge, Definitions.assign, Table.assignAll_assign hd.person he.person]

theorem merge_assignArray (name : Text) (elements : List Text) :
    d.merge { e with definitions := e.definitions.assignArray name elements } =
      { d.merge e with definitions := (d.merge e).definitions.assignArray name elements } := by
  simp only [merge, Definitions.assignArray, Table.assignAll_assign hd.array he.array]

theorem merge_ensureTopic (topic : Text) :
    d.merge (e.ensureTopic topic) = (d.merge e).ensureTopic topic := by
  simp only [merge, ensureTopic, Table.mergeTopics_ensure hd.topics he.topics]

/-- A change of a topic commutes with merging if it does so for the topic alone. -/
theorem merge_modifyTopic {topic : Text} (ht : topic ∈ e.topics.names) {f g : Topic → Topic}
    (hfg : ∀ v, ((d.topics.get? topic).getD {}).merge (f v) =
      g (((d.topics.get? topic).getD {}).merge v)) :
    d.merge (e.modifyTopic topic f) = (d.merge e).modifyTopic topic g := by
  simp only [merge, modifyTopic, Table.mergeTopics_modify hd.topics he.topics ht hfg]

omit hd he in
theorem mem_ensureTopic (e : Document) (topic : Text) :
    topic ∈ (e.ensureTopic topic).topics.names := by
  rw [ensureTopic, Table.names_ensure]
  exact Names.mem_add.2 (.inr rfl)

theorem merge_relate (topic : Text) (r : Relation) (target : Text) :
    d.merge (e.relate topic r target) = (d.merge e).relate topic r target := by
  rw [relate, relate, ← merge_ensureTopic hd he]
  exact merge_modifyTopic hd (he.ensureTopic topic) (e.mem_ensureTopic topic)
    fun v => Topic.merge_relate _ v r target

theorem merge_addRule (topic : Text) (r : Rule) :
    d.merge (e.addRule topic r) = (d.merge e).addRule topic r := by
  rw [addRule, addRule, ← merge_ensureTopic hd he]
  exact merge_modifyTopic hd (he.ensureTopic topic) (e.mem_ensureTopic topic)
    fun v => Topic.merge_addRule _ v r

theorem merge_enter (name : Text) (links : Links) :
    d.merge (e.enter name links) = (d.merge e).enter name links := by
  unfold enter
  rw [← merge_ensureTopic hd he]
  replace he := he.ensureTopic name
  generalize e.ensureTopic name = e at he
  induction links generalizing e with
  | nil => rfl
  | cons link links ih =>
    have ht := he.ensureTopic link.2
    rw [List.foldl_cons, List.foldl_cons, ← merge_ensureTopic hd he, ← merge_relate hd ht]
    exact ih _ ((ht.ensureTopic name).modifyTopic name _)

omit hd he in
theorem merge_addObject (d e : Document) (o : CodeObject) :
    d.merge (e.addObject o) = (d.merge e).addObject o := by
  simp [merge, addObject]

end

end Document

/-- The place of the rule once its topic has the rules of `d` before its own. -/
def RulePlace.onTop (d : Document) (place : RulePlace) : RulePlace :=
  ⟨place.topic, place.index + (d.rulesOf place.topic).length⟩

/-- Changing a rule commutes with merging, if its place is counted on top of the first document. -/
theorem Document.merge_modifyRule {d e : Document} (hd : d.Distinct) (he : e.Distinct)
    {place : RulePlace} (hp : place.topic ∈ e.topics.names) (f : Rule → Rule) :
    d.merge (e.modifyRule place f) = (d.merge e).modifyRule (place.onTop d) f := by
  apply merge_modifyTopic hd he hp
  intro v
  rw [Topic.merge_modifyRule]
  simp only [RulePlace.onTop, rulesOf]
  cases d.topics.get? place.topic <;> rfl

theorem Document.length_rulesOf_merge (d : Document) {e : Document} (he : e.Distinct)
    (topic : Text) :
    ((d.merge e).rulesOf topic).length = (e.rulesOf topic).length + (d.rulesOf topic).length := by
  simp only [merge, rulesOf, Table.get?_mergeTopics d.topics he.topics]
  cases e.topics.get? topic with
  | none => simp
  | some u => cases d.topics.get? topic <;> simp [Topic.merge, Nat.add_comm]

end DialogueScript
