import DialogueScript.Proofs.Scan

/-!
# Maps of states

A map of states that commutes with what a single line can do commutes with reading: the mapped
state tells the same, and ends in the mapped state (`Commutes.scanBefore`). What a line can do is
listed once, in `Commutes`. A map of the definitions and the code objects alone has to commute with
assigning and adding only (`mapped_commutes`).
-/

namespace DialogueScript

namespace Reader

/-- The same events, with a map applied to the next state. -/
def Outcome.map (f : State → State) (o : Outcome) : Outcome := ⟨o.events, o.next.map f⟩

/-- `f` leaves alone what decides on the kind of a line and on its text, and commutes with every
change of a state that `I` holds of. -/
structure Commutes (I : State → Prop) (f : State → State) : Prop where
  inComment : ∀ s, (f s).inComment = s.inComment
  openObject : ∀ s, (f s).openObject = s.openObject
  topic : ∀ s, (f s).topic = s.topic
  concat : ∀ s, (f s).options.concat = s.options.concat
  comment : ∀ s inComment, f { s with inComment } = { f s with inComment }
  set : ∀ s name value, I s → f { s with options := s.options.set name value } =
    { f s with options := (f s).options.set name value }
  assign : ∀ s t name value, I s → f (s.assign t name value) = (f s).assign t name value
  assignArray : ∀ s name elements, I s →
    f (s.assignArray name elements) = (f s).assignArray name elements
  enterTopic : ∀ s name links, I s → f (s.enterTopic name links) = (f s).enterTopic name links
  leave : ∀ s, f { s with topic := defaultTopic, openRule := none } =
    { f s with topic := defaultTopic, openRule := none }
  openObjectNamed : ∀ s name language,
    f (s.openObjectNamed name language) = (f s).openObjectNamed name language
  noObject : ∀ s, f { s with openObject := none } = { f s with openObject := none }
  addRule : ∀ s l, I s → (f s).addRule l = (s.addRule l).map f
  extendRule : ∀ s g n stray number, I s →
    (f s).extendRule g n stray number = (s.extendRule g n stray number).map f
  readCode : ∀ s o line, f (s.readCode o line) = (f s).readCode o line

namespace Commutes

variable {I : State → Prop} {f : State → State} (h : Commutes I f) {s : State}

include h

theorem define (hs : I s) (supported : Float) (l : LogicalLine) :
    (f s).define supported l = (s.define supported l).map f := by
  have complete : ∀ d number o, (f s).complete d number (o.map f) = (s.complete d number o).map f := by
    intro d number o
    unfold State.complete
    split
    · rfl
    · split <;> rfl
  unfold State.define
  generalize Definition.ofText l.text = d
  obtain ⟨kind, name, value⟩ := d
  cases kind with
  | version =>
    simp only [State.checkVersion]
    split
    · rfl
    · split <;> rfl
  | option =>
    simp only [← complete, ← h.set s name value hs]
    rfl
  | table t =>
    cases t with
    | text t =>
      simp only [← complete, ← h.assign s t name value hs]
      rfl
    | array =>
      simp only [← complete, ← h.assignArray s name (arrayElements value) hs]
      rfl
  | unknown word =>
    simp only [← complete]
    rfl

theorem openLabel (hs : I s) (l : LogicalLine) : (f s).openLabel l = (s.openLabel l).map f := by
  unfold State.openLabel
  cases Label.ofText l.text with
  | begin links =>
    simp only [← h.enterTopic s beginTopic links hs]
    rfl
  | topic name links =>
    simp only [← h.enterTopic s name links hs]
    rfl
  | unnamedTopic => rfl
  | object name language =>
    cases language with
    | none =>
      simp only [← h.openObjectNamed s name]
      rfl
    | some language =>
      simp only [← h.openObjectNamed s name]
      rfl
  | unknown word => rfl

theorem closeLabel (l : LogicalLine) : (f s).closeLabel l = (s.closeLabel l).map f := by
  by_cases ht : l.text = Label.beginKeyword ∨ l.text = Label.topicKeyword
  · rw [s.closeLabel_topic ht, (f s).closeLabel_topic ht, ← h.leave]
    rfl
  by_cases ho : l.text = Label.objectKeyword
  · rw [s.closeLabel_object ht ho, (f s).closeLabel_object ht ho, ← h.noObject]
    rfl
  · rw [s.closeLabel_unknown ht ho, (f s).closeLabel_unknown ht ho]
    rfl

/-- Statements commute with the map, so nothing that they tell depends on what it changes. -/
theorem obey (hs : I s) (supported : Float) (l : LogicalLine) :
    (f s).obey supported l = (s.obey supported l).map f := by
  unfold State.obey
  split
  · exact h.define hs supported l
  · exact h.openLabel hs l
  · exact h.closeLabel l
  · exact h.addRule s l hs
  · exact h.extendRule s _ _ _ _ hs
  · exact h.extendRule s _ _ _ _ hs
  · exact h.extendRule s _ _ _ _ hs
  · rfl
  · rfl
  · rfl

/-- Lines commute with the map, so nothing that is told of them depends on what it changes. -/
theorem step (hs : I s) (supported : Float) (number : Nat) (line : Text) (rest : List Text) :
    (f s).step supported number line rest = (s.step supported number line rest).map f := by
  unfold State.step
  by_cases hl : Text.trim line = []
  · rw [if_pos hl, if_pos hl]
    rfl
  rw [if_neg hl, if_neg hl, h.openObject, h.topic]
  cases s.openObject with
  | some o =>
    simp only [← h.readCode]
    rfl
  | none =>
    simp only [State.readLine, h.inComment]
    cases LineKind.of s.inComment (Text.trim line) with
    | comment => rfl
    | deprecatedComment => rfl
    | commentStart =>
      simp only [← h.comment]
      rfl
    | commentEnd =>
      simp only [← h.comment]
      rfl
    | lone => rfl
    | statement st =>
      have hl : (f s).logicalLine number st rest = s.logicalLine number st rest := by
        simp only [State.logicalLine, h.concat]
      simp only [hl, h.obey hs]
      rfl

/-- The mapped state is read like the state itself, if every line keeps what the map relies on. -/
theorem scanBefore {supported : Float}
    (hI : ∀ (s s' : State) number line rest, I s →
      (s.step supported number line rest).next = some s' → I s')
    (hs : I s) (number : Nat) (later lines : List Text) :
    scanBefore supported (f s) number later lines =
      (scanBefore supported s number later lines).map f := by
  induction lines generalizing s number with
  | nil => rfl
  | cons line rest ih =>
    simp only [Reader.scanBefore, h.step hs]
    cases hn : (s.step supported (number + 1) line (rest ++ later)).next with
    | none =>
      rw [Outcome.andThen_of_none hn,
        Outcome.andThen_of_none (by simp only [Outcome.map, hn, Option.map_none])]
    | some next =>
      rw [Outcome.andThen_of_some hn,
        Outcome.andThen_of_some (s := f next) (by simp only [Outcome.map, hn, Option.map_some]),
        ih (hI s next _ _ _ hs hn)]
      rfl

end Commutes

/-! ## Maps of definitions and code objects -/

end Reader

/-- What a label does to the topics does not depend on the rest of the document. -/
theorem Document.enter_mapped (f : Definitions → Definitions) (g : List CodeObject → List CodeObject)
    (d : Document) (name : Text) (links : Links) :
    enter { d with definitions := f d.definitions, objects := g d.objects } name links =
      { d.enter name links with
        definitions := f (d.enter name links).definitions
        objects := g (d.enter name links).objects } := by
  unfold enter
  show links.foldl _ { d.ensureTopic name with
    definitions := f (d.ensureTopic name).definitions
    objects := g (d.ensureTopic name).objects } = _
  generalize d.ensureTopic name = d
  induction links generalizing d with
  | nil => rfl
  | cons link links ih => exact ih ((d.ensureTopic link.2).relate name link.1 link.2)

namespace Reader

/-- The state with its definitions and its code objects mapped. -/
def State.mapped (f : Definitions → Definitions) (g : List CodeObject → List CodeObject) (s : State) :
    State :=
  { s with
    document :=
      { s.document with definitions := f s.document.definitions, objects := g s.document.objects } }

/-- Such a map has to commute with what is done to the definitions and the code objects. -/
theorem mapped_commutes {I : State → Prop} {f : Definitions → Definitions}
    {g : List CodeObject → List CodeObject}
    (hassign : ∀ s t name value, I s → f (s.document.definitions.assign name value t) =
      (f s.document.definitions).assign name value t)
    (harray : ∀ s name elements, I s → f (s.document.definitions.assignArray name elements) =
      (f s.document.definitions).assignArray name elements)
    (hobjects : ∀ objects o, g (objects ++ [o]) = g objects ++ [o]) :
    Commutes I (.mapped f g) where
  inComment _ := rfl
  openObject _ := rfl
  topic _ := rfl
  concat _ := rfl
  comment _ _ := rfl
  set _ _ _ _ := rfl
  assign s t name value hs := by simp only [State.mapped, State.assign, hassign s t name value hs]
  assignArray s name elements hs := by
    simp only [State.mapped, State.assignArray, harray s name elements hs]
  enterTopic s name links _ := by
    have henter := s.document.enter_mapped f g name links
    exact congrArg (fun d => { s with document := d, topic := name, openRule := none }) henter.symm
  leave _ := rfl
  openObjectNamed _ _ _ := rfl
  noObject _ := rfl
  addRule _ _ _ := rfl
  extendRule s h n stray number _ := by
    have ho : (s.mapped f g).openRule = s.openRule := rfl
    unfold State.extendRule
    rw [ho]
    cases s.openRule <;> rfl
  readCode s o line := by
    unfold State.readCode State.closeObject
    split
    · by_cases hn : o.name = []
      · simp [State.mapped, hn]
      · simp [State.mapped, hn, Document.addObject, hobjects]
    · rfl

end Reader

end DialogueScript
