import NassiChart.Proofs.Below

/-! # Adding texts

A text that is added at a statement climbs from parent to parent and is taken by the first
statement that declares its field.  `Upward` is the path that it climbs, `ChangedBy` what one
addition changes, and `addAll` makes additions one after the other.  Additions change neither the
links nor the declared fields, so the path of a text and the statement that takes it are the same
before and after all others; `texts_added` reads a whole run of additions off the diagram that it
starts from.
-/

namespace NassiChart.Diagram

open NassiChart.Grammar

/-- The path leads from a statement to its parent, to the parent of that, and so on, and ends where
there is no parent. -/
inductive Upward (diagram : Diagram) : StatementId → List StatementId → Prop where
  | top {id : StatementId} (last : diagram.parent? id = none) : Upward diagram id [id]
  | step {id above : StatementId} {path : List StatementId}
      (link : diagram.parent? id = some above) (rest : Upward diagram above path) :
      Upward diagram id (id :: path)

/-- A text for a field, and the statement at which it is added. -/
structure Addition where
  start : StatementId
  field : Field
  text : String
  deriving DecidableEq, Repr

/-- Make additions one after the other. The result has the statement that took each of them, and
the diagram after the last. -/
def addAll : Diagram → List Addition → List (Option StatementId) × Diagram
  | diagram, [] => ([], diagram)
  | diagram, addition :: more =>
    let handed := diagram.handText addition.start addition.field addition.text
    let rest := addAll handed.2 more
    (handed.1 :: rest.1, rest.2)

/-- The diagram after some additions. -/
def afterAll (diagram : Diagram) (additions : List Addition) : Diagram :=
  (diagram.addAll additions).2

/-- The difference that one text makes. Where it is taken, it is the last text of its field, and
everything else is as before. If it is not taken, nothing changes. -/
def ChangedBy (before after : Diagram) (field : Field) (text : String) :
    Option StatementId → Prop
  | none => after = before
  | some receiver => after.size = before.size ∧
      (∀ id ≠ receiver, after.statement? id = before.statement? id) ∧
      ∃ statement buffers, before.statement? receiver = some statement ∧
        after.statement? receiver = some { statement with buffers := buffers } ∧
        buffers.fields = statement.buffers.fields ∧
        buffers.get field = statement.buffers.get field ++ [text] ∧
        ∀ other ≠ field, buffers.get other = statement.buffers.get other

variable {diagram : Diagram} {id : StatementId}

theorem upward_ancestors (down : Descends diagram.parent?) (id : StatementId) :
    diagram.Upward id (diagram.ancestors id) := by
  induction id using Nat.strongRecOn with
  | ind id ih =>
      rw [ancestors]
      cases link : diagram.parent? id with
      | none =>
          rw [lineage_of_none link]
          exact .top link
      | some above =>
          rw [lineage_of_some down link]
          exact .step link (ih above (down id above link))

theorem getLast?_ancestors (linked : diagram.Linked) (inside : id < diagram.size) :
    (diagram.ancestors id).getLast? = some diagram.root := by
  refine linked.downwards (motive := fun id =>
    (diagram.ancestors id).getLast? = some diagram.root) ?_ ?_ id inside
  · rw [ancestors, lineage_of_none linked.root_parent]
    rfl
  · intro id _ last child member
    rw [ancestors, lineage_of_some linked.down (linked.mem_children.mp member),
      lineage_eq_cons id, List.getLast?_cons_cons]
    exact last

theorem lookup_map_append (entries : List (Field × List String)) (field other : Field)
    (text : String) :
    (entries.map fun entry =>
      if entry.1 = field then (entry.1, entry.2 ++ [text]) else entry).lookup other =
        (entries.lookup other).map fun texts =>
          if other = field then texts ++ [text] else texts := by
  induction entries with
  | nil => rfl
  | cons entry entries ih =>
      obtain ⟨key, texts⟩ := entry
      rw [List.map_cons, List.lookup_cons]
      by_cases own : key = field
      · rw [if_pos own, List.lookup_cons]
        cases same : other == key with
        | true => simp [eq_of_beq same, own]
        | false => exact ih
      · rw [if_neg own, List.lookup_cons]
        cases same : other == key with
        | true => simp [eq_of_beq same, own]
        | false => exact ih

/-- Of a declared field the text becomes the last one. Other fields keep their texts. -/
theorem Buffers.get_append {buffers : Buffers} {field : Field}
    (own : buffers.declares field = true) (other : Field) (text : String) :
    (buffers.append field text).get other =
      if other = field then buffers.get field ++ [text] else buffers.get other := by
  rw [get, append, lookup_map_append]
  by_cases same : other = field
  · obtain ⟨entry, member, key⟩ := List.any_eq_true.mp own
    obtain ⟨texts, found⟩ : ∃ texts, buffers.entries.lookup field = some texts := by
      rw [← Option.isSome_iff_exists, List.lookup_isSome_iff]
      exact ⟨entry, member, beq_iff_eq.mpr (beq_iff_eq.mp key).symm⟩
    simp [same, get, found]
  · simp only [if_neg same, get]
    cases buffers.entries.lookup other <;> rfl

/-- A text is answered with the first statement from its start upwards that declares the field. -/
theorem receiver_handText (diagram : Diagram) (start : StatementId) (field : Field)
    (text : String) : (diagram.handText start field text).1 = diagram.receiver? start field := by
  unfold handText
  cases diagram.receiver? start field <;> rfl

theorem changedBy_addText (diagram : Diagram) (start : StatementId) (field : Field)
    (text : String) : ChangedBy diagram (diagram.addText start field text) field text
      (diagram.receiver? start field) := by
  unfold addText handText
  cases taken : diagram.receiver? start field with
  | none => rfl
  | some receiver =>
      have declares : diagram.declares field receiver = true := List.find?_some taken
      obtain ⟨statement, here, own⟩ := (Option.any_eq_true _ _).mp declares
      change ChangedBy diagram (diagram.appendText receiver field text) field text (some receiver)
      refine ⟨?_, ?_, statement, statement.buffers.append field text, here, ?_, ?_, ?_, ?_⟩
      · rw [← size_frame, frame_appendText, size_frame]
      · intro id other
        rw [appendText, statement?_modify, if_neg other]
      · rw [appendText, statement?_modify, if_pos rfl, here]
        rfl
      · exact Buffers.fields_append ..
      · rw [Buffers.get_append own, if_pos rfl]
      · intro other different
        rw [Buffers.get_append own, if_neg different]

theorem ChangedBy.get {before after : Diagram} {field : Field} {text : String}
    {taker : Option StatementId} (changed : ChangedBy before after field text taker)
    (id : StatementId) (other : Field) : (after.statement id).buffers.get other =
      (before.statement id).buffers.get other ++
        if field = other ∧ taker = some id then [text] else [] := by
  cases taker with
  | none =>
      obtain rfl : after = before := changed
      simp
  | some receiver =>
      obtain ⟨-, elsewhere, statement, buffers, here, there, -, last, others⟩ := changed
      by_cases same : id = receiver
      · subst same
        simp only [Diagram.statement, here, there, Option.getD_some, and_true]
        by_cases own : field = other
        · rw [if_pos own, ← own, last]
        · rw [if_neg own, others other (Ne.symm own), List.append_nil]
      · have away : ¬ (field = other ∧ some receiver = some id) :=
          fun taken => same (Option.some.inj taken.2).symm
        rw [if_neg away, List.append_nil, statement_eq_of_statement? (elsewhere id same)]

theorem addAll_cons (diagram : Diagram) (addition : Addition) (more : List Addition) :
    diagram.addAll (addition :: more) =
      (diagram.receiver? addition.start addition.field ::
          ((diagram.addText addition.start addition.field addition.text).addAll more).1,
        (diagram.addText addition.start addition.field addition.text).afterAll more) := by
  rw [← receiver_handText diagram addition.start addition.field addition.text]
  rfl

theorem afterAll_cons (diagram : Diagram) (addition : Addition) (more : List Addition) :
    diagram.afterAll (addition :: more) =
      (diagram.addText addition.start addition.field addition.text).afterAll more := rfl

theorem afterAll_append (diagram : Diagram) (first second : List Addition) :
    diagram.afterAll (first ++ second) = (diagram.afterAll first).afterAll second := by
  induction first generalizing diagram with
  | nil => rfl
  | cons addition first ih => rw [List.cons_append, afterAll_cons, afterAll_cons, ih]

@[simp] theorem frame_afterAll (diagram : Diagram) (additions : List Addition) :
    (diagram.afterAll additions).frame = diagram.frame := by
  induction additions generalizing diagram with
  | nil => rfl
  | cons addition additions ih => rw [afterAll_cons, ih, frame_addText]

/-- No addition changes what takes another one. -/
theorem takers_addAll (diagram : Diagram) (additions : List Addition) :
    (diagram.addAll additions).1 =
      additions.map fun addition => diagram.receiver? addition.start addition.field := by
  induction additions generalizing diagram with
  | nil => rfl
  | cons addition additions ih =>
      rw [addAll_cons, ih, receiver?_of_frame (frame_addText diagram ..)]
      rfl

/-- The texts for a field that a statement has taken, in the order of the additions. -/
def textsTaken (additions : List Addition) (takers : List (Option StatementId))
    (id : StatementId) (field : Field) : List String :=
  ((additions.zip takers).filter fun pair => pair.1.field = field ∧ pair.2 = some id).map
    (·.1.text)

theorem get_afterAll (diagram : Diagram) (additions : List Addition) (id : StatementId)
    (field : Field) : ((diagram.afterAll additions).statement id).buffers.get field =
      (diagram.statement id).buffers.get field ++
        textsTaken additions (diagram.addAll additions).1 id field := by
  induction additions generalizing diagram with
  | nil => exact (List.append_nil _).symm
  | cons addition additions ih =>
      have first := (changedBy_addText diagram addition.start addition.field addition.text).get
        id field
      rw [afterAll_cons, ih, first, List.append_assoc, List.append_cancel_left_eq]
      simp only [textsTaken, addAll_cons, List.zip_cons_cons, List.filter_cons, decide_eq_true_eq]
      split <;> rfl

theorem fields_afterAll (diagram : Diagram) (additions : List Addition) (id : StatementId) :
    ((diagram.afterAll additions).statement id).buffers.fields =
      (diagram.statement id).buffers.fields := by
  have same := congrArg (fun frame => (frame.statement id).buffers.fields)
    (frame_afterAll diagram additions)
  simpa only [statement_frame, Statement.frame, Buffers.fields_blank] using same

/-- For the diagram of every grammar tree, filled or not, and every list of additions: the path from
a statement upwards ends at the root.  Each addition is answered with the first statement on its
path that declares the field, if there is one; there its text becomes the last of the field, and
nothing else changes.  So in the end every field holds what it held before and then the texts that
its statement has taken for it, in the order of the additions, and every statement declares the
same fields as before. -/
theorem texts_added (tree : Tree) (isFilled : Bool) (additions : List Addition) :
    let start := if isFilled then build tree else ofTree tree
    (∀ id < start.size, ∃ path, start.Upward id path ∧ path.getLast? = some start.root) ∧
    (∀ done addition later, additions = done ++ addition :: later →
      ∃ path, (start.afterAll done).Upward addition.start path ∧
        let taker := path.find? ((start.afterAll done).declares addition.field)
        (start.addAll additions).1[done.length]? = some taker ∧
        ChangedBy (start.afterAll done) (start.afterAll (done ++ [addition])) addition.field
          addition.text taker) ∧
    (∀ id field, ((start.afterAll additions).statement id).buffers.get field =
      (start.statement id).buffers.get field ++
        textsTaken additions (start.addAll additions).1 id field) ∧
    ∀ id, ((start.afterAll additions).statement id).buffers.fields =
      (start.statement id).buffers.fields := by
  intro start
  have linked : start.Linked := by
    unfold start
    split
    · exact build_linked tree
    · exact (ofTree_sound tree).links
  refine ⟨fun id inside => ⟨_, upward_ancestors linked.down id, getLast?_ancestors linked inside⟩,
    ?_, get_afterAll start additions, fields_afterAll start additions⟩
  rintro done addition later rfl
  have same := frame_afterAll start done
  have down : Descends (start.afterAll done).parent? := by
    rw [← parent?_frame, same, parent?_frame]
    exact linked.down
  refine ⟨_, upward_ancestors down addition.start, ?_, ?_⟩
  · rw [takers_addAll, ← receiver?_of_frame same, List.getElem?_map,
      List.getElem?_append_right (Nat.le_refl _), Nat.sub_self]
    rfl
  · rw [afterAll_append]
    exact changedBy_addText ..

end NassiChart.Diagram
