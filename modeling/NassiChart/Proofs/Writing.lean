import NassiChart.Convert

/-! # Writing into a sink that fills up

A write is the same wherever it is cut in two (`writeText_append`): what the first part does not get
into the sink, the second part does not reach.  So the many small writes of a document amount to one
write of its text (`write_eq`), and a sink with too little room is left with the first bytes of the
document, as many as it takes (`convertInto_writes_prefix`).
-/

namespace NassiChart

namespace Document

open NassiChart.Diagram

theorem Sink.after_offer {sink after : Sink} {bytes : List UInt8} {taken : Nat}
    (offered : sink.offer bytes = (taken + 1, after)) :
    min bytes.length sink.room = taken + 1 ∧
      after = ⟨sink.written ++ bytes.take (taken + 1), sink.room - (taken + 1),
        sink.refusals⟩ := by
  simp only [offer, Prod.mk.injEq] at offered
  obtain ⟨some, rfl⟩ := offered
  simp [some]

/-- A write either fits, or fills the sink and is refused once. -/
theorem Sink.write_eq (sink : Sink) (bytes : List UInt8) :
    sink.write bytes = if bytes.length ≤ sink.room then
      (.ok (), ⟨sink.written ++ bytes, sink.room - bytes.length, sink.refusals⟩)
    else (.error .writerFull, ⟨sink.written ++ bytes.take sink.room, 0, sink.refusals + 1⟩) := by
  fun_induction Sink.write sink bytes with
  | case1 sink => simp
  | case2 sink byte bytes after offered =>
      simp only [offer, Prod.mk.injEq] at offered
      obtain ⟨none, rfl⟩ := offered
      have full : sink.room = 0 := by
        rw [List.length_cons] at none
        omega
      simp [full]
  | case3 sink byte bytes taken after offered ih =>
      obtain ⟨some, rfl⟩ := after_offer offered
      rw [List.length_cons] at some
      rw [ih]
      by_cases fits : bytes.length + 1 ≤ sink.room
      · have all : taken = bytes.length := by omega
        simp [all, fits]
      · -- What is left is refused as a whole, since the sink is full by now.
        have full : sink.room = taken + 1 := by omega
        have left : taken < bytes.length := by omega
        simp [full, Nat.sub_ne_zero_of_lt left, Nat.not_le_of_lt left]

theorem Sink.write_append (sink : Sink) (first rest : List UInt8) :
    sink.write (first ++ rest) = match sink.write first with
      | (.ok (), sink) => sink.write rest
      | (.error cause, sink) => (.error cause, sink) := by
  rw [write_eq, write_eq sink first, List.length_append]
  by_cases fits : first.length ≤ sink.room
  · simp only [if_pos fits, write_eq]
    by_cases more : first.length + rest.length ≤ sink.room
    · have room : rest.length ≤ sink.room - first.length := by omega
      rw [if_pos more, if_pos room, List.append_assoc, Nat.sub_sub]
    · have full : ¬ rest.length ≤ sink.room - first.length := by omega
      rw [if_neg more, if_neg full, List.take_append, List.take_of_length_le fits,
        List.append_assoc]
  · rw [if_neg fits, if_neg (by omega), List.take_append_of_le_length (by omega)]

theorem writeText_empty : writeText "" = pure () := by
  funext sink
  exact Sink.write.eq_1 sink

/-- It makes no difference where a text is cut in two. If the first part does not fit, then writing
the whole fails at the same byte. -/
theorem writeText_append (first rest : String) : writeText (first ++ rest) = (do
    writeText first
    writeText rest) := by
  funext sink
  have run : writeText first sink = sink.write (Text.bytes first) := rfl
  rw [writeText, Text.bytes_append, Sink.write_append]
  simp only [bind, ExceptT.bind, ExceptT.mk, StateT.bind, run]
  rcases sink.write (Text.bytes first) with ⟨_ | _, after⟩
  · rfl
  · rfl

/-- Write some rows in one go. -/
def writeRows (rows : List String) : Writing Unit :=
  writeText (String.join (rows.map (· ++ "\n")))

theorem writeRows_nil : writeRows [] = pure () :=
  writeText_empty

theorem writeRows_cons (row : String) (rows : List String) : writeRows (row :: rows) = (do
    writeRow row
    writeRows rows) := by
  rw [writeRows, List.map_cons, String.join_cons, writeText_append, writeText_append]
  rfl

theorem writeRows_append (first rest : List String) : writeRows (first ++ rest) = (do
    writeRows first
    writeRows rest) := by
  induction first with
  | nil => rw [List.nil_append, writeRows_nil, pure_bind]
  | cons row first ih => rw [List.cons_append, writeRows_cons, writeRows_cons, ih, bind_assoc]

/-- Writing the rows of some children in one go is writing one child after the other. -/
theorem writeRows_flatten (parts : List (List String)) :
    writeRows parts.flatten = writeAll (parts.map writeRows) := by
  induction parts with
  | nil => exact writeRows_nil
  | cons part parts ih =>
      rw [List.flatten_cons, writeRows_append, ih]
      rfl

theorem writeRows_wrapped (margin name : String) (parts : List (List String)) :
    writeRows (wrapped margin name parts.flatten) =
      writeWrapped margin name (parts.map writeRows) := by
  simp only [wrapped, writeWrapped, List.cons_append, writeRows_cons, writeRows_append,
    writeRows_flatten, writeRows_nil, bind_pure_unit]

theorem writeRows_leafRows (name text : String) (color : Color) :
    writeRows (leafRows name text color) = writeLeaf name text color := by
  simp only [leafRows, writeLeaf, writeRows_cons, writeRows_nil, bind_pure_unit]

theorem writeRows_missingArm (body : List StatementKind) (kind : StatementKind) (name : String) :
    writeRows (if body.contains kind then [] else branchRows name []) =
      writeMissingArm body kind name := by
  rw [writeMissingArm, apply_ite writeRows, writeRows_nil, branchRows]
  congr 1
  exact writeRows_wrapped "" name []

theorem writeRows_alternativeRows (options : Options) (statement : Statement)
    (body : List StatementKind) (parts : List (List String)) :
    writeRows (alternativeRows options statement body parts.flatten) =
      writeAlternative options statement body (parts.map writeRows) := by
  simp only [alternativeRows, writeAlternative, List.append_assoc, List.cons_append,
    writeRows_cons, writeRows_append, writeRows_missingArm, writeRows_flatten, writeRows_nil,
    bind_pure_unit]

theorem writeRows_documentRows (options : Options) (parts : List (List String)) :
    writeRows (documentRows options parts.flatten) =
      writeDocument options (parts.map writeRows) := by
  simp only [documentRows, writeDocument, List.cons_append, writeRows_cons, writeRows_append,
    writeRows_wrapped, writeRows_nil, bind_pure_unit]

theorem writeRows_loop (name wrapper : String) (attributes : List String)
    (parts : List (List String)) :
    writeRows (openTag name attributes :: wrapped "  " wrapper parts.flatten ++ [closeTag name]) =
      writeLoop name wrapper attributes (parts.map writeRows) := by
  simp only [writeLoop, List.cons_append, writeRows_cons, writeRows_append, writeRows_wrapped,
    writeRows_nil, bind_pure_unit]

theorem writeRows_decision (options : Options) (statement : Statement)
    (parts : List (List String)) :
    writeRows (openTag "case" (elementAttributes (commaText (caseEntries statement))
        (fieldText statement .comments) options.palette.ordinary) ::
      parts.flatten ++ [closeTag "case"]) =
      writeDecision options statement (parts.map writeRows) := by
  simp only [writeDecision, List.cons_append, writeRows_cons, writeRows_append, writeRows_flatten,
    writeRows_nil, bind_pure_unit]

/-- Writing the rows of a statement is writing the statement around what writes the rows of its
children. -/
theorem writeRows_statementRows (options : Options) (statement : Statement)
    (kinds : List StatementKind) (parts : List (List String)) :
    writeRows (statementRows options statement kinds parts) =
      writeStatement options statement kinds (parts.map writeRows) := by
  rw [statementRows, writeStatement, ← List.map_drop]
  cases statement.kind with
  | document => exact writeRows_documentRows ..
  | instruction | call | jump | database => exact writeRows_leafRows ..
  | forLoop | foreverLoop | whileLoop => exact writeRows_loop ..
  | alternative => exact writeRows_alternativeRows ..
  | trueBranch | falseBranch | caseArm | defaultArm => exact writeRows_wrapped ..
  | caseHeader => exact writeRows_decision ..
  | passThrough => exact writeRows_flatten parts
  | conditionGroup | assignment | silent | token => exact writeRows_nil

mutual
theorem writeTree_eq (options : Options) : (tree : Rose Statement) →
    writeTree options tree = writeRows (rows options tree)
  | .node statement trees => by
      rw [writeTree, rows, writeRows_statementRows, writersOf_eq options trees]
theorem writersOf_eq (options : Options) : (trees : List (Rose Statement)) →
    writersOf options trees = (rowsOfEach options trees).map writeRows
  | [] => rfl
  | tree :: trees => by
      rw [writersOf, rowsOfEach, writeTree_eq options tree, writersOf_eq options trees,
        List.map_cons]
end

/-- A document is written as if its text were written in one go. -/
theorem write_eq (options : Options) (diagram : Diagram) :
    write options diagram = writeText (render options diagram) :=
  writeTree_eq options diagram.view

end Document

open NassiChart.Document

theorem renderInto_ofLimit (options : Options) (diagram : Diagram) (limit : Nat) :
    renderInto options diagram (.ofLimit limit) =
      let bytes := Text.bytes (render options diagram)
      (if bytes.length ≤ limit then .ok () else .error (.io .writerFull),
        ⟨bytes.take limit, limit - bytes.length, if bytes.length ≤ limit then 0 else 1⟩) := by
  have run : (write options diagram).run (.ofLimit limit) =
      (Sink.ofLimit limit).write (Text.bytes (render options diagram)) := by
    rw [write_eq]
    rfl
  rw [renderInto, run, Sink.write_eq, Sink.ofLimit]
  by_cases fits : (Text.bytes (render options diagram)).length ≤ limit
  · simp only [if_pos fits, List.nil_append, List.take_of_length_le fits]
  · simp only [if_neg fits, List.nil_append, Nat.sub_eq_zero_of_le (Nat.le_of_not_le fits)]

/-- Into a sink that takes `limit` bytes and then none. If the export cannot be read, then the
conversion fails as it does without a sink, and no byte is offered.  Otherwise the sink is left with
the first bytes of the document, and the conversion succeeds exactly if that is all of it.  If it is
not, then the sink refuses bytes once: nothing is offered after the write that fails. -/
theorem convertInto_writes_prefix (options : Options) (source : String) (limit : Nat) :
    (∀ error, Export.parse source = .error error →
      convert options source = .error (.parse error source) ∧
      convertInto options source (.ofLimit limit) =
        (.error (.parse error source), .ofLimit limit)) ∧
    (∀ tree, Export.parse source = .ok tree →
      ∃ document result sink,
        convert options source = .ok document ∧
        convertInto options source (.ofLimit limit) = (result, sink) ∧
        sink.written = (Text.bytes document).take limit ∧
        result = (if (Text.bytes document).length ≤ limit then .ok ()
          else .error (.io .writerFull)) ∧
        sink.refusals = if (Text.bytes document).length ≤ limit then 0 else 1) := by
  refine ⟨fun error refused => ?_, fun tree parsed => ?_⟩
  · simp only [convert, convertInto, refused, and_self]
  · have outcome := convertInto_of_parse options parsed (.ofLimit limit)
    rw [renderInto_ofLimit] at outcome
    exact ⟨_, _, _, convert_of_parse parsed, outcome, rfl, rfl, rfl⟩

end NassiChart
