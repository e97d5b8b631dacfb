import NassiChart.Proofs.NoExport
import NassiChart.Proofs.StoreWrites
import NassiChart.Proofs.Units

/-! # The documents of a batch

The units of a batch run one after the other on the same files.  In a batch without failures no
unit reads what another one wrote, as no document is an export.  So every unit converts what stood
there before the first one, and its document stays unless a later unit writes to the same place.
-/

namespace NassiChart.Cli

open NassiChart.Files NassiChart.Document

/-- The content of a file that a document was written to. -/
def IsDocument (content : List UInt8) : Prop :=
  ∃ options diagram, content = Text.bytes (render options diagram)

theorem isDocument_of_convert {options : Options} {source document : String}
    (converted : convert options source = .ok document) : IsDocument (Text.bytes document) := by
  obtain ⟨diagram, rfl⟩ := exists_of_convert converted
  exact ⟨options, diagram, rfl⟩

theorem decode_bytes (text : String) : Files.decode (Text.bytes text) = .ok text := by
  rw [Files.decode, Text.ofBytes?_bytes]

/-- Nothing is converted from the content of a document. -/
theorem IsDocument.not_converted {content : List UInt8} (written : IsDocument content)
    {source : String} (decoded : Files.decode content = .ok source) (options : Options)
    (document : String) : convert options source ≠ .ok document := by
  obtain ⟨other, diagram, rfl⟩ := written
  rw [decode_bytes] at decoded
  cases decoded
  exact convert_render other options diagram document

/-- The state in which `document` stands at `place`. -/
def World.placed (world : World) (place : Place) (document : String) : World :=
  { world with store := world.store.put place (.file (Text.bytes document)) }

/-- The state in which `document` was printed. -/
def World.printed (world : World) (document : String) : World :=
  { world with output := world.output ++ document }

/-- A unit without failure has read an export and put its document where its output path leads. -/
theorem convertFile_done {options : Options} {output input : Path} {world next : World}
    (done : perform (convertFile options (some output) input) world =
      (none, next)) :
    ∃ source document place, world.store.read input = .ok source ∧
      convert options source = .ok document ∧ world.store.writable output = .ok place ∧
        next = world.placed place document := by
  rw [perform_convertFile] at done
  rcases convertText_cases options (some output) (world.store.read input) world with
    ⟨failure, -, failed⟩ | ⟨source, document, last, read, converted, delivered, finished⟩
  · cases failed.symm.trans done
  · cases finished.symm.trans done
    change World.attempt (fun store => store.write output document) world = _ at delivered
    unfold World.attempt at delivered
    split at delivered
    · rename_i store wrote
      obtain ⟨place, leads, rfl⟩ := Store.write_spec wrote
      exact ⟨source, document, place, read, converted, leads, (congrArg Prod.snd delivered).symm⟩
    · cases delivered

/-- An input on its own is converted to the standard output. -/
theorem convertFile_alone {options : Options} {input : Path} {world : World}
    {source document : String} (read : world.store.read input = .ok source)
    (converted : convert options source = .ok document) :
    perform (convertFile options none input) world =
      (none, world.printed document) := by
  rw [perform_convertFile]
  change perform (convertText options none (world.store.read input)) world = _
  simp only [read, convertText, converted]
  rfl

theorem rewrites_placed {options : Options} {world : World} {output : Path} {place : Place}
    {source document : String} (leads : world.store.writable output = .ok place)
    (converted : convert options source = .ok document) :
    Store.Rewrites IsDocument world.store (world.placed place document).store := by
  obtain ⟨filled, free⟩ := Store.stands_of_writable leads
  exact .put filled free (isDocument_of_convert converted)

variable {options : Options} {directory : Option Path} {world last : World}
  {units : List (Path × Option Failure)}

theorem Units.split {σ : Type} [Host (StateM σ)] {state final : σ}
    {before after : List (Path × Option Failure)}
    (run : Units options directory state (before ++ after) final) :
    ∃ middle, Units options directory state before middle ∧
      Units options directory middle after final := by
  induction before generalizing state with
  | nil => exact ⟨state, .nil, run⟩
  | cons unit before ih =>
      cases run with
      | cons here rest =>
          obtain ⟨middle, front, back⟩ := ih rest
          exact ⟨middle, .cons here front, back⟩

/-- Units without failures write documents and nothing else. -/
theorem Units.rewrites (run : Units options directory world units last)
    (done : ∀ unit ∈ units, unit.2 = none) :
    Store.Rewrites IsDocument world.store last.store := by
  induction run with
  | nil => exact .refl _
  | @cons _ _ outcome _ _ _ here _ ih =>
      obtain ⟨first, later⟩ := List.forall_mem_cons.mp done
      obtain rfl : outcome = none := first
      obtain ⟨_, _, _, -, converted, leads, rfl⟩ := convertFile_done here
      exact (rewrites_placed leads converted).trans (ih later)

/-- What stands at a place stays if no unit writes there. -/
theorem Units.entry_kept (run : Units options directory world units last)
    (done : ∀ unit ∈ units, unit.2 = none) {place : Place}
    (others : ∀ unit ∈ units,
      last.store.writable (batchOutput unit.1 directory) ≠ .ok place) :
    last.store.entry? place = world.store.entry? place := by
  induction run with
  | nil => rfl
  | @cons _ _ outcome _ _ _ here rest ih =>
      obtain ⟨first, later⟩ := List.forall_mem_cons.mp done
      obtain ⟨other, more⟩ := List.forall_mem_cons.mp others
      obtain rfl : outcome = none := first
      obtain ⟨_, document, target, -, converted, leads, rfl⟩ := convertFile_done here
      have whole := (rewrites_placed leads converted).trans (rest.rewrites later)
      have apart : place ≠ target := by
        rintro rfl
        exact other ((whole.writable_iff _ _).mpr leads)
      rw [ih later more, World.placed,
        Store.entry?_put _ (Store.stands_of_writable leads).1, if_neg apart]

/-- No unit reads a document. -/
theorem Units.not_read (run : Units options directory world units last)
    (done : ∀ unit ∈ units, unit.2 = none) {place : Place} {content : List UInt8}
    (written : IsDocument content) (stands : world.store.entry? place = some (.file content)) :
    ∀ unit ∈ units, last.store.writable unit.1 ≠ .ok place := by
  induction run generalizing content with
  | nil => exact List.forall_mem_nil _
  | @cons _ _ outcome _ _ _ here rest ih =>
      obtain ⟨first, later⟩ := List.forall_mem_cons.mp done
      obtain rfl : outcome = none := first
      obtain ⟨source, document, target, read, converted, leads, rfl⟩ := convertFile_done here
      have step := rewrites_placed leads converted
      refine List.forall_mem_cons.mpr ⟨fun same => ?_, ?_⟩
      · have before := ((step.trans (rest.rewrites later)).writable_iff _ _).mp same
        obtain ⟨origin, found, leads', stands', decoded⟩ := Store.writable_of_read read
        cases before.symm.trans leads'
        cases stands.symm.trans stands'
        exact written.not_converted decoded _ _ converted
      · rcases step.entry place with kept | ⟨-, new, written', stands'⟩
        · exact ih later written (kept.trans stands)
        · exact ih later written' stands'

/-- What a unit leaves behind in the end: its document, unless a later unit writes to the same
place.  It converts what stood there before the first unit, and no later unit reads its document. -/
theorem Units.document {before after : List (Path × Option Failure)} {input : Path}
    {outcome : Option Failure}
    (run : Units options directory world (before ++ (input, outcome) :: after) last)
    (done : ∀ unit ∈ before ++ (input, outcome) :: after, unit.2 = none) :
    ∃ source document place, world.store.read input = .ok source ∧
      convert options source = .ok document ∧
      last.store.writable (batchOutput input directory) = .ok place ∧
      (∀ unit ∈ after, last.store.writable unit.1 ≠ .ok place) ∧
      ((∀ unit ∈ after, last.store.writable (batchOutput unit.1 directory) ≠ .ok place) →
        last.store.resolve (batchOutput input directory) =
          .ok (.file place (Text.bytes document))) := by
  obtain ⟨doneBefore, doneRest⟩ := List.forall_mem_append.mp done
  obtain ⟨doneHere, doneAfter⟩ := List.forall_mem_cons.mp doneRest
  obtain rfl : outcome = none := doneHere
  obtain ⟨middle, ranBefore, ranRest⟩ := run.split
  cases ranRest with
  | cons here ranAfter =>
      obtain ⟨source, document, place, read, converted, leads, rfl⟩ := convertFile_done here
      have step := rewrites_placed leads converted
      have readFirst : world.store.read input = .ok source :=
        ((ranBefore.rewrites doneBefore).read read).resolve_right
          fun ⟨_, written, decoded⟩ => written.not_converted decoded _ _ converted
      have leadsLast : last.store.writable (batchOutput input directory) = .ok place :=
        ((step.trans (ranAfter.rewrites doneAfter)).writable_iff _ _).mpr leads
      have stands : Store.entry? (middle.placed place document).store place =
          some (.file (Text.bytes document)) := by
        rw [World.placed, Store.entry?_put _ (Store.stands_of_writable leads).1, if_pos rfl]
      refine ⟨source, document, place, readFirst, converted, leadsLast,
        ranAfter.not_read doneAfter (isDocument_of_convert converted) stands, fun others => ?_⟩
      have stays := ranAfter.entry_kept doneAfter others
      exact Store.resolve_of_writable leadsLast (stays.trans stands)

variable {surroundings : Surroundings} {arguments : Arguments}

/-- A batch without failures has its options and its output directory. -/
theorem exists_ready (several : 2 ≤ arguments.inputs.length)
    (fine : (runIn world surroundings arguments).1 = []) :
    ∃ options ready,
      perform (loadOptions surroundings arguments) world = (.ok options, world) ∧
      Prepares arguments.output world ready ∧ Store.Extends world.store ready.store := by
  have state := loadOptions_state surroundings arguments world
  change (perform (run surroundings arguments) world).1 = [] at fine
  cases loaded : (perform (loadOptions surroundings arguments) world).1 with
  | error failure =>
      rw [perform_run_of_error loaded] at fine
      cases fine
  | ok options =>
      cases output : arguments.output with
      | none => exact ⟨options, world, Prod.ext loaded state, rfl, .refl _⟩
      | some path =>
          cases made : (world.store.makeDirectories path).1 with
          | ok _ =>
              refine ⟨options, { world with store := (world.store.makeDirectories path).2 },
                Prod.ext loaded state, ?_, Store.extends_makeDirectories _ _⟩
              exact Prod.ext made rfl
          | error cause =>
              rw [perform_run_several loaded several, output] at fine
              have stopped : (perform (Host.makeDirectories path) world).1 = .error cause := made
              rw [convertBatch, perform_bind, stopped] at fine
              cases fine

/-- A batch without failures is a run of units without failures. -/
theorem exists_done (several : 2 ≤ arguments.inputs.length)
    (fine : (runIn world surroundings arguments).1 = []) :
    ∃ options ready units,
      perform (loadOptions surroundings arguments) world = (.ok options, world) ∧
      Prepares arguments.output world ready ∧ Store.Extends world.store ready.store ∧
      Units options arguments.output ready units (runIn world surroundings arguments).2 ∧
      units.map Prod.fst = arguments.inputs ∧ ∀ unit ∈ units, unit.2 = none := by
  obtain ⟨options, ready, loaded, prepares, extend⟩ := exists_ready several fine
  obtain ⟨units, last, ran, names⟩ := exists_units options arguments.output arguments.inputs ready
  have whole : runIn world surroundings arguments = (units.filterMap Prod.snd, last) := by
    change perform (run surroundings arguments) world = _
    rw [perform_run_batch (congrArg Prod.fst loaded) several prepares, ← names, ran.perform]
  rw [whole] at fine ⊢
  exact ⟨options, ready, units, loaded, prepares, extend, ran, names,
    List.filterMap_eq_nil_iff.mp fine⟩

/-- Alone, an input is converted to the standard output. -/
theorem runIn_alone {input : Path} {source document : String}
    (loaded : (perform (loadOptions surroundings arguments) world).1 = .ok options)
    (read : world.store.read input = .ok source)
    (converted : convert options source = .ok document) :
    runIn world surroundings { arguments with inputs := [input], output := none } =
      ([], world.printed document) := by
  have same : (perform (loadOptions surroundings
      { arguments with inputs := [input], output := none }) world).1 = .ok options := loaded
  change perform (run surroundings { arguments with inputs := [input], output := none }) world = _
  rw [perform_run_file same rfl, convertFile_alone read converted]
  rfl

def besideInputs : Arguments where
  inputs := ["a.tree", "b.tree"]

/-- In a batch without failures, no document replaces an input that is still to be read, and every
input has the document that it is converted to alone, unless a later one is written to the same
place. -/
theorem one_document_per_input (several : 2 ≤ arguments.inputs.length)
    (fine : (runIn world surroundings arguments).1 = []) :
    ∃ options ready,
      perform (loadOptions surroundings arguments) world = (.ok options, world) ∧
      Prepares arguments.output world ready ∧
      ∀ before input after, arguments.inputs = before ++ input :: after →
        ∃ document place,
          perform (convertFile options none input) ready = (none, ready.printed document) ∧
          (∀ source, world.store.read input = .ok source →
            runIn world surroundings { arguments with inputs := [input], output := none } =
              ([], world.printed document)) ∧
          (runIn world surroundings arguments).2.store.writable
            (batchOutput input arguments.output) = .ok place ∧
          (∀ later ∈ after,
            (runIn world surroundings arguments).2.store.writable later ≠ .ok place) ∧
          ((∀ later ∈ after, (runIn world surroundings arguments).2.store.writable
              (batchOutput later arguments.output) ≠ .ok place) →
            (runIn world surroundings arguments).2.store.resolve
              (batchOutput input arguments.output) =
                .ok (.file place (Text.bytes document))) := by
  obtain ⟨options, ready, units, loaded, prepares, extend, ran, names, done⟩ :=
    exists_done several fine
  refine ⟨options, ready, loaded, prepares, fun before input after inputs => ?_⟩
  obtain ⟨front, rest, rfl, -, others⟩ := List.map_eq_append_iff.mp (names.trans inputs)
  obtain ⟨⟨path, outcome⟩, back, rfl, rfl, rfl⟩ := List.map_eq_cons_iff.mp others
  obtain ⟨source, document, place, read, converted, leads, unread, kept⟩ := ran.document done
  refine ⟨document, place, convertFile_alone read converted, fun text before => ?_, leads,
    List.forall_mem_map.mpr unread,
    fun others => kept fun unit inside => others unit.1 (List.mem_map_of_mem inside)⟩
  cases read.symm.trans (extend.read before)
  exact runIn_alone (congrArg Prod.fst loaded) before converted

theorem one_document_per_input_two : ∃ document,
    runIn twoExports alone { inputs := ["a.tree"] } = ([], twoExports.printed document) ∧
    (runIn twoExports alone besideInputs).2.store.resolve "a.nsd" =
      .ok (.file ["a.nsd"] (Text.bytes document)) := by
  have several : 2 ≤ besideInputs.inputs.length := by decide
  have fine : (runIn twoExports alone besideInputs).1 = [] := by decide +kernel
  obtain ⟨_, _, -, -, each⟩ := one_document_per_input several fine
  obtain ⟨document, place, -, single, leads, -, kept⟩ := each [] "a.tree" ["b.tree"] rfl
  have here : (runIn twoExports alone besideInputs).2.store.writable
      (batchOutput "a.tree" none) = .ok ["a.nsd"] := by decide +kernel
  have other : (runIn twoExports alone besideInputs).2.store.writable
      (batchOutput "b.tree" none) = .ok ["b.nsd"] := by decide +kernel
  have name : batchOutput "a.tree" none = "a.nsd" := by decide +kernel
  cases leads.symm.trans here
  refine ⟨document, single "h\n\n+--<a>" (by decide +kernel), name ▸ kept ?_⟩
  intro later member same
  obtain rfl := List.mem_singleton.mp member
  exact absurd (same.symm.trans other) (by decide)

end NassiChart.Cli
