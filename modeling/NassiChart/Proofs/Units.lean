import Mathlib.Data.List.Basic
import NassiChart.Cli.World

/-! # What a failure leaves behind

A run looks at its configuration and then converts its inputs one after the other.  On a host on
which looking changes nothing, and on which a document is delivered as a whole or not at all, what
fails leaves the host as it was.  So nothing remains of a unit that failed but its error, and the
run without it ends in the same state.
-/

namespace NassiChart.Config

open NassiChart.Document

/-- The colors of a style as they are written, in the order of their keys. -/
def StyleSettings.texts (style : StyleSettings) : List (Option String) :=
  [style.ordinary, style.jump, style.externalJump, style.database]

/-- The setting is one of the style's, and its text is no color. -/
def InvalidColor.Of (invalid : InvalidColor) (style : StyleSettings) : Prop :=
  (invalid.key, some invalid.text) ∈ styleKeys.zip style.texts ∧
    Color.read invalid.text = .error invalid.error

theorem colorOf_cases (key : String) (standard : Color) (setting : Option String) :
    (∃ color, colorOf key standard setting = .ok color ∧
      ∀ text, some text = setting → Color.read text = .ok color) ∨
    ∃ invalid, colorOf key standard setting = .error invalid ∧ invalid.key = key ∧
      setting = some invalid.text ∧ Color.read invalid.text = .error invalid.error := by
  cases setting with
  | none => exact .inl ⟨standard, rfl, fun _ same => by cases same⟩
  | some text =>
      simp only [colorOf]
      cases read : Color.read text with
      | ok color => exact .inl ⟨color, rfl, fun _ same => by cases same; exact read⟩
      | error error => exact .inr ⟨⟨key, text, error⟩, rfl, rfl, rfl, read⟩

/-- A palette is made unless one of the texts is no color. -/
theorem StyleSettings.palette_cases (style : StyleSettings) :
    (∃ palette, style.palette = .ok palette ∧
      ∀ text, some text ∈ style.texts → ∃ color, Color.read text = .ok color) ∨
    ∃ invalid, style.palette = .error invalid ∧ invalid.Of style := by
  unfold palette InvalidColor.Of
  -- The colors are read in the order of their keys, and the first that is none is the failure.
  rcases colorOf_cases "default_color" Palette.standard.ordinary style.ordinary with
    ⟨_, one, ordinary⟩ | ⟨invalid, failed, key, setting, refused⟩
  case inr =>
    exact .inr ⟨invalid, by rw [failed]; rfl, by simp [styleKeys, texts, key, setting], refused⟩
  rw [one]
  rcases colorOf_cases "jump_color" Palette.standard.jump style.jump with
    ⟨_, two, jump⟩ | ⟨invalid, failed, key, setting, refused⟩
  case inr =>
    exact .inr ⟨invalid, by rw [failed]; rfl, by simp [styleKeys, texts, key, setting], refused⟩
  rw [two]
  rcases colorOf_cases "external_jump_color" Palette.standard.externalJump style.externalJump with
    ⟨_, three, externalJump⟩ | ⟨invalid, failed, key, setting, refused⟩
  case inr =>
    exact .inr ⟨invalid, by rw [failed]; rfl, by simp [styleKeys, texts, key, setting], refused⟩
  rw [three]
  rcases colorOf_cases "database_color" Palette.standard.database style.database with
    ⟨_, four, database⟩ | ⟨invalid, failed, key, setting, refused⟩
  case inr =>
    exact .inr ⟨invalid, by rw [failed]; rfl, by simp [styleKeys, texts, key, setting], refused⟩
  rw [four]
  refine .inl ⟨_, rfl, fun text member => ?_⟩
  simp only [texts, List.mem_cons, List.not_mem_nil, or_false] at member
  rcases member with same | same | same | same
  · exact ⟨_, ordinary text same⟩
  · exact ⟨_, jump text same⟩
  · exact ⟨_, externalJump text same⟩
  · exact ⟨_, database text same⟩

end NassiChart.Config

namespace NassiChart.Cli

open NassiChart.Files NassiChart.Config NassiChart.Document

variable {σ : Type}

/-- What an action gives, and the state that it leaves. -/
def perform {α : Type} (action : StateM σ α) (state : σ) : α × σ :=
  action state

@[simp] theorem perform_pure {α : Type} (result : α) (state : σ) :
    perform (pure result) state = (result, state) := rfl

@[simp] theorem perform_bind {α β : Type} (action : StateM σ α) (next : α → StateM σ β)
    (state : σ) : perform (action >>= next) state =
      perform (next (perform action state).1) (perform action state).2 := rfl

/-- A host on which looking changes nothing, and neither does a document that is not delivered. -/
class Steady (σ : Type) [Host (StateM σ)] : Prop where
  hasPath_state (path : Path) (state : σ) : (perform (Host.hasPath path) state).2 = state
  read_state (path : Path) (state : σ) : (perform (Host.read path) state).2 = state
  input_state (state : σ) : (perform Host.input state).2 = state
  write_failed (path : Path) (text : String) (state : σ) (cause : IoFailure) :
    (perform (Host.write path text) state).1 = .error cause →
      (perform (Host.write path text) state).2 = state
  print_failed (text : String) (state : σ) (cause : IoFailure) :
    (perform (Host.print text) state).1 = .error cause →
      (perform (Host.print text) state).2 = state

instance : Steady World where
  hasPath_state _ _ := rfl
  read_state _ _ := rfl
  input_state _ := rfl
  write_failed path text world cause failed := by
    change (World.attempt _ world).1 = _ at failed
    change (World.attempt _ world).2 = _
    unfold World.attempt at failed ⊢
    split at failed
    · cases failed
    · rfl
  print_failed _ _ _ failed := by cases failed

attribute [simp] Steady.hasPath_state Steady.read_state Steady.input_state

variable [Host (StateM σ)] [Steady σ]

theorem loadFile_state (path : Path) (state : σ) : (perform (loadFile path) state).2 = state := by
  rw [loadFile, perform_bind]
  split
  · simp
  · split <;> simp

theorem loadSettings_state (surroundings : Surroundings) (config : Option Path) (state : σ) :
    (perform (loadSettings surroundings config) state).2 = state := by
  unfold loadSettings
  cases config with
  | some path =>
      rw [perform_bind]
      split <;> simp [loadFile_state]
  | none =>
      rw [perform_bind]
      split
      · simp [loadFile_state]
      · cases systemConfig? surroundings with
        | none => simp
        | some path =>
            simp only [perform_bind]
            split <;> simp [loadFile_state]

/-- The options that settings make for a run. -/
def optionsFor (surroundings : Surroundings) (arguments : Arguments) (settings : Settings) :
    Except Failure Options :=
  match settings.options surroundings.today with
  | .error invalid => .error (.config (.invalidColor invalid))
  | .ok options => .ok { options with programName := arguments.name.getD options.programName }

theorem perform_loadOptions (surroundings : Surroundings) (arguments : Arguments) (state : σ) :
    perform (loadOptions surroundings arguments) state =
      ((perform (loadSettings surroundings arguments.config) state).1.bind
        (optionsFor surroundings arguments), state) := by
  rw [loadOptions, perform_bind, loadSettings_state]
  cases (perform (loadSettings surroundings arguments.config) state).1 with
  | error failure => rfl
  | ok settings =>
      simp only [Except.bind, optionsFor]
      cases settings.options surroundings.today <;> rfl

theorem loadOptions_state (surroundings : Surroundings) (arguments : Arguments) (state : σ) :
    (perform (loadOptions surroundings arguments) state).2 = state :=
  congrArg Prod.snd (perform_loadOptions surroundings arguments state)

/-- Without options nothing is converted, and the run leaves no trace. -/
theorem perform_run_of_error {surroundings : Surroundings} {arguments : Arguments} {state : σ}
    {failure : Failure}
    (failed : (perform (loadOptions surroundings arguments) state).1 = .error failure) :
    perform (run surroundings arguments) state = ([failure], state) := by
  rw [run, perform_bind, failed, loadOptions_state]
  rfl

/-- Why a unit fails: what it reads is missing or no text, is no export, or its document cannot be
delivered. -/
inductive Fails (options : Options) (output : Option Path) (source : Except IoFailure String)
    (state : σ) : Failure → Prop
  | unread {cause} : source = .error cause → Fails options output source state (.io cause)
  | refused {text failure} : source = .ok text → convert options text = .error failure →
      Fails options output source state failure
  | undelivered {text document cause} : source = .ok text → convert options text = .ok document →
      (perform (deliver document output) state).1 = .error cause →
        Fails options output source state (.io cause)

theorem deliver_failed {document : String} {output : Option Path} {state : σ} {cause : IoFailure}
    (failed : (perform (deliver document output) state).1 = .error cause) :
    (perform (deliver document output) state).2 = state := by
  cases output with
  | some path => exact Steady.write_failed path document state cause failed
  | none => exact Steady.print_failed document state cause failed

/-- A unit fails for one of these reasons and then leaves the state, or it delivers its document. -/
theorem convertText_cases (options : Options) (output : Option Path)
    (source : Except IoFailure String) (state : σ) :
    (∃ failure, Fails options output source state failure ∧
      perform (convertText options output source) state = (some failure, state)) ∨
    ∃ text document next, source = .ok text ∧ convert options text = .ok document ∧
      perform (deliver document output) state = (.ok (), next) ∧
        perform (convertText options output source) state = (none, next) := by
  cases source with
  | error cause => exact .inl ⟨.io cause, .unread rfl, rfl⟩
  | ok text =>
      simp only [convertText]
      cases converted : convert options text with
      | error failure => exact .inl ⟨failure, .refused rfl converted, rfl⟩
      | ok document =>
          simp only [perform_bind]
          cases delivered : (perform (deliver document output) state).1 with
          | error cause =>
              rw [deliver_failed delivered]
              exact .inl ⟨.io cause, .undelivered rfl converted delivered, rfl⟩
          | ok _ => exact .inr ⟨text, document, _, rfl, converted, Prod.ext delivered rfl, rfl⟩

theorem Fails.perform {options : Options} {output : Option Path}
    {source : Except IoFailure String} {state : σ} {failure : Failure}
    (fails : Fails options output source state failure) :
    perform (convertText options output source) state = (some failure, state) := by
  cases fails with
  | unread unread => rw [unread]; rfl
  | refused read refused => simp only [convertText, read, refused]; rfl
  | undelivered read converted undelivered =>
      simp only [convertText, read, converted, perform_bind, undelivered,
        deliver_failed undelivered]
      rfl

theorem convertText_failed_iff {options : Options} {output : Option Path}
    {source : Except IoFailure String} {state : σ} {failure : Failure} :
    (perform (convertText options output source) state).1 = some failure ↔
      Fails options output source state failure := by
  refine ⟨fun failed => ?_, fun fails => congrArg Prod.fst fails.perform⟩
  rcases convertText_cases options output source state with
    ⟨other, fails, same⟩ | ⟨_, _, next, -, -, -, same⟩
  · rw [same] at failed
    cases failed
    exact fails
  · rw [same] at failed
    cases failed

theorem perform_convertInput (options : Options) (output : Option Path) (state : σ) :
    perform (convertInput options output) state =
      perform (convertText options output (perform Host.input state).1) state := by
  rw [convertInput, perform_bind, Steady.input_state]

theorem perform_convertFile (options : Options) (output : Option Path) (input : Path) (state : σ) :
    perform (convertFile options output input) state =
      perform (convertText options output (perform (Host.read input) state).1) state := by
  rw [convertFile, perform_bind, Steady.read_state]

theorem convertFile_failed {options : Options} {output : Option Path} {input : Path}
    {state next : σ} {failure : Failure}
    (failed : perform (convertFile options output input) state = (some failure, next)) :
    next = state := by
  have fails := convertText_failed_iff.mp
    (congrArg Prod.fst (perform_convertFile options output input state ▸ failed))
  rw [perform_convertFile, fails.perform] at failed
  exact (congrArg Prod.snd failed).symm

/-- The units of a batch, one after the other, each with its failure if it has one. -/
inductive Units (options : Options) (directory : Option Path) :
    σ → List (Path × Option Failure) → σ → Prop
  | nil {state} : Units options directory state [] state
  | cons {state input outcome next units last} :
      perform (convertFile options (some (batchOutput input directory)) input) state =
        (outcome, next) → Units options directory next units last →
      Units options directory state ((input, outcome) :: units) last

omit [Steady σ] in
theorem exists_units (options : Options) (directory : Option Path) (inputs : List Path)
    (state : σ) : ∃ units last, Units options directory state units last ∧
      units.map Prod.fst = inputs := by
  induction inputs generalizing state with
  | nil => exact ⟨[], state, .nil, rfl⟩
  | cons input inputs ih =>
      obtain ⟨units, last, rest, names⟩ := ih
        (perform (convertFile options (some (batchOutput input directory)) input) state).2
      exact ⟨_ :: units, last, .cons rfl rest, congrArg (input :: ·) names⟩

omit [Steady σ] in
/-- A batch gives the failures of its units in their order. -/
theorem Units.perform {options : Options} {directory : Option Path} {state last : σ}
    {units : List (Path × Option Failure)} (run : Units options directory state units last) :
    perform (convertEach options directory (units.map Prod.fst)) state =
      (units.filterMap Prod.snd, last) := by
  induction run with
  | nil => rfl
  | @cons state input outcome next units last here _ ih =>
      rw [List.map_cons, convertEach, perform_bind, here, perform_bind, ih]
      cases outcome <;> rfl

/-- The units around one that failed run as if it was not there. -/
theorem Units.without {options : Options} {directory : Option Path} {state last : σ}
    {before after : List (Path × Option Failure)} {input : Path} {failure : Failure}
    (run : Units options directory state (before ++ (input, some failure) :: after) last) :
    Units options directory state (before ++ after) last := by
  induction before generalizing state with
  | nil =>
      cases run with
      | cons failed rest =>
          obtain rfl := convertFile_failed failed
          exact rest
  | cons unit before ih =>
      cases run with
      | cons here rest => exact .cons here (ih rest)

/-- The output directory of a batch is made if one is given. -/
def Prepares (directory : Option Path) (state ready : σ) : Prop :=
  match directory with
  | none => ready = state
  | some path => perform (Host.makeDirectories path) state = (.ok (), ready)

theorem perform_run_several {surroundings : Surroundings} {arguments : Arguments} {state : σ}
    {options : Options}
    (loaded : (perform (loadOptions surroundings arguments) state).1 = .ok options)
    (several : 2 ≤ arguments.inputs.length) :
    perform (run surroundings arguments) state =
      perform (convertBatch options arguments.output arguments.inputs) state := by
  rw [run, perform_bind, loaded, loadOptions_state]
  match arguments.inputs, several with
  | _ :: _ :: _, _ => rfl

/-- A batch converts its inputs in the state that its output directory is made in. -/
theorem perform_run_batch {surroundings : Surroundings} {arguments : Arguments} {state ready : σ}
    {options : Options}
    (loaded : (perform (loadOptions surroundings arguments) state).1 = .ok options)
    (several : 2 ≤ arguments.inputs.length) (prepares : Prepares arguments.output state ready) :
    perform (run surroundings arguments) state =
      perform (convertEach options arguments.output arguments.inputs) ready := by
  rw [perform_run_several loaded several]
  unfold Prepares at prepares
  cases output : arguments.output with
  | none =>
      rw [output] at prepares
      rw [prepares]
      rfl
  | some path =>
      rw [output] at prepares
      rw [convertBatch, perform_bind, prepares]

theorem perform_run_stdin {surroundings : Surroundings} {arguments : Arguments} {state : σ}
    {options : Options}
    (loaded : (perform (loadOptions surroundings arguments) state).1 = .ok options)
    (empty : arguments.inputs = []) :
    perform (run surroundings arguments) state =
      Prod.map Option.toList id (perform (convertInput options arguments.output) state) := by
  rw [run, perform_bind, loaded, loadOptions_state, empty]
  rfl

theorem perform_run_file {surroundings : Surroundings} {arguments : Arguments} {state : σ}
    {options : Options} {input : Path}
    (loaded : (perform (loadOptions surroundings arguments) state).1 = .ok options)
    (single : arguments.inputs = [input]) :
    perform (run surroundings arguments) state =
      Prod.map Option.toList id (perform (convertFile options arguments.output input) state) := by
  rw [run, perform_bind, loaded, loadOptions_state, single]
  rfl

/-- A run of one unit that gives a failure gives nothing else and leaves no trace. -/
theorem perform_run_of_failure {surroundings : Surroundings} {arguments : Arguments} {state : σ}
    {failure : Failure} (few : arguments.inputs.length < 2)
    (failed : failure ∈ (perform (run surroundings arguments) state).1) :
    perform (run surroundings arguments) state = ([failure], state) := by
  cases loaded : (perform (loadOptions surroundings arguments) state).1 with
  | error other =>
      rw [perform_run_of_error loaded] at failed ⊢
      rw [List.mem_singleton.mp failed]
  | ok options =>
      match inputs : arguments.inputs, few with
      | [], _ =>
          rw [perform_run_stdin loaded inputs, perform_convertInput] at failed ⊢
          rw [(convertText_failed_iff.mp (Option.mem_toList.mp failed)).perform]
          rfl
      | [input], _ =>
          rw [perform_run_file loaded inputs, perform_convertFile] at failed ⊢
          rw [(convertText_failed_iff.mp (Option.mem_toList.mp failed)).perform]
          rfl

/-- With an invalid color nothing is converted. -/
theorem perform_run_of_invalid {surroundings : Surroundings} {arguments : Arguments} {state : σ}
    {settings : Settings} {text : String} {error : ColorError}
    (loaded : (perform (loadSettings surroundings arguments.config) state).1 = .ok settings)
    (member : some text ∈ settings.style.texts) (wrong : Color.read text = .error error) :
    ∃ invalid : InvalidColor, invalid.Of settings.style ∧
      perform (run surroundings arguments) state = ([.config (.invalidColor invalid)], state) := by
  rcases settings.style.palette_cases with ⟨_, -, read⟩ | ⟨invalid, failed, named⟩
  · obtain ⟨_, right⟩ := read text member
    cases wrong.symm.trans right
  · refine ⟨invalid, named, perform_run_of_error ?_⟩
    have options : settings.options surroundings.today = .error invalid := by
      rw [Settings.options, failed]
      rfl
    rw [perform_loadOptions, loaded]
    simp only [Except.bind, optionsFor, options]

/-- No configuration of the user. -/
def alone : Surroundings := ⟨none, none, ⟨2024, 1, 31⟩⟩

/-- Two exports, and a configuration with an invalid color. -/
def twoExports : World where
  store := {
    entries := [(["a.tree"], .file (Text.bytes "h\n\n+--<a>")),
      (["b.tree"], .file (Text.bytes "h\n\n+--<b>")),
      (["dull.toml"], .file (Text.bytes "style.jump_color = \"dull\""))]
    workplace := [] }
  input := []
  output := ""

/-- Without a configuration, or with an invalid color in it, a run gives one failure and leaves no
trace, and neither does a unit that fails.  A batch gives the failures of its units in their order,
and one that failed may as well not have been there. -/
theorem failures_leave_no_trace (surroundings : Surroundings) (arguments : Arguments) (state : σ) :
    (∀ failure, (perform (loadSettings surroundings arguments.config) state).1 = .error failure →
      perform (run surroundings arguments) state = ([failure], state)) ∧
    (∀ settings text error,
      (perform (loadSettings surroundings arguments.config) state).1 = .ok settings →
      some text ∈ settings.style.texts → Color.read text = .error error →
        ∃ invalid : InvalidColor, invalid.Of settings.style ∧
          perform (run surroundings arguments) state = ([.config (.invalidColor invalid)], state)) ∧
    (∀ options output failure,
      ((perform (convertInput options output) state).1 = some failure ↔
        Fails options output (perform Host.input state).1 state failure) ∧
      ((perform (convertInput options output) state).1 = some failure →
        (perform (convertInput options output) state).2 = state)) ∧
    (∀ options output input failure,
      ((perform (convertFile options output input) state).1 = some failure ↔
        Fails options output (perform (Host.read input) state).1 state failure) ∧
      ((perform (convertFile options output input) state).1 = some failure →
        (perform (convertFile options output input) state).2 = state)) ∧
    (arguments.inputs.length < 2 →
      ∀ failure ∈ (perform (run surroundings arguments) state).1,
        perform (run surroundings arguments) state = ([failure], state)) ∧
    ∀ options ready,
      (perform (loadOptions surroundings arguments) state).1 = .ok options →
      2 ≤ arguments.inputs.length → Prepares arguments.output state ready →
        (∃ units last, Units options arguments.output ready units last ∧
          units.map Prod.fst = arguments.inputs) ∧
        ∀ units last, Units options arguments.output ready units last →
          units.map Prod.fst = arguments.inputs →
            perform (run surroundings arguments) state = (units.filterMap Prod.snd, last) ∧
            ((perform (run surroundings arguments) state).1 = [] ↔
              ∀ unit ∈ units, unit.2 = none) ∧
            ∀ before input failure after, units = before ++ (input, some failure) :: after →
              2 ≤ (before ++ after).length →
                perform (run surroundings
                  { arguments with inputs := (before ++ after).map Prod.fst }) state =
                    ((before ++ after).filterMap Prod.snd, last) := by
  refine ⟨fun failure failed => perform_run_of_error ?_,
    fun settings text error => perform_run_of_invalid, fun options output failure => ?_,
    fun options output input failure => ?_, fun few failure => perform_run_of_failure few,
    fun options ready loaded several prepares => ⟨exists_units _ _ _ _, ?_⟩⟩
  · rw [perform_loadOptions, failed]
    rfl
  · rw [perform_convertInput]
    exact ⟨convertText_failed_iff, fun failed =>
      congrArg Prod.snd (convertText_failed_iff.mp failed).perform⟩
  · rw [perform_convertFile]
    exact ⟨convertText_failed_iff, fun failed =>
      congrArg Prod.snd (convertText_failed_iff.mp failed).perform⟩
  · intro units last ran names
    have whole : perform (run surroundings arguments) state = (units.filterMap Prod.snd, last) := by
      rw [perform_run_batch loaded several prepares, ← names, ran.perform]
    refine ⟨whole, ?_, ?_⟩
    · rw [whole, List.filterMap_eq_nil_iff]
    · rintro before input failure after rfl rest
      have batch : 2 ≤ ((before ++ after).map Prod.fst).length := by rwa [List.length_map]
      have same : (perform (loadOptions surroundings
          { arguments with inputs := (before ++ after).map Prod.fst }) state).1 =
            .ok options := loaded
      rw [perform_run_batch same batch prepares, ran.without.perform]

theorem failures_leave_no_trace_three_inputs :
    runIn twoExports alone { config := some "none.toml" } =
      ([.config (.missingFile "none.toml")], twoExports) ∧
    (∃ invalid, runIn twoExports alone { inputs := ["a.tree"], config := some "dull.toml" } =
      ([.config (.invalidColor invalid)], twoExports)) ∧
    runIn twoExports alone { inputs := ["none.tree"] } = ([.io .notFound], twoExports) ∧
    ∃ last, runIn twoExports alone { inputs := ["a.tree", "none.tree", "b.tree"] } =
        ([.io .notFound], last) ∧
      runIn twoExports alone { inputs := ["a.tree", "b.tree"] } = ([], last) := by
  refine ⟨?_, ?_, ?_, ?_⟩
  · exact (failures_leave_no_trace alone _ twoExports).1 _ rfl
  · obtain ⟨-, colors, -⟩ := failures_leave_no_trace alone
      { inputs := ["a.tree"], config := some "dull.toml" } twoExports
    obtain ⟨invalid, -, only⟩ := colors { style := { jump := some "dull" } } "dull"
      .unknownColorIdentifier (by decide +kernel) (by decide) (by decide +kernel)
    exact ⟨invalid, only⟩
  · obtain ⟨-, -, -, -, single, -⟩ :=
      failures_leave_no_trace alone { inputs := ["none.tree"] } twoExports
    exact single (by decide) _ (by decide +kernel)
  · obtain ⟨-, -, -, -, -, batch⟩ := failures_leave_no_trace alone
      { inputs := ["a.tree", "none.tree", "b.tree"] } twoExports
    have ran : Units (Options.standard alone.today) none twoExports
        [("a.tree", none), ("none.tree", some (.io .notFound)), ("b.tree", none)] _ :=
      .cons (Prod.ext (by decide +kernel) rfl) (.cons (Prod.ext (by decide +kernel) rfl)
        (.cons (Prod.ext (by decide +kernel) rfl) .nil))
    obtain ⟨whole, -, without⟩ := (batch _ twoExports rfl (by decide) rfl).2 _ _ ran rfl
    exact ⟨_, whole, without [("a.tree", none)] "none.tree" _ [("b.tree", none)] rfl (by decide)⟩

end NassiChart.Cli
