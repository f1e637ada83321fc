import Ocelotl.Library.Throwing
import Mathlib.Data.List.Basic

namespace Ocelotl.Driver

open Library

inductive EmitMode where
  | none | tokens | llvmBeforeOptimization | llvm | assembly | object
  deriving DecidableEq, Repr

inductive OptimizationLevel where
  | o0 | o1 | o2 | o3
  deriving DecidableEq, Repr

structure TargetConfiguration where
  triple : String := ""
  cpu : String := ""
  features : String := ""
  deriving DecidableEq, Repr

structure CommandLineOptions where
  sourcePath : String := ""
  outputPath : String := ""
  emitMode : EmitMode := .none
  optimizationLevel : OptimizationLevel := .o0
  optimizationLevelSpecified : Bool := false
  target : TargetConfiguration := {}
  deriving DecidableEq, Repr

inductive CommandLineError where
  | multipleEmitOptions | multipleOptimizationLevels | outputPathMissing
  | unknownOption (argument : String)
  | multipleInputFiles | noInputFile | noEmitOption | notForTokens
  deriving DecidableEq, Repr

def CommandLineError.what : CommandLineError → String
  | .multipleEmitOptions => "multiple emit options were specified"
  | .multipleOptimizationLevels => "multiple optimization levels were specified"
  | .outputPathMissing => "-o requires an output path"
  | .unknownOption argument => "unknown option '" ++ argument ++ "'"
  | .multipleInputFiles => "multiple input files were specified"
  | .noInputFile => "no input file was specified"
  | .noEmitOption => "no emit option was specified"
  | .notForTokens => "target and optimization options do not apply to token emission"

/-- `argument.starts_with(start)` -/
def startsWith (argument start : String) : Bool := start.toList.isPrefixOf argument.toList

/-- `argument.substr(position)` -/
def substr (argument : String) (position : Nat) : String :=
  String.ofList (argument.toList.drop position)

def setEmitMode (options : CommandLineOptions) (mode : EmitMode) :
    Except CommandLineError CommandLineOptions :=
  if options.emitMode ≠ .none then throw .multipleEmitOptions
  else return { options with emitMode := mode }

def setOptimizationLevel (options : CommandLineOptions) (level : OptimizationLevel) :
    Except CommandLineError CommandLineOptions :=
  if options.optimizationLevelSpecified then throw .multipleOptimizationLevels
  else return { options with optimizationLevelSpecified := true, optimizationLevel := level }

def setSourcePath (options : CommandLineOptions) (path : String) :
    Except CommandLineError CommandLineOptions :=
  if options.sourcePath = "" then return { options with sourcePath := path }
  else throw .multipleInputFiles

/-- The loop over the arguments. -/
def parseArguments : List String → CommandLineOptions → Except CommandLineError CommandLineOptions
  | [], options => return options
  | argument :: rest, options =>
    if argument = "--emit-tokens" then setEmitMode options .tokens >>= parseArguments rest
    else if argument = "--emit-llvm-before-opt" then setEmitMode options .llvmBeforeOptimization >>=
      parseArguments rest
    else if argument = "--emit-llvm" then setEmitMode options .llvm >>= parseArguments rest
    else if argument = "--emit-asm" then setEmitMode options .assembly >>= parseArguments rest
    else if argument = "--emit-obj" then setEmitMode options .object >>= parseArguments rest
    else if argument = "-O0" then setOptimizationLevel options .o0 >>= parseArguments rest
    else if argument = "-O1" then setOptimizationLevel options .o1 >>= parseArguments rest
    else if argument = "-O2" then setOptimizationLevel options .o2 >>= parseArguments rest
    else if argument = "-O3" then setOptimizationLevel options .o3 >>= parseArguments rest
    else if argument = "-o" then
      match rest with
      | [] => throw .outputPathMissing
      | path :: rest => parseArguments rest { options with outputPath := path }
    else if startsWith argument "--target=" then
      parseArguments rest
        { options with target := { options.target with triple := substr argument 9 } }
    else if startsWith argument "--cpu=" then
      parseArguments rest
        { options with target := { options.target with cpu := substr argument 6 } }
    else if startsWith argument "--features=" then
      parseArguments rest
        { options with target := { options.target with features := substr argument 11 } }
    else if startsWith argument "-" then throw (.unknownOption argument)
    else setSourcePath options argument >>= parseArguments rest

/-- The checks after the loop. -/
def checkOptions (options : CommandLineOptions) : Except CommandLineError CommandLineOptions :=
  if options.sourcePath = "" then throw .noInputFile
  else if options.emitMode = .none then throw .noEmitOption
  else if options.emitMode = .tokens ∧ (options.target.triple ≠ "" ∨ options.target.cpu ≠ "" ∨
      options.target.features ≠ "" ∨ options.optimizationLevelSpecified = true) then
        throw .notForTokens
  else return options

/-- The arguments after the name of the executable. -/
def parseCommandLine (arguments : List String) : Except CommandLineError CommandLineOptions :=
  parseArguments arguments {} >>= checkOptions

/-- An option, or an input file. -/
inductive Item where
  | emit (mode : EmitMode)
  | level (level : OptimizationLevel)
  | output (path : String)
  | triple (triple : String)
  | cpu (cpu : String)
  | features (features : String)
  | source (path : String)

namespace Item

def spelling : Item → List String
  | emit .none => []
  | emit .tokens => ["--emit-tokens"]
  | emit .llvmBeforeOptimization => ["--emit-llvm-before-opt"]
  | emit .llvm => ["--emit-llvm"]
  | emit .assembly => ["--emit-asm"]
  | emit .object => ["--emit-obj"]
  | level .o0 => ["-O0"]
  | level .o1 => ["-O1"]
  | level .o2 => ["-O2"]
  | level .o3 => ["-O3"]
  | output path => ["-o", path]
  | triple text => ["--target=" ++ text]
  | cpu text => ["--cpu=" ++ text]
  | features text => ["--features=" ++ text]
  | source path => [path]

/-- Input files do not look like options. -/
def Valid : Item → Prop
  | emit mode => mode ≠ .none
  | source path => startsWith path "-" = false
  | _ => True

/-- One round of the loop. -/
def apply : Item → CommandLineOptions → Except CommandLineError CommandLineOptions
  | emit mode, options => setEmitMode options mode
  | level chosen, options => setOptimizationLevel options chosen
  | output path, options => return { options with outputPath := path }
  | triple text, options => return { options with target := { options.target with triple := text } }
  | cpu text, options => return { options with target := { options.target with cpu := text } }
  | features text, options =>
    return { options with target := { options.target with features := text } }
  | source path, options => setSourcePath options path

end Item

variable {argument start literal text : String} {rest arguments : List String}
  {options final : CommandLineOptions} {item : Item} {items : List Item}

private theorem startsWith_append : startsWith (start ++ text) start = true := by
  unfold startsWith
  rw [String.toList_append, List.isPrefixOf_iff_prefix]
  exact List.prefix_append _ _

private theorem substr_append : substr (start ++ text) start.length = text := by
  unfold substr
  rw [String.toList_append, ← String.length_toList, List.drop_left, String.ofList_toList]

/-- Nothing starts with two strings of which neither starts with the other. -/
theorem not_startsWith {other : String} (starts : startsWith argument start = true)
    (apart : startsWith start other = false) (apart' : startsWith other start = false) :
    startsWith argument other = false := by
  apply Bool.eq_false_iff.mpr
  intro both
  have first := List.isPrefixOf_iff_prefix.mp starts
  have second := List.isPrefixOf_iff_prefix.mp both
  rcases List.prefix_or_prefix_of_prefix first second with inside | inside
  · have wrong : startsWith other start = true := List.isPrefixOf_iff_prefix.mpr inside
    rw [apart'] at wrong
    cases wrong
  · have wrong : startsWith start other = true := List.isPrefixOf_iff_prefix.mpr inside
    rw [apart] at wrong
    cases wrong

private theorem startsWith_trans {other : String} (starts : startsWith argument start = true)
    (inside : startsWith start other = true) :
    startsWith argument other = true :=
  List.isPrefixOf_iff_prefix.mpr
    ((List.isPrefixOf_iff_prefix.mp inside).trans (List.isPrefixOf_iff_prefix.mp starts))

/-- The options that are one word, and `-o`. -/
def words : List String :=
  ["--emit-tokens", "--emit-llvm-before-opt", "--emit-llvm", "--emit-asm", "--emit-obj", "-O0",
    "-O1", "-O2", "-O3", "-o"]

private theorem not_mem_words (starts : startsWith argument start = true)
    (apart : ∀ word ∈ words, startsWith word start = false) :
    argument ∉ words := by
  intro member
  rw [apart argument member] at starts
  cases starts

/-- What is not a word is looked at by its start. -/
theorem parseArguments_other (other : argument ∉ words) :
    parseArguments (argument :: rest) options =
    if startsWith argument "--target=" then
      parseArguments rest
        { options with target := { options.target with triple := substr argument 9 } }
    else if startsWith argument "--cpu=" then
      parseArguments rest
        { options with target := { options.target with cpu := substr argument 6 } }
    else if startsWith argument "--features=" then
      parseArguments rest
        { options with target := { options.target with features := substr argument 11 } }
    else if startsWith argument "-" then throw (.unknownOption argument)
    else setSourcePath options argument >>= parseArguments rest := by
  simp only [words, List.mem_cons, List.not_mem_nil, or_false, not_or] at other
  rw [parseArguments.eq_def]
  simp only [other, if_false]

/-- The loop reads an option, or an input file, in one round. -/
theorem parseArguments_item (valid : item.Valid) :
    parseArguments (item.spelling ++ rest) options = item.apply options >>=
      parseArguments rest := by
  cases item with
  | emit mode =>
    cases mode with
    | none => exact absurd rfl valid
    | tokens | llvmBeforeOptimization | llvm | assembly | object =>
      rw [parseArguments.eq_def]
      simp [Item.spelling, Item.apply]
  | level chosen =>
    rw [parseArguments.eq_def]
    cases chosen <;> simp [Item.spelling, Item.apply]
  | output path =>
    rw [parseArguments.eq_def]
    simp [Item.spelling, Item.apply]
  | triple text =>
    have starts : startsWith ("--target=" ++ text) "--target=" = true := startsWith_append
    have value : substr ("--target=" ++ text) 9 = text := substr_append
    rw [Item.spelling, List.singleton_append,
      parseArguments_other (not_mem_words starts (by decide)), if_pos starts, value]
    rfl
  | cpu text =>
    have starts : startsWith ("--cpu=" ++ text) "--cpu=" = true := startsWith_append
    have value : substr ("--cpu=" ++ text) 6 = text := substr_append
    have noTriple : startsWith ("--cpu=" ++ text) "--target=" = false :=
      not_startsWith starts (by decide) (by decide)
    rw [Item.spelling, List.singleton_append,
      parseArguments_other (not_mem_words starts (by decide)), noTriple,
      if_neg Bool.false_ne_true, if_pos starts, value]
    rfl
  | features text =>
    have starts : startsWith ("--features=" ++ text) "--features=" = true := startsWith_append
    have value : substr ("--features=" ++ text) 11 = text := substr_append
    have noTriple : startsWith ("--features=" ++ text) "--target=" = false :=
      not_startsWith starts (by decide) (by decide)
    have noCpu : startsWith ("--features=" ++ text) "--cpu=" = false :=
      not_startsWith starts (by decide) (by decide)
    rw [Item.spelling, List.singleton_append,
      parseArguments_other (not_mem_words starts (by decide)), noTriple,
      if_neg Bool.false_ne_true, noCpu, if_neg Bool.false_ne_true, if_pos starts, value]
    rfl
  | source path =>
    have plain (start : String) (dashed : startsWith start "-" = true) :
        ¬ startsWith path start = true := by
      intro starts
      have wrong : startsWith path "-" = false := valid
      rw [startsWith_trans starts dashed] at wrong
      cases wrong
    have other : path ∉ words := by
      intro member
      have dashed : ∀ word ∈ words, startsWith word "-" = true := by decide
      exact plain "-" (by decide) (dashed path member)
    rw [Item.spelling, List.singleton_append, parseArguments_other other,
      if_neg (plain _ (by decide)),
      if_neg (plain _ (by decide)), if_neg (plain _ (by decide)), if_neg (plain _ (by decide))]
    rfl

def applyAll (items : List Item) (options : CommandLineOptions) :
    Except CommandLineError CommandLineOptions :=
  items.foldlM (fun options item => item.apply options) options

theorem parseArguments_items (valid : ∀ item ∈ items, item.Valid) :
    parseArguments (items.flatMap Item.spelling) options = applyAll items options := by
  induction items generalizing options with
  | nil => rfl
  | cons item items ih =>
    obtain ⟨first, later⟩ := List.forall_mem_cons.mp valid
    rw [List.flatMap_cons, parseArguments_item first, applyAll, List.foldlM_cons]
    congr 1
    funext middle
    exact ih later

namespace Item

def modes : List Item → List EmitMode := List.filterMap fun
  | emit mode => some mode
  | level _ | output _ | triple _ | cpu _ | features _ | source _ => none

def levels : List Item → List OptimizationLevel := List.filterMap fun
  | level chosen => some chosen
  | emit _ | output _ | triple _ | cpu _ | features _ | source _ => none

def outputs : List Item → List String := List.filterMap fun
  | output path => some path
  | emit _ | level _ | triple _ | cpu _ | features _ | source _ => none

def triples : List Item → List String := List.filterMap fun
  | triple text => some text
  | emit _ | level _ | output _ | cpu _ | features _ | source _ => none

def cpus : List Item → List String := List.filterMap fun
  | cpu text => some text
  | emit _ | level _ | output _ | triple _ | features _ | source _ => none

def featureLists : List Item → List String := List.filterMap fun
  | features text => some text
  | emit _ | level _ | output _ | triple _ | cpu _ | source _ => none

def sources : List Item → List String := List.filterMap fun
  | source path => some path
  | emit _ | level _ | output _ | triple _ | cpu _ | features _ => none

end Item

/-- The emit option, if there was one. -/
def chosenMode (options : CommandLineOptions) : List EmitMode :=
  if options.emitMode = .none then [] else [options.emitMode]

def chosenLevel (options : CommandLineOptions) : List OptimizationLevel :=
  if options.optimizationLevelSpecified = true then [options.optimizationLevel] else []

def named (options : CommandLineOptions) : List String :=
  if options.sourcePath = "" then [] else [options.sourcePath]

/-- The last one that was given. -/
def lastOr {Setting : Type} (given : List Setting) (before : Setting) : Setting :=
  given.foldl (fun _ setting => setting) before

/-- What the loop makes of the options that it starts with. Input files without a
name are passed over until there is one with a name. -/
def Fills (options : CommandLineOptions) (items : List Item) (final : CommandLineOptions) : Prop :=
  (∃ blanks, named options ++ Item.sources items = List.replicate blanks "" ++ named final) ∧
  chosenMode options ++ Item.modes items = chosenMode final ∧
  chosenLevel options ++ Item.levels items = chosenLevel final ∧
  final.optimizationLevel = lastOr (Item.levels items) options.optimizationLevel ∧
  final.outputPath = lastOr (Item.outputs items) options.outputPath ∧
  final.target.triple = lastOr (Item.triples items) options.target.triple ∧
  final.target.cpu = lastOr (Item.cpus items) options.target.cpu ∧
  final.target.features = lastOr (Item.featureLists items) options.target.features

private theorem not_mem_named : "" ∉ named options := by
  unfold named
  split
  · exact List.not_mem_nil
  · rename_i given
    exact fun member => given (List.mem_singleton.mp member).symm

private theorem named_injective (same : named options = named final) :
    final.sourcePath = options.sourcePath := by
  unfold named at same
  split at same <;> split at same <;> simp_all

private theorem chosenMode_injective (same : chosenMode options = chosenMode final) :
    final.emitMode = options.emitMode := by
  unfold chosenMode at same
  split at same <;> split at same <;> simp_all

private theorem chosenLevel_injective (same : chosenLevel options = chosenLevel final) :
    final.optimizationLevelSpecified = options.optimizationLevelSpecified := by
  unfold chosenLevel at same
  split at same <;> split at same <;> simp_all

/-- There is at most one name, and it has no blanks before it if something is there already. -/
theorem blanks_eq_zero {blanks : Nat} {names names' : List String} (absent : "" ∉ names)
    (same : names = List.replicate blanks "" ++ names') : blanks = 0 := by
  cases blanks with
  | zero => rfl
  | succ blanks =>
    rw [same, List.replicate_succ] at absent
    exact absurd List.mem_cons_self absent

private theorem fills_nil : Fills options [] final ↔ final = options := by
  constructor
  · intro ⟨⟨blanks, sources⟩, modes, levels, level, output, triple, cpu, features⟩
    rw [Item.sources, List.filterMap_nil, List.append_nil] at sources
    rw [blanks_eq_zero not_mem_named sources] at sources
    rw [Item.modes, List.filterMap_nil, List.append_nil] at modes
    rw [Item.levels, List.filterMap_nil, List.append_nil] at levels
    have source := named_injective sources
    have mode := chosenMode_injective modes
    have specified := chosenLevel_injective levels
    obtain ⟨_, _, _, _, _, _, _, _⟩ := final
    obtain ⟨_, _, _, _, _, _, _, _⟩ := options
    simp_all [Item.levels, Item.outputs, Item.triples, Item.cpus, Item.featureLists, lastOr]
  · rintro rfl
    exact ⟨⟨0, List.append_nil _⟩, List.append_nil _, List.append_nil _, rfl, rfl, rfl, rfl, rfl⟩

private theorem length_chosenMode_le : (chosenMode options).length ≤ 1 := by
  unfold chosenMode
  split
  · exact Nat.zero_le _
  · exact Nat.le_refl _

private theorem length_chosenLevel_le : (chosenLevel options).length ≤ 1 := by
  unfold chosenLevel
  split
  · exact Nat.le_refl _
  · exact Nat.zero_le _

private theorem length_named_le : (named options).length ≤ 1 := by
  unfold named
  split
  · exact Nat.zero_le _
  · exact Nat.le_refl _

/-- A list with an element before another one is no list of at most one. -/
theorem not_single {Setting : Type} {first second : Setting} {later single : List Setting}
    (short : single.length ≤ 1) : [first] ++ second :: later ≠ single := by
  rintro rfl
  simp at short

private theorem fills_emit {mode : EmitMode} (valid : mode ≠ .none) :
    Fills options (.emit mode :: items) final ↔
    ∃ middle, setEmitMode options mode = .ok middle ∧ Fills middle items final := by
  by_cases unset : options.emitMode = .none
  · have before : chosenMode options = [] := if_pos unset
    have after : chosenMode { options with emitMode := mode } = [mode] := if_neg valid
    have set : setEmitMode options mode = .ok { options with emitMode := mode } :=
      if_neg (not_not_intro unset)
    constructor
    · intro ⟨sources, modes, others⟩
      refine ⟨_, set, sources, ?_, others⟩
      rw [before] at modes
      rw [after]
      exact modes
    · rintro ⟨middle, set', sources, modes, others⟩
      cases set.symm.trans set'
      refine ⟨sources, ?_, others⟩
      rw [after] at modes
      rw [before]
      exact modes
  · have before : chosenMode options = [options.emitMode] := if_neg unset
    have refused : setEmitMode options mode = .error .multipleEmitOptions := if_pos unset
    constructor
    · intro ⟨_, modes, _⟩
      rw [before] at modes
      exact absurd modes (not_single length_chosenMode_le)
    · intro ⟨middle, set, _⟩
      cases refused.symm.trans set

private theorem fills_level {level : OptimizationLevel} : Fills options (.level level :: items) final ↔
    ∃ middle, setOptimizationLevel options level = .ok middle ∧ Fills middle items final := by
  by_cases specified : options.optimizationLevelSpecified = true
  · have before : chosenLevel options = [options.optimizationLevel] := if_pos specified
    have refused : setOptimizationLevel options level = .error .multipleOptimizationLevels :=
      if_pos specified
    constructor
    · intro ⟨_, _, levels, _⟩
      rw [before] at levels
      exact absurd levels (not_single length_chosenLevel_le)
    · intro ⟨middle, set, _⟩
      cases refused.symm.trans set
  · have before : chosenLevel options = [] := if_neg specified
    have set : setOptimizationLevel options level =
      .ok { options with optimizationLevelSpecified := true, optimizationLevel := level } :=
        if_neg specified
    constructor
    · intro ⟨sources, modes, levels, others⟩
      rw [before] at levels
      exact ⟨_, set, sources, modes, levels, others⟩
    · rintro ⟨middle, set', sources, modes, levels, others⟩
      cases set.symm.trans set'
      refine ⟨sources, modes, ?_, others⟩
      rw [before]
      exact levels

private theorem fills_source {path : String} : Fills options (.source path :: items) final ↔
    ∃ middle, setSourcePath options path = .ok middle ∧ Fills middle items final := by
  by_cases unnamed : options.sourcePath = ""
  · have before : named options = [] := if_pos unnamed
    have set : setSourcePath options path = .ok { options with sourcePath := path } :=
      if_pos unnamed
    have sources_iff : (∃ blanks, named options ++ path :: Item.sources items =
      List.replicate blanks "" ++ named final) ↔
        ∃ blanks, named { options with sourcePath := path } ++ Item.sources items =
          List.replicate blanks "" ++ named final := by
      rw [before, List.nil_append]
      by_cases blank : path = ""
      · have after : named { options with sourcePath := path } = [] := if_pos blank
        rw [after, List.nil_append, blank]
        constructor
        · intro ⟨blanks, same⟩
          cases blanks with
          | zero =>
            rw [List.replicate_zero, List.nil_append] at same
            exact absurd (same ▸ List.mem_cons_self) (@not_mem_named final)
          | succ blanks => exact ⟨blanks, (List.cons.inj same).2⟩
        · intro ⟨blanks, same⟩
          exact ⟨blanks + 1, congrArg ("" :: ·) same⟩
      · have after : named { options with sourcePath := path } = [path] := if_neg blank
        rw [after, List.singleton_append]
    constructor
    · intro ⟨sources, others⟩
      exact ⟨_, set, sources_iff.mp sources, others⟩
    · rintro ⟨middle, set', sources, others⟩
      cases set.symm.trans set'
      exact ⟨sources_iff.mpr sources, others⟩
  · have before : named options = [options.sourcePath] := if_neg unnamed
    have refused : setSourcePath options path = .error .multipleInputFiles := if_neg unnamed
    constructor
    · intro ⟨⟨blanks, same⟩, _⟩
      have sources : [options.sourcePath] ++ path ::
          Item.sources items = List.replicate blanks "" ++ named final := before ▸ same
      cases blanks with
      | zero => exact absurd sources (not_single length_named_le)
      | succ blanks => exact absurd (List.cons.inj sources).1 unnamed
    · intro ⟨middle, set, _⟩
      cases refused.symm.trans set

private theorem fills_cons (valid : item.Valid) :
    Fills options (item :: items) final ↔ ∃ middle, item.apply options = .ok middle ∧
      Fills middle items final := by
  have settings {middle : CommandLineOptions} (set : item.apply options = .ok middle)
      (same : Fills options (item :: items) final ↔ Fills middle items final) :
      Fills options (item :: items) final ↔ ∃ middle, item.apply options = .ok middle ∧
        Fills middle items final := by
    rw [same]
    constructor
    · intro fills
      exact ⟨middle, set, fills⟩
    · rintro ⟨other, set', fills⟩
      cases set.symm.trans set'
      exact fills
  cases item with
  | emit mode => exact fills_emit valid
  | level level => exact fills_level
  | source path => exact fills_source
  | output path => exact settings rfl Iff.rfl
  | triple text => exact settings rfl Iff.rfl
  | cpu text => exact settings rfl Iff.rfl
  | features text => exact settings rfl Iff.rfl

theorem applyAll_ok_iff (valid : ∀ item ∈ items, item.Valid) :
    applyAll items options = .ok final ↔ Fills options items final := by
  induction items generalizing options with
  | nil =>
    rw [fills_nil]
    exact ⟨fun same => (Except.ok.inj same).symm, fun same => congrArg Except.ok same.symm⟩
  | cons item items ih =>
    obtain ⟨first, later⟩ := List.forall_mem_cons.mp valid
    rw [fills_cons first, applyAll, List.foldlM_cons, except_bind_ok]
    exact exists_congr fun middle => and_congr_right fun _ => ih later

/-- The options after the loop pass its checks. -/
structure Checked (options : CommandLineOptions) : Prop where
  named : options.sourcePath ≠ ""
  emits : options.emitMode ≠ .none
  tokens : options.emitMode = .tokens → options.target = {} ∧
    options.optimizationLevelSpecified = false

private theorem noTarget_iff :
    (options.target.triple ≠ "" ∨ options.target.cpu ≠ "" ∨ options.target.features ≠ "" ∨
    options.optimizationLevelSpecified = true) ↔
      ¬ (options.target = {} ∧ options.optimizationLevelSpecified = false) := by
  obtain ⟨_, _, _, _, _, _, _, _⟩ := options
  simp only [TargetConfiguration.mk.injEq, ne_eq, not_and_or, Bool.not_eq_false]
  simp only [or_assoc]

theorem checkOptions_ok_iff :
    checkOptions options = .ok final ↔ final = options ∧ Checked options := by
  unfold checkOptions
  simp only [noTarget_iff]
  constructor
  · intro success
    split at success
    · cases success
    split at success
    · cases success
    split at success
    · cases success
    · rename_i named emits tokens
      cases success
      exact ⟨rfl, named, emits, fun mode => not_not.mp fun wrong => tokens ⟨mode, wrong⟩⟩
  · rintro ⟨rfl, named, emits, tokens⟩
    rw [if_neg named, if_neg emits, if_neg fun wrong => wrong.2 (tokens wrong.1)]
    rfl

end Ocelotl.Driver
