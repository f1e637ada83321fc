import Ocelotl.Codegen.LoweredCode
import Ocelotl.Driver.Main

namespace Ocelotl.Driver

open Library

variable {system : System} {executable : String} {world : World}
  {options final : CommandLineOptions} {mode : EmitMode} {item : Item} {items : List Item}
  {source : List Char} {function : LLVM.Function}

/-- Shows the code before optimization where it was to be shown after it. -/
def EmitMode.beforeOptimization : EmitMode → EmitMode
  | .llvm => .llvmBeforeOptimization
  | .none => .none
  | .tokens => .tokens
  | .llvmBeforeOptimization => .llvmBeforeOptimization
  | .assembly => .assembly
  | .object => .object

def CommandLineOptions.beforeOptimization (options : CommandLineOptions) : CommandLineOptions :=
  { options with emitMode := options.emitMode.beforeOptimization }

def Item.beforeOptimization (item : Item) : Item :=
  match item with
  | .emit mode => .emit mode.beforeOptimization
  | .level _ | .output _ | .triple _ | .cpu _ | .features _ | .source _ => item

private theorem beforeOptimization_eq_none : mode.beforeOptimization = .none ↔ mode = .none := by
  cases mode <;> simp [EmitMode.beforeOptimization]

private theorem beforeOptimization_eq_tokens : mode.beforeOptimization = .tokens ↔ mode = .tokens := by
  cases mode <;> simp [EmitMode.beforeOptimization]

private theorem beforeOptimization_valid (valid : item.Valid) : item.beforeOptimization.Valid := by
  cases item with
  | emit mode => exact fun absent => valid (beforeOptimization_eq_none.mp absent)
  | level _ | output _ | triple _ | cpu _ | features _ | source _ => exact valid

private theorem apply_beforeOptimization : item.beforeOptimization.apply options.beforeOptimization =
    (item.apply options).map CommandLineOptions.beforeOptimization := by
  cases item with
  | emit mode =>
    show setEmitMode _ _ = (setEmitMode _ _).map _
    have none : options.beforeOptimization.emitMode = .none ↔ options.emitMode = .none :=
      beforeOptimization_eq_none
    unfold setEmitMode
    by_cases unset : options.emitMode = .none
    · rw [if_neg (not_not_intro unset)]
      exact if_neg (not_not_intro (none.mpr unset))
    · rw [if_pos unset]
      exact if_pos (mt none.mp unset)
  | level chosen =>
    show setOptimizationLevel _ _ = (setOptimizationLevel _ _).map _
    unfold setOptimizationLevel
    by_cases specified : options.optimizationLevelSpecified = true
    · rw [if_pos specified]
      exact if_pos specified
    · rw [if_neg specified]
      exact if_neg specified
  | source path =>
    show setSourcePath _ _ = (setSourcePath _ _).map _
    unfold setSourcePath
    by_cases unnamed : options.sourcePath = ""
    · rw [if_pos unnamed]
      exact if_pos unnamed
    · rw [if_neg unnamed]
      exact if_neg unnamed
  | output _ | triple _ | cpu _ | features _ => rfl

private theorem applyAll_beforeOptimization :
    applyAll (items.map Item.beforeOptimization) options.beforeOptimization =
      (applyAll items options).map CommandLineOptions.beforeOptimization := by
  induction items generalizing options with
  | nil => rfl
  | cons item items ih =>
    unfold applyAll at ih ⊢
    rw [List.map_cons, List.foldlM_cons, List.foldlM_cons, apply_beforeOptimization]
    cases item.apply options with
    | ok middle => exact ih
    | error error => rfl

private theorem checkOptions_beforeOptimization : checkOptions options.beforeOptimization =
    (checkOptions options).map CommandLineOptions.beforeOptimization := by
  unfold checkOptions
  have none : options.beforeOptimization.emitMode = .none ↔ options.emitMode = .none :=
    beforeOptimization_eq_none
  have tokens : options.beforeOptimization.emitMode = .tokens ↔ options.emitMode = .tokens :=
    beforeOptimization_eq_tokens
  by_cases unnamed : options.sourcePath = ""
  · rw [if_pos unnamed]
    exact if_pos unnamed
  rw [if_neg unnamed]
  apply (if_neg unnamed).trans
  by_cases unset : options.emitMode = .none
  · rw [if_pos unset]
    exact if_pos (none.mpr unset)
  rw [if_neg unset]
  apply (if_neg (mt none.mp unset)).trans
  by_cases misplaced : options.emitMode = .tokens ∧
    (options.target.triple ≠ "" ∨ options.target.cpu ≠ "" ∨
      options.target.features ≠ "" ∨ options.optimizationLevelSpecified = true)
  · rw [if_pos misplaced]
    exact if_pos ⟨tokens.mpr misplaced.1, misplaced.2⟩
  · rw [if_neg misplaced]
    exact if_neg fun wrong => misplaced ⟨tokens.mp wrong.1, wrong.2⟩

private theorem parseCommandLine_spelled (valid : ∀ item ∈ items, item.Valid) :
    parseCommandLine (items.flatMap Item.spelling) = applyAll items {} >>= checkOptions := by
  unfold parseCommandLine
  rw [parseArguments_items valid]

/-- Options are read in the same way, up to the mode. -/
theorem parseCommandLine_beforeOptimization (valid : ∀ item ∈ items, item.Valid) :
    parseCommandLine ((items.map Item.beforeOptimization).flatMap Item.spelling) =
      (parseCommandLine (items.flatMap Item.spelling)).map
        CommandLineOptions.beforeOptimization := by
  have valid' : ∀ item ∈ items.map Item.beforeOptimization, item.Valid :=
    List.forall_mem_map.mpr fun item member => beforeOptimization_valid (valid item member)
  have applied := @applyAll_beforeOptimization {} items
  rw [parseCommandLine_spelled valid, parseCommandLine_spelled valid']
  show applyAll (items.map Item.beforeOptimization) (CommandLineOptions.beforeOptimization {}) >>=
    checkOptions = _
  rw [applied]
  cases applyAll items {} with
  | ok options => exact checkOptions_beforeOptimization
  | error error => rfl

private theorem lastOr_of_forall {Setting : Type} {given : List Setting} {before : Setting}
    (same : ∀ setting ∈ given, setting = before) :
    lastOr given before = before := by
  induction given with
  | nil => rfl
  | cons setting given ih =>
    obtain ⟨rfl, later⟩ := List.forall_mem_cons.mp same
    exact ih later

/-- Where only `-O0` is given, no optimization level is chosen. -/
theorem level_of_parsed (valid : ∀ item ∈ items, item.Valid)
    (unoptimized : ∀ level ∈ Item.levels items, level = .o0)
    (parsed : parseCommandLine (items.flatMap Item.spelling) = .ok options) :
    options.optimizationLevel = .o0 := by
  rw [parseCommandLine_spelled valid, except_bind_ok] at parsed
  obtain ⟨filled, applied, checked⟩ := parsed
  obtain ⟨rfl, _⟩ := checkOptions_ok_iff.mp checked
  obtain ⟨_, _, _, level, _⟩ := (applyAll_ok_iff valid).mp applied
  rw [level]
  exact lastOr_of_forall unoptimized

/-- Code that was generated passes the check again, and nothing is done to it. -/
theorem optimize_compiled (compiled : compileToLLVM system.toHost source = .ok function) :
    optimize system function .o0 = .ok function := by
  obtain ⟨_, _, _, _, _, _, lowers⟩ := compileToLLVM_ok.mp compiled
  obtain ⟨_, _, _, _, rfl, verified⟩ := Codegen.generate_ok.mp lowers
  unfold optimize
  rw [verified]
  rfl

private theorem compiledFunction_beforeOptimization (mode : options.emitMode = .llvm)
    (level : options.optimizationLevel = .o0) :
    compiledFunction system options.beforeOptimization source =
      compiledFunction system options source := by
  have skipped : options.beforeOptimization.emitMode = .llvmBeforeOptimization :=
    congrArg EmitMode.beforeOptimization mode
  have taken : options.emitMode ≠ .llvmBeforeOptimization := mode ▸ EmitMode.noConfusion
  unfold compiledFunction
  cases compiled : compileToLLVM system.toHost source with
  | error error => rfl
  | ok function =>
    have kept : optimize system function options.optimizationLevel = .ok function := by
      rw [level]
      exact optimize_compiled compiled
    exact (if_neg (not_not_intro skipped)).trans ((if_pos taken).trans kept).symm

private theorem defaultOutputPath_beforeOptimization (mode : options.emitMode = .llvm) :
    defaultOutputPath options.beforeOptimization = defaultOutputPath options := by
  have skipped : options.beforeOptimization.emitMode = .llvmBeforeOptimization :=
    congrArg EmitMode.beforeOptimization mode
  unfold defaultOutputPath
  by_cases given : options.outputPath ≠ ""
  · rw [if_pos given]
    exact if_pos given
  · have texts : options.emitMode = .llvm ∨ options.emitMode = .llvmBeforeOptimization ∨
        options.emitMode = .tokens := .inl mode
    have texts' : options.beforeOptimization.emitMode = .llvm ∨
      options.beforeOptimization.emitMode = .llvmBeforeOptimization ∨
      options.beforeOptimization.emitMode = .tokens := .inr (.inl skipped)
    rw [if_neg given, if_pos texts, if_pos texts']
    exact if_neg given

private theorem execute_beforeOptimization (level : options.optimizationLevel = .o0) :
    execute system options.beforeOptimization world = execute system options world := by
  by_cases mode : options.emitMode = .llvm
  · have skipped : options.beforeOptimization.emitMode = .llvmBeforeOptimization :=
      congrArg EmitMode.beforeOptimization mode
    have code (source : List Char) :
        compiledFunction system options.beforeOptimization source =
          compiledFunction system options source :=
      compiledFunction_beforeOptimization mode level
    unfold execute
    simp only [code, defaultOutputPath_beforeOptimization mode, skipped, mode]
    rfl
  · have same : options.beforeOptimization = options := by
      obtain ⟨_, _, mode', _, _, _⟩ := options
      cases mode' <;> first | rfl | exact absurd rfl mode
    rw [same]

/-- Without an optimization level, the code after optimization is the code before it,
whatever else the command line asks for. -/
theorem main_unoptimized (system : System) (executable : String) (world : World)
    (valid : ∀ item ∈ items, item.Valid) (unoptimized : ∀ level ∈ Item.levels items, level = .o0) :
    main system executable ((items.map Item.beforeOptimization).flatMap Item.spelling) world =
      main system executable (items.flatMap Item.spelling) world := by
  unfold main
  have parsed := parseCommandLine_beforeOptimization valid
  cases before : parseCommandLine (items.flatMap Item.spelling) with
  | error error =>
    rw [before] at parsed
    rw [perform_of_rejected before, perform_of_rejected parsed]
  | ok options =>
    rw [before] at parsed
    rw [perform_of_parsed before, perform_of_parsed parsed,
      execute_beforeOptimization (level_of_parsed valid unoptimized before)]

/-- No passes, no targets, room for every output, and the number of blocks as text. -/
def System.fixed : System where
  toHost := .fixed
  passes _ function := function
  print module := (toString module.function.blocks.length).toList
  defaultTriple := ""
  normalize := id
  lookupTarget _ := .error "no targets"
  createTargetMachine _ := none
  verifyTarget _ := .ok ()
  refuses _ := none
  write _ _ text := ⟨text, none⟩
  whole _ _ _ _ := rfl
  complain := id

/-- A source file, and nothing else. -/
def World.fresh : World where
  files path := if path = "a.oc" then some "return 42".toList else none

theorem main_unoptimized_return :
    main System.fixed "ocelotlc" ["a.oc", "--emit-llvm-before-opt", "-O0", "-o",
      "a.ll"] World.fresh =
      main System.fixed "ocelotlc" ["a.oc", "--emit-llvm", "-O0", "-o", "a.ll"] World.fresh ∧
    (main System.fixed "ocelotlc" ["a.oc", "--emit-llvm", "-O0", "-o", "a.ll"] World.fresh).1 =
      0 := by
  refine ⟨?_, by decide +kernel⟩
  have valid : ∀ item ∈ [Item.source "a.oc", .emit .llvm, .level .o0, .output "a.ll"],
      item.Valid := by
    simp only [List.forall_mem_cons]
    have plain : startsWith "a.oc" "-" = false := by decide
    exact ⟨plain, EmitMode.noConfusion, trivial, trivial, List.forall_mem_nil _⟩
  exact main_unoptimized System.fixed "ocelotlc" World.fresh valid (by decide)

end Ocelotl.Driver
