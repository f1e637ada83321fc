import Mathlib.Logic.Function.Basic
import Ocelotl.Driver.CommandLine
import Ocelotl.Driver.Compile
import Ocelotl.Driver.TokenDump

/-! `main`, with the files that it reads and writes. What LLVM and the operating
system do is a parameter. -/

namespace Ocelotl.Driver

open Library

/-- An LLVM module: its function, and the target that it is configured for. -/
structure Module where
  function : LLVM.Function
  triple : String := ""
  dataLayout : String := ""

inductive NativeOutputKind where
  | assembly | object
  deriving DecidableEq, Repr

/-- A machine of LLVM. It does not emit every kind of file. -/
structure TargetMachine where
  dataLayout : String
  emits : NativeOutputKind → Bool
  emit : NativeOutputKind → Module → List Char

/-- What a destination took of a text, and why it did not take all of it. -/
structure Delivery where
  arrived : List Char
  failure : Option String
  deriving DecidableEq, Repr

structure System extends Host where
  passes : OptimizationLevel → LLVM.Function → LLVM.Function
  print : Module → List Char
  defaultTriple : String
  normalize : String → String
  lookupTarget : String → Except String Unit
  createTargetMachine : TargetConfiguration → Option TargetMachine
  /-- The check of a module with a target, which may depend on the data layout. -/
  verifyTarget : Module → Except String Unit
  /-- Why a file cannot be opened for writing. -/
  refuses : String → Option String
  /-- What becomes of an output of this kind, or of a text. The writer of object
  files goes back in its output, which a pipe refuses and a text never needs. -/
  write : Option NativeOutputKind → String → List Char → Delivery
  whole : ∀ kind path text, (write kind path text).failure = none →
    (write kind path text).arrived = text
  /-- What is left of a message on the standard error, which is never checked. -/
  complain : List Char → List Char

/-- The files that can be read, and what was printed. -/
@[ext]
structure World where
  files : String → Option (List Char)
  stdout : List Char := []
  stderr : List Char := []

/-- The standard output goes on, and a file gets what arrives. -/
def World.receive (world : World) (path : String) (arrived : List Char) : World :=
  if path = "-" then { world with stdout := world.stdout ++ arrived }
  else { world with files := Function.update world.files path (some arrived) }

inductive DriverError where
  | commandLine (error : CommandLineError)
  | notReadable (path : String)
  | compile (error : CompileError)
  | invalidBefore (diagnostic : String)
  | invalidAfter (diagnostic : String)
  | noTarget (triple message : String)
  | noTargetMachine (triple : String)
  | invalidModule (diagnostic : String)
  | notOpened (path message : String)
  | wrongFileType (triple : String)
  | writeFailed (path message : String)
  | streamFailed (message : String)
  deriving DecidableEq, Repr

def DriverError.what : DriverError → String
  | .commandLine error => error.what
  | .notReadable path => "could not open input file '" ++ path ++ "'"
  | .compile error => error.what
  | .invalidBefore diagnostic => "invalid LLVM module before optimization: " ++ diagnostic
  | .invalidAfter diagnostic => "invalid LLVM module after optimization: " ++ diagnostic
  | .noTarget triple message => "unable to select target '" ++ triple ++ "': " ++ message
  | .noTargetMachine triple => "unable to create target machine for '" ++ triple ++ "'"
  | .invalidModule diagnostic => "cannot emit invalid LLVM module: " ++ diagnostic
  | .notOpened path message => "could not open output file '" ++ path ++ "': " ++ message
  | .wrongFileType triple => "target '" ++ triple ++ "' cannot emit the requested file type"
  | .writeFailed path _ => "failed while writing output file '" ++ path ++ "'"
  | .streamFailed _ => ""

/-- A stream that failed is destroyed with its error, and LLVM ends the process.
The stream of the standard output is destroyed after the return. -/
def DriverError.fatal : DriverError → Option String
  | .writeFailed _ message | .streamFailed message => some message
  | .commandLine _ | .notReadable _ | .compile _ | .invalidBefore _ | .invalidAfter _
  | .noTarget _ _ | .noTargetMachine _ | .invalidModule _ | .notOpened _ _ | .wrongFileType _ =>
    none

def usage (executable : String) : String :=
  "Usage: " ++ executable ++ " <source-file> <emit-option> [options]\n" ++
    "\nEmit options:\n" ++
    "  --emit-tokens       Print lexical tokens\n" ++
    "  --emit-llvm-before-opt\n" ++
    "                      Emit LLVM IR before optimization\n" ++
    "  --emit-llvm         Emit LLVM IR after optimization\n" ++
    "  --emit-asm          Emit target assembly\n" ++
    "  --emit-obj          Emit a relocatable object file\n" ++
    "\nOptions:\n" ++
    "  -o <path>           Write output to path\n" ++
    "  -O0|-O1|-O2|-O3    Select LLVM optimization level (default: -O0)\n" ++
    "  --target=<triple>   Select target triple (default: host)\n" ++
    "  --cpu=<cpu>         Select target CPU\n" ++
    "  --features=<list>   Select target features\n"

/-- The part of a path after its last slash. -/
def filename (path : List Char) : List Char := (path.reverse.takeWhile (· ≠ '/')).reverse

/-- The length of the extension with its dot. A dot at the start of the file name
does not begin an extension. -/
def extensionLength (path : List Char) : Nat :=
  let name := filename path
  let after := name.reverse.takeWhile (· ≠ '.')
  if name = ['.', '.'] ∨ name.length ≤ after.length + 1 then 0 else after.length + 1

/-- `path.replace_extension(extension)` -/
def replaceExtension (path : String) (extension : List Char) : String :=
  String.ofList (path.toList.take (path.toList.length - extensionLength path.toList) ++ extension)

def defaultOutputPath (options : CommandLineOptions) : String :=
  if options.outputPath ≠ "" then options.outputPath
  else if options.emitMode = .llvm ∨ options.emitMode = .llvmBeforeOptimization ∨
    options.emitMode = .tokens then "-"
  else replaceExtension options.sourcePath (if options.emitMode = .assembly then ".s".toList
    else ".o".toList)

section Phases

variable (system : System)

/-- `LLVMOptimizer::optimize` -/
def optimize (function : LLVM.Function) (level : OptimizationLevel) :
    Except DriverError LLVM.Function := do
  (system.verifyModule function).mapError .invalidBefore
  if level = .o0 then return function
  else do
    let optimized := system.passes level function
    (system.verifyModule optimized).mapError .invalidAfter
    return optimized

structure TargetCodeGenerator where
  configuration : TargetConfiguration
  targetMachine : TargetMachine

/-- The constructor. -/
def TargetCodeGenerator.create (configuration : TargetConfiguration) :
    Except DriverError TargetCodeGenerator := do
  let triple := if configuration.triple = "" then
      system.defaultTriple else system.normalize configuration.triple
  (system.lookupTarget triple).mapError (.noTarget triple)
  match system.createTargetMachine { configuration with triple := triple } with
  | none => throw (.noTargetMachine triple)
  | some machine => return ⟨{ configuration with triple := triple }, machine⟩

def TargetCodeGenerator.configureModule (generator : TargetCodeGenerator)
    (module : Module) : Module :=
  { module with
    triple := generator.configuration.triple
    dataLayout := generator.targetMachine.dataLayout }

def verifyTargetModule (module : Module) : Except DriverError Unit :=
  (system.verifyTarget module).mapError .invalidModule

/-- A new stream. A file becomes empty, and the standard output is always open. -/
def openOutput (path : String) : EStateM DriverError World Unit :=
  if path = "-" then return ()
  else match system.refuses path with
  | some message => throw (.notOpened path message)
  | none => modify fun world => world.receive path []

def writeOutput (kind : Option NativeOutputKind) (path : String) (text : List Char)
    (failure : String → DriverError) : EStateM DriverError World Unit := do
  modify fun world => world.receive path (system.write kind path text).arrived
  match (system.write kind path text).failure with
  | some message => throw (failure message)
  | none => return ()

def writeTextOutput (path : String) (value : List Char) : EStateM DriverError World Unit :=
  if path = "-" then writeOutput system none path value .streamFailed
  else do
    openOutput system path
    writeOutput system none path value (.writeFailed path)

def TargetCodeGenerator.emit (generator : TargetCodeGenerator) (module : Module)
    (outputKind : NativeOutputKind) (outputPath : String) : EStateM DriverError World Unit := do
  let module := generator.configureModule module
  ofExcept (verifyTargetModule system module)
  openOutput system outputPath
  if generator.targetMachine.emits outputKind = false then
    throw (.wrongFileType generator.configuration.triple)
  else
    writeOutput system outputKind outputPath (generator.targetMachine.emit outputKind module)
      (.writeFailed outputPath)

def readFile (path : String) : EStateM DriverError World (List Char) := do
  let world ← get
  match world.files path with
  | some text => return text
  | none => throw (.notReadable path)

/-- The code of the other modes than that of tokens, optimized unless it is shown before. -/
def compiledFunction (options : CommandLineOptions) (source : List Char) :
    Except DriverError LLVM.Function := do
  let function ← (compileToLLVM system.toHost source).mapError .compile
  if options.emitMode ≠ .llvmBeforeOptimization then
    optimize system function options.optimizationLevel
  else return function

/-- The module of the text modes. -/
def textModule (options : CommandLineOptions) (function : LLVM.Function) :
    Except DriverError Module :=
  if options.target.triple ≠ "" ∨ options.target.cpu ≠ "" ∨ options.target.features ≠ "" then do
    let generator ← TargetCodeGenerator.create system options.target
    let module := generator.configureModule ⟨function, "", ""⟩
    verifyTargetModule system module
    return module
  else return ⟨function, "", ""⟩

/-- The kind of output in the modes for a target. -/
def CommandLineOptions.nativeOutputKind (options : CommandLineOptions) : NativeOutputKind :=
  if options.emitMode = .assembly then .assembly else .object

def execute (options : CommandLineOptions) : EStateM DriverError World Unit := do
  let source ← readFile options.sourcePath
  let outputPath := defaultOutputPath options
  if options.emitMode = .tokens then do
    openOutput system outputPath
    writeOutput system none outputPath (emitTokens source) .streamFailed
  else do
    let function ← ofExcept (compiledFunction system options source)
    if options.emitMode = .llvm ∨ options.emitMode = .llvmBeforeOptimization then do
      let module ← ofExcept (textModule system options function)
      writeTextOutput system outputPath (system.print module)
    else do
      let generator ← ofExcept (TargetCodeGenerator.create system options.target)
      generator.emit system ⟨function, "", ""⟩ options.nativeOutputKind outputPath

/-- The body of `main`. -/
def perform (arguments : List String) : EStateM DriverError World Unit := do
  let options ← ofExcept ((parseCommandLine arguments).mapError .commandLine)
  execute system options

/-- What is printed about an error. -/
def report (executable : String) (error : DriverError) : String :=
  match error.fatal with
  | some message => "LLVM ERROR: IO failure on output stream: " ++ message ++ "\n"
  | none => "error: " ++ error.what ++ "\n" ++ usage executable

/-- The exit code, and the world after it. -/
def main (executable : String) (arguments : List String) (world : World) : Nat × World :=
  match perform system arguments world with
  | .ok () final => (0, final)
  | .error error final =>
    (1, { final with stderr := final.stderr ++ system.complain (report executable error).toList })

end Phases

/-- The output, or why there is none. -/
def produced (system : System) (options : CommandLineOptions) (source : List Char) :
    Except DriverError (List Char) :=
  if options.emitMode = .tokens then return emitTokens source
  else do
    let function ← compiledFunction system options source
    if options.emitMode = .llvm ∨ options.emitMode = .llvmBeforeOptimization then do
      let module ← textModule system options function
      return system.print module
    else do
      let generator ← TargetCodeGenerator.create system options.target
      let module := generator.configureModule ⟨function, "", ""⟩
      verifyTargetModule system module
      if generator.targetMachine.emits options.nativeOutputKind = false then
        throw (.wrongFileType generator.configuration.triple)
      else return generator.targetMachine.emit options.nativeOutputKind module

/-- The kind of output, unless it is a text. -/
def CommandLineOptions.outputKind (options : CommandLineOptions) : Option NativeOutputKind :=
  if options.emitMode = .tokens ∨ options.emitMode = .llvm ∨
      options.emitMode = .llvmBeforeOptimization then none
  else some options.nativeOutputKind

variable {system : System} {kind : Option NativeOutputKind} {path : String} {text : List Char}
  {world final : World} {options : CommandLineOptions} {source : List Char}
  {result : EStateM.Result DriverError World Unit}

def System.Opens (system : System) (path : String) : Prop := path = "-" ∨ system.refuses path = none

/-- The ways in which an output gets to its destination, or does not. -/
inductive Writes (system : System) (kind : Option NativeOutputKind) (path : String)
    (text : List Char) (world : World) : EStateM.Result DriverError World Unit → Prop where
  | delivered (opens : system.Opens path) (whole : (system.write kind path text).failure = none) :
    Writes system kind path text world (.ok () (world.receive path text))
  | refused {message : String} (file : path ≠ "-") (refused : system.refuses path = some message) :
    Writes system kind path text world (.error (.notOpened path message) world)
  | cut {message : String} {error : DriverError} (opens : system.Opens path)
    (reported : (system.write kind path text).failure = some message)
    (fatal : error.fatal = some message) :
    Writes system kind path text world
      (.error error (world.receive path (system.write kind path text).arrived))

@[simp] theorem receive_nil_receive :
    (world.receive path []).receive path text = world.receive path text := by
  unfold World.receive
  by_cases stdout : path = "-"
  · simp [stdout]
  · simp [stdout, Function.update_idem]

private theorem receive_stdout_nil (stdout : path = "-") : world.receive path [] = world := by
  simp [World.receive, stdout]

/-- A stream is opened, or nothing happens. -/
theorem openOutput_cases :
    (system.Opens path ∧ openOutput system path world = .ok () (world.receive path [])) ∨
    path ≠ "-" ∧ ∃ message, system.refuses path = some message ∧
      openOutput system path world = .error (.notOpened path message) world := by
  unfold openOutput
  by_cases stdout : path = "-"
  · rw [if_pos stdout, receive_stdout_nil stdout]
    exact .inl ⟨.inl stdout, rfl⟩
  rw [if_neg stdout]
  cases refused : system.refuses path with
  | some message => exact .inr ⟨stdout, message, rfl, rfl⟩
  | none => exact .inl ⟨.inr refused, rfl⟩

/-- Writing to a stream that was opened. -/
theorem writeOutput_writes {failure : String → DriverError} (opens : system.Opens path)
    (fatal : ∀ message, (failure message).fatal = some message) :
    Writes system kind path text world
      (writeOutput system kind path text failure (world.receive path [])) := by
  unfold writeOutput
  rw [bind_of_ok (modify_apply _ _), receive_nil_receive]
  cases reported : (system.write kind path text).failure with
  | some message => exact .cut opens reported (fatal message)
  | none =>
    rw [system.whole kind path text reported]
    exact .delivered opens reported

private theorem openOutput_writes {failure : String → DriverError}
    (fatal : ∀ message, (failure message).fatal = some message) :
    Writes system kind path text world ((do
      openOutput system path
      writeOutput system kind path text failure) world) := by
  rcases @openOutput_cases system path world with ⟨opens, done⟩ | ⟨file, message, refused, failed⟩
  · rw [bind_of_ok done]
    exact writeOutput_writes opens fatal
  · rw [bind_of_error failed]
    exact .refused file refused

private theorem writeTextOutput_writes :
    Writes system none path text world (writeTextOutput system path text world) := by
  unfold writeTextOutput
  by_cases stdout : path = "-"
  · rw [if_pos stdout]
    have writes := @writeOutput_writes system none path text world .streamFailed (.inl stdout)
      fun _ => rfl
    rwa [receive_stdout_nil stdout] at writes
  · rw [if_neg stdout]
    exact openOutput_writes fun _ => rfl

/-- How the driver ends once it knows its options: before the output is opened,
with a target that cannot emit what was asked for, or with the output. -/
inductive Ends (system : System) (options : CommandLineOptions) (world : World) :
    EStateM.Result DriverError World Unit → Prop where
  | unreadable (missing : world.files options.sourcePath = none) {error : DriverError} :
    Ends system options world (.error error world)
  | failed {source : List Char} {error error' : DriverError}
    (read : world.files options.sourcePath = some source)
    (failed : produced system options source = .error error) :
    Ends system options world (.error error' world)
  | wrongFileType {source : List Char} {triple : String}
    (read : world.files options.sourcePath = some source)
    (failed : produced system options source = .error (.wrongFileType triple))
    (opens : system.Opens (defaultOutputPath options)) :
    Ends system options world
      (.error (.wrongFileType triple) (world.receive (defaultOutputPath options) []))
  | writes {source text : List Char} (read : world.files options.sourcePath = some source)
    (success : produced system options source = .ok text)
    {result : EStateM.Result DriverError World Unit}
    (writes : Writes system options.outputKind (defaultOutputPath options) text world result) :
    Ends system options world result

private theorem emit_ends {generator : TargetCodeGenerator} {function : LLVM.Function}
    (native : options.outputKind = some options.nativeOutputKind)
    (read : world.files options.sourcePath = some source)
    (same : produced system options source = (do
      verifyTargetModule system (generator.configureModule ⟨function, "", ""⟩)
      if generator.targetMachine.emits options.nativeOutputKind = false then
        throw (.wrongFileType generator.configuration.triple)
      else
        return generator.targetMachine.emit options.nativeOutputKind
          (generator.configureModule ⟨function, "", ""⟩))) :
    Ends system options world (generator.emit system ⟨function, "", ""⟩ options.nativeOutputKind
      (defaultOutputPath options) world) := by
  unfold TargetCodeGenerator.emit
  cases verified : verifyTargetModule system (generator.configureModule ⟨function, "", ""⟩) with
  | error error =>
    rw [verified] at same
    rw [bind_of_error (ofExcept_error _ _)]
    exact .failed read same
  | ok _ =>
    rw [verified] at same
    rw [bind_of_ok (ofExcept_ok _ _)]
    by_cases emits : generator.targetMachine.emits options.nativeOutputKind = false
    · rw [if_pos emits]
      have failed : produced system options source =
          .error (.wrongFileType generator.configuration.triple) := by
        rw [same]
        exact if_pos emits
      rcases @openOutput_cases system (defaultOutputPath options) world with
        ⟨opens, done⟩ | ⟨file, message, refused, failed'⟩
      · rw [bind_of_ok done]
        exact .wrongFileType read failed opens
      · rw [bind_of_error failed']
        exact .failed read failed
    · rw [if_neg emits]
      have success : produced system options source =
          .ok (generator.targetMachine.emit options.nativeOutputKind
            (generator.configureModule ⟨function, "", ""⟩)) := by
        rw [same]
        exact if_neg emits
      refine .writes read success ?_
      rw [native]
      exact openOutput_writes fun _ => rfl

private theorem execute_ends : Ends system options world (execute system options world) := by
  unfold execute
  cases read : world.files options.sourcePath with
  | none =>
    have failed :
        readFile options.sourcePath world = .error (.notReadable options.sourcePath) world := by
      simp only [readFile, bind, EStateM.bind, get_apply, read, throw_apply]
    rw [bind_of_error failed]
    exact .unreadable read
  | some source =>
    have done : readFile options.sourcePath world = .ok source world := by
      simp only [readFile, bind, EStateM.bind, get_apply, read, pure_apply]
    rw [bind_of_ok done]
    by_cases tokens : options.emitMode = .tokens
    · rw [if_pos tokens]
      have text : options.outputKind = none := if_pos (.inl tokens)
      refine .writes read (if_pos tokens) ?_
      rw [text]
      exact openOutput_writes fun _ => rfl
    have code : produced system options source = _ := if_neg tokens
    rw [if_neg tokens]
    cases compiled : compiledFunction system options source with
    | error error =>
      rw [compiled] at code
      rw [bind_of_error (ofExcept_error _ _)]
      exact .failed read code
    | ok function =>
      rw [compiled] at code
      rw [bind_of_ok (ofExcept_ok _ _)]
      by_cases texts : options.emitMode = .llvm ∨ options.emitMode = .llvmBeforeOptimization
      · have text : produced system options source =
          (textModule system options function >>= fun module =>
          return system.print module) := code.trans (if_pos texts)
        rw [if_pos texts]
        cases made : textModule system options function with
        | error error =>
          rw [made] at text
          rw [bind_of_error (ofExcept_error _ _)]
          exact .failed read text
        | ok module =>
          rw [made] at text
          rw [bind_of_ok (ofExcept_ok _ _)]
          have plain : options.outputKind = none := if_pos (.inr texts)
          refine .writes read text ?_
          rw [plain]
          exact writeTextOutput_writes
      · have native := code.trans (if_neg texts)
        rw [if_neg texts]
        cases created : TargetCodeGenerator.create system options.target with
        | error error =>
          rw [created] at native
          rw [bind_of_error (ofExcept_error _ _)]
          exact .failed read native
        | ok generator =>
          rw [created] at native
          rw [bind_of_ok (ofExcept_ok _ _)]
          have kind : options.outputKind = some options.nativeOutputKind :=
            if_neg fun text => text.elim tokens texts
          exact emit_ends kind read native

variable {executable : String} {arguments : List String}

private theorem main_eq_zero_iff : main system executable arguments world = (0, final) ↔
    perform system arguments world = .ok () final := by
  unfold main
  cases perform system arguments world <;> simp

private theorem main_eq_one (failed : main system executable arguments world = (1, final)) :
    ∃ error before, perform system arguments world = .error error before ∧
      final.files = before.files ∧ final.stdout = before.stdout := by
  unfold main at failed
  cases run : perform system arguments world with
  | ok value other =>
    rw [run] at failed
    cases failed
  | error error before =>
    rw [run] at failed
    cases failed
    exact ⟨error, before, rfl, rfl, rfl⟩

theorem perform_of_parsed (parsed : parseCommandLine arguments = .ok options) :
    perform system arguments world = execute system options world := by
  unfold perform
  rw [parsed]
  exact bind_of_ok (ofExcept_ok _ _)

theorem perform_of_rejected {error : CommandLineError}
    (rejected : parseCommandLine arguments = .error error) :
    perform system arguments world = .error (.commandLine error) world := by
  unfold perform
  rw [rejected]
  exact bind_of_error (ofExcept_error _ _)

/-- Where text can be written, nothing else happens to it. -/
theorem Writes.unique (success : Writes system kind path text world (.ok () final))
    (writes : Writes system kind path text world result) : result = .ok () final := by
  cases success with
  | delivered opens whole =>
    cases writes with
    | delivered => rfl
    | refused file refused =>
      rcases opens with stdout | opened
      · exact absurd stdout file
      · cases opened.symm.trans refused
    | cut _ reported _ => cases whole.symm.trans reported

/-- Where the output is known and can be written, it is. -/
theorem execute_ok_iff : execute system options world = .ok () final ↔
    ∃ source text, world.files options.sourcePath = some source ∧
      produced system options source = .ok text ∧
      Writes system options.outputKind (defaultOutputPath options) text world (.ok () final) := by
  have ends := @execute_ends system world options
  constructor
  · intro success
    rw [success] at ends
    cases ends with
    | writes read success writes => exact ⟨_, _, read, success, writes⟩
  · intro ⟨source, text, read, success, writes⟩
    generalize execute system options world = result at ends
    cases ends with
    | unreadable missing => cases read.symm.trans missing
    | failed read' failed =>
      cases read.symm.trans read'
      cases success.symm.trans failed
    | wrongFileType read' failed _ =>
      cases read.symm.trans read'
      cases success.symm.trans failed
    | writes read' success' writes' =>
      cases read.symm.trans read'
      cases success.symm.trans success'
      exact writes.unique writes'

/-- What a run that failed leaves behind, its message aside. -/
inductive Leaves (system : System) (arguments : List String) (world final : World) : Prop where
  | nothing (files : final.files = world.files) (stdout : final.stdout = world.stdout)
  | empty {options : CommandLineOptions} {source : List Char} {triple : String}
    (parsed : parseCommandLine arguments = .ok options)
    (read : world.files options.sourcePath = some source)
    (failed : produced system options source = .error (.wrongFileType triple))
    (files : final.files = (world.receive (defaultOutputPath options) []).files)
    (stdout : final.stdout = world.stdout)
  | cut {options : CommandLineOptions} {source text : List Char} {delivery : Delivery}
    (parsed : parseCommandLine arguments = .ok options)
    (read : world.files options.sourcePath = some source)
    (success : produced system options source = .ok text)
    (writes : system.write options.outputKind (defaultOutputPath options) text = delivery)
    (reported : delivery.failure ≠ none)
    (files : final.files = (world.receive (defaultOutputPath options) delivery.arrived).files)
    (stdout : final.stdout = (world.receive (defaultOutputPath options) delivery.arrived).stdout)

private theorem receive_nil_stdout : (world.receive path []).stdout = world.stdout := by
  unfold World.receive
  split <;> simp

private theorem leaves_of_error {error : DriverError}
    (failed : perform system arguments world = .error error final) :
    Leaves system arguments world final := by
  cases parsed : parseCommandLine arguments with
  | error error' =>
    rw [perform_of_rejected parsed] at failed
    cases failed
    exact .nothing rfl rfl
  | ok options =>
    rw [perform_of_parsed parsed] at failed
    have ends := @execute_ends system world options
    rw [failed] at ends
    cases ends with
    | unreadable _ => exact .nothing rfl rfl
    | failed _ _ => exact .nothing rfl rfl
    | wrongFileType read unsuited _ => exact .empty parsed read unsuited rfl receive_nil_stdout
    | writes read success writes =>
      cases writes with
      | refused _ _ => exact .nothing rfl rfl
      | cut _ reported _ =>
        exact .cut parsed read success rfl (by rw [reported]; exact Option.some_ne_none _) rfl rfl

/-- The driver exits with zero exactly if the whole output was delivered. Otherwise
no file and not the standard output was touched, unless the output was checked and
ready but its destination did not take all of it, or the target turned out not to
emit such files. -/
theorem main_allOrNothing (system : System) (executable : String) (arguments : List String)
    (world final : World) :
    (main system executable arguments world = (0, final) ↔ ∃ options source text,
      parseCommandLine arguments = .ok options ∧ world.files options.sourcePath = some source ∧
        produced system options source = .ok text ∧
        Writes system options.outputKind (defaultOutputPath options) text world (.ok () final)) ∧
    (main system executable arguments world = (1, final) →
      Leaves system arguments world final) := by
  constructor
  · rw [main_eq_zero_iff]
    cases parsed : parseCommandLine arguments with
    | error error =>
      rw [perform_of_rejected parsed]
      constructor
      · intro success
        cases success
      · rintro ⟨options, _, _, accepted, _⟩
        cases accepted
    | ok options =>
      rw [perform_of_parsed parsed, execute_ok_iff]
      constructor
      · intro ⟨source, text, outcome⟩
        exact ⟨options, source, text, rfl, outcome⟩
      · rintro ⟨_, source, text, same, outcome⟩
        cases same
        exact ⟨source, text, outcome⟩
  · intro failed
    obtain ⟨error, before, run, files, stdout⟩ := main_eq_one failed
    cases leaves_of_error run with
    | nothing same same' => exact .nothing (files.trans same) (stdout.trans same')
    | empty parsed read failed same same' =>
      exact .empty parsed read failed (files.trans same) (stdout.trans same')
    | cut parsed read success writes reported same same' =>
      exact .cut parsed read success writes reported (files.trans same) (stdout.trans same')

end Ocelotl.Driver
