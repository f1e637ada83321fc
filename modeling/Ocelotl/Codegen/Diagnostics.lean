import Ocelotl.Codegen.TensorPrograms
import Ocelotl.IR.Provenance

namespace Ocelotl.Codegen

open Ast IR Semantic Library LLVM IRGenerator

variable {order analysisOrder generationOrder : TraversalOrder} {operation : Operation}
  {generator final : IRGenerator} {declared : SymbolTable} {declarations : List TensorDecl}
  {callees : List String} {analyzer : SemanticAnalyzer} {program : Program} {module : IR.Module}
  {verifyModule : LLVM.Function → Except String Unit} {error : LoweringError}

/-- What an error of the code generator means for the program and its module. The
errors that stand for a broken invariant of the compiler have no case. -/
inductive Explains (order : TraversalOrder) (verifyModule : LLVM.Function → Except String Unit)
    (declared : SymbolTable) (program : Program) (module : IR.Module) : LoweringError → Prop where
  | storage {declaration : TensorDecl} {type : TensorType} {error : LoweringError}
    (member : declaration ∈ declarationsIn program.statements)
    (found : declared.typeOf declaration.name = some type)
    (unsized : tensorStorageSize type = .error error) :
    Explains order verifyModule declared program module error
  | unsupportedPhi (joined : TensorPhi module) :
    Explains order verifyModule declared program module .unsupportedPhi
  | tensorLowering
    (called : "relu" ∈ callsIn program.statements ∨ "matmul" ∈ callsIn program.statements) :
    Explains order verifyModule declared program module .tensorLowering
  | invalidLLVM {builder : Builder} {message : String}
    (lowered : lowerModule order module {} = .ok () builder)
    (wellFormed : LLVM.WellFormed builder.function)
    (rejected : verifyModule builder.function = .error message) :
    Explains order verifyModule declared program module (.invalidLLVM message)

/-- Of the types that arise, LLVM has none for those of tensors. -/
theorem shape_of_typeArises (arises : TypeArises declarations type)
    (unknown : lowerType type = none) : type.shape ≠ [] := by
  rcases arises with rfl | numeric | ⟨tensor, _⟩
  · exact absurd unknown (by decide)
  · exact absurd unknown (lowerType_of_numeric numeric)
  · exact tensor

/-- An operation that is not supported comes from a declaration, a join of tensors or a call. -/
theorem explains_of_arises (member : operation ∈ operationsOf module)
    (arises : Arises declared (declarationsIn program.statements) (callsIn program.statements)
      operation)
    (failure : supported operation = .error error) :
    Explains order verifyModule declared program module error := by
  cases operation with
  | tensorDecl result name type =>
    obtain ⟨found, declaration, declares, rfl⟩ := arises
    rw [supported, except_bind_error] at failure
    rcases failure with unsized | ⟨_, _, impossible⟩
    · exact .storage declares found unsized
    · cases impossible
  | phi result type incoming =>
    obtain ⟨arises, two⟩ := arises
    rw [supported] at failure
    split at failure
    · rename_i unknown
      cases failure
      exact .unsupportedPhi ⟨_, member, rfl, shape_of_typeArises arises unknown⟩
    · split at failure
      · rename_i many
        rw [two] at many
        exact absurd many (by decide)
      · cases failure
  | matMul result lhs rhs type =>
    cases failure
    exact .tensorLowering (.inr arises)
  | relu result input type =>
    cases failure
    exact .tensorLowering (.inl arises)
  | constantInt | constantFloat | binary | compare => cases failure

/-- An operation that is supported is plain. -/
theorem plain_of_arises (arises : Arises declared declarations callees operation)
    (supports : supported operation = .ok ()) : Plain Sized operation := by
  cases operation with
  | tensorDecl result name type =>
    rw [supported, except_bind_ok] at supports
    obtain ⟨size, computed, _⟩ := supports
    exact ⟨size, computed⟩
  | phi result type incoming => exact arises.2
  | matMul | relu => cases supports
  | constantInt | constantFloat | binary | compare => exact arises

/-- The blocks of a generated module hold what was emitted. -/
theorem emitsOnly_iff {kind : Operation → Prop} (built : final.WellBuilt) :
    EmitsOnly kind final ↔ ∀ operation ∈ operationsOf final.module, kind operation := by
  constructor
  · intro emitted operation member
    obtain ⟨block, present, inside⟩ := List.mem_flatMap.mp member
    obtain ⟨index, here⟩ := List.getElem?_of_mem inside
    exact emitted block.id index operation ⟨block, (mem_blocks built).mp present, here⟩
  · intro each id index operation ⟨block, found, here⟩
    have member := (mem_blocks built).mpr ((built.ids found).symm ▸ found)
    exact each operation (List.mem_flatMap.mpr ⟨block, member, List.mem_of_getElem? here⟩)

/-- What the generator hands to the back end. -/
structure Generated (program : Program) (analyzer : SemanticAnalyzer)
    (final : IRGenerator) : Prop where
  built : final.WellBuilt
  entered : Entered final
  single : SingleEdges final
  verified : Verified final.module
  arises : ∀ operation ∈ operationsOf final.module,
    Arises analyzer.symbols (declarationsIn program.statements)
      (callsIn program.statements) operation
  returns : ∀ block ∈ final.module.blocks, ∀ value, block.terminator = some (.returnOp value) →
    ∃ definition, final.module.Defines value definition ∧ definition.type = .scalar "i64"
  returning : ReturnsInteger final.module

theorem generated_of_success (analyzed : analyze analysisOrder program = .ok analyzer)
    (ranked : ∀ declaration ∈ declarationsIn program.statements, declaration.type.shape ≠ [])
    (success : generateUnverified generationOrder analyzer.symbols program {} = .ok () final) :
    Generated program analyzer final := by
  have built := (generateUnverified_valid success).1
  have faithful : Faithful False analyzer.symbols (declarationsIn program.statements) :=
    fun declaration member exact => absurd (exact.resolve_right id) (ranked declaration member)
  have emitted := generateUnverified_arises analyzed ranked success
  obtain ⟨typed, returns⟩ := generateUnverified_returns analyzed faithful success
  have integers :
      ∀ block ∈ final.module.blocks, ∀ value, block.terminator = some (.returnOp value) →
      ∃ definition, final.module.Defines value definition ∧ definition.type = .scalar "i64" :=
    fun block member value ends =>
      (typed block.id value ⟨block, (mem_blocks built).mp member, ends⟩).defines built
  refine ⟨built, generateUnverified_entered success, generateUnverified_singleEdges success,
    verify_ok_iff.mp (verify_of_faithful analyzed faithful success),
      (emitsOnly_iff built).mp emitted, integers, ?_⟩
  obtain ⟨id, value, block, found, ends⟩ := returns
  have member := (mem_blocks built).mpr ((built.ids found).symm ▸ found)
  obtain ⟨definition, defines, same⟩ := integers block member value ends
  exact ⟨block, member, value, definition, ends, defines, same⟩

theorem generated_of_ok (analyzed : analyze analysisOrder program = .ok analyzer)
    (ranked : ∀ declaration ∈ declarationsIn program.statements, declaration.type.shape ≠ [])
    (generated : IR.generate generationOrder analyzer program = .ok module) :
    ∃ final, module = final.module ∧ Generated program analyzer final := by
  obtain ⟨final, success, _, rfl⟩ := IR.generate_ok.mp generated
  exact ⟨final, rfl, generated_of_success analyzed ranked success⟩

/-- A generated module whose operations are all supported follows the rules of LLVM. -/
theorem Generated.translatable (generated : Generated program analyzer final)
    (supports : ∀ operation ∈ operationsOf final.module, supported operation = .ok ()) :
    Translatable final.module := by
  have plain : ∀ operation ∈ operationsOf final.module, Plain Sized operation :=
    fun operation member =>
      plain_of_arises (generated.arises operation member) (supports operation member)
  exact translatable_of_built generated.built generated.entered generated.single
    ((emitsOnly_iff generated.built).mpr plain)
    (wellTyped_of_plain generated.verified plain generated.returns)

/-- Every error of the back end on the module of a program is explained by the
program, or by a verifier that rejects what LLVM allows. -/
theorem Generated.explains (generated : Generated program analyzer final)
    (failure : generate order verifyModule final.module = .error error) :
    Explains order verifyModule analyzer.symbols program final.module error := by
  have topological := generated.built.topological generated.entered
  have decided :
      outcome (lowerModule order final.module) {} = forM (operationsOf final.module) supported :=
    lowerModule_outcome generated.verified topological.toDefinitionOrdered
  rw [generate, verify_ok_iff.mpr generated.verified] at failure
  simp only [(firstReturnType_iff generated.verified).mpr generated.returning, bind,
    Except.bind, ne_eq,
    not_true_eq_false, if_false] at failure
  cases lowered : lowerModule order final.module {} with
  | error other builder =>
    simp only [lowered] at failure
    cases failure
    rw [outcome, lowered] at decided
    obtain ⟨operation, member, unsupported⟩ := exists_of_forM_eq_error decided.symm
    exact explains_of_arises member (generated.arises operation member) unsupported
  | ok _ builder =>
    rw [outcome, lowered] at decided
    obtain ⟨labels, translated⟩ :=
      lowerModule_translated generated.verified topological.entryFirst lowered
    have wellFormed : LLVM.WellFormed builder.function :=
      translated.wellFormed_iff.mpr (generated.translatable (forM_eq_ok.mp decided.symm))
    simp only [lowered] at failure
    cases accepted : verifyModule builder.function with
    | ok _ => simp [accepted, pure, Except.pure] at failure
    | error message =>
      simp only [accepted] at failure
      cases failure
      exact .invalidLLVM lowered wellFormed accepted

end Ocelotl.Codegen
