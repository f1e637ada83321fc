import Ocelotl.IR.Visits
import Ocelotl.Semantic.Introduction

namespace Ocelotl.IR

open Ast Semantic Library IRGenerator

variable {generator : IRGenerator} {block : BlockId} {analysisOrder order : TraversalOrder}
  {symbols : SymbolTable} {declaration : TensorDecl} {program : Program}
  {analyzer accepted : SemanticAnalyzer} {body : BasicBlock}

/-- The declaration finds a type, and its operation carries the element type
and the shape written in it. The operation is emitted before a name that is
already bound is rejected. -/
structure KeepsType (symbols : SymbolTable) (declaration : TensorDecl)
    (generator : IRGenerator) : Prop where
  found : lookupType symbols declaration.name generator.addValue =
    .ok declaration.type generator.addValue
  emitted : ∃ block body, generator.currentBlockId = some block ∧
    generator.blocks block = some body ∧
    (stateAfter (generateTensorDeclaration symbols declaration) generator).blocks block =
      some (body.append (.tensorDecl generator.nextValueId declaration.name declaration.type))

private theorem lookupType_ok {type : TensorType} {final : IRGenerator} :
    lookupType symbols name generator = .ok type final ↔
      symbols.typeOf name = some type ∧ generator = final := by
  rw [lookupType, SymbolTable.typeOf]
  cases symbols.lookup name with
  | none => simp
  | some symbol => simp

/-- Once a type is found, its operation is emitted, whether or not the name is free. -/
theorem stateAfter_generateTensorDeclaration {type : TensorType} (active : Active generator block)
    (known : symbols.typeOf declaration.name = some type) :
    (stateAfter (generateTensorDeclaration symbols declaration) generator).blocks =
      (generator.appendTo block
        (.tensorDecl generator.nextValueId declaration.name type)).blocks := by
  have active' : Active generator.addValue block := ⟨active.current, active.isOpen⟩
  have looked : lookupType symbols declaration.name generator.addValue =
      .ok type generator.addValue := lookupType_ok.mpr ⟨known, rfl⟩
  simp only [stateAfter, generateTensorDeclaration, createValue, emit, bind, EStateM.bind,
    modifyGet_apply, looked, updateCurrentBlock_apply active', emplaceValue]
  split
  · rename_i ended
    split at ended
    · cases ended
      rfl
    · cases ended
  · rename_i ended
    split at ended
    · cases ended
    · cases ended
      rfl

/-- The type comes from the table alone. -/
theorem keepsType_iff (active : Active generator block) :
    KeepsType symbols declaration generator ↔
      symbols.typeOf declaration.name = some declaration.type := by
  constructor
  · intro keeps
    exact (lookupType_ok.mp keeps.found).1
  · intro known
    obtain ⟨body, found, unterminated⟩ := active.isOpen
    refine ⟨lookupType_ok.mpr ⟨known, rfl⟩, block, body, active.current, found, ?_⟩
    rw [stateAfter_generateTensorDeclaration active known, blocks_appendTo, if_pos rfl, found]
    rfl

/-- A visited declaration keeps its type exactly when the first top-level
statement that binds its name introduces the name with that type. -/
theorem visit_keepsType (analyzed : analyze analysisOrder program = .ok accepted)
    (visit : Visit analysisOrder order accepted.symbols (.tensorDecl declaration) analyzer
      generator program.statements {} started) :
    KeepsType accepted.symbols declaration generator ↔
      IntroducesFirst analysisOrder declaration.name declaration.type program.statements {} := by
  obtain ⟨block, valid⟩ := visit.valid .started
  rw [keepsType_iff valid.toActive]
  exact analyze_typeOf analyzed declaration.name declaration.type

/-- A module is generated only after the first statement of its first branch is visited. -/
theorem visit_of_generate {condition : Expression} {target : Statement}
    {thenRest elseStatements rest : List Statement} {location : SourceLocation} {module : Module}
    (first : program.statements =
      .ifStmt condition (target :: thenRest) elseStatements location :: rest)
    (generated : generate order accepted program = .ok module) :
    ∃ generator, Visit analysisOrder order accepted.symbols target {} generator
      program.statements {} started := by
  obtain ⟨final, success, _⟩ := generate_ok.mp generated
  obtain ⟨run, _⟩ := generateUnverified_ok.mp success
  rw [first] at run ⊢
  obtain ⟨_, conditional, _⟩ := then_ok.mp ((generateTopLevel_cons rfl _ _).symm.trans run)
  obtain ⟨info, tested, block, _, _, computed, typed, current, _⟩ :=
    generateStatement_if_ok.mp conditional
  have opened := openBranches_ok.mpr ⟨block, typed, current, rfl, rfl⟩
  exact ⟨_, .thenBranch (by simp [started]) computed opened (.here (by simp [enter]))⟩

/-- Both branches declare the tensor with the same type. -/
def declaredInBranches : Program where
  statements := [
    .ifStmt (.binary .equal (.integer 1 {}) (.integer 1 {}) {})
      [.tensorDecl ⟨"A", ⟨"f32", [2]⟩, {}⟩]
      [.tensorDecl ⟨"A", ⟨"f32", [2]⟩, {}⟩] {},
    .returnStmt ⟨.integer 0 {}, {}⟩]

theorem visit_keepsType_declaredInBranches : ∃ accepted generator,
    analyze .stored declaredInBranches = .ok accepted ∧
      KeepsType accepted.symbols ⟨"A", ⟨"f32", [2]⟩, {}⟩ generator := by
  obtain ⟨accepted, module, analyzed, generated⟩ :
      ∃ accepted module, analyze .stored declaredInBranches = .ok accepted ∧
        generate .stored accepted declaredInBranches = .ok module :=
    exists_of_compile (by decide +kernel)
  obtain ⟨generator, visit⟩ := visit_of_generate rfl generated
  have declared : analyzeStatement .stored (.tensorDecl ⟨"A", ⟨"f32", [2]⟩, {}⟩) {} =
      .ok () (({} : SemanticAnalyzer).introduce ⟨"A", ⟨"f32", [2]⟩, {}⟩) := by
    rw [analyzeStatement]
    exact analyzeTensorDeclaration_ok.mpr ⟨SymbolTable.typeOf_empty "A", rfl⟩
  refine ⟨accepted, generator, analyzed, (visit_keepsType analyzed visit).mpr (.inl ?_)⟩
  exact ⟨.inl ⟨rfl, rfl⟩, _, analyzeStatements_cons_ok.mpr ⟨_, declared, rfl⟩, .inl ⟨rfl, rfl⟩⟩

/-- One branch declares a tensor, and its name is declared again after the
conditional with another type. -/
def redeclaredTensor : Program where
  statements := [
    .ifStmt (.binary .equal (.integer 1 {}) (.integer 1 {}) {})
      [.tensorDecl ⟨"A", ⟨"f32", [2]⟩, {}⟩]
      [.assignment ⟨"Y", .integer 1 {}, {}⟩] {},
    .tensorDecl ⟨"A", ⟨"f64", [3]⟩, {}⟩,
    .returnStmt ⟨.integer 0 {}, {}⟩]

/-- The declaration of the branch is emitted with the type of the later one. -/
theorem redeclaredTensor_not_keepsType : ∃ accepted module analyzer generator,
    analyze .stored redeclaredTensor = .ok accepted ∧
      generate .stored accepted redeclaredTensor = .ok module ∧
      Visit .stored .stored accepted.symbols (.tensorDecl ⟨"A", ⟨"f32", [2]⟩, {}⟩) analyzer
        generator redeclaredTensor.statements {} started ∧
      lookupType accepted.symbols "A" generator.addValue =
        .ok ⟨"f64", [3]⟩ generator.addValue ∧
      ¬ KeepsType accepted.symbols ⟨"A", ⟨"f32", [2]⟩, {}⟩ generator := by
  obtain ⟨accepted, module, analyzed, generated⟩ :
      ∃ accepted module, analyze .stored redeclaredTensor = .ok accepted ∧
        generate .stored accepted redeclaredTensor = .ok module :=
    exists_of_compile (by decide +kernel)
  obtain ⟨generator, visit⟩ := visit_of_generate rfl generated
  have later : .tensorDecl ⟨"A", ⟨"f64", [3]⟩, {}⟩ ∈ redeclaredTensor.statements := by
    simp [redeclaredTensor]
  have known := analyzeStatements_declares (analyze_ok.mp analyzed) later
  refine ⟨accepted, module, {}, generator, analyzed, generated, visit,
    lookupType_ok.mpr ⟨known, rfl⟩, fun keeps => ?_⟩
  have same := known.symm.trans (lookupType_ok.mp keeps.found).1
  exact absurd same (by decide)

end Ocelotl.IR
