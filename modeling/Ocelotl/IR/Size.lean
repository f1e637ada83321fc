import Ocelotl.IR.Diagnostics
import Mathlib.Tactic.Ring

namespace Ocelotl.IR

open Ast Semantic Library IRGenerator

/-- How often the constructs that code is made of occur. -/
structure Tally where
  declarations : Nat := 0
  assignments : Nat := 0
  returns : Nat := 0
  conditionals : Nat := 0
  operators : Nat := 0

namespace Tally

def add (first second : Tally) : Tally where
  declarations := first.declarations + second.declarations
  assignments := first.assignments + second.assignments
  returns := first.returns + second.returns
  conditionals := first.conditionals + second.conditionals
  operators := first.operators + second.operators

/-- The places that bind a name. -/
def bindings (tally : Tally) : Nat := tally.declarations + tally.assignments

end Tally

mutual

def operatorsOf : Expression → Nat
  | .binary _ lhs rhs _ => operatorsOf lhs + operatorsOf rhs + 1
  | .call _ arguments _ => operatorsIn arguments
  | .identifier _ _ | .integer _ _ | .float _ _ | .nullCall | .nullBinary => 0

def operatorsIn : List Expression → Nat
  | [] => 0
  | expression :: expressions => operatorsOf expression + operatorsIn expressions

end

mutual

def tallyOf : Statement → Tally
  | .tensorDecl _ => { declarations := 1 }
  | .assignment assignment => { assignments := 1, operators := operatorsOf assignment.value }
  | .returnStmt returnStatement => { returns := 1, operators := operatorsOf returnStatement.value }
  | .ifStmt condition thenStatements elseStatements _ =>
    .add { conditionals := 1, operators := operatorsOf condition }
      (.add (tallyIn thenStatements) (tallyIn elseStatements))
  | .nullIf => {}

def tallyIn : List Statement → Tally
  | [] => {}
  | statement :: statements => .add (tallyOf statement) (tallyIn statements)

end

/-- What the parts of a module count for. Constants, calls and branches count for nothing. -/
structure Weights where
  declaration : Nat
  arithmetic : Nat
  phi : Nat
  returns : Nat
  block : Nat

namespace Weights

def operation (weights : Weights) : Operation → Nat
  | .tensorDecl _ _ _ => weights.declaration
  | .binary _ _ _ _ _ | .compare _ _ _ _ _ => weights.arithmetic
  | .phi _ _ _ => weights.phi
  | .constantInt _ _ _ | .constantFloat _ _ _ | .matMul _ _ _ _ | .relu _ _ _ => 0

def terminator (weights : Weights) : Terminator → Nat
  | .returnOp _ => weights.returns
  | .branch _ | .condBranch _ _ _ => 0

def body (weights : Weights) (block : BasicBlock) : Nat :=
  weights.block + (block.operations.map weights.operation).sum + block.terminator.elim 0
    weights.terminator

def module (weights : Weights) (blocks : List BasicBlock) : Nat := (blocks.map weights.body).sum

/-- What a program with so many constructs can add, when so many names are bound. -/
def budget (weights : Weights) (names : Nat) (tally : Tally) : Nat :=
  weights.declaration * tally.declarations + weights.arithmetic * tally.operators +
    weights.returns * tally.returns + (3 * weights.block + weights.phi * names) * tally.conditionals

private theorem budget_add (weights : Weights) (names : Nat) (first second : Tally) :
    weights.budget names (first.add second) =
      weights.budget names first + weights.budget names second := by
  simp only [budget, Tally.add]
  ring

end Weights

variable {weights : Weights} {generator middle final : IRGenerator} {block : BlockId}
  {operation : Operation} {last : Terminator} {info : ValueInfo} {order : TraversalOrder}
  {declared : SymbolTable} {expression : Expression} {statement : Statement}
  {statements : List Statement} {before : Environment} {bound : List String}

private theorem sum_modify_le {α : Type} {items : List α} {index more : Nat} {change : α → α}
    {weight : α → Nat} (adds : ∀ item, weight (change item) ≤ weight item + more) :
    ((items.modify index change).map weight).sum ≤ (items.map weight).sum + more := by
  induction items generalizing index with
  | nil => simp
  | cons item items ih =>
    cases index with
    | zero =>
      have here := adds item
      simp only [List.modify_zero_cons, List.map_cons, List.sum_cons]
      omega
    | succ index =>
      have later := @ih index
      simp only [List.modify_succ_cons, List.map_cons, List.sum_cons]
      omega

/-- The weight of what was generated so far. -/
def IRGenerator.weight (weights : Weights) (generator : IRGenerator) : Nat :=
  weights.module generator.module.blocks

private theorem weight_appendTo : (generator.appendTo block operation).weight weights ≤
    generator.weight weights + weights.operation operation := by
  refine sum_modify_le fun body => ?_
  simp only [Weights.body, BasicBlock.append, List.map_append, List.sum_append, List.map_cons,
    List.map_nil,
    List.sum_cons, List.sum_nil]
  omega

private theorem weight_terminate : (generator.terminate block last).weight weights ≤
    generator.weight weights + weights.terminator last := by
  refine sum_modify_le fun body => ?_
  simp only [Weights.body, BasicBlock.terminate, Option.elim_some]
  omega

private theorem weight_addBlock (name : String) : (generator.addBlock name).weight weights =
    generator.weight weights + weights.block := by
  simp [IRGenerator.weight, Weights.module, addBlock, Weights.body]

private theorem weight_fork {condition : ValueId} : (generator.fork block condition).weight weights ≤
    generator.weight weights + 2 * weights.block := by
  have ended : (generator.fork block condition).weight weights ≤
      ((generator.addBlock "if.then").addBlock "if.else").weight weights := weight_terminate
  rw [weight_addBlock, weight_addBlock] at ended
  omega

private theorem weight_closeInto {target : BlockId} {ends : List BlockId} :
    (closeInto target ends generator).weight weights ≤ generator.weight weights := by
  induction ends generalizing generator with
  | nil => exact Nat.le_refl _
  | cons block ends ih =>
    have ended : (generator.terminate block (.branch target)).weight weights ≤
        generator.weight weights :=
      weight_terminate
    exact ih.trans ended

private theorem weight_join {ends : List BlockId} : (generator.join ends).weight weights ≤
    generator.weight weights + weights.block := by
  have closed :
      (generator.join ends).weight weights ≤ (generator.addBlock "if.end").weight weights :=
    weight_closeInto
  rw [weight_addBlock] at closed
  exact closed

private theorem weight_binaryOperation (op : BinaryOperator) (result : ValueId) (lhs rhs : ValueInfo) :
    weights.operation (binaryOperation op result lhs rhs).1 = weights.arithmetic := by
  cases op <;> rfl

private theorem generateExpression_weight (valid : Valid generator block)
    (success : generateExpression expression generator = .ok info final) :
    final.weight weights ≤ generator.weight weights + weights.arithmetic *
      operatorsOf expression := by
  induction expression generalizing generator info final with
  | identifier name location =>
    obtain ⟨_, rfl⟩ := generateIdentifier_ok.mp success
    exact Nat.le_add_right _ _
  | integer value location =>
    rw [generateExpression, generateInteger_apply valid.toActive] at success
    cases success
    exact weight_appendTo
  | float value location =>
    rw [generateExpression, generateFloat_apply valid.toActive] at success
    cases success
    exact weight_appendTo
  | call callee arguments location ih =>
    rcases generateExpression_call_ok.mp success with
      ⟨argument, input, middle, rfl, rfl, first, rest⟩ |
      ⟨lhsExpression, rhsExpression, lhs, middle, rhs, later, rfl, rfl, first, second, rest⟩
    · have computed := generateExpression_valid valid first
      have inside := ih argument (by simp) valid first
      rw [generateRelu_apply computed.valid.toActive] at rest
      cases rest
      have added :
          (middle.appendTo block (.relu middle.nextValueId input.value input.type)).weight weights ≤
          middle.weight weights := weight_appendTo
      simp only [operatorsOf, operatorsIn, Nat.add_zero]
      exact added.trans inside
    · have left := generateExpression_valid valid first
      have right := generateExpression_valid left.valid second
      have inLeft := ih lhsExpression (by simp) valid first
      have inRight := ih rhsExpression (by simp) left.valid second
      obtain ⟨m, n, _, _, _, rfl⟩ := (generateMatmul_ok right.valid.toActive).mp rest
      have added : (later.appendTo block (.matMul later.nextValueId lhs.value rhs.value
          ⟨lhs.type.elementType, [m, n]⟩)).weight weights ≤ later.weight weights := weight_appendTo
      simp only [operatorsOf, operatorsIn, Nat.add_zero, Nat.mul_add]
      omega
  | nullCall => cases success
  | nullBinary => cases success
  | binary op lhsExpression rhsExpression location lhsIH rhsIH =>
    obtain ⟨lhs, middle, rhs, later, first, second, rest⟩ := generateExpression_binary_ok.mp success
    have left := generateExpression_valid valid first
    have right := generateExpression_valid left.valid second
    have inLeft := lhsIH valid first
    have inRight := rhsIH left.valid second
    obtain ⟨_, _, rfl⟩ := (generateBinary_ok right.valid.toActive).mp rest
    have added :
        (later.appendTo block (binaryOperation op later.nextValueId lhs rhs).1).weight weights ≤
        later.weight weights + weights.arithmetic := by
      rw [← weight_binaryOperation op later.nextValueId lhs rhs]
      exact weight_appendTo
    simp only [operatorsOf, Nat.mul_add, Nat.mul_one]
    omega

/-- At most one phi for each entry. -/
theorem mergeValues_weight {thenEnd elseEnd : BlockId} {elseValues : Environment}
    (entries : List (String × ValueInfo)) (active : Active generator block)
    (success : mergeValues thenEnd elseEnd elseValues entries generator = .ok () final) :
    final.weight weights ≤ generator.weight weights + weights.phi * entries.length := by
  induction entries generalizing generator with
  | nil =>
    cases success
    exact Nat.le_add_right _ _
  | cons entry entries ih =>
    obtain ⟨name, thenValue⟩ := entry
    rw [List.length_cons, Nat.mul_add, Nat.mul_one]
    rcases (mergeValues_cons_ok active).mp success with
      ⟨_, success⟩ | ⟨elseValue, _, _, ⟨_, success⟩ | ⟨_, success⟩⟩
    · have rest := ih active success
      omega
    · have rest := ih (active.offer name thenValue) success
      have same : (generator.offer name thenValue).weight weights = generator.weight weights := rfl
      omega
    · have rest := ih ((active.appendTo _).offer _ _) success
      have added : (generator.appendTo block
          (joinPhi generator.nextValueId thenEnd elseEnd thenValue elseValue)).weight weights ≤
          generator.weight weights + weights.phi := weight_appendTo
      have same : ((generator.appendTo block
          (joinPhi generator.nextValueId thenEnd elseEnd thenValue elseValue)).offer name
            ⟨generator.nextValueId, thenValue.type⟩).weight weights = (generator.appendTo block
          (joinPhi generator.nextValueId thenEnd elseEnd thenValue elseValue)).weight weights := rfl
      omega

/-- An environment has no more entries than there are names. -/
theorem BindsOnly.length_le {values : Environment} (only : BindsOnly bound values)
    (order : TraversalOrder) (id : Nat) : (order.traverse id values).length ≤ bound.length := by
  rw [← List.length_map Prod.fst]
  refine (List.Nodup.subperm (order.nodup_traverse id values) fun name member => ?_).length_le
  obtain ⟨entry, listed, rfl⟩ := List.mem_map.mp member
  have found := order.mem_traverse.mp listed
  exact only entry.1 (by simp [typesOf, found])

/-- The join adds a block, and a phi for each name at most. -/
theorem JoinRun.weight {thenGenerator elseGenerator : IRGenerator}
    (run : JoinRun order before thenGenerator elseGenerator final)
    (only : thenGenerator.currentBlockId ≠ none → BindsOnly bound thenGenerator.values) :
    final.weight weights ≤
      elseGenerator.weight weights + (weights.block + weights.phi * bound.length) := by
  cases run with
  | neither _ _ same =>
    subst same
    exact Nat.le_add_right _ _
  | elseOnly elseEnd _ _ _ same | thenOnly elseEnd _ _ _ same =>
    subst same
    have joined : (elseGenerator.join [elseEnd]).weight weights ≤
        elseGenerator.weight weights + weights.block :=
      weight_join
    have entered : ∀ values, ((elseGenerator.join [elseEnd]).enter (some elseGenerator.nextBlockId)
        values).weight weights = (elseGenerator.join [elseEnd]).weight weights := fun _ => rfl
    rw [entered]
    omega
  | both thenEnd elseEnd thenCurrent _ _ merging success _ =>
    have joined : ((elseGenerator.join [thenEnd, elseEnd]).enter (some elseGenerator.nextBlockId)
        ∅).weight weights ≤ elseGenerator.weight weights + weights.block := weight_join
    have merged := @mergeValues_weight weights _ _ _ _ _ _ _ merging.valid.toActive success
    have few := (only (by simp [thenCurrent])).length_le order elseGenerator.nextBlockId
    have phis := Nat.mul_le_mul_left weights.phi few
    omega

/-- Statements bind no more names than they contain. -/
theorem BindsOnly.within {names : List String} (only : BindsOnly bound generator.values)
    (binds : names ⊆ bound)
    (keeps : ∀ {name}, name ∉ names → typesOf middle.values name = typesOf generator.values name) :
    BindsOnly bound middle.values := by
  intro name known
  by_cases here : name ∈ names
  · exact binds here
  · rw [keeps here] at known
    exact only name known

private theorem generateBranch_weight_of
    (each : ∀ statement ∈ statements, ∀ {generator final block}, Valid generator block →
      boundBy statement ⊆ bound → BindsOnly bound generator.values →
      generateStatement order declared statement generator = .ok () final →
      final.weight weights ≤
        generator.weight weights + weights.budget bound.length (tallyOf statement))
    (valid : Valid generator block) (binds : boundIn statements ⊆ bound)
    (only : BindsOnly bound generator.values)
    (success : generateBranch order declared statements generator = .ok () final) :
    final.weight weights ≤
      generator.weight weights + weights.budget bound.length (tallyIn statements) := by
  induction statements generalizing generator block with
  | nil =>
    cases success
    exact Nat.le_add_right _ _
  | cons statement statements ih =>
    have bindsHere : boundBy statement ⊆ bound :=
      fun _ member => binds (List.mem_append_left _ member)
    have bindsRest : boundIn statements ⊆ bound :=
      fun _ member => binds (List.mem_append_right _ member)
    rw [generateBranch_cons valid.current] at success
    obtain ⟨middle, first, rest⟩ := then_ok.mp success
    have here := each statement List.mem_cons_self valid bindsHere only first
    rw [tallyIn, Weights.budget_add]
    cases current : middle.currentBlockId with
    | none =>
      rw [generateBranch_stopped current] at rest
      cases rest
      omega
    | some next =>
      have only' : BindsOnly bound middle.values :=
        only.within bindsHere fun unbound =>
          generateStatement_unbound valid first unbound (by simp [current])
      have valid' := (generateStatement_valid valid first).settled.valid next current
      have later := ih (fun other member => each other (List.mem_cons_of_mem _ member)) valid'
          bindsRest only' rest
      omega

/-- A statement adds at most its budget. -/
theorem generateStatement_weight (valid : Valid generator block) (binds : boundBy statement ⊆ bound)
    (only : BindsOnly bound generator.values)
    (success : generateStatement order declared statement generator = .ok () final) :
    final.weight weights ≤
      generator.weight weights + weights.budget bound.length (tallyOf statement) := by
  induction statement generalizing generator final block with
  | tensorDecl declaration =>
    rw [generateStatement] at success
    obtain ⟨type, _, _, rfl⟩ := (generateTensorDeclaration_ok valid.toActive).mp success
    have added :
        (generator.appendTo block (.tensorDecl generator.nextValueId declaration.name type)).weight
          weights ≤
        generator.weight weights + weights.declaration := weight_appendTo
    simp only [Weights.budget, tallyOf, Nat.mul_zero, Nat.mul_one, Nat.add_zero]
    exact added
  | assignment assignment =>
    rw [generateStatement] at success
    obtain ⟨info, middle, first, rfl⟩ := generateAssignment_ok.mp success
    have computed : middle.weight weights ≤
        generator.weight weights + weights.arithmetic * operatorsOf assignment.value :=
      generateExpression_weight valid first
    simp only [Weights.budget, tallyOf, Nat.mul_zero, Nat.zero_add, Nat.add_zero]
    exact computed
  | returnStmt returnStatement =>
    rw [generateStatement] at success
    obtain ⟨info, middle, first, rfl⟩ := (generateReturn_ok fun _ _ first =>
      (generateExpression_valid valid first).valid.toActive).mp success
    have computed : middle.weight weights ≤
        generator.weight weights + weights.arithmetic * operatorsOf returnStatement.value :=
      generateExpression_weight valid first
    have ended : (middle.terminate block (.returnOp info.value)).weight weights ≤
        middle.weight weights + weights.returns := weight_terminate
    have same :
        ((middle.terminate block (.returnOp info.value)).enter none middle.values).weight weights =
        (middle.terminate block (.returnOp info.value)).weight weights := rfl
    simp only [Weights.budget, tallyOf, Nat.mul_zero, Nat.mul_one, Nat.zero_add, Nat.add_zero]
    omega
  | ifStmt condition thenStatements elseStatements location thenIH elseIH =>
    obtain ⟨info, tested, thenGenerator, elseGenerator, conditional⟩ :=
      generateStatement_conditional valid success
    have bindsThen : boundIn thenStatements ⊆ bound :=
      fun _ member => binds (List.mem_append_left _ member)
    have bindsElse : boundIn elseStatements ⊆ bound :=
      fun _ member => binds (List.mem_append_right _ member)
    have only' : BindsOnly bound tested.values := conditional.computed.values ▸ only
    have computed : tested.weight weights ≤ generator.weight weights + weights.arithmetic *
        operatorsOf condition :=
      generateExpression_weight valid conditional.first
    have forked : (tested.enterThen block info.value).weight weights ≤
        tested.weight weights + 2 * weights.block :=
      weight_fork
    have thenAdds :=
      generateBranch_weight_of thenIH conditional.thenValid bindsThen only' conditional.thenRun
    have entered : (thenGenerator.enterElse tested).weight weights = thenGenerator.weight weights :=
      rfl
    have elseAdds :=
      generateBranch_weight_of elseIH conditional.elseValid bindsElse only' conditional.elseRun
    have onlyThen (active : thenGenerator.currentBlockId ≠ none) :
        BindsOnly bound thenGenerator.values := by
      refine only'.within bindsThen fun unbound => ?_
      have kept := generateBranch_unbound conditional.thenValid conditional.thenRun unbound active
      exact kept
    have joined : final.weight weights ≤
        elseGenerator.weight weights + (weights.block + weights.phi * bound.length) :=
      conditional.joined.weight onlyThen
    have here : weights.budget bound.length
        { conditionals := 1, operators := operatorsOf condition } =
        weights.arithmetic * operatorsOf condition +
          (3 * weights.block + weights.phi * bound.length) := by
      simp only [Weights.budget, Nat.mul_zero, Nat.mul_one, Nat.zero_add, Nat.add_zero]
    rw [tallyOf, Weights.budget_add, Weights.budget_add, here]
    omega
  | nullIf =>
    rw [generateStatement] at success
    cases success

private theorem generateTopLevel_weight (valid : Valid generator block) (binds : boundIn statements ⊆ bound)
    (only : BindsOnly bound generator.values)
    (success : generateTopLevel order declared statements generator = .ok () final) :
    final.weight weights ≤
      generator.weight weights + weights.budget bound.length (tallyIn statements) := by
  induction statements generalizing generator block with
  | nil =>
    cases success
    exact Nat.le_add_right _ _
  | cons statement statements ih =>
    have bindsHere : boundBy statement ⊆ bound :=
      fun _ member => binds (List.mem_append_left _ member)
    have bindsRest : boundIn statements ⊆ bound :=
      fun _ member => binds (List.mem_append_right _ member)
    rw [generateTopLevel_cons valid.current] at success
    obtain ⟨middle, first, rest⟩ := then_ok.mp success
    have here : middle.weight weights ≤
        generator.weight weights + weights.budget bound.length (tallyOf statement) :=
      generateStatement_weight valid bindsHere only first
    rw [tallyIn, Weights.budget_add]
    cases current : middle.currentBlockId with
    | none =>
      cases statements with
      | nil =>
        cases rest
        omega
      | cons next statements =>
        rw [generateTopLevel_stopped current] at rest
        cases rest
    | some next =>
      have only' : BindsOnly bound middle.values :=
        only.within bindsHere fun unbound =>
          generateStatement_unbound valid first unbound (by simp [current])
      have valid' := (generateStatement_valid valid first).settled.valid next current
      have later := ih valid' bindsRest only' rest
      omega

private theorem bindings_add (first second : Tally) :
    (first.add second).bindings = first.bindings + second.bindings := by
  simp only [Tally.bindings, Tally.add]
  omega

mutual

private theorem length_boundBy : ∀ statement, (boundBy statement).length = (tallyOf statement).bindings
  | .tensorDecl _ | .assignment _ | .returnStmt _ | .nullIf => by
    rw [boundBy, tallyOf]
    rfl
  | .ifStmt _ thenStatements elseStatements _ => by
    rw [boundBy, tallyOf, List.length_append, length_boundIn thenStatements,
      length_boundIn elseStatements,
      bindings_add, bindings_add]
    exact (Nat.zero_add _).symm

private theorem length_boundIn : ∀ statements, (boundIn statements).length = (tallyIn statements).bindings
  | [] => by
    rw [boundIn, tallyIn]
    rfl
  | statement :: statements => by
    rw [boundIn, tallyIn, List.length_append, length_boundBy statement, length_boundIn statements,
      bindings_add]

end

/-- A generated module weighs no more than its entry block and the budget of its program. -/
theorem generateUnverified_weight {program : Program}
    (success : generateUnverified order declared program {} = .ok () final) :
    weights.module final.module.blocks ≤
      weights.block + weights.budget (tallyIn program.statements).bindings
        (tallyIn program.statements) := by
  obtain ⟨run, _⟩ := generateUnverified_ok.mp success
  have only : BindsOnly (boundIn program.statements) started.values :=
    fun name known => absurd rfl known
  have grown : final.weight weights ≤ started.weight weights +
      weights.budget (boundIn program.statements).length (tallyIn program.statements) :=
    generateTopLevel_weight .started (List.Subset.refl _) only run
  have initial : started.weight weights = weights.block := rfl
  rw [length_boundIn, initial] at grown
  exact grown

end Ocelotl.IR
