import Ocelotl.IR.Acceptance
import Ocelotl.IR.BlockOrder

namespace Ocelotl.IR

open Ast Semantic Library IRGenerator

variable {tensors : Prop} {generator middle final : IRGenerator} {block id : BlockId}
  {operation : Operation} {kind : Operation → Prop} {declares : TensorType → Prop}
  {info : ValueInfo} {type : TensorType} {analysisOrder order : TraversalOrder}
  {symbols declared : SymbolTable} {values : Environment} {expression : Expression}
  {statement : Statement} {statements : List Statement}
  {analyzer analyzer' accepted : SemanticAnalyzer} {program : Program} {last : Terminator}

mutual

/-- What an expression calls. -/
def calleesOf : Expression → List String
  | .call callee arguments _ => callee :: calleesIn arguments
  | .binary _ lhs rhs _ => calleesOf lhs ++ calleesOf rhs
  | .identifier _ _ | .integer _ _ | .float _ _ | .nullCall | .nullBinary => []

def calleesIn : List Expression → List String
  | [] => []
  | expression :: expressions => calleesOf expression ++ calleesIn expressions

end

mutual

/-- What a statement calls. -/
def callsOf : Statement → List String
  | .assignment assignment => calleesOf assignment.value
  | .returnStmt returnStatement => calleesOf returnStatement.value
  | .ifStmt condition thenStatements elseStatements _ =>
    calleesOf condition ++ (callsIn thenStatements ++ callsIn elseStatements)
  | .tensorDecl _ | .nullIf => []

def callsIn : List Statement → List String
  | [] => []
  | statement :: statements => callsOf statement ++ callsIn statements

end

theorem mem_callsIn {callee : String} (member : statement ∈ statements)
    (here : callee ∈ callsOf statement) :
    callee ∈ callsIn statements := by
  induction statements with
  | nil => cases member
  | cons first statements ih =>
    rcases List.mem_cons.mp member with rfl | later
    · exact List.mem_append_left _ here
    · exact List.mem_append_right _ (ih later)

/-- Neither of the operations on tensors is called. -/
def NoTensorCalls (callees : List String) : Prop :=
  ∀ callee ∈ callees, callee ≠ "relu" ∧ callee ≠ "matmul"

theorem NoTensorCalls.left {callees callees' : List String}
    (none : NoTensorCalls (callees ++ callees')) :
    NoTensorCalls callees := fun callee member => none callee (List.mem_append_left _ member)

theorem NoTensorCalls.right {callees callees' : List String}
    (none : NoTensorCalls (callees ++ callees')) :
    NoTensorCalls callees' := fun callee member => none callee (List.mem_append_right _ member)

/-- Every operation written so far is of this kind. -/
def EmitsOnly (kind : Operation → Prop) (generator : IRGenerator) : Prop :=
  ∀ block index operation, OperationAt generator.blocks block index operation → kind operation

/-- Declarations of such types, arithmetic on scalar numbers, and phis for two predecessors. -/
def Plain (declares : TensorType → Prop) : Operation → Prop
  | .tensorDecl _ _ type => declares type
  | .constantInt _ _ type => type = .scalar "i64"
  | .constantFloat _ _ type => type = .scalar "f64"
  | .binary _ _ _ _ type => type.Numeric
  | .compare _ _ _ _ operandType => operandType.Numeric
  | .phi _ _ incoming => incoming.length = 2
  | .matMul _ _ _ _ | .relu _ _ _ => False

theorem EmitsOnly.appendTo (emitted : EmitsOnly kind generator) (isOpen : Open generator block)
    (here : kind operation) : EmitsOnly kind (generator.appendTo block operation) := by
  obtain ⟨body, found, _⟩ := isOpen
  intro id index other present
  rcases (operationAt_appendTo found operation id index other).mp present with old | ⟨_, _, same⟩
  · exact emitted id index other old
  · exact same ▸ here

theorem EmitsOnly.closeInto {target : BlockId} {ends : List BlockId}
    (emitted : EmitsOnly kind generator) :
    EmitsOnly kind (closeInto target ends generator) := by
  induction ends generalizing generator with
  | nil => exact emitted
  | cons block ends ih =>
    apply ih
    intro id index operation present
    exact emitted id index operation ((operationAt_terminate _ _ _ _ _ _).mp present)

theorem EmitsOnly.addBlock (emitted : EmitsOnly kind generator) (built : generator.WellBuilt)
    (name : String) :
    EmitsOnly kind (generator.addBlock name) :=
  fun id index operation present =>
    emitted id index operation
      ((operationAt_addBlock built.sized name id index operation).mp present)

theorem EmitsOnly.join (emitted : EmitsOnly kind generator) (built : generator.WellBuilt)
    (ends : List BlockId) :
    EmitsOnly kind (generator.join ends) := (emitted.addBlock built _).closeInto

theorem EmitsOnly.fork (emitted : EmitsOnly kind generator) (built : generator.WellBuilt)
    (block : BlockId) (condition : ValueId) : EmitsOnly kind (generator.fork block condition) := by
  have added := (emitted.addBlock built "if.then").addBlock (built.addBlock _) "if.else"
  intro id index operation present
  exact added id index operation ((operationAt_terminate _ _ _ _ _ _).mp present)

private theorem generateExpression_emits (valid : Valid generator block)
    (agrees : Agrees tensors symbols generator.values)
    (analyzed : analyzeExpression symbols expression = .ok type)
    (none : NoTensorCalls (calleesOf expression))
    (success : generateExpression expression generator = .ok info final)
    (emitted : EmitsOnly (Plain declares) generator) : EmitsOnly (Plain declares) final := by
  induction expression generalizing generator info final type with
  | identifier name location =>
    obtain ⟨_, rfl⟩ := generateIdentifier_ok.mp success
    exact emitted
  | integer value location =>
    rw [generateExpression, generateInteger_apply valid.toActive] at success
    cases success
    exact emitted.appendTo valid.isOpen rfl
  | float value location =>
    rw [generateExpression, generateFloat_apply valid.toActive] at success
    cases success
    exact emitted.appendTo valid.isOpen rfl
  | call callee arguments location ih =>
    obtain ⟨notRelu, notMatmul⟩ := none callee List.mem_cons_self
    rcases generateExpression_call_ok.mp success with
      ⟨_, _, _, relu, _⟩ | ⟨_, _, _, _, _, _, matmul, _⟩
    · exact absurd relu notRelu
    · exact absurd matmul notMatmul
  | nullCall => cases success
  | nullBinary => cases success
  | binary op lhsExpression rhsExpression location lhsIH rhsIH =>
    obtain ⟨lhs, middle, rhs, later, first, second, rest⟩ := generateExpression_binary_ok.mp success
    obtain ⟨operand, leftTyped, rightTyped, numeric, _⟩ := analyzeExpression_binary_ok.mp analyzed
    have left := generateExpression_valid valid first
    have right := generateExpression_valid left.valid second
    have leftType := generateExpression_type valid agrees leftTyped first (.inl numeric.shape)
    have emitted := lhsIH valid agrees leftTyped none.left first emitted
    have emitted := rhsIH left.valid (left.values ▸ agrees) rightTyped none.right second emitted
    obtain ⟨_, _, rfl⟩ := (generateBinary_ok right.valid.toActive).mp rest
    apply emitted.appendTo right.valid.isOpen
    rw [← leftType] at numeric
    cases op <;> exact numeric

private theorem mergeValues_emits {thenEnd elseEnd : BlockId} {elseValues : Environment}
    {entries : List (String × ValueInfo)} (active : Active generator block)
    (success : mergeValues thenEnd elseEnd elseValues entries generator = .ok () final)
    (emitted : EmitsOnly (Plain declares) generator) : EmitsOnly (Plain declares) final := by
  induction entries generalizing generator with
  | nil =>
    cases success
    exact emitted
  | cons entry entries ih =>
    obtain ⟨name, thenValue⟩ := entry
    rcases (mergeValues_cons_ok active).mp success with
      ⟨_, success⟩ | ⟨elseValue, _, _, ⟨_, success⟩ | ⟨_, success⟩⟩
    · exact ih active success emitted
    · exact ih (active.offer _ _) success emitted
    · exact ih ((active.appendTo _).offer _ _) success (emitted.appendTo active.isOpen rfl)

theorem JoinRun.emits {thenGenerator elseGenerator : IRGenerator}
    (run : JoinRun order values thenGenerator elseGenerator final) (built : elseGenerator.WellBuilt)
    (emitted : EmitsOnly (Plain declares) elseGenerator) : EmitsOnly (Plain declares) final := by
  cases run with
  | neither _ _ same =>
    subst same
    exact emitted
  | elseOnly end' _ _ _ same | thenOnly end' _ _ _ same =>
    subst same
    exact emitted.join built [end']
  | both thenEnd elseEnd _ _ _ merging success _ =>
    have joined := emitted.join built [thenEnd, elseEnd]
    exact mergeValues_emits merging.valid.toActive success joined

/-- Only plain operations are written. -/
def EmitsPlain (declares : TensorType → Prop) (generator final : IRGenerator) : Prop :=
  EmitsOnly (Plain declares) generator → EmitsOnly (Plain declares) final

theorem EmitsPlain.refl : EmitsPlain declares generator generator := id

theorem EmitsPlain.trans (first : EmitsPlain declares generator middle)
    (second : EmitsPlain declares middle final) : EmitsPlain declares generator final :=
  fun emitted => second (first emitted)

/-- Programs without tensor calls give plain operations. -/
theorem generateStatement_emits (valid : Valid generator block)
    (agrees : Agrees tensors analyzer.symbols generator.values)
    (faithful : Faithful tensors declared (declarationsOf statement))
    (analyzed : analyzeStatement analysisOrder statement analyzer = .ok () analyzer')
    (none : NoTensorCalls (callsOf statement))
    (declaring : ∀ declaration ∈ declarationsOf statement, ∀ type,
      declared.typeOf declaration.name = some type → declares type)
    (success : generateStatement order declared statement generator = .ok () final) :
    EmitsPlain declares generator final := by
  induction statement generalizing generator final block analyzer analyzer' with
  | tensorDecl declaration =>
    intro emitted
    rw [generateStatement] at success
    obtain ⟨type, found, _, rfl⟩ := (generateTensorDeclaration_ok valid.toActive).mp success
    have member : declaration ∈ declarationsOf (.tensorDecl declaration) :=
      List.mem_singleton.mpr rfl
    have declared : EmitsOnly (Plain declares) (generator.appendTo block
        (.tensorDecl generator.nextValueId declaration.name type)) :=
      emitted.appendTo valid.isOpen (declaring declaration member type found)
    exact declared
  | assignment assignment =>
    intro emitted
    rw [analyzeStatement] at analyzed
    rw [generateStatement] at success
    obtain ⟨type, typed, _⟩ := analyzeAssignment_known analyzed
    obtain ⟨info, middle, first, rfl⟩ := generateAssignment_ok.mp success
    have computed : EmitsOnly (Plain declares) middle :=
      generateExpression_emits valid agrees typed none first emitted
    exact computed
  | returnStmt returnStatement =>
    intro emitted
    rw [analyzeStatement] at analyzed
    rw [generateStatement] at success
    obtain ⟨info, middle, first, rfl⟩ := (generateReturn_ok fun _ _ first =>
      (generateExpression_valid valid first).valid.toActive).mp success
    have emitted :=
      generateExpression_emits valid agrees (analyzeReturn_ok.mp analyzed).1 none first emitted
    intro id index operation present
    exact emitted id index operation ((operationAt_terminate _ _ _ _ _ _).mp present)
  | ifStmt condition thenStatements elseStatements location thenIH elseIH =>
    intro emitted
    obtain ⟨thenAnalyzer, elseAnalyzer, conditionTyped, thenAnalyzed, elseAnalyzed, merged⟩ :=
      analyzeStatement_if_ok.mp analyzed
    obtain ⟨info, tested, thenGenerator, elseGenerator, conditional⟩ :=
      generateStatement_conditional valid success
    have started : Agrees tensors analyzer.symbols tested.values :=
      conditional.computed.values ▸ agrees
    have tested :=
      generateExpression_emits valid agrees conditionTyped none.left conditional.first emitted
    have forked := tested.fork conditional.computed.valid.built block info.value
    have thenEmitted := generateBranch_effect (fun _ => EmitsPlain.refl) .trans
      (fun statement member _ _ _ _ _ valid agrees faithful analyzed success =>
        thenIH statement member valid agrees faithful analyzed
          (fun callee here => none callee (List.mem_append_right _
            (List.mem_append_left _ (mem_callsIn member here))))
          (fun declaration here => declaring declaration (List.mem_append_left _
            (mem_declarationsIn.mpr ⟨statement, member, here⟩))) success)
      conditional.thenValid started
      (fun declaration member => faithful declaration (List.mem_append_left _ member))
      thenAnalyzed conditional.thenRun forked
    have elseEmitted := generateBranch_effect (fun _ => EmitsPlain.refl) .trans
      (fun statement member _ _ _ _ _ valid agrees faithful analyzed success =>
        elseIH statement member valid agrees faithful analyzed
          (fun callee here => none callee (List.mem_append_right _
            (List.mem_append_right _ (mem_callsIn member here))))
          (fun declaration here => declaring declaration (List.mem_append_right _
            (mem_declarationsIn.mpr ⟨statement, member, here⟩))) success)
      conditional.elseValid (by exact started)
      (fun declaration member => faithful declaration (List.mem_append_right _ member))
      elseAnalyzed conditional.elseRun thenEmitted
    exact conditional.joined.emits conditional.branched.built elseEmitted
  | nullIf =>
    rw [generateStatement] at success
    cases success

/-- The operations of a program without tensor calls. -/
theorem generateUnverified_emits (analyzed : analyze analysisOrder program = .ok accepted)
    (faithful : Faithful tensors accepted.symbols (declarationsIn program.statements))
    (none : NoTensorCalls (callsIn program.statements))
    (declaring : ∀ declaration ∈ declarationsIn program.statements, ∀ type,
      accepted.symbols.typeOf declaration.name = some type → declares type)
    (success : generateUnverified order accepted.symbols program {} = .ok () final) :
    EmitsOnly (Plain declares) final := by
  obtain ⟨run, _⟩ := generateUnverified_ok.mp success
  have emits : EmitsPlain declares started final :=
    generateTopLevel_effect (fun _ => EmitsPlain.refl) .trans
      (fun statement member _ _ _ _ _ valid agrees faithful analyzed success =>
        generateStatement_emits valid agrees faithful analyzed
          (fun callee here => none callee (mem_callsIn member here))
          (fun declaration here => declaring declaration
            (mem_declarationsIn.mpr ⟨statement, member, here⟩)) success)
      .started (fun name type known => by simp at known) faithful (analyze_ok.mp analyzed) run
  apply emits
  intro block index operation ⟨body, found, here⟩
  rw [blocks_started] at found
  split at found
  · cases found
    cases here
  · cases found

/-- No terminator has the same target twice. -/
def SingleEdges (generator : IRGenerator) : Prop :=
  ∀ id last, TerminatorAt generator.blocks id last → last.targets.Nodup

theorem SingleEdges.closeInto {target : BlockId} {ends : List BlockId}
    (single : SingleEdges generator) :
    SingleEdges (closeInto target ends generator) := by
  induction ends generalizing generator with
  | nil => exact single
  | cons block ends ih =>
    apply ih
    intro id last present
    rcases terminatorAt_terminate_imp present with old | rfl
    · exact single id last old
    · exact List.nodup_singleton target

theorem SingleEdges.join (single : SingleEdges generator) (built : generator.WellBuilt)
    (ends : List BlockId) : SingleEdges (generator.join ends) := by
  have added : SingleEdges (generator.addBlock "if.end") := fun id last present =>
    single id last ((terminatorAt_addBlock built.sized _ _ _).mp present)
  exact added.closeInto

theorem SingleEdges.fork (single : SingleEdges generator) (built : generator.WellBuilt)
    (block : BlockId) (condition : ValueId) : SingleEdges (generator.fork block condition) := by
  intro id last present
  rcases terminatorAt_terminate_imp present with old | rfl
  · have before := (terminatorAt_addBlock (built.addBlock "if.then").sized _ _ _).mp old
    exact single id last ((terminatorAt_addBlock built.sized _ _ _).mp before)
  · simp [Terminator.targets]

theorem JoinRun.singleEdges {thenGenerator elseGenerator : IRGenerator}
    (run : JoinRun order values thenGenerator elseGenerator final) (built : elseGenerator.WellBuilt)
    (single : SingleEdges elseGenerator) : SingleEdges final := by
  cases run with
  | neither _ _ same =>
    subst same
    exact single
  | elseOnly end' _ _ _ same | thenOnly end' _ _ _ same =>
    subst same
    exact single.join built [end']
  | both thenEnd elseEnd _ _ _ _ _ merged =>
    have joined := single.join built [thenEnd, elseEnd]
    intro id last present
    exact joined id last (merged.grows.terminators merged.merging.valid.built merged.count
      merged.merging.valid.isOpen present)

private theorem generateStatement_singleEdges (valid : Valid generator block)
    (single : SingleEdges generator)
    (success : generateStatement order declared statement generator = .ok () final) :
    SingleEdges final := by
  induction statement generalizing generator final block with
  | tensorDecl declaration =>
    rw [generateStatement] at success
    obtain ⟨type, _, _, rfl⟩ := (generateTensorDeclaration_ok valid.toActive).mp success
    intro id last present
    exact single id last ((terminatorAt_appendTo generator block _).mp present)
  | assignment assignment =>
    rw [generateStatement] at success
    obtain ⟨info, middle, first, rfl⟩ := generateAssignment_ok.mp success
    intro id last present
    exact single id last ((generateExpression_valid valid first).terminators present)
  | returnStmt returnStatement =>
    rw [generateStatement] at success
    obtain ⟨info, middle, first, rfl⟩ := (generateReturn_ok fun _ _ first =>
      (generateExpression_valid valid first).valid.toActive).mp success
    intro id last present
    rcases terminatorAt_terminate_imp present with old | rfl
    · exact single id last ((generateExpression_valid valid first).terminators old)
    · exact List.nodup_nil
  | ifStmt condition thenStatements elseStatements location thenIH elseIH =>
    obtain ⟨info, tested, thenGenerator, elseGenerator, conditional⟩ :=
      generateStatement_conditional valid success
    have tested : SingleEdges tested := fun id last present =>
      single id last (conditional.computed.terminators present)
    have forked := tested.fork conditional.computed.valid.built block info.value
    have thenSingle := generateBranch_keeps thenIH conditional.thenValid forked conditional.thenRun
    have elseSingle :=
      generateBranch_keeps elseIH conditional.elseValid thenSingle conditional.elseRun
    exact conditional.joined.singleEdges conditional.branched.built elseSingle
  | nullIf =>
    rw [generateStatement] at success
    cases success

theorem generateUnverified_singleEdges
    (success : generateUnverified order declared program {} = .ok () final) :
    SingleEdges final := by
  obtain ⟨run, _⟩ := generateUnverified_ok.mp success
  have start : SingleEdges started := by
    intro id last ⟨body, found, ends⟩
    rw [blocks_started] at found
    split at found
    · cases found
      cases ends
    · cases found
  exact generateTopLevel_keeps (fun _ _ => generateStatement_singleEdges) .started start run

end Ocelotl.IR
