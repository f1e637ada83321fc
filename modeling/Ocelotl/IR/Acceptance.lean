import Ocelotl.IR.Agreement

namespace Ocelotl.IR

open Ast Semantic Library IRGenerator

variable {tensors : Prop} {generator middle final : IRGenerator} {block : BlockId}
  {value : ValueId} {type : TensorType} {info : ValueInfo} {last other : Terminator}
  {analysisOrder order : TraversalOrder} {declared : SymbolTable} {values : Environment}
  {statement : Statement} {statements : List Statement} {program : Program}
  {analyzer analyzer' accepted : SemanticAnalyzer} {id : BlockId}

/-- Every value returned so far is a scalar `i64`. -/
def ReturnsTyped (generator : IRGenerator) : Prop :=
  ∀ block value, TerminatorAt generator.blocks block (.returnOp value) →
    HasDefinition generator.blocks value (.scalar "i64")

def HasReturn (generator : IRGenerator) : Prop :=
  ∃ block value, TerminatorAt generator.blocks block (.returnOp value)

/-- The effect of statements on returns: they stay typed, and one exists when
every path has ended. -/
structure Returning (generator final : IRGenerator) : Prop where
  typed : ReturnsTyped generator → ReturnsTyped final
  some : final.currentBlockId = none → HasReturn final

theorem ReturnsTyped.grows (grows : Grows written targeted generator final)
    (returns : ∀ block value, TerminatorAt final.blocks block (.returnOp value) →
      TerminatorAt generator.blocks block (.returnOp value))
    (typed : ReturnsTyped generator) : ReturnsTyped final :=
  fun block value ends => (typed block value (returns block value ends)).mono
    fun _ _ _ present => grows.operationAt present

/-- Writing to a block that stays open, without new blocks, adds no terminator. -/
theorem IRGenerator.Grows.terminators (grows : Grows {block} ∅ generator final)
    (built : final.WellBuilt) (count : final.nextBlockId = generator.nextBlockId)
    (isOpen : Open final block) (ends : TerminatorAt final.blocks id last) :
    TerminatorAt generator.blocks id last := by
  obtain ⟨body, found, ends⟩ := ends
  by_cases here : id = block
  · obtain ⟨other, found', unterminated⟩ := isOpen
    rw [← here, found] at found'
    cases found'
    rw [unterminated] at ends
    cases ends
  · refine ⟨body, ?_, ends⟩
    rw [← grows.frame id (count ▸ built.lt_next found) (by simpa using here), found]

theorem Computed.terminators (computed : Computed generator block info final)
    (ends : TerminatorAt final.blocks id last) : TerminatorAt generator.blocks id last :=
  computed.grows.terminators computed.valid.built computed.count computed.valid.isOpen ends

theorem terminatorAt_terminate_imp
    (ends : TerminatorAt (generator.terminate block last).blocks id other) :
    TerminatorAt generator.blocks id other ∨ other = last := by
  obtain ⟨body, found, ends⟩ := ends
  rw [blocks_terminate] at found
  split at found
  · obtain ⟨old, _, rfl⟩ := Option.map_eq_some_iff.mp found
    exact .inr (Option.some.inj ends.symm)
  · exact .inl ⟨body, found, ends⟩

private theorem closeInto_returns {target : BlockId} {ends : List BlockId}
    (returns : TerminatorAt (closeInto target ends generator).blocks id (.returnOp value)) :
    TerminatorAt generator.blocks id (.returnOp value) := by
  induction ends generalizing generator with
  | nil => exact returns
  | cons block ends ih => exact (terminatorAt_terminate_imp (ih returns)).resolve_right nofun

private theorem join_returns {ends : List BlockId} (built : generator.WellBuilt)
    (returns : TerminatorAt (generator.join ends).blocks id (.returnOp value)) :
    TerminatorAt generator.blocks id (.returnOp value) :=
  (terminatorAt_addBlock built.sized _ _ _).mp (closeInto_returns returns)

private theorem fork_returns {condition : ValueId} (built : generator.WellBuilt)
    (returns : TerminatorAt (generator.fork block condition).blocks id (.returnOp value)) :
    TerminatorAt generator.blocks id (.returnOp value) := by
  have before := (terminatorAt_terminate_imp returns).resolve_right nofun
  have before := (terminatorAt_addBlock (built.addBlock "if.then").sized _ _ _).mp before
  exact (terminatorAt_addBlock built.sized _ _ _).mp before

private theorem generateReturn_returning {returnStatement : ReturnStmt} (valid : Valid generator block)
    (agrees : Agrees tensors analyzer.symbols generator.values)
    (analyzed : analyzeReturn returnStatement analyzer = .ok () analyzer')
    (success : generateReturn returnStatement generator = .ok () final) :
    Returning generator final := by
  obtain ⟨info, middle, first, rfl⟩ := (generateReturn_ok fun _ _ first =>
    (generateExpression_valid valid first).valid.toActive).mp success
  have computed := generateExpression_valid valid first
  have typed :=
    generateExpression_type valid agrees (analyzeReturn_ok.mp analyzed).1 first (.inl rfl)
  obtain ⟨body, found, unterminated⟩ := computed.valid.isOpen
  have here {id other} := terminatorAt_terminate found unterminated (.returnOp info.value) id other
  have ended := Grows.terminate computed.valid.isOpen (.returnOp info.value)
  refine ⟨fun returns id value ends => ?_, fun _ => ⟨block, info.value, here.mpr (.inr ⟨rfl, rfl⟩)⟩⟩
  rcases here.mp ends with old | ⟨_, same⟩
  · have before := returns id value (computed.terminators old)
    exact before.mono fun _ _ _ present =>
      ended.operationAt (computed.grows.operationAt present)
  · cases same
    exact (typed ▸ computed.available.hasDefinition).mono fun _ _ _ present =>
      ended.operationAt present

/-- The join adds no return, and is unreachable only when both branches are. -/
theorem JoinRun.returning {thenGenerator elseGenerator : IRGenerator}
    (run : JoinRun order values thenGenerator elseGenerator final)
    (built : elseGenerator.WellBuilt)
    (elseReturn : elseGenerator.currentBlockId = none → HasReturn elseGenerator) :
    Returning elseGenerator final := by
  cases run with
  | neither _ elseCurrent same =>
    subst same
    exact ⟨id, fun _ => elseReturn elseCurrent⟩
  | elseOnly elseEnd _ _ joined same | thenOnly elseEnd _ _ joined same =>
    subst same
    refine ⟨fun typed => ?_, nofun⟩
    have kept := typed.grows joined.grows fun _ _ ends => join_returns built ends
    exact kept
  | both thenEnd elseEnd _ _ joined merging _ merged =>
    have valid := merged.merging.valid
    refine ⟨fun typed => ?_, fun stopped => ?_⟩
    · have before := typed.grows joined.grows fun _ _ ends => join_returns built ends
      refine before.grows { merged.grows with } fun _ _ ends => ?_
      exact merged.grows.terminators valid.built merged.count valid.isOpen ends
    · rw [valid.current] at stopped
      cases stopped

theorem Returning.refl (valid : Valid generator block) : Returning generator generator :=
  ⟨id, fun stopped => by cases valid.current.symm.trans stopped⟩

theorem Returning.trans (first : Returning generator middle) (second : Returning middle final) :
    Returning generator final :=
  ⟨second.typed ∘ first.typed, second.some⟩

/-- Statements of an accepted program return scalar `i64` values only. -/
theorem generateStatement_returning (valid : Valid generator block)
    (agrees : Agrees tensors analyzer.symbols generator.values)
    (faithful : Faithful tensors declared (declarationsOf statement))
    (analyzed : analyzeStatement analysisOrder statement analyzer = .ok () analyzer')
    (success : generateStatement order declared statement generator = .ok () final) :
    Returning generator final := by
  induction statement generalizing generator final block analyzer analyzer' with
  | tensorDecl declaration =>
    rw [generateStatement] at success
    obtain ⟨type, _, _, rfl⟩ := (generateTensorDeclaration_ok valid.toActive).mp success
    have computed := valid.appendTo (.tensorDecl _ declaration.name type) rfl rfl
      (by simp [Operation.typedOperands]) (by simp [Operation.operands])
    refine ⟨fun typed => ?_, fun stopped => ?_⟩
    · have kept := typed.grows computed.grows fun _ _ => computed.terminators
      exact kept
    · cases computed.valid.current.symm.trans stopped
  | assignment assignment =>
    rw [generateStatement] at success
    obtain ⟨info, middle, first, rfl⟩ := generateAssignment_ok.mp success
    have computed := generateExpression_valid valid first
    refine ⟨fun typed => ?_, fun stopped => ?_⟩
    · have kept := typed.grows computed.grows fun _ _ => computed.terminators
      exact kept
    · cases computed.valid.current.symm.trans stopped
  | returnStmt returnStatement =>
    rw [analyzeStatement] at analyzed
    rw [generateStatement] at success
    exact generateReturn_returning valid agrees analyzed success
  | ifStmt condition thenStatements elseStatements location thenIH elseIH =>
    obtain ⟨thenAnalyzer, elseAnalyzer, _, thenAnalyzed, elseAnalyzed, merged⟩ :=
      analyzeStatement_if_ok.mp analyzed
    obtain ⟨info, tested, thenGenerator, elseGenerator, conditional⟩ :=
      generateStatement_conditional valid success
    have started : Agrees tensors analyzer.symbols tested.values :=
      conditional.computed.values ▸ agrees
    have thenReturning := generateBranch_effect .refl .trans thenIH conditional.thenValid started
      (fun declaration member => faithful declaration (List.mem_append_left _ member))
      thenAnalyzed conditional.thenRun
    have elseReturning := generateBranch_effect .refl .trans elseIH conditional.elseValid
      (by exact started)
      (fun declaration member => faithful declaration (List.mem_append_right _ member))
      elseAnalyzed conditional.elseRun
    have joined := conditional.joined.returning conditional.branched.built elseReturning.some
    refine ⟨fun typed => joined.typed (elseReturning.typed (thenReturning.typed ?_)), joined.some⟩
    have tested :=
      typed.grows conditional.computed.grows fun _ _ => conditional.computed.terminators
    have forked := tested.grows conditional.fork.grows fun _ _ ends =>
      fork_returns conditional.computed.valid.built ends
    exact forked
  | nullIf =>
    rw [generateStatement] at success
    cases success

section Verified

variable {body : BasicBlock} {index : Nat} {operation : Operation}

theorem IRGenerator.mem_blocks (built : generator.WellBuilt) :
    body ∈ generator.module.blocks ↔ generator.blocks body.id = some body := by
  constructor
  · intro member
    obtain ⟨index, here⟩ := List.getElem?_of_mem member
    have here : generator.blocks index = some body := here
    rw [built.ids here]
    exact here
  · exact List.mem_of_getElem?

/-- A definition in the module is an operation of the graph. -/
theorem IRGenerator.defines_iff (built : generator.WellBuilt) {definition : Definition} :
    generator.module.Defines value definition ↔ ∃ operation,
      OperationAt generator.blocks definition.block definition.operationIndex operation ∧
        resultOf operation = value ∧ typeOf operation = definition.type := by
  constructor
  · rintro ⟨body, member, position, operation, here, result, rfl⟩
    refine ⟨operation, ⟨body, (mem_blocks built).mp member, ?_⟩, result, rfl⟩
    rw [Nat.zero_add]
    exact here
  · rintro ⟨operation, ⟨body, found, here⟩, result, typed⟩
    have same := built.ids found
    refine ⟨body, (mem_blocks built).mpr (same.symm ▸ found), definition.operationIndex, operation,
      here, result, ?_⟩
    cases definition
    simp only [Definition.mk.injEq]
    exact ⟨same.symm, (Nat.zero_add _).symm, typed.symm⟩

theorem HasDefinition.defines (built : generator.WellBuilt)
    (defined : HasDefinition generator.blocks value type) :
    ∃ definition, generator.module.Defines value definition ∧ definition.type = type := by
  obtain ⟨block, index, operation, present, result, typed⟩ := defined
  exact ⟨⟨block, index, type⟩, (defines_iff built).mpr ⟨operation, present, result, typed⟩, rfl⟩

/-- The results of a well-built module are pairwise distinct. -/
theorem IRGenerator.WellBuilt.results_nodup (built : generator.WellBuilt) :
    (generator.module.blocks.flatMap BasicBlock.results).Nodup := by
  have present {block index : Nat} {operation : Operation}
    (within : block < generator.module.blocks.length)
      (here : (generator.module.blocks[block]).operations[index]? = some operation) :
      OperationAt generator.blocks block index operation :=
    ⟨_, List.getElem?_eq_getElem within, here⟩
  refine List.nodup_flatMap.mpr ⟨fun body member => ?_, ?_⟩
  · obtain ⟨block, within, rfl⟩ := List.getElem_of_mem member
    refine List.nodup_iff_injective_getElem.mpr fun first second same => ?_
    simp only [BasicBlock.results, List.getElem_map] at same
    have first' : first.val < (generator.module.blocks[block]).operations.length := by
      simpa [BasicBlock.results] using first.isLt
    have second' : second.val < (generator.module.blocks[block]).operations.length := by
      simpa [BasicBlock.results] using second.isLt
    exact Fin.ext (built.unique (present within (List.getElem?_eq_getElem first'))
      (present within (List.getElem?_eq_getElem second')) same).2
  · refine List.pairwise_iff_getElem.mpr fun first second within within' less => ?_
    intro value here here'
    simp only [BasicBlock.results, List.mem_map] at here here'
    obtain ⟨operation, member, result⟩ := here
    obtain ⟨operation', member', result'⟩ := here'
    obtain ⟨index, at'⟩ := List.getElem?_of_mem member
    obtain ⟨index', at''⟩ := List.getElem?_of_mem member'
    have same := (built.unique (present within at') (present within' at'')
      (result.trans result'.symm)).1
    lia

/-- The module returns, and everything it returns has one type. -/
def ReturnsOneType (module : Module) : Prop :=
  ∃ type, (∃ block ∈ module.blocks, ∃ value, block.terminator = some (.returnOp value)) ∧
    ∀ block ∈ module.blocks, ∀ value, block.terminator = some (.returnOp value) →
      ∃ definition, module.Defines value definition ∧ definition.type = type

/-- The returns are all that is left to verify of a well-built module without open blocks. -/
theorem IRGenerator.WellBuilt.verified_of_returns (built : generator.WellBuilt)
    (closed : ∀ id, ¬ Open generator id) (returns : ReturnsOneType generator.module) :
    Verified generator.module := by
  have found {body} (member : body ∈ generator.module.blocks) := (mem_blocks built).mp member
  have exists_block {id} (within : id < generator.nextBlockId) :
      ∃ body ∈ generator.module.blocks, body.id = id := by
    have within : id < generator.module.blocks.length := built.sized ▸ within
    exact ⟨_, List.getElem_mem within, built.ids (List.getElem?_eq_getElem within)⟩
  have earlier {body index operation value} (member : body ∈ generator.module.blocks)
      (here : body.operations[index]? = some operation) (used : value ∈ operation.operands) :
      ∃ definition, generator.module.Defines value definition ∧
        ¬ definition.NotBefore body.id index := by
    obtain ⟨source, position, operation', present, result, place⟩ :=
      built.operands ⟨body, found member, here⟩ used
    refine ⟨⟨source, position, typeOf operation'⟩, (defines_iff built).mpr
      ⟨operation', present, result, rfl⟩, ?_⟩
    rintro ⟨same, later⟩
    have same : source = body.id := same
    have later : index ≤ position := later
    rcases place with ⟨_, before⟩ | ⟨before, _⟩ <;> lia
  have unique {value first second} (left : generator.module.Defines value first)
      (right : generator.module.Defines value second) : first = second := by
    obtain ⟨operation, present, result, type⟩ := (defines_iff built).mp left
    obtain ⟨operation', present', result', type'⟩ := (defines_iff built).mp right
    obtain ⟨block, position⟩ := built.unique present present' (result.trans result'.symm)
    rw [block, position] at present
    cases present.unique present'
    cases first
    cases second
    simp_all
  refine ⟨?_, ?_, ?_, ?_, built.results_nodup, ?_, ?_, ?_, ?_, ?_, ?_, ?_, returns⟩
  · intro empty
    have rooted := built.rooted
    rw [← built.sized, empty] at rooted
    exact Nat.lt_irrefl _ rooted
  · refine List.nodup_iff_injective_getElem.mpr fun first second same => ?_
    simp only [List.getElem_map] at same
    have first' : first.val < generator.module.blocks.length := by simpa using first.isLt
    have second' : second.val < generator.module.blocks.length := by simpa using second.isLt
    rw [built.ids (List.getElem?_eq_getElem first'),
      built.ids (List.getElem?_eq_getElem second')] at same
    exact Fin.ext same
  · exact fun body member unterminated => closed body.id ⟨body, found member, unterminated⟩
  · intro body member
    refine List.pairwise_iff_getElem.mpr fun first second within within' less isPhi => ?_
    exact built.phisFirst ⟨body, found member, List.getElem?_eq_getElem within'⟩ isPhi less
      ⟨body, found member, List.getElem?_eq_getElem within⟩
  · rw [built.entry]
    exact exists_block built.rooted
  · exact fun body member target aimed =>
      exists_block (built.forward ⟨body, found member, aimed⟩).2
  · intro body member index operation here value type needed
    obtain ⟨definition, defines, typed⟩ :=
      (built.typed ⟨body, found member, here⟩ needed).defines built
    obtain ⟨other, defines', before⟩ := earlier member here (operand_of_typedOperand needed)
    cases unique defines defines'
    exact ⟨definition, defines, typed, before⟩
  · intro body member operation here value used
    obtain ⟨index, here⟩ := List.getElem?_of_mem here
    obtain ⟨definition, defines, _⟩ := earlier member here used
    exact ⟨definition, defines⟩
  · intro body member index operation here incoming listed
    obtain ⟨edge, source, position, operation', present, result, same, before, _⟩ :=
      built.incoming ⟨body, found member, here⟩ listed
    refine ⟨⟨source, position, typeOf operation⟩, (defines_iff built).mpr
      ⟨operation', present, result, same⟩, rfl, ?_⟩
    rintro ⟨same, _⟩
    have same : source = body.id := same
    have later := (built.forward edge).1
    lia
  · intro body member operation here isPhi
    obtain ⟨index, here⟩ := List.getElem?_of_mem here
    have present : OperationAt generator.blocks body.id index operation :=
      ⟨body, found member, here⟩
    obtain ⟨nodup, all⟩ := built.predecessors present isPhi
    refine ⟨nodup, fun source => ⟨fun listed => ?_, ?_⟩⟩
    · obtain ⟨incoming, member, rfl⟩ := List.mem_map.mp listed
      obtain ⟨other, found', aimed⟩ := (built.incoming present member).1
      have same := built.ids found'
      exact ⟨other, (mem_blocks built).mpr (same.symm ▸ found'), same, aimed⟩
    · rintro ⟨other, member, rfl, aimed⟩
      exact all other.id ⟨other, found member, aimed⟩
  · exact fun body member condition trueTarget falseTarget ends =>
      (built.conditions ⟨body, found member, ends⟩).defines built

theorem IRGenerator.WellBuilt.returnsOneType (built : generator.WellBuilt)
    (typed : ReturnsTyped generator) (returns : HasReturn generator) :
    ReturnsOneType generator.module := by
  obtain ⟨block, value, body, present, ends⟩ := returns
  have same := built.ids present
  refine ⟨.scalar "i64", ⟨body, (mem_blocks built).mpr (same.symm ▸ present), value, ends⟩, ?_⟩
  intro other member value ends
  exact (typed other.id value ⟨other, (mem_blocks built).mp member, ends⟩).defines built

end Verified

/-- Every value that the module returns is a scalar `i64`, and it returns one. -/
theorem generateUnverified_returns (analyzed : analyze analysisOrder program = .ok accepted)
    (faithful : Faithful tensors accepted.symbols (declarationsIn program.statements))
    (success : generateUnverified order accepted.symbols program {} = .ok () final) :
    ReturnsTyped final ∧ HasReturn final := by
  obtain ⟨_, stopped, _⟩ := generateUnverified_valid success
  obtain ⟨run, _⟩ := generateUnverified_ok.mp success
  have returning : Returning started final :=
    generateTopLevel_effect .refl .trans (fun _ _ => generateStatement_returning) .started
      (fun name type known => by simp at known) faithful (analyze_ok.mp analyzed) run
  refine ⟨returning.typed ?_, returning.some stopped⟩
  intro block value ⟨body, found, ends⟩
  rw [blocks_started] at found
  split at found
  · cases found
    cases ends
  · cases found

/-- The verifier accepts the module where the analyser's final table is faithful. -/
theorem verify_of_faithful (analyzed : analyze analysisOrder program = .ok accepted)
    (faithful : Faithful tensors accepted.symbols (declarationsIn program.statements))
    (success : generateUnverified order accepted.symbols program {} = .ok () final) :
    verify final.module = .ok () := by
  obtain ⟨built, _, closed⟩ := generateUnverified_valid success
  obtain ⟨typed, returns⟩ := generateUnverified_returns analyzed faithful success
  exact verify_ok_iff.mpr (built.verified_of_returns closed (built.returnsOneType typed returns))

/-- The final self-check never fires, provided the analyser's final table gives
the tensors declared without dimensions the types they declare. -/
theorem generateUnverified_verified (analyzed : analyze analysisOrder program = .ok accepted)
    (scalarsKept : ∀ declaration ∈ declarationsIn program.statements,
      declaration.type.shape = [] →
        accepted.symbols.typeOf declaration.name = some declaration.type)
    (success : generateUnverified order accepted.symbols program {} = .ok () final) :
    verify final.module = .ok () := by
  have faithful : Faithful False accepted.symbols (declarationsIn program.statements) :=
    fun declaration member exact => scalarsKept declaration member (exact.resolve_right id)
  exact verify_of_faithful analyzed faithful success

theorem generateUnverified_verified_declaredScalar : ∃ accepted final,
    analyze .stored declaredScalar = .ok accepted ∧
      generateUnverified .stored accepted.symbols declaredScalar {} = .ok () final ∧
      verify final.module = .ok () := by
  obtain ⟨accepted, module, analyzed, generated⟩ :
      ∃ accepted module, analyze .stored declaredScalar = .ok accepted ∧
        generate .stored accepted declaredScalar = .ok module :=
    exists_of_compile (by decide +kernel)
  obtain ⟨final, success, _⟩ := generate_ok.mp generated
  exact ⟨accepted, final, analyzed, success,
    generateUnverified_verified analyzed (declaredScalar_kept analyzed) success⟩

/-- A tensor without dimensions is returned as an `i64` in one branch, and its
name is declared again with another type after the conditional. -/
def redeclaredScalar : Program where
  statements := [
    .ifStmt (.binary .equal (.integer 1 {}) (.integer 1 {}) {})
      [.tensorDecl ⟨"A", .scalar "i64", {}⟩, .returnStmt ⟨.identifier "A" {}, {}⟩]
      [.assignment ⟨"Z", .integer 1 {}, {}⟩] {},
    .tensorDecl ⟨"A", ⟨"f64", [3]⟩, {}⟩,
    .returnStmt ⟨.integer 0 {}, {}⟩]

theorem redeclaredScalar_not_verified : ∃ accepted final,
    analyze .stored redeclaredScalar = .ok accepted ∧
      generateUnverified .stored accepted.symbols redeclaredScalar {} = .ok () final ∧
      verify final.module = .error .inconsistentReturns := by
  have computed : (analyze .stored redeclaredScalar).toOption.any (fun accepted =>
      (reached (generateUnverified .stored accepted.symbols redeclaredScalar) {}).any fun final =>
        decide (verify final.module = .error .inconsistentReturns)) = true := by decide +kernel
  obtain ⟨accepted, analyzed, computed⟩ := (Option.any_eq_true _ _).mp computed
  obtain ⟨final, success, invalid⟩ := (Option.any_eq_true _ _).mp computed
  exact ⟨accepted, final, toOption_eq_some.mp analyzed, reached_eq_some.mp success,
    of_decide_eq_true invalid⟩

end Ocelotl.IR
