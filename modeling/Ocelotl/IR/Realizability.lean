import Ocelotl.IR.Diagnostics
import Ocelotl.IR.Preservation
import Ocelotl.IR.Realization

namespace Ocelotl.IR

open Ast Semantic Library IRGenerator

variable {sized : TensorType → Prop} {kind : Operation → Prop}
  {generator middle final : IRGenerator} {block thenEnd elseEnd : BlockId} {operation : Operation}
  {analysisOrder order : TraversalOrder} {symbols declared : SymbolTable}
  {values before thenValues elseValues : Environment} {name : String}
  {tensors tensors' : List ValueInfo} {bindings thenBindings elseBindings : Bindings}
  {binding binding' : Binding} {info info' : ValueInfo} {type : TensorType}
  {expression : Expression} {statement : Statement} {statements : List Statement}
  {analyzer analyzer' accepted : SemanticAnalyzer} {program : Program} {count : Nat}
  {after thenAfter elseAfter : Option Bindings}

/-- The back end can lower the operation, if it knows the storage of these types:
there are no calls, and only numbers are joined. -/
def Buildable (sized : TensorType → Prop) : Operation → Prop
  | .tensorDecl _ _ type => sized type
  | .phi _ type _ => type.shape = []
  | .matMul _ _ _ _ | .relu _ _ _ => False
  | .constantInt _ _ _ | .constantFloat _ _ _ | .binary _ _ _ _ _ | .compare _ _ _ _ _ => True

theorem EmitsOnly.of_grows {written targeted : Set BlockId} (emitted : EmitsOnly kind final)
    (grows : Grows written targeted generator final) : EmitsOnly kind generator :=
  fun id index operation present => emitted id index operation (grows.operationAt present)

/-- What was written last is of the kind too. -/
theorem EmitsOnly.appended (emitted : EmitsOnly kind (generator.appendTo block operation))
    (isOpen : Open generator block) : kind operation := by
  obtain ⟨body, found, _⟩ := isOpen
  exact emitted block body.operations.length operation
    ((operationAt_appendTo found operation block body.operations.length operation).mpr
      (.inr ⟨rfl, rfl, rfl⟩))

/-- What a value stands for, after these tensors were declared. -/
inductive Stands (tensors : List ValueInfo) : ValueInfo → Binding → Prop where
  | scalar {info : ValueInfo}
    (scalar : info.type.shape = []) : Stands tensors info (.scalar info.type)
  | tensor {info : ValueInfo} {index : Nat} (declared : tensors[index]? = some info) :
    Stands tensors info (.tensor index)

/-- The tensors that were declared have dimensions, and a value each. -/
structure Enumerates (tensors : List ValueInfo) (generator : IRGenerator) : Prop where
  ranked : ∀ info ∈ tensors, info.type.shape ≠ []
  distinct : (tensors.map ValueInfo.value).Nodup
  created : ∀ info ∈ tensors, info.value < generator.nextValueId

/-- The names that are bound are those that are known, and stand for the same. -/
structure Knows (tensors : List ValueInfo) (bindings : Bindings) (values : Environment) : Prop where
  bound : ∀ {name info}, values.lookup name = some info →
    ∃ binding, bindings name = some binding ∧ Stands tensors info binding
  known : ∀ {name binding}, bindings name = some binding →
    ∃ info, values.lookup name = some info ∧ Stands tensors info binding

theorem Stands.mono (stands : Stands tensors info binding) (more : tensors <+: tensors') :
    Stands tensors' info binding := by
  cases stands with
  | scalar scalar => exact .scalar scalar
  | tensor found =>
    obtain ⟨later, rfl⟩ := more
    refine .tensor ?_
    rw [List.getElem?_append_left (List.getElem?_eq_some_iff.mp found).1]
    exact found

theorem Knows.mono (knows : Knows tensors bindings values) (more : tensors <+: tensors') :
    Knows tensors' bindings values where
  bound := by
    intro name info found
    obtain ⟨binding, known, stands⟩ := knows.bound found
    exact ⟨binding, known, stands.mono more⟩
  known := by
    intro name binding known
    obtain ⟨info, found, stands⟩ := knows.known known
    exact ⟨info, found, stands.mono more⟩

theorem Knows.lookup_eq_none (knows : Knows tensors bindings values) :
    values.lookup name = none ↔ bindings name = none := by
  constructor
  · intro missing
    cases known : bindings name with
    | none => rfl
    | some binding =>
      obtain ⟨info, found, _⟩ := knows.known known
      cases missing.symm.trans found
  · intro unknown
    cases found : values.lookup name with
    | none => rfl
    | some info =>
      obtain ⟨binding, known, _⟩ := knows.bound found
      cases unknown.symm.trans known

theorem Knows.insert (knows : Knows tensors bindings values) (stands : Stands tensors info binding)
    (name : String) :
    Knows tensors (Function.update bindings name (some binding)) (values.insert name info) := by
  constructor
  · intro other found here
    rw [UnorderedMap.lookup_insert_eq] at here
    rw [Function.update_apply]
    split at here
    · rename_i same
      cases here
      exact ⟨binding, if_pos same, stands⟩
    · rename_i different
      obtain ⟨known, here, stands⟩ := knows.bound here
      exact ⟨known, (if_neg different).trans here, stands⟩
  · intro other known here
    rw [Function.update_apply] at here
    rw [UnorderedMap.lookup_insert_eq]
    split at here
    · rename_i same
      cases here
      exact ⟨info, if_pos same, stands⟩
    · rename_i different
      obtain ⟨found, here, stands⟩ := knows.known here
      exact ⟨found, (if_neg different).trans here, stands⟩

theorem Enumerates.mono (enumerates : Enumerates tensors generator)
    (later : generator.nextValueId ≤ final.nextValueId) : Enumerates tensors final :=
  ⟨enumerates.ranked, enumerates.distinct,
    fun info member => (enumerates.created info member).trans_le later⟩

/-- One more tensor gets the next value. -/
theorem Enumerates.declare (enumerates : Enumerates tensors generator) (ranked : type.shape ≠ [])
    (next : final.nextValueId = generator.nextValueId + 1) :
    Enumerates (tensors ++ [⟨generator.nextValueId, type⟩]) final where
  ranked := by
    intro info member
    rcases List.mem_append.mp member with old | new
    · exact enumerates.ranked info old
    · cases List.mem_singleton.mp new
      exact ranked
  distinct := by
    rw [List.map_append, List.nodup_append]
    refine ⟨enumerates.distinct, List.nodup_singleton _, ?_⟩
    intro value old other new same
    obtain ⟨info, member, rfl⟩ := List.mem_map.mp old
    cases List.mem_singleton.mp new
    exact Nat.lt_irrefl _ (same ▸ enumerates.created info member)
  created := by
    intro info member
    rw [next]
    rcases List.mem_append.mp member with old | new
    · exact Nat.lt_succ_of_lt (enumerates.created info old)
    · cases List.mem_singleton.mp new
      exact Nat.lt_succ_self _

/-- What stands for the same has one type, and one value if it is a tensor. -/
theorem Stands.same (stands : Stands tensors info binding)
    (stands' : Stands tensors info' binding) :
    info.type = info'.type ∧ (info.type.shape ≠ [] → info = info') := by
  cases stands with
  | scalar scalar =>
    refine ⟨?_, fun tensor => absurd scalar tensor⟩
    generalize same : Binding.scalar info.type = binding at stands'
    cases stands' with
    | scalar _ => exact Binding.scalar.inj same
    | tensor _ => cases same
  | tensor found =>
    cases stands' with
    | tensor found' =>
      cases found.symm.trans found'
      exact ⟨rfl, fun _ => rfl⟩

/-- Values of one type stand for the same, tensors if they are the same. -/
theorem Stands.unique (stands : Stands tensors info binding)
    (enumerates : Enumerates tensors generator) (stands' : Stands tensors info' binding')
    (typed : info.type = info'.type) (tensor : info.type.shape ≠ [] → info.value = info'.value) :
    binding = binding' := by
  cases stands with
  | scalar scalar =>
    cases stands' with
    | scalar _ => rw [typed]
    | tensor found' =>
      exact absurd (typed ▸ scalar) (enumerates.ranked info' (List.mem_of_getElem? found'))
  | @tensor index found =>
    have ranked := enumerates.ranked info (List.mem_of_getElem? found)
    cases stands' with
    | scalar scalar => exact absurd scalar (typed ▸ ranked)
    | tensor found' =>
      have within : index < (tensors.map ValueInfo.value).length := by
        rw [List.length_map]
        exact (List.getElem?_eq_some_iff.mp found).1
      refine congrArg Binding.tensor ((List.getElem?_inj within enumerates.distinct).mp ?_)
      rw [List.getElem?_map, List.getElem?_map, found, found', Option.map_some, Option.map_some,
        tensor ranked]

/-- Numbers stand for their type. -/
theorem Stands.number (stands : Stands tensors info binding)
    (enumerates : Enumerates tensors generator) (scalar : info.type.shape = []) :
    binding = .scalar info.type :=
  stands.unique enumerates (.scalar scalar) rfl fun tensor => absurd scalar tensor

theorem Stands.typed (stands : Stands tensors info (.scalar type)) : info.type = type := by
  generalize same : Binding.scalar type = binding at stands
  cases stands with
  | scalar _ => exact (Binding.scalar.inj same).symm
  | tensor _ => cases same

theorem Stands.shape (stands : Stands tensors info (.scalar type)) : type.shape = [] := by
  generalize same : Binding.scalar type = binding at stands
  cases stands with
  | scalar scalar => exact Binding.scalar.inj same ▸ scalar
  | tensor _ => cases same

private theorem shape_binaryType {op : BinaryOperator} (scalar : type.shape = []) :
    (binaryType op type).shape = [] := by
  cases op
  all_goals first
    | exact scalar
    | rfl

private theorem buildable_binaryOperation (op : BinaryOperator) (result : ValueId) (lhs rhs : ValueInfo) :
    Buildable sized (binaryOperation op result lhs rhs).1 := by
  cases op <;> trivial

/-- An expression that denotes something can be generated, and does. -/
theorem Denotes.generates (denotes : Denotes bindings expression binding)
    (valid : Valid generator block) (knows : Knows tensors bindings generator.values) :
    ∃ info final,
      generateExpression expression generator = .ok info final ∧ Stands tensors info binding ∧
        (EmitsOnly (Buildable sized) generator → EmitsOnly (Buildable sized) final) := by
  induction denotes generalizing generator with
  | identifier known =>
    obtain ⟨info, found, stands⟩ := knows.known known
    exact ⟨info, generator, generateIdentifier_ok.mpr ⟨found, rfl⟩, stands, id⟩
  | integer =>
    exact ⟨_, _, generateInteger_apply valid.toActive, .scalar rfl,
      fun emitted => emitted.appendTo valid.isOpen trivial⟩
  | float =>
    exact ⟨_, _, generateFloat_apply valid.toActive, .scalar rfl,
      fun emitted => emitted.appendTo valid.isOpen trivial⟩
  | @binary op lhsExpression rhsExpression location operand left right leftIH rightIH =>
    obtain ⟨lhs, middle, first, lhsStands, keepsLeft⟩ := leftIH valid knows
    have left := generateExpression_valid valid first
    obtain ⟨rhs, later, second, rhsStands, keepsRight⟩ := rightIH left.valid (left.values ▸ knows)
    have right := generateExpression_valid left.valid second
    refine ⟨_, _, generateExpression_binary_ok.mpr ⟨lhs, middle, rhs, later, first, second,
      generateBinary_apply op right.valid.toActive (lhsStands.same rhsStands).1⟩, ?_, fun emitted =>
        (keepsRight (keepsLeft emitted)).appendTo right.valid.isOpen
          (buildable_binaryOperation op _ lhs rhs)⟩
    rw [binaryOperation_snd, lhsStands.typed]
    exact .scalar (shape_binaryType lhsStands.shape)

/-- An analysed expression that was generated without a call denotes its value. -/
theorem exists_denotes (valid : Valid generator block)
    (agrees : Agrees False symbols generator.values)
    (analyzed : analyzeExpression symbols expression = .ok type)
    (success : generateExpression expression generator = .ok info final)
    (emitted : EmitsOnly (Buildable sized) final) (enumerates : Enumerates tensors generator)
    (knows : Knows tensors bindings generator.values) :
    ∃ binding, Denotes bindings expression binding ∧ Stands tensors info binding := by
  induction expression generalizing generator info final type with
  | identifier name location =>
    obtain ⟨found, rfl⟩ := generateIdentifier_ok.mp success
    obtain ⟨binding, known, stands⟩ := knows.bound found
    exact ⟨binding, .identifier known, stands⟩
  | integer value location =>
    rw [generateExpression, generateInteger_apply valid.toActive] at success
    cases success
    exact ⟨_, .integer, .scalar rfl⟩
  | float value location =>
    rw [generateExpression, generateFloat_apply valid.toActive] at success
    cases success
    exact ⟨_, .float, .scalar rfl⟩
  | call callee arguments location ih =>
    rcases generateExpression_call_ok.mp success with
      ⟨argument, input, middle, rfl, rfl, first, rest⟩ |
      ⟨lhsExpression, rhsExpression, lhs, middle, rhs, later, rfl, rfl, first, second, rest⟩
    · have computed := generateExpression_valid valid first
      rw [generateRelu_apply computed.valid.toActive] at rest
      cases rest
      exact (emitted.appended computed.valid.isOpen).elim
    · have left := generateExpression_valid valid first
      have right := generateExpression_valid left.valid second
      obtain ⟨m, n, _, _, _, rfl⟩ := (generateMatmul_ok right.valid.toActive).mp rest
      exact (emitted.appended right.valid.isOpen).elim
  | nullCall => cases success
  | nullBinary => cases success
  | binary op lhsExpression rhsExpression location lhsIH rhsIH =>
    obtain ⟨lhs, middle, rhs, later, first, second, rest⟩ := generateExpression_binary_ok.mp success
    obtain ⟨operand, leftTyped, rightTyped, numeric, _⟩ := analyzeExpression_binary_ok.mp analyzed
    have left := generateExpression_valid valid first
    have right := generateExpression_valid left.valid second
    have leftType := generateExpression_type valid agrees leftTyped first (.inl numeric.shape)
    have rightType := generateExpression_type left.valid (left.values ▸ agrees) rightTyped second
        (.inl numeric.shape)
    obtain ⟨_, rfl, rfl⟩ := (generateBinary_ok right.valid.toActive).mp rest
    have emitted := emitted.of_grows (Grows.appendTo right.valid.isOpen _)
    have left' := enumerates.mono left.grows.values
    obtain ⟨lhsBinding, lhsDenotes, lhsStands⟩ :=
      lhsIH valid agrees leftTyped first (emitted.of_grows right.grows) enumerates knows
    obtain ⟨rhsBinding, rhsDenotes, rhsStands⟩ :=
      rhsIH left.valid (left.values ▸ agrees) rightTyped second emitted left' (left.values ▸ knows)
    cases lhsStands.number enumerates (leftType ▸ numeric.shape)
    cases rhsStands.number enumerates (rightType ▸ numeric.shape)
    rw [leftType] at lhsDenotes
    rw [rightType] at rhsDenotes
    refine ⟨_, .binary lhsDenotes rhsDenotes, ?_⟩
    rw [binaryOperation_snd, leftType]
    exact .scalar (shape_binaryType numeric.shape)

section Merging

variable {entries : List (String × ValueInfo)} {thenValue elseValue : ValueInfo}

/-- Where no phi joins tensors, both branches have the same, and it keeps its name. -/
theorem mergeValues_tensors (active : Active generator block) (nodup : (entries.map Prod.fst).Nodup)
    (absent : ∀ entry ∈ entries, generator.values.lookup entry.1 = none)
    (success : mergeValues thenEnd elseEnd elseValues entries generator = .ok () final)
    (emitted : EmitsOnly (Buildable sized) final) (member : (name, thenValue) ∈ entries)
    (found : elseValues.lookup name = some elseValue) (tensor : thenValue.type.shape ≠ []) :
    thenValue.value = elseValue.value ∧ final.values.lookup name = some thenValue := by
  induction entries generalizing generator with
  | nil => cases member
  | cons entry entries ih =>
    obtain ⟨other, value⟩ := entry
    obtain ⟨unlisted, distinct⟩ := List.nodup_cons.mp nodup
    obtain ⟨here, absent⟩ := List.forall_mem_cons.mp absent
    have still (middle : IRGenerator) (info : ValueInfo) (same : middle.values = generator.values) :
        ∀ entry ∈ entries, (middle.offer other info).values.lookup entry.1 = none := by
      intro entry member
      rw [lookup_offer (same ▸ here), if_neg]
      · exact same ▸ absent entry member
      · intro equal
        exact unlisted (List.mem_map.mpr ⟨entry, member, equal⟩)
    rcases (mergeValues_cons_ok active).mp success with
      ⟨missing, success⟩ | ⟨elseOther, found', _, ⟨same, success⟩ | ⟨_, success⟩⟩
    · rcases List.mem_cons.mp member with first | later
      · cases first
        cases missing.symm.trans found
      · exact ih active distinct absent success later
    · rcases List.mem_cons.mp member with first | later
      · cases first
        cases found.symm.trans found'
        have merged :
            MergedValues (generator.offer name thenValue).values elseValues entries final.values :=
          mergeValues_values (active.offer name thenValue) distinct (still generator thenValue rfl)
            success
        exact ⟨same, merged.kept (by rw [lookup_offer here, if_pos rfl])⟩
      · exact ih (active.offer _ _) distinct (still generator _ rfl) success later
    · have active' :=
        (active.appendTo (joinPhi generator.nextValueId thenEnd elseEnd value elseOther)).offer
          other
        ⟨generator.nextValueId, value.type⟩
      rcases List.mem_cons.mp member with first | later
      · cases first
        have grows := mergeValues_grows active' success
        have joined : EmitsOnly (Buildable sized) (generator.appendTo block
            (joinPhi generator.nextValueId thenEnd elseEnd thenValue elseOther)) := by
          have offered := emitted.of_grows grows
          exact offered
        exact absurd (joined.appended active.isOpen) tensor
      · exact ih active' distinct (still (generator.appendTo block _) _ rfl) success later

/-- Where only numbers differ, only numbers are joined. -/
theorem mergeValues_builds (active : Active generator block)
    (numbers : ∀ name thenValue elseValue, (name, thenValue) ∈ entries →
      elseValues.lookup name = some elseValue →
      thenValue.value ≠ elseValue.value → thenValue.type.shape = [])
    (success : mergeValues thenEnd elseEnd elseValues entries generator = .ok () final)
    (emitted : EmitsOnly (Buildable sized) generator) : EmitsOnly (Buildable sized) final := by
  induction entries generalizing generator with
  | nil =>
    cases success
    exact emitted
  | cons entry entries ih =>
    obtain ⟨name, thenValue⟩ := entry
    have rest name thenValue elseValue (member : (name, thenValue) ∈ entries) :=
      numbers name thenValue elseValue (List.mem_cons_of_mem _ member)
    rcases (mergeValues_cons_ok active).mp success with
      ⟨_, success⟩ | ⟨elseValue, found, _, ⟨_, success⟩ | ⟨different, success⟩⟩
    · exact ih active rest success emitted
    · exact ih (active.offer _ _) rest success emitted
    · exact ih ((active.appendTo _).offer _ _) rest success
        (emitted.appendTo active.isOpen
          (numbers name thenValue elseValue List.mem_cons_self found different))

/-- After a merge the names are known that both branches know, and those agree. -/
theorem knows_of_mergeValues (active : Active generator block) (empty : generator.values = ∅)
    (nodup : (entries.map Prod.fst).Nodup)
    (listed : ∀ {name info}, (name, info) ∈ entries ↔ thenValues.lookup name = some info)
    (success : mergeValues thenEnd elseEnd elseValues entries generator = .ok () final)
    (emitted : EmitsOnly (Buildable sized) final) (enumerates : Enumerates tensors middle)
    (fromThen : Knows tensors thenBindings thenValues)
    (fromElse : Knows tensors elseBindings elseValues) :
    thenBindings.Agree elseBindings ∧
      Knows tensors (thenBindings.meet elseBindings) final.values := by
  have absent : ∀ entry ∈ entries, generator.values.lookup entry.1 = none := by
    intro entry _
    rw [empty]
    exact AList.lookup_empty _
  have merged := mergeValues_values active nodup absent success
  have agree : thenBindings.Agree elseBindings := by
    intro name binding binding' known known'
    obtain ⟨thenValue, thenFound, stands⟩ := fromThen.known known
    obtain ⟨elseValue, elseFound, stands'⟩ := fromElse.known known'
    have typed := (merged.joined (listed.mpr thenFound) elseFound).1
    exact stands.unique enumerates stands' typed fun tensor =>
      (mergeValues_tensors active nodup absent success emitted (listed.mpr thenFound)
        elseFound tensor).1
  have bound {name info} (found : final.values.lookup name = some info) : ∃ binding,
      thenBindings.meet elseBindings name = some binding ∧ Stands tensors info binding := by
    rcases merged.only found with old | ⟨thenValue, elseValue, member, elseFound, same⟩
    · rw [empty] at old
      cases (AList.lookup_empty name).symm.trans old
    · obtain ⟨binding, known, stands⟩ := fromThen.bound (listed.mp member)
      obtain ⟨binding', known', _⟩ := fromElse.bound elseFound
      refine ⟨binding, agree.meet_eq_some.mpr ⟨known, binding', known'⟩, ?_⟩
      by_cases scalar : thenValue.type.shape = []
      · cases stands.number enumerates scalar
        rw [← same]
        exact .scalar (same ▸ scalar)
      · have kept :=
          (mergeValues_tensors active nodup absent success emitted member elseFound scalar).2
        cases found.symm.trans kept
        exact stands
  refine ⟨agree, bound, fun {name binding} known => ?_⟩
  obtain ⟨knownThen, binding', knownElse⟩ := agree.meet_eq_some.mp known
  obtain ⟨thenValue, thenFound, _⟩ := fromThen.known knownThen
  obtain ⟨elseValue, elseFound, _⟩ := fromElse.known knownElse
  obtain ⟨_, info, found, _⟩ := merged.joined (listed.mpr thenFound) elseFound
  obtain ⟨other, known', stands⟩ := bound found
  cases known.symm.trans known'
  exact ⟨info, found, stands⟩

end Merging

/-- What the generator hands on to the next statement, if a path gets there. -/
inductive HandsOn (tensors : List ValueInfo) (generator : IRGenerator) :
    Option Bindings → Prop where
  | nothing (stopped : generator.currentBlockId = none) : HandsOn tensors generator none
  | bindings {bindings : Bindings} (active : generator.currentBlockId ≠ none)
    (knows : Knows tensors bindings generator.values) : HandsOn tensors generator (some bindings)

theorem HandsOn.mono (hands : HandsOn tensors generator after) (more : tensors <+: tensors') :
    HandsOn tensors' generator after := by
  cases hands with
  | nothing stopped => exact .nothing stopped
  | bindings active knows => exact .bindings active (knows.mono more)

section Branches

variable {tested thenGenerator elseGenerator : IRGenerator}

/-- A join that leaves only joined numbers follows the rules. -/
theorem JoinRun.joins (run : JoinRun order before thenGenerator elseGenerator final)
    (emitted : EmitsOnly (Buildable sized) final) (enumerates : Enumerates tensors elseGenerator)
    (fromThen : HandsOn tensors thenGenerator thenAfter)
    (fromElse : HandsOn tensors elseGenerator elseAfter) :
    ∃ after, Joins thenAfter elseAfter after ∧ HandsOn tensors final after := by
  cases run with
  | neither thenCurrent elseCurrent same =>
    subst same
    cases fromThen with
    | bindings active _ => exact absurd thenCurrent active
    | nothing _ =>
      cases fromElse with
      | bindings active _ => exact absurd elseCurrent active
      | nothing _ => exact ⟨none, .neither, .nothing rfl⟩
  | elseOnly elseEnd thenCurrent elseCurrent joined same =>
    subst same
    cases fromThen with
    | bindings active _ => exact absurd thenCurrent active
    | nothing _ =>
      cases fromElse with
      | nothing stopped => cases elseCurrent.symm.trans stopped
      | @bindings elseBindings _ knows =>
        exact ⟨_, .elseOnly elseBindings, .bindings (by simp) knows⟩
  | thenOnly thenEnd thenCurrent elseCurrent joined same =>
    subst same
    cases fromElse with
    | bindings active _ => exact absurd elseCurrent active
    | nothing _ =>
      cases fromThen with
      | nothing stopped => cases thenCurrent.symm.trans stopped
      | @bindings thenBindings _ knows =>
        exact ⟨_, .thenOnly thenBindings, .bindings (by simp) knows⟩
  | both thenEnd elseEnd thenCurrent elseCurrent joined merging success merged =>
    cases fromThen with
    | nothing stopped => cases thenCurrent.symm.trans stopped
    | bindings _ thenKnows =>
      cases fromElse with
      | nothing stopped => cases elseCurrent.symm.trans stopped
      | bindings _ elseKnows =>
        obtain ⟨agree, knows⟩ :=
          knows_of_mergeValues merging.valid.toActive rfl (order.nodup_traverse _ _)
          order.mem_traverse success emitted enumerates thenKnows elseKnows
        exact ⟨_, .both agree, .bindings (by simp [merged.merging.valid.current]) knows⟩

/-- A join only adds to what was generated. -/
theorem JoinRun.grows (run : JoinRun order before thenGenerator elseGenerator final) :
    ∃ written targeted, Grows written targeted elseGenerator final := by
  cases run with
  | neither _ _ same =>
    subst same
    exact ⟨∅, ∅, .enter elseGenerator none before⟩
  | elseOnly _ _ _ joined same | thenOnly _ _ _ joined same =>
    subst same
    exact ⟨_, _, { joined.grows with }⟩
  | both thenEnd elseEnd _ _ joined _ _ merged =>
    have entered : Grows _ _ elseGenerator
        ((elseGenerator.join [thenEnd, elseEnd]).enter (some elseGenerator.nextBlockId) ∅) :=
          { joined.grows with }
    exact ⟨Set.univ, Set.univ,
      entered.trans merged.grows (fun _ _ _ => trivial) fun _ _ _ => trivial⟩

theorem Joins.unique {after' : Option Bindings} (joins : Joins thenAfter elseAfter after)
    (joins' : Joins thenAfter elseAfter after') : after = after' := by
  cases joins <;> cases joins' <;> rfl

/-- Branches that may be joined are. -/
theorem Joins.generates (joins : Joins thenAfter elseAfter after)
    (branched : Branched tested block thenGenerator elseGenerator)
    (emitted : EmitsOnly (Buildable sized) elseGenerator)
    (enumerates : Enumerates tensors elseGenerator)
    (fromThen : HandsOn tensors thenGenerator thenAfter)
    (fromElse : HandsOn tensors elseGenerator elseAfter) :
    ∃ final, joinBranches order before thenGenerator.currentBlockId elseGenerator.currentBlockId
      thenGenerator.values elseGenerator.values elseGenerator = .ok () final ∧
      EmitsOnly (Buildable sized) final ∧ HandsOn tensors final after := by
  suffices joined :
      ∃ final, joinBranches order before thenGenerator.currentBlockId elseGenerator.currentBlockId
      thenGenerator.values elseGenerator.values elseGenerator = .ok () final ∧
        EmitsOnly (Buildable sized) final by
    obtain ⟨final, success, emitted'⟩ := joined
    obtain ⟨after', joins', hands⟩ :=
      (branched.joinRun success).joins emitted' enumerates fromThen fromElse
    cases joins.unique joins'
    exact ⟨final, success, emitted', hands⟩
  cases joins with
  | neither =>
    cases fromThen with | nothing thenStopped =>
    cases fromElse with | nothing elseStopped =>
    rw [thenStopped, elseStopped, joinBranches_neither]
    exact ⟨_, rfl, emitted⟩
  | thenOnly =>
    cases fromThen with | bindings active _ =>
    cases fromElse with | nothing elseStopped =>
    obtain ⟨thenEnd, thenCurrent⟩ := Option.ne_none_iff_exists'.mp active
    rw [thenCurrent, elseStopped, joinBranches_then]
    exact ⟨_, rfl, emitted.join branched.built [thenEnd]⟩
  | elseOnly =>
    cases fromThen with | nothing thenStopped =>
    cases fromElse with | bindings active _ =>
    obtain ⟨elseEnd, elseCurrent⟩ := Option.ne_none_iff_exists'.mp active
    rw [thenStopped, elseCurrent, joinBranches_else]
    exact ⟨_, rfl, emitted.join branched.built [elseEnd]⟩
  | both agree =>
    cases fromThen with | bindings thenActive thenKnows =>
    cases fromElse with | bindings elseActive elseKnows =>
    obtain ⟨thenEnd, thenCurrent⟩ := Option.ne_none_iff_exists'.mp thenActive
    obtain ⟨elseEnd, elseCurrent⟩ := Option.ne_none_iff_exists'.mp elseActive
    obtain ⟨_, thenOpen, _⟩ := branched.thenEnd thenEnd thenCurrent
    obtain ⟨_, elseOpen, _⟩ := branched.elseEnd elseEnd elseCurrent
    have distinct := branched.distinct thenEnd elseEnd thenCurrent elseCurrent
    have joined : Joined elseGenerator [thenEnd, elseEnd] _ :=
      branched.built.join (by simpa using distinct) (by simpa using ⟨thenOpen, elseOpen⟩)
    have active :
        Active ((elseGenerator.join [thenEnd, elseEnd]).enter (some elseGenerator.nextBlockId) ∅)
      elseGenerator.nextBlockId := ⟨rfl, joined.untouched.isOpen⟩
    -- What both branches bind stands for the same in both.
    have same {name thenValue elseValue}
      (member : (name, thenValue) ∈ order.traverse elseGenerator.nextBlockId
        thenGenerator.values) (found : elseGenerator.values.lookup name = some elseValue) :
        thenValue.type = elseValue.type ∧ (thenValue.type.shape ≠ [] → thenValue = elseValue) := by
      obtain ⟨binding, known, stands⟩ := thenKnows.bound (order.mem_traverse.mp member)
      obtain ⟨binding', known', stands'⟩ := elseKnows.bound found
      cases agree name binding binding' known known'
      exact stands.same stands'
    rw [thenCurrent, elseCurrent, joinBranches_both]
    cases run : mergeValues thenEnd elseEnd elseGenerator.values
        (order.traverse elseGenerator.nextBlockId thenGenerator.values)
        ((elseGenerator.join [thenEnd, elseEnd]).enter (some elseGenerator.nextBlockId) ∅) with
    | error error final =>
      obtain ⟨name, thenValue, elseValue, _, member, found, different⟩ :=
        mergeValues_error active run
      exact absurd (same member found).1 different
    | ok _ final =>
      refine ⟨final, rfl,
        mergeValues_builds active (fun name thenValue elseValue member found different => ?_) run
        (emitted.join branched.built [thenEnd, elseEnd])⟩
      by_contra tensor
      exact different (congrArg ValueInfo.value ((same member found).2 tensor))

end Branches

/-- The tensors that were declared on the way, and what is handed on. -/
structure Tracks (tensors : List ValueInfo) (final : IRGenerator) (tensors' : List ValueInfo)
    (after : Option Bindings) : Prop where
  more : tensors <+: tensors'
  enumerates : Enumerates tensors' final
  hands : HandsOn tensors' final after

variable (ranked : ∀ {type}, sized type → type.shape ≠ [])
include ranked

private theorem generateTensorDeclaration_tracks {declaration : TensorDecl} (valid : Valid generator block)
    (storage : sized type) (enumerates : Enumerates tensors generator)
    (knows : Knows tensors bindings generator.values) :
    Tracks tensors
      ((generator.appendTo block (.tensorDecl generator.nextValueId declaration.name type)).rebind
        declaration.name ⟨generator.nextValueId, type⟩) (tensors ++ [⟨generator.nextValueId, type⟩])
      (some (Function.update bindings declaration.name (some (.tensor tensors.length)))) where
  more := List.prefix_append _ _
  enumerates := enumerates.declare (ranked storage) rfl
  hands := by
    refine .bindings (by simp [rebind, valid.current]) ?_
    exact (knows.mono (List.prefix_append _ _)).insert (.tensor (by simp)) declaration.name

omit ranked in
private theorem generateBranch_realizes_of
    (each : ∀ statement ∈ statements, ∀ {generator final block tensors bindings analyzer analyzer'},
      Valid generator block → Agrees False analyzer.symbols generator.values →
      Faithful False declared (declarationsOf statement) →
      analyzeStatement analysisOrder statement analyzer = .ok () analyzer' →
      generateStatement order declared statement generator = .ok () final →
        EmitsOnly (Buildable sized) final →
      Enumerates tensors generator → Knows tensors bindings generator.values →
      ∃ tensors' after, Tracks tensors final tensors' after ∧
        Realizes sized declared.typeOf tensors.length bindings statement tensors'.length after)
    (valid : Valid generator block) (agrees : Agrees False analyzer.symbols generator.values)
    (faithful : Faithful False declared (declarationsIn statements))
    (analyzed : analyzeStatements analysisOrder statements analyzer = .ok () analyzer')
    (success : generateBranch order declared statements generator = .ok () final)
    (emitted : EmitsOnly (Buildable sized) final) (enumerates : Enumerates tensors generator)
    (knows : Knows tensors bindings generator.values) :
    ∃ tensors' after, Tracks tensors final tensors' after ∧
      RealizesBranch sized declared.typeOf tensors.length (some bindings) statements
        tensors'.length after := by
  induction statements generalizing generator block analyzer tensors bindings with
  | nil =>
    cases success
    exact ⟨tensors, _, ⟨List.prefix_rfl, enumerates, .bindings (by simp [valid.current]) knows⟩,
      .nil⟩
  | cons statement statements ih =>
    obtain ⟨between, firstAnalyzed, restAnalyzed⟩ := analyzeStatements_cons_ok.mp analyzed
    have faithfulHere : Faithful False declared (declarationsOf statement) :=
      fun declaration member => faithful declaration (List.mem_append_left _ member)
    have faithfulRest : Faithful False declared (declarationsIn statements) :=
      fun declaration member => faithful declaration (List.mem_append_right _ member)
    rw [generateBranch_cons valid.current] at success
    obtain ⟨middle, first, rest⟩ := then_ok.mp success
    have advanced := generateStatement_valid valid first
    cases current : middle.currentBlockId with
    | none =>
      rw [generateBranch_stopped current] at rest
      cases rest
      obtain ⟨tensors', after, tracks, realizes⟩ :=
        each statement List.mem_cons_self valid agrees faithfulHere
        firstAnalyzed first emitted enumerates knows
      refine ⟨tensors', after, tracks, .cons realizes ?_⟩
      cases tracks.hands with
      | nothing _ => exact .dead
      | bindings active _ => exact absurd current active
    | some next =>
      have active : middle.currentBlockId ≠ none := by simp [current]
      have valid' := advanced.settled.valid next current
      have agrees' := generateStatement_agrees valid agrees faithfulHere firstAnalyzed first active
      have emitted' := emitted.of_grows (generateBranch_valid valid' rest).grows
      obtain ⟨tensors', after, tracks, realizes⟩ :=
        each statement List.mem_cons_self valid agrees faithfulHere
        firstAnalyzed first emitted' enumerates knows
      cases tracks.hands with
      | nothing stopped => exact absurd stopped active
      | bindings _ knows' =>
        obtain ⟨tensors'', after', tracks', realizes'⟩ :=
          ih (fun other member => each other (List.mem_cons_of_mem _ member)) valid' agrees'
            faithfulRest restAnalyzed
            rest tracks.enumerates knows'
        exact ⟨tensors'', after',
          ⟨tracks.more.trans tracks'.more, tracks'.enumerates, tracks'.hands⟩,
          .cons realizes realizes'⟩

/-- A statement that was generated, and left only what the back end supports, follows the rules. -/
theorem generateStatement_realizes (valid : Valid generator block)
    (agrees : Agrees False analyzer.symbols generator.values)
    (faithful : Faithful False declared (declarationsOf statement))
    (analyzed : analyzeStatement analysisOrder statement analyzer = .ok () analyzer')
    (success : generateStatement order declared statement generator = .ok () final)
    (emitted : EmitsOnly (Buildable sized) final) (enumerates : Enumerates tensors generator)
    (knows : Knows tensors bindings generator.values) :
    ∃ tensors' after, Tracks tensors final tensors' after ∧
      Realizes sized declared.typeOf tensors.length bindings statement tensors'.length after := by
  induction statement generalizing generator final block analyzer analyzer' tensors bindings with
  | tensorDecl declaration =>
    rw [generateStatement] at success
    obtain ⟨type, known, free, rfl⟩ := (generateTensorDeclaration_ok valid.toActive).mp success
    have written : EmitsOnly (Buildable sized)
        (generator.appendTo block (.tensorDecl generator.nextValueId declaration.name type)) :=
          emitted
    have storage : sized type := written.appended valid.isOpen
    refine ⟨_, _, generateTensorDeclaration_tracks ranked valid storage enumerates knows, ?_⟩
    rw [List.length_append]
    exact .tensorDecl (knows.lookup_eq_none.mp (AList.lookup_eq_none.mpr free)) known storage
  | assignment assignment =>
    rw [analyzeStatement] at analyzed
    rw [generateStatement] at success
    obtain ⟨type, typed, _⟩ := analyzeAssignment_known analyzed
    obtain ⟨info, middle, first, rfl⟩ := generateAssignment_ok.mp success
    have computed := generateExpression_valid valid first
    have written : EmitsOnly (Buildable sized) middle := emitted
    obtain ⟨binding, denotes, stands⟩ :=
      exists_denotes valid agrees typed first written enumerates knows
    have knows' : Knows tensors bindings middle.values := computed.values ▸ knows
    refine ⟨tensors, _, ⟨List.prefix_rfl, enumerates.mono computed.grows.values, .bindings ?_
      (knows'.insert stands assignment.target)⟩, .assignment denotes⟩
    simp [rebind, computed.valid.current]
  | returnStmt returnStatement =>
    rw [analyzeStatement] at analyzed
    rw [generateStatement] at success
    obtain ⟨info, middle, first, rfl⟩ := (generateReturn_ok fun _ _ first =>
      (generateExpression_valid valid first).valid.toActive).mp success
    have computed := generateExpression_valid valid first
    have written : EmitsOnly (Buildable sized) (middle.terminate block (.returnOp info.value)) :=
      emitted
    have written := written.of_grows (Grows.terminate computed.valid.isOpen _)
    obtain ⟨binding, denotes, _⟩ :=
      exists_denotes valid agrees (analyzeReturn_ok.mp analyzed).1 first written enumerates knows
    exact ⟨tensors, none, ⟨List.prefix_rfl, enumerates.mono computed.grows.values, .nothing rfl⟩,
      .returnStmt denotes⟩
  | ifStmt condition thenStatements elseStatements location thenIH elseIH =>
    obtain ⟨thenAnalyzer, elseAnalyzer, conditionTyped, thenAnalyzed, elseAnalyzed, _⟩ :=
      analyzeStatement_if_ok.mp analyzed
    obtain ⟨info, tested, thenGenerator, elseGenerator, conditional⟩ :=
      generateStatement_conditional valid success
    have computed := conditional.computed
    have agrees' : Agrees False analyzer.symbols tested.values := computed.values ▸ agrees
    have agrees'' : Agrees False { thenAnalyzer with symbols := analyzer.symbols }.symbols
        tested.values := agrees'
    have knows' : Knows tensors bindings tested.values := computed.values ▸ knows
    -- What was written stays, so all of it is supported at every point.
    obtain ⟨_, _, grows⟩ := conditional.joined.grows
    have elseEmitted := emitted.of_grows grows
    have thenEmitted : EmitsOnly (Buildable sized) thenGenerator := by
      have entered := elseEmitted.of_grows conditional.elseBranch.grows
      exact entered
    have testedEmitted : EmitsOnly (Buildable sized) tested := by
      have forked : EmitsOnly (Buildable sized) (tested.fork block info.value) := by
        have entered := thenEmitted.of_grows conditional.thenBranch.grows
        exact entered
      exact forked.of_grows conditional.fork.grows
    obtain ⟨binding, denotes, stands⟩ :=
      exists_denotes valid agrees conditionTyped conditional.first testedEmitted enumerates knows
    cases stands.number enumerates (conditional.typed ▸ rfl)
    rw [conditional.typed] at denotes
    have started : Enumerates tensors (tested.enterThen block info.value) :=
      { enumerates.mono (computed.grows.values.trans conditional.fork.grows.values) with }
    obtain ⟨thenTensors, thenAfter, thenTracks, thenRealizes⟩ := generateBranch_realizes_of thenIH
      conditional.thenValid agrees'
        (fun declaration member => faithful declaration (List.mem_append_left _ member))
      thenAnalyzed conditional.thenRun thenEmitted started knows'
    have entered : Enumerates thenTensors (thenGenerator.enterElse tested) :=
      { thenTracks.enumerates with }
    obtain ⟨elseTensors, elseAfter, elseTracks, elseRealizes⟩ := generateBranch_realizes_of elseIH
      conditional.elseValid agrees''
        (fun declaration member => faithful declaration (List.mem_append_right _ member))
      elseAnalyzed conditional.elseRun elseEmitted entered (knows'.mono thenTracks.more)
    obtain ⟨after, joins, hands⟩ := conditional.joined.joins emitted elseTracks.enumerates
      (thenTracks.hands.mono elseTracks.more) elseTracks.hands
    exact ⟨elseTensors, after,
      ⟨thenTracks.more.trans elseTracks.more, elseTracks.enumerates.mono grows.values, hands⟩,
      .ifStmt denotes thenRealizes elseRealizes joins⟩
  | nullIf =>
    rw [generateStatement] at success
    cases success

private theorem generateTopLevel_realizes (valid : Valid generator block)
    (agrees : Agrees False analyzer.symbols generator.values)
    (faithful : Faithful False declared (declarationsIn statements))
    (analyzed : analyzeStatements analysisOrder statements analyzer = .ok () analyzer')
    (success : generateTopLevel order declared statements generator = .ok () final)
    (stopped : final.currentBlockId = none) (emitted : EmitsOnly (Buildable sized) final)
    (enumerates : Enumerates tensors generator) (knows : Knows tensors bindings generator.values) :
    RealizesAll sized declared.typeOf tensors.length bindings statements := by
  induction statements generalizing generator block analyzer tensors bindings with
  | nil =>
    cases success
    cases valid.current.symm.trans stopped
  | cons statement statements ih =>
    obtain ⟨between, firstAnalyzed, restAnalyzed⟩ := analyzeStatements_cons_ok.mp analyzed
    have faithfulHere : Faithful False declared (declarationsOf statement) :=
      fun declaration member => faithful declaration (List.mem_append_left _ member)
    have faithfulRest : Faithful False declared (declarationsIn statements) :=
      fun declaration member => faithful declaration (List.mem_append_right _ member)
    rw [generateTopLevel_cons valid.current] at success
    obtain ⟨middle, first, rest⟩ := then_ok.mp success
    have advanced := generateStatement_valid valid first
    cases current : middle.currentBlockId with
    | none =>
      cases statements with
      | cons next statements =>
        rw [generateTopLevel_stopped current] at rest
        cases rest
      | nil =>
        cases rest
        obtain ⟨tensors', after, tracks, realizes⟩ :=
          generateStatement_realizes ranked valid agrees faithfulHere
          firstAnalyzed first emitted enumerates knows
        cases tracks.hands with
        | nothing _ => exact .last realizes
        | bindings active _ => exact absurd current active
    | some next =>
      have active : middle.currentBlockId ≠ none := by simp [current]
      have valid' := advanced.settled.valid next current
      have agrees' := generateStatement_agrees valid agrees faithfulHere firstAnalyzed first active
      have emitted' := emitted.of_grows (generateTopLevel_valid valid' rest).grows
      obtain ⟨tensors', after, tracks, realizes⟩ :=
        generateStatement_realizes ranked valid agrees faithfulHere
        firstAnalyzed first emitted' enumerates knows
      cases tracks.hands with
      | nothing stopped => exact absurd stopped active
      | bindings _ knows' =>
        exact .cons realizes
          (ih valid' agrees' faithfulRest restAnalyzed rest tracks.enumerates knows')

omit ranked in
theorem RealizesBranch.generates_of
    (each : ∀ statement ∈ statements, ∀ {generator block tensors bindings count after},
      Realizes sized declared.typeOf tensors.length bindings statement count after →
        Valid generator block →
      EmitsOnly (Buildable sized) generator → Enumerates tensors generator →
        Knows tensors bindings generator.values →
      ∃ final tensors', generateStatement order declared statement generator = .ok () final ∧
        EmitsOnly (Buildable sized) final ∧ tensors'.length = count ∧
          Tracks tensors final tensors' after)
    (realizes : RealizesBranch sized declared.typeOf tensors.length (some bindings) statements
      count after)
    (valid : Valid generator block) (emitted : EmitsOnly (Buildable sized) generator)
    (enumerates : Enumerates tensors generator) (knows : Knows tensors bindings generator.values) :
    ∃ final tensors', generateBranch order declared statements generator = .ok () final ∧
      EmitsOnly (Buildable sized) final ∧ tensors'.length = count ∧
        Tracks tensors final tensors' after := by
  induction statements generalizing generator block tensors bindings with
  | nil =>
    cases realizes
    exact ⟨generator, tensors, rfl, emitted, rfl, List.prefix_rfl, enumerates,
      .bindings (by simp [valid.current]) knows⟩
  | cons statement statements ih =>
    cases realizes with | cons first rest =>
    obtain ⟨middle, tensors', success, emitted', same, tracks⟩ :=
      each statement List.mem_cons_self first valid emitted enumerates knows
    rw [generateBranch_cons valid.current]
    subst same
    cases tracks.hands with
    | nothing stopped =>
      cases rest
      exact ⟨middle, tensors',
        then_ok.mpr ⟨middle, success, generateBranch_stopped stopped statements⟩, emitted', rfl,
        tracks⟩
    | bindings active knows' =>
      obtain ⟨next, current⟩ := Option.ne_none_iff_exists'.mp active
      have valid' := (generateStatement_valid valid success).settled.valid next current
      obtain ⟨final, tensors'', success', emitted'', same, tracks'⟩ :=
        ih (fun other member => each other (List.mem_cons_of_mem _ member)) rest valid' emitted'
          tracks.enumerates knows'
      exact ⟨final, tensors'', then_ok.mpr ⟨middle, success, success'⟩, emitted'', same,
        tracks.more.trans tracks'.more, tracks'.enumerates, tracks'.hands⟩

/-- A statement that the rules allow is generated, and leaves only what the back end supports. -/
theorem Realizes.generates
    (realizes : Realizes sized declared.typeOf tensors.length bindings statement count after)
    (valid : Valid generator block) (emitted : EmitsOnly (Buildable sized) generator)
    (enumerates : Enumerates tensors generator) (knows : Knows tensors bindings generator.values) :
    ∃ final tensors', generateStatement order declared statement generator = .ok () final ∧
      EmitsOnly (Buildable sized) final ∧ tensors'.length = count ∧
        Tracks tensors final tensors' after := by
  induction statement generalizing generator block tensors bindings count after with
  | tensorDecl declaration =>
    cases realizes with | @tensorDecl _ _ _ type new known storage =>
    have free : declaration.name ∉ generator.values :=
      AList.lookup_eq_none.mp (knows.lookup_eq_none.mpr new)
    have written : EmitsOnly (Buildable sized)
        (generator.appendTo block (.tensorDecl generator.nextValueId declaration.name type)) :=
      emitted.appendTo valid.isOpen storage
    have success := (generateTensorDeclaration_ok valid.toActive).mpr ⟨type, known, free, rfl⟩
    exact ⟨_, _, success, written, by rw [List.length_append, List.length_singleton],
      generateTensorDeclaration_tracks ranked valid storage enumerates knows⟩
  | assignment assignment =>
    cases realizes with | assignment denotes =>
    obtain ⟨info, middle, first, stands, keeps⟩ := denotes.generates valid knows
    have computed := generateExpression_valid valid first
    have knows' : Knows tensors bindings middle.values := computed.values ▸ knows
    have success :
        generateAssignment assignment generator = .ok () (middle.rebind assignment.target info) :=
      generateAssignment_ok.mpr ⟨info, middle, first, rfl⟩
    refine ⟨_, tensors, success, keeps emitted, rfl, List.prefix_rfl,
      enumerates.mono computed.grows.values, ?_⟩
    exact .bindings (by simp [rebind, computed.valid.current])
      (knows'.insert stands assignment.target)
  | returnStmt returnStatement =>
    cases realizes with | returnStmt denotes =>
    obtain ⟨info, middle, first, stands, keeps⟩ := denotes.generates valid knows
    have computed := generateExpression_valid valid first
    have success := (generateReturn_ok fun _ _ first =>
      (generateExpression_valid valid first).valid.toActive).mpr ⟨info, middle, first, rfl⟩
    refine ⟨_, tensors, success, fun id index operation present => ?_, rfl, List.prefix_rfl,
      enumerates.mono computed.grows.values, .nothing rfl⟩
    exact keeps emitted id index operation ((operationAt_terminate _ _ _ _ _ _).mp present)
  | ifStmt condition thenStatements elseStatements location thenIH elseIH =>
    cases realizes with | ifStmt denotes thenRealized elseRealized joins =>
    obtain ⟨info, tested, first, stands, keeps⟩ := denotes.generates valid knows
    have computed := generateExpression_valid valid first
    have typed : info.type = .scalar "i1" := stands.typed
    have knows' : Knows tensors bindings tested.values := computed.values ▸ knows
    have fork := computed.valid.built.fork computed.valid.isOpen (typed ▸ computed.available)
    have thenValid := fork.thenValid computed.valid
    have forked : EmitsOnly (Buildable sized) (tested.enterThen block info.value) :=
      (keeps emitted).fork computed.valid.built block info.value
    have started : Enumerates tensors (tested.enterThen block info.value) :=
      { enumerates.mono (computed.grows.values.trans fork.grows.values) with }
    obtain ⟨thenGenerator, thenTensors, thenRun, thenEmitted, rfl, thenTracks⟩ :=
      thenRealized.generates_of thenIH thenValid forked started knows'
    have thenBranch := generateBranch_valid thenValid thenRun
    have elseValid := fork.elseValid computed.valid thenBranch
    have entered : Enumerates thenTensors (thenGenerator.enterElse tested) :=
      { thenTracks.enumerates with }
    obtain ⟨elseGenerator, elseTensors, elseRun, elseEmitted, rfl, elseTracks⟩ :=
      elseRealized.generates_of elseIH elseValid thenEmitted entered (knows'.mono thenTracks.more)
    have branched :=
      fork.branched computed.valid thenBranch (generateBranch_valid elseValid elseRun)
    obtain ⟨final, joined, emitted', hands⟩ :=
      joins.generates branched elseEmitted elseTracks.enumerates
      (thenTracks.hands.mono elseTracks.more) elseTracks.hands
    obtain ⟨_, _, grows⟩ := (branched.joinRun joined).grows
    exact ⟨final, elseTensors, generateStatement_if_ok.mpr ⟨info, tested, block, thenGenerator,
      elseGenerator, first, typed,
      computed.valid.current, thenRun, elseRun, joined⟩, emitted', rfl,
      thenTracks.more.trans elseTracks.more, elseTracks.enumerates.mono grows.values, hands⟩
  | nullIf => cases realizes

theorem RealizesAll.generates
    (realizes : RealizesAll sized declared.typeOf tensors.length bindings statements)
    (valid : Valid generator block) (emitted : EmitsOnly (Buildable sized) generator)
    (enumerates : Enumerates tensors generator) (knows : Knows tensors bindings generator.values) :
    ∃ final, generateTopLevel order declared statements generator = .ok () final ∧
      final.currentBlockId = none ∧
      EmitsOnly (Buildable sized) final := by
  induction statements generalizing generator block tensors bindings with
  | nil => cases realizes
  | cons statement statements ih =>
    rw [generateTopLevel_cons valid.current]
    cases realizes with
    | last ends =>
      obtain ⟨final, tensors', success, emitted', _, tracks⟩ :=
        ends.generates ranked valid emitted enumerates knows
      cases tracks.hands with | nothing stopped =>
      exact ⟨final, then_ok.mpr ⟨final, success, rfl⟩, stopped, emitted'⟩
    | cons first rest =>
      obtain ⟨middle, tensors', success, emitted', rfl, tracks⟩ :=
        first.generates ranked valid emitted enumerates knows
      cases tracks.hands with | bindings active knows' =>
      obtain ⟨next, current⟩ := Option.ne_none_iff_exists'.mp active
      have valid' := (generateStatement_valid valid success).settled.valid next current
      obtain ⟨final, success', stopped, emitted''⟩ :=
        ih rest valid' emitted' tracks.enumerates knows'
      exact ⟨final, then_ok.mpr ⟨middle, success, success'⟩, stopped, emitted''⟩

omit ranked in
private theorem enumerates_nil : Enumerates [] generator :=
  ⟨List.forall_mem_nil _, List.nodup_nil, List.forall_mem_nil _⟩

omit ranked in
private theorem knows_started : Knows [] (fun _ => none) started.values where
  bound := by
    intro name info found
    cases (AList.lookup_empty name).symm.trans found
  known := by
    intro name binding known
    cases known

/-- An analysed program is generated, with only what the back end supports, exactly
if the rules allow it. -/
theorem generateUnverified_realizes_iff (analyzed : analyze analysisOrder program = .ok accepted)
    (declares : ∀ declaration ∈ declarationsIn program.statements, declaration.type.shape ≠ []) :
    (∃ final, generateUnverified order accepted.symbols program {} = .ok () final ∧
      EmitsOnly (Buildable sized) final) ↔
      RealizesProgram sized accepted.symbols.typeOf program := by
  constructor
  · rintro ⟨final, success, emitted⟩
    obtain ⟨run, stopped⟩ := generateUnverified_ok.mp success
    have faithful : Faithful False accepted.symbols (declarationsIn program.statements) :=
      fun declaration member exact => absurd (exact.resolve_right id) (declares declaration member)
    exact generateTopLevel_realizes ranked .started (fun name type known => by simp at known)
      faithful
      (analyze_ok.mp analyzed) run stopped emitted enumerates_nil knows_started
  · intro realizes
    have realizes :
        RealizesAll sized accepted.symbols.typeOf ([] : List ValueInfo).length (fun _ => none)
      program.statements := realizes
    have nothing : EmitsOnly (Buildable sized) started := by
      intro id index operation ⟨body, found, here⟩
      rw [blocks_started] at found
      split at found
      · cases found
        cases here
      · cases found
    obtain ⟨final, run, stopped, emitted⟩ :=
      realizes.generates ranked .started nothing enumerates_nil
      knows_started
    exact ⟨final, generateUnverified_ok.mpr ⟨run, stopped⟩, emitted⟩

end Ocelotl.IR
