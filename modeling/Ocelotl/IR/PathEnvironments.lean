import Ocelotl.IR.Acceptance
import Ocelotl.Semantic.ControlPaths

/-! The generator's environment holds what the control paths that reach it agree
on. Generation of an accepted program without tensors follows its paths until
two of them disagree where they are joined. -/

namespace Ocelotl.IR

open Ast Semantic Library IRGenerator

variable {generator tested thenGenerator elseGenerator final : IRGenerator}
  {block thenEnd elseEnd : BlockId} {info : ValueInfo} {error : IRError} {agree : Prop}
  {analysisOrder order : TraversalOrder} {declared : SymbolTable}
  {before values elseValues : Environment} {stores thenStores elseStores : Set TypeStore}
  {statement : Statement} {statements : List Statement} {program : Program}
  {analyzer analyzer' accepted : SemanticAnalyzer} {type : TensorType}

/-- The types that the environment gives to names. -/
def typesOf (values : Environment) : TypeStore :=
  fun name => (values.lookup name).map ValueInfo.type

theorem typesOf_eq_some {name : String} : typesOf values name = some type ↔
    ∃ info, values.lookup name = some info ∧ info.type = type :=
  Option.map_eq_some_iff

/-- Paths arrive where the generator is, and agree on what its environment holds. -/
structure Reached (stores : Set TypeStore) (analyzer : SemanticAnalyzer) (generator : IRGenerator)
    (block : BlockId) : Prop where
  valid : Valid generator block
  agrees : Agrees True analyzer.symbols generator.values
  describes : Describes (typesOf generator.values) stores
  inhabited : stores.Nonempty

/-- The generator has an active block as long as paths continue. -/
structure Follows (stores : Set TypeStore) (final : IRGenerator) : Prop where
  active : final.currentBlockId ≠ none ↔ stores.Nonempty
  describes : final.currentBlockId ≠ none → Describes (typesOf final.values) stores

/-- Generation follows the paths when the merges agree, and otherwise rejects
the name they disagree on. -/
def Outcome (agree : Prop) (stores : Set TypeStore) :
    EStateM.Result IRError IRGenerator Unit → Prop
  | .ok _ final => agree ∧ Follows stores final
  | .error error _ => ¬ agree ∧ ∃ name, error = .branchTypeMismatch name

theorem Reached.follows (reached : Reached stores analyzer generator block) :
    Follows stores generator where
  active := by simp [reached.valid.current, reached.inhabited]
  describes := fun _ => reached.describes

theorem Follows.stopped (follows : Follows stores final) (current : final.currentBlockId = none) :
    stores = ∅ := by
  rw [← Set.not_nonempty_iff_eq_empty, ← follows.active]
  exact not_not.mpr current

theorem Follows.none (current : final.currentBlockId = none) : Follows ∅ final where
  active := by simp [current]
  describes := fun active => absurd current active

/-- What comes after a step starts from the paths that the step leaves. -/
theorem Outcome.bind {first : Generation Unit} {rest : Unit → Generation Unit} {agree' : Prop}
    {stores' : Set TypeStore} (outcome : Outcome agree stores (first generator))
    (later : ∀ {middle}, first generator = .ok () middle → Follows stores middle →
      Outcome agree' stores' (rest () middle)) :
    Outcome (agree ∧ agree') stores' ((first >>= rest) generator) := by
  cases run : first generator with
  | error error final =>
    rw [run] at outcome
    rw [bind_of_error run]
    exact ⟨fun both => outcome.1 both.1, outcome.2⟩
  | ok _ middle =>
    rw [run] at outcome
    rw [bind_of_ok run]
    have after := later run outcome.2
    cases done : rest () middle with
    | error error final =>
      rw [done] at after
      exact ⟨fun both => after.1 both.2, after.2⟩
    | ok _ final =>
      rw [done] at after
      exact ⟨⟨outcome.1, after.1⟩, after.2⟩

/-- The paths know what the analyser knows. -/
theorem Reached.knows (reached : Reached stores analyzer generator block) {name : String}
    (known : analyzer.symbols.typeOf name = some type) : Common stores name type := by
  obtain ⟨info, found, typed⟩ := reached.agrees name type known
  exact (reached.describes name type).mp (typesOf_eq_some.mpr ⟨info, found, typed (.inr trivial)⟩)

theorem Reached.valueType {expression : Expression}
    (reached : Reached stores analyzer generator block)
    (analyzed : analyzeExpression analyzer.symbols expression = .ok type) :
    ∀ store ∈ stores, valueType store expression = some type :=
  fun store member => valueType_of_analyzed
    (fun _ _ known => reached.knows known store member) analyzed

theorem typesOf_insert (values : Environment) (name other : String) (info : ValueInfo) :
    typesOf (values.insert name info) other =
      if other = name then some info.type else typesOf values other := by
  rw [typesOf, UnorderedMap.lookup_insert_eq]
  split <;> rfl

private theorem generateAssignment_outcome {assignment : Assignment}
    (reached : Reached stores analyzer generator block)
    (analyzed : analyzeAssignment assignment analyzer = .ok () analyzer') :
    Outcome True (storesAfter (.assignment assignment) stores)
      (generateAssignment assignment generator) := by
  obtain ⟨type, typed, _⟩ := analyzeAssignment_ok.mp analyzed
  obtain ⟨info, middle, first, same⟩ := generateExpression_total reached.valid reached.agrees typed
  have computed := generateExpression_valid reached.valid first
  have success : generateAssignment assignment generator =
      .ok () (middle.rebind assignment.target info) := generateAssignment_ok.mpr ⟨_, _, first, rfl⟩
  rw [success]
  refine ⟨trivial, ?_, fun _ => ?_⟩
  · rw [nonempty_storesAfter]
    simp [rebind, computed.valid.current, reached.inhabited, continues]
  · refine reached.describes.bind reached.inhabited (reached.valueType typed) fun name => ?_
    rw [← computed.values, ← same]
    exact typesOf_insert middle.values assignment.target name info

/-- Merging fails at a name to which both branches give a type, but not the same. -/
theorem mergeValues_error {entries : List (String × ValueInfo)} (active : Active generator block)
    (failure : mergeValues thenEnd elseEnd elseValues entries generator = .error error final) :
    ∃ name thenValue elseValue, error = .branchTypeMismatch name ∧ (name, thenValue) ∈ entries ∧
      elseValues.lookup name = some elseValue ∧ thenValue.type ≠ elseValue.type := by
  induction entries generalizing generator with
  | nil => cases failure
  | cons entry entries ih =>
    obtain ⟨name, thenValue⟩ := entry
    have later {middle : IRGenerator} (active : Active middle block)
        (failure : mergeValues thenEnd elseEnd elseValues entries middle = .error error final) :
        ∃ other value elseValue, error = .branchTypeMismatch other ∧
          (other, value) ∈ (name, thenValue) :: entries ∧
          elseValues.lookup other = some elseValue ∧ value.type ≠ elseValue.type := by
      obtain ⟨other, value, elseValue, same, member, rest⟩ := ih active failure
      exact ⟨other, value, elseValue, same, List.mem_cons_of_mem _ member, rest⟩
    rw [mergeValues] at failure
    cases found : elseValues.lookup name with
    | none =>
      rw [found] at failure
      exact later active failure
    | some elseValue =>
      rw [found] at failure
      dsimp only at failure
      by_cases typed : thenValue.type = elseValue.type
      · rw [if_neg (not_not.mpr typed)] at failure
        by_cases same : thenValue.value = elseValue.value
        · rw [if_pos same] at failure
          rcases bind_error.mp failure with offered | ⟨_, middle, offered, rest⟩
          · cases offered
          · cases offered
            exact later (active.offer name thenValue) rest
        · rw [if_neg same] at failure
          have active' : Active generator.addValue block := ⟨active.current, active.isOpen⟩
          simp only [createValue, emit, emplaceValue, bind, EStateM.bind, modifyGet_apply,
            updateCurrentBlock_apply active'] at failure
          exact later ((active.appendTo _).offer name _) failure
      · rw [if_pos typed] at failure
        cases failure
        exact ⟨name, thenValue, elseValue, rfl, List.mem_cons_self, found, typed⟩

private theorem mergeValues_active {entries : List (String × ValueInfo)} (active : Active generator block)
    (success : mergeValues thenEnd elseEnd elseValues entries generator = .ok () final) :
    Active final block := by
  induction entries generalizing generator with
  | nil =>
    cases success
    exact active
  | cons entry entries ih =>
    rcases (mergeValues_cons_ok active).mp success with
      ⟨_, success⟩ | ⟨_, _, _, ⟨_, success⟩ | ⟨_, success⟩⟩
    · exact ih active success
    · exact ih (active.offer _ _) success
    · exact ih ((active.appendTo _).offer _ _) success

/-- The merge of two described environments describes the paths of both branches. -/
theorem mergeValues_outcome {entries : List (String × ValueInfo)} {thenValues : Environment}
    (active : Active generator block) (empty : generator.values = ∅)
    (nodup : (entries.map Prod.fst).Nodup)
    (listed : ∀ {name info}, (name, info) ∈ entries ↔ thenValues.lookup name = some info)
    (fromThen : Describes (typesOf thenValues) thenStores)
    (fromElse : Describes (typesOf elseValues) elseStores)
    (thenInhabited : thenStores.Nonempty) (elseInhabited : elseStores.Nonempty) :
    Outcome (Compatible thenStores elseStores) (thenStores ∪ elseStores)
      (mergeValues thenEnd elseEnd elseValues entries generator) := by
  cases run : mergeValues thenEnd elseEnd elseValues entries generator with
  | error error final =>
    obtain ⟨name, thenValue, elseValue, same, member, found, typed⟩ := mergeValues_error active run
    refine ⟨fun compatible => typed ?_, name, same⟩
    refine compatible thenInhabited elseInhabited name _ _ ?_ ?_
    · exact (fromThen _ _).mp (typesOf_eq_some.mpr ⟨thenValue, listed.mp member, rfl⟩)
    · exact (fromElse _ _).mp (typesOf_eq_some.mpr ⟨elseValue, found, rfl⟩)
  | ok _ final =>
    have merged := mergeValues_values active nodup
      (fun entry _ => by rw [empty]; exact AList.lookup_empty _) run
    refine ⟨fun _ _ name type other left right => ?_, ?_, fun _ => ?_⟩
    · obtain ⟨thenValue, thenFound, rfl⟩ := typesOf_eq_some.mp ((fromThen name type).mpr left)
      obtain ⟨elseValue, elseFound, rfl⟩ := typesOf_eq_some.mp ((fromElse name other).mpr right)
      exact (merged.joined (listed.mpr thenFound) elseFound).1
    · simp [(mergeValues_active active run).current, thenInhabited]
    · refine fromThen.union fromElse fun name type => ?_
      simp only [typesOf_eq_some]
      constructor
      · intro ⟨info, found, typed⟩
        rcases merged.only found with old | ⟨thenValue, elseValue, member, elseFound, same⟩
        · rw [empty, AList.lookup_empty] at old
          cases old
        · have agreed := (merged.joined member elseFound).1
          have thenTyped := same.symm.trans typed
          exact ⟨⟨thenValue, listed.mp member, thenTyped⟩,
            ⟨elseValue, elseFound, agreed.symm.trans thenTyped⟩⟩
      · intro ⟨⟨thenValue, thenFound, typed⟩, ⟨elseValue, elseFound, _⟩⟩
        obtain ⟨_, info, found, same⟩ := merged.joined (listed.mpr thenFound) elseFound
        exact ⟨info, found, same.trans typed⟩

/-- Branches are joined as their paths are. -/
theorem joinBranches_outcome (branched : Branched tested block thenGenerator elseGenerator)
    (fromThen : Follows thenStores thenGenerator) (fromElse : Follows elseStores elseGenerator) :
    Outcome (Compatible thenStores elseStores) (thenStores ∪ elseStores)
      (joinBranches order before thenGenerator.currentBlockId elseGenerator.currentBlockId
        thenGenerator.values elseGenerator.values elseGenerator) := by
  cases thenCurrent : thenGenerator.currentBlockId with
  | none =>
    have noThen := fromThen.stopped thenCurrent
    cases elseCurrent : elseGenerator.currentBlockId with
    | none =>
      have noElse := fromElse.stopped elseCurrent
      rw [joinBranches_neither, noThen, noElse]
      exact ⟨compatible_empty_left, by simp, fun active => absurd rfl active⟩
    | some elseEnd =>
      rw [joinBranches_else, noThen, Set.empty_union]
      refine ⟨compatible_empty_left, ?_, fun _ => fromElse.describes (by simp [elseCurrent])⟩
      simp [← fromElse.active, elseCurrent]
  | some thenEnd =>
    obtain ⟨_, thenOpen, _⟩ := branched.thenEnd thenEnd thenCurrent
    cases elseCurrent : elseGenerator.currentBlockId with
    | none =>
      rw [joinBranches_then, fromElse.stopped elseCurrent, Set.union_empty]
      refine ⟨compatible_empty_right, ?_, fun _ => fromThen.describes (by simp [thenCurrent])⟩
      simp [← fromThen.active, thenCurrent]
    | some elseEnd =>
      obtain ⟨_, elseOpen, _⟩ := branched.elseEnd elseEnd elseCurrent
      have distinct := branched.distinct thenEnd elseEnd thenCurrent elseCurrent
      have joined : Joined elseGenerator [thenEnd, elseEnd] _ :=
        branched.built.join (by simpa using distinct) (by simpa using ⟨thenOpen, elseOpen⟩)
      have thenActive : thenGenerator.currentBlockId ≠ none := by simp [thenCurrent]
      have elseActive : elseGenerator.currentBlockId ≠ none := by simp [elseCurrent]
      rw [joinBranches_both]
      exact mergeValues_outcome ⟨rfl, joined.untouched.isOpen⟩ rfl (order.nodup_traverse _ _)
        order.mem_traverse (fromThen.describes thenActive) (fromElse.describes elseActive)
        (fromThen.active.mp thenActive) (fromElse.active.mp elseActive)

theorem generateStatement_if_apply {condition : Expression}
    {thenStatements elseStatements : List Statement} {location : SourceLocation}
    (first : generateExpression condition generator = .ok info tested)
    (typed : info.type = .scalar "i1") (current : tested.currentBlockId = some block) :
    generateStatement order declared (.ifStmt condition thenStatements elseStatements location)
        generator =
      (do
        generateBranch order declared thenStatements
        let thenGenerator ← get
        enterBlock (some (tested.nextBlockId + 1)) tested.values
        generateBranch order declared elseStatements
        let elseGenerator ← get
        joinBranches order tested.values thenGenerator.currentBlockId
          elseGenerator.currentBlockId thenGenerator.values elseGenerator.values)
        (tested.enterThen block info.value) := by
  rw [generateStatement, bind_of_ok first,
    bind_of_ok (openBranches_ok.mpr ⟨block, typed, current, rfl, rfl⟩)]
  rfl

theorem Reached.continues_iff (reached : Reached stores analyzer generator block)
    (follows : Follows (storesAfter statement stores) final) :
    final.currentBlockId ≠ none ↔ continues statement = true := by
  rw [follows.active, nonempty_storesAfter]
  exact and_iff_right reached.inhabited

theorem Reached.next {middle : IRGenerator} {stores' : Set TypeStore} {next : BlockId}
    (reached : Reached stores analyzer generator block) (scalar : declarationsOf statement = [])
    (analyzed : analyzeStatement analysisOrder statement analyzer = .ok () analyzer')
    (run : generateStatement order declared statement generator = .ok () middle)
    (follows : Follows stores' middle) (current : middle.currentBlockId = some next) :
    Reached stores' analyzer' middle next := by
  have active : middle.currentBlockId ≠ none := by simp [current]
  have faithful : Faithful True declared (declarationsOf statement) := by
    rw [scalar]
    exact fun _ member => nomatch member
  exact ⟨(generateStatement_valid reached.valid run).settled.valid next current,
    generateStatement_agrees reached.valid reached.agrees faithful analyzed run active,
    follows.describes active, follows.active.mp active⟩

private theorem generateBranch_outcome_of
    (each : ∀ statement ∈ statements, ∀ {generator block stores analyzer analyzer'},
      Reached stores analyzer generator block → declarationsOf statement = [] →
      analyzeStatement analysisOrder statement analyzer = .ok () analyzer' →
      Outcome (MergesAgree statement stores) (storesAfter statement stores)
        (generateStatement order declared statement generator))
    (reached : Reached stores analyzer generator block) (scalar : declarationsIn statements = [])
    (analyzed : analyzeStatements analysisOrder statements analyzer = .ok () analyzer') :
    Outcome (MergesAgreeIn statements stores) (storesAfterAll statements stores)
      (generateBranch order declared statements generator) := by
  induction statements generalizing stores generator block analyzer with
  | nil => exact ⟨trivial, reached.follows⟩
  | cons statement statements ih =>
    obtain ⟨between, firstAnalyzed, restAnalyzed⟩ := analyzeStatements_cons_ok.mp analyzed
    obtain ⟨scalarHere, scalarRest⟩ := List.append_eq_nil_iff.mp scalar
    rw [generateBranch_cons reached.valid.current, MergesAgreeIn, storesAfterAll]
    refine (each statement List.mem_cons_self reached scalarHere firstAnalyzed).bind ?_
    intro middle run follows
    cases current : middle.currentBlockId with
    | none =>
      rw [generateBranch_stopped current, follows.stopped current, storesAfterAll_empty]
      exact ⟨mergesAgreeIn_empty, .none current⟩
    | some next =>
      exact ih (fun other member => each other (List.mem_cons_of_mem _ member))
        (reached.next scalarHere firstAnalyzed run follows current) scalarRest restAnalyzed

/-- A statement of an accepted program is generated as its paths go, unless
they disagree at one of its merges. -/
theorem generateStatement_outcome (reached : Reached stores analyzer generator block)
    (scalar : declarationsOf statement = [])
    (analyzed : analyzeStatement analysisOrder statement analyzer = .ok () analyzer') :
    Outcome (MergesAgree statement stores) (storesAfter statement stores)
      (generateStatement order declared statement generator) := by
  induction statement generalizing stores generator block analyzer analyzer' with
  | tensorDecl declaration => cases scalar
  | assignment assignment =>
    rw [analyzeStatement] at analyzed
    rw [generateStatement, MergesAgree]
    exact generateAssignment_outcome reached analyzed
  | returnStmt returnStatement =>
    rw [analyzeStatement] at analyzed
    obtain ⟨info, middle, first, typed⟩ :=
      generateExpression_total reached.valid reached.agrees (analyzeReturn_ok.mp analyzed).1
    have success := (generateReturn_ok fun _ _ first =>
      (generateExpression_valid reached.valid first).valid.toActive).mpr ⟨info, middle, first, rfl⟩
    rw [generateStatement, success, MergesAgree, storesAfter]
    exact ⟨trivial, .none rfl⟩
  | ifStmt condition thenStatements elseStatements location thenIH elseIH =>
    obtain ⟨thenAnalyzer, elseAnalyzer, tested, thenAnalyzed, elseAnalyzed, _⟩ :=
      analyzeStatement_if_ok.mp analyzed
    obtain ⟨scalarThen, scalarElse⟩ := List.append_eq_nil_iff.mp scalar
    obtain ⟨info, tested, first, typed⟩ :=
      generateExpression_total reached.valid reached.agrees tested
    have computed := generateExpression_valid reached.valid first
    have fork := computed.valid.built.fork computed.valid.isOpen (typed ▸ computed.available)
    have thenReached : Reached stores analyzer (tested.enterThen block info.value)
        tested.nextBlockId :=
      ⟨fork.thenValid computed.valid, by exact computed.values ▸ reached.agrees,
        by exact computed.values ▸ reached.describes, reached.inhabited⟩
    rw [generateStatement_if_apply first typed computed.valid.current, MergesAgree, storesAfter]
    refine (generateBranch_outcome_of thenIH thenReached scalarThen thenAnalyzed).bind ?_
    intro thenGenerator thenRun fromThen
    have thenBranch := generateBranch_valid thenReached.valid thenRun
    have elseReached : Reached stores { thenAnalyzer with symbols := analyzer.symbols }
        (thenGenerator.enterElse tested) (tested.nextBlockId + 1) :=
      ⟨fork.elseValid computed.valid thenBranch, by exact computed.values ▸ reached.agrees,
        by exact computed.values ▸ reached.describes, reached.inhabited⟩
    refine (generateBranch_outcome_of elseIH elseReached scalarElse elseAnalyzed).bind ?_
    intro elseGenerator elseRun fromElse
    have elseBranch := generateBranch_valid elseReached.valid elseRun
    exact joinBranches_outcome (fork.branched computed.valid thenBranch elseBranch) fromThen
      fromElse
  | nullIf =>
    rw [analyzeStatement] at analyzed
    cases analyzed

/-- What generation of the statements of a program comes to. -/
def TopLevelOutcome (statements : List Statement) (stores : Set TypeStore) :
    EStateM.Result IRError IRGenerator Unit → Prop
  | .ok _ final => MergesAgreeIn statements stores ∧ hasUnreachable statements = false ∧
    Follows (storesAfterAll statements stores) final
  | .error error _ =>
    (¬ MergesAgreeIn statements stores ∧ ∃ name, error = .branchTypeMismatch name) ∨
    (MergesAgreeIn statements stores ∧ hasUnreachable statements = true ∧
      error = .unreachableStatement)

private theorem generateTopLevel_outcome (reached : Reached stores analyzer generator block)
    (scalar : declarationsIn statements = [])
    (analyzed : analyzeStatements analysisOrder statements analyzer = .ok () analyzer') :
    TopLevelOutcome statements stores (generateTopLevel order declared statements generator) := by
  induction statements generalizing stores generator block analyzer with
  | nil => exact ⟨trivial, rfl, reached.follows⟩
  | cons statement statements ih =>
    obtain ⟨between, firstAnalyzed, restAnalyzed⟩ := analyzeStatements_cons_ok.mp analyzed
    obtain ⟨scalarHere, scalarRest⟩ := List.append_eq_nil_iff.mp scalar
    have outcome : Outcome _ _ (generateStatement order declared statement generator) :=
      generateStatement_outcome reached scalarHere firstAnalyzed
    rw [generateTopLevel_cons reached.valid.current]
    cases run : generateStatement order declared statement generator with
    | error error middle =>
      rw [run] at outcome
      rw [bind_of_error run]
      exact .inl ⟨fun both => outcome.1 both.1, outcome.2⟩
    | ok _ middle =>
      rw [run] at outcome
      rw [bind_of_ok run]
      obtain ⟨agree, follows⟩ := outcome
      cases current : middle.currentBlockId with
      | none =>
        have stopped := follows.stopped current
        have ends : continues statement = false := by
          rw [← Bool.not_eq_true, ← reached.continues_iff follows]
          exact not_not.mpr current
        cases statements with
        | nil => exact ⟨⟨agree, trivial⟩, by simp [hasUnreachable], follows⟩
        | cons next statements =>
          rw [generateTopLevel_stopped current]
          refine .inr ⟨⟨agree, ?_⟩, by simp [hasUnreachable, ends], rfl⟩
          rw [stopped]
          exact mergesAgreeIn_empty
      | some next =>
        have goes : continues statement = true :=
          (reached.continues_iff follows).mp (by simp [current])
        have later := ih (reached.next scalarHere firstAnalyzed run follows current) scalarRest
          restAnalyzed
        cases done : generateTopLevel order declared statements middle with
        | ok _ final =>
          rw [done] at later
          obtain ⟨agreeRest, reachable, follows⟩ := later
          exact ⟨⟨agree, agreeRest⟩, by simp [hasUnreachable, goes, reachable], follows⟩
        | error error final =>
          rw [done] at later
          rcases later with ⟨disagree, same⟩ | ⟨agreeRest, unreachable, same⟩
          · exact .inl ⟨fun both => disagree both.2, same⟩
          · exact .inr ⟨⟨agree, agreeRest⟩, by simp [hasUnreachable, unreachable], same⟩

/-- Before the first statement there is one path, which has bound nothing. -/
def noBindings : TypeStore := fun _ => none

theorem Reached.initial : Reached {noBindings} {} started 0 where
  valid := .started
  agrees := fun name type known => by simp at known
  describes := by
    have empty : typesOf started.values = noBindings := rfl
    rw [empty]
    exact describes_singleton noBindings
  inhabited := Set.singleton_nonempty noBindings

/-- Generation returns a module when every control path of the program returns
and nothing follows such a return. Otherwise it throws for that reason. -/
structure DecidedByPaths (program : Program) (result : Except IRError Module) : Prop where
  returns : Complete program.statements → ∃ module, result = .ok module
  throws : ¬ Complete program.statements →
    result = .error .unreachableStatement ∨ result = .error .pathWithoutReturn

theorem generate_error {final : IRGenerator}
    (failure : generateUnverified order accepted.symbols program {} = .error error final) :
    generate order accepted program = .error error := by
  rw [generate, failure]

/-- Generation is decided by the paths of a program whose merges agree, and
otherwise rejects a name. -/
theorem generate_outcome (analyzed : analyze analysisOrder program = .ok accepted)
    (scalar : declarationsIn program.statements = []) :
    MergesAgreeIn program.statements {noBindings} ∧
        DecidedByPaths program (generate order accepted program) ∨
      ¬ MergesAgreeIn program.statements {noBindings} ∧
        ∃ name, generate order accepted program = .error (.branchTypeMismatch name) := by
  have outcome : TopLevelOutcome program.statements {noBindings}
      (generateTopLevel order accepted.symbols program.statements started) :=
    generateTopLevel_outcome .initial scalar (analyze_ok.mp analyzed)
  cases run : generateTopLevel order accepted.symbols program.statements started with
  | error error final =>
    have failed : generate order accepted program = .error error :=
      generate_error (by rw [generateUnverified_eq, bind_of_error run])
    rw [run] at outcome
    rcases outcome with ⟨disagree, name, same⟩ | ⟨agree, unreachable, same⟩
    · exact .inr ⟨disagree, name, same ▸ failed⟩
    · refine .inl ⟨agree, fun complete => ?_, fun _ => .inl (same ▸ failed)⟩
      rw [complete.2] at unreachable
      cases unreachable
  | ok _ final =>
    rw [run] at outcome
    obtain ⟨agree, reachable, follows⟩ := outcome
    have decided : final.currentBlockId ≠ none ↔ continuesIn program.statements = true := by
      rw [follows.active, nonempty_storesAfterAll]
      exact and_iff_right (Set.singleton_nonempty noBindings)
    refine .inl ⟨agree, ?_⟩
    cases current : final.currentBlockId with
    | none =>
      have success := generateUnverified_ok.mpr ⟨run, current⟩
      have faithful : Faithful True accepted.symbols (declarationsIn program.statements) := by
        rw [scalar]
        exact fun _ member => nomatch member
      have verified := verify_of_faithful analyzed faithful success
      have generated := generate_ok.mpr ⟨final, success, verified, rfl⟩
      refine ⟨fun _ => ⟨final.module, generated⟩, fun incomplete => ?_⟩
      refine absurd ⟨?_, reachable⟩ incomplete
      rw [← Bool.not_eq_true, ← decided]
      exact not_not.mpr current
    | some block =>
      have goes := decided.mp (by simp [current])
      have active := ((generateTopLevel_valid .started run).settled.valid block current).toActive
      have failed : generate order accepted program = .error .pathWithoutReturn :=
        generate_error (by rw [generateUnverified_eq, bind_of_ok run, requireReturn_active active])
      refine ⟨fun complete => ?_, fun _ => .inr failed⟩
      rw [complete.1] at goes
      cases goes

/-- An accepted program without tensors is generated as its paths decide exactly
when no two paths disagree at a merge. -/
theorem generate_decidedByPaths (analyzed : analyze analysisOrder program = .ok accepted)
    (scalar : declarationsIn program.statements = []) :
    DecidedByPaths program (generate order accepted program) ↔
      MergesAgreeIn program.statements {noBindings} := by
  rcases generate_outcome analyzed scalar with ⟨agree, decided⟩ | ⟨disagree, name, failed⟩
  · exact iff_of_true decided agree
  · refine iff_of_false (fun decided => ?_) disagree
    by_cases complete : Complete program.statements
    · obtain ⟨module, generated⟩ := decided.returns complete
      rw [failed] at generated
      cases generated
    · rcases decided.throws complete with thrown | thrown
      · rw [failed] at thrown
        cases thrown
      · rw [failed] at thrown
        cases thrown

/-- The paths of `nestedConditional` agree, so that it is generated. -/
theorem generate_decidedByPaths_nestedConditional :
    Complete nestedConditional.statements ∧
      MergesAgreeIn nestedConditional.statements {noBindings} := by
  have complete : Complete nestedConditional.statements := by decide
  obtain ⟨accepted, module, analyzed, generated⟩ :
      ∃ accepted module, analyze .stored nestedConditional = .ok accepted ∧
        generate .stored accepted nestedConditional = .ok module :=
    exists_of_compile (by decide +kernel)
  exact ⟨complete, (generate_decidedByPaths analyzed rfl).mp
    ⟨fun _ => ⟨module, generated⟩, fun incomplete => absurd complete incomplete⟩⟩

/-- The analyser forgets a name that only the continuing branch of the first
conditional binds. The second conditional binds it again, with another type. -/
def forgottenName : Program where
  statements := [
    .ifStmt (.binary .equal (.integer 1 {}) (.integer 1 {}) {})
      [.returnStmt ⟨.integer 0 {}, {}⟩]
      [.assignment ⟨"Y", .integer 1 {}, {}⟩] {},
    .ifStmt (.binary .equal (.integer 1 {}) (.integer 1 {}) {})
      [.assignment ⟨"Y", .float ⟨0x4000000000000000⟩ {}, {}⟩]
      [.assignment ⟨"Z", .integer 1 {}, {}⟩] {},
    .returnStmt ⟨.integer 0 {}, {}⟩]

/-- Every path of `forgottenName` returns, but the name that the generator
still knows is rejected where the second conditional ends. -/
theorem forgottenName_not_decidedByPaths : ∃ accepted,
    analyze .stored forgottenName = .ok accepted ∧
      declarationsIn forgottenName.statements = [] ∧ Complete forgottenName.statements ∧
      generate .stored accepted forgottenName = .error (.branchTypeMismatch "Y") ∧
      ¬ DecidedByPaths forgottenName (generate .stored accepted forgottenName) := by
  have complete : Complete forgottenName.statements := by decide
  obtain ⟨accepted, analyzed, generated⟩ := compile_some.mp
    (show compile .stored .stored forgottenName = some (.error (.branchTypeMismatch "Y")) by
      decide +kernel)
  refine ⟨accepted, analyzed, rfl, complete, generated, fun decided => ?_⟩
  obtain ⟨module, success⟩ := decided.returns complete
  rw [generated] at success
  cases success

end Ocelotl.IR
