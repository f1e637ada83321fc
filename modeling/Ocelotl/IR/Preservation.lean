import Ocelotl.IR.Simulation

namespace Ocelotl.IR

open Ast Semantic Library IRGenerator Evaluation

variable {Contents : Type} {operations : Operations Contents} {blocks : Blocks}
  {generator middle final tested thenGenerator elseGenerator taken : IRGenerator}
  {block ending thenEnd elseEnd : BlockId} {ends : List BlockId}
  {previous : Option (Departure Contents)}
  {registers : Registers Contents} {symbols declared : SymbolTable} {type : TensorType}
  {info : ValueInfo} {value computed : Value Contents} {store : Store Contents}
  {values : Environment} {state after : State Contents} {name : String}
  {analysisOrder order : TraversalOrder} {analyzer analyzer' : SemanticAnalyzer}

/-- Executing what statements became: the execution goes on where the generator
does, returns the same value, or is stuck in the same division. -/
def Runs (operations : Operations Contents) (blocks : Blocks) (generator : IRGenerator)
    (block : BlockId) (previous : Option (Departure Contents)) (registers : Registers Contents)
    (symbols : SymbolTable) (final : IRGenerator) :
    EStateM.Result Fault (State Contents) (Completion Contents) → Prop
  | .ok .continues after => ∃ block' previous' registers', final.currentBlockId = some block' ∧
      (machine operations blocks).Leads (generator.position block previous registers)
        (final.position block' previous' registers') ∧
      Represents symbols after.store final.values registers'
  | .ok (.returned value) _ => (machine operations blocks).Evaluates
      (generator.position block previous registers) (.ok value)
  | .error _ _ => (machine operations blocks).Evaluates
      (generator.position block previous registers) (.error .undefinedDivision)

theorem Runs.prepend {block' : BlockId} {previous' : Option (Departure Contents)}
    {registers' : Registers Contents}
    {result : EStateM.Result Fault (State Contents) (Completion Contents)}
    (leads : (machine operations blocks).Leads (generator.position block previous registers)
      (middle.position block' previous' registers'))
    (rest : Runs operations blocks middle block' previous' registers' symbols final result) :
    Runs operations blocks generator block previous registers symbols final result := by
  cases result with
  | ok completion after =>
    cases completion with
    | continues =>
      obtain ⟨block'', previous'', registers'', current, further, represents⟩ := rest
      exact ⟨block'', previous'', registers'', current, leads.trans further, represents⟩
    | returned value => exact leads.evaluates rest
  | error fault after => exact leads.evaluates rest

/-- An expression is computed before the rest of a statement. -/
theorem Runs.first {first : Evaluating Contents (Value Contents)}
    {rest : Value Contents → Evaluating Contents (Completion Contents)}
    (run : Computes operations blocks generator block previous registers info middle type
      (first state))
    (continues : ∀ value after registers' computed, first state = .ok value after →
      Preserves generator registers registers' → registers' info.value = some computed →
      (type.shape = [] → computed = value) →
      Runs operations blocks middle block previous registers' symbols final (rest value after)) :
    Runs operations blocks generator block previous registers symbols final
      ((first >>= rest) state) := by
  cases evaluated : first state with
  | error fault after =>
    rw [evaluated] at run
    rw [bind_of_error evaluated]
    exact run
  | ok value after =>
    rw [evaluated] at run
    obtain ⟨registers', computed, leads, preserves, held, same⟩ := run
    rw [bind_of_ok evaluated]
    exact .prepend leads (continues value after registers' computed evaluated preserves held same)

/-- Both sides introduce or overwrite a name. -/
theorem Represents.bind {later : SymbolTable}
    (represents : Represents symbols store values registers)
    (held : registers info.value = some computed) (same : type.shape = [] → computed = value)
    (known : ∀ {other otherType}, later.typeOf other = some otherType →
      other = name ∧ otherType = type ∨ other ≠ name ∧ symbols.typeOf other = some otherType) :
    Represents later (store.insert name value) (values.insert name info) registers where
  defined := by
    intro other bound found
    rw [UnorderedMap.lookup_insert_eq] at found
    split at found
    · cases found
      exact ⟨computed, held⟩
    · exact represents.defined found
  scalars := by
    intro other otherType bound typed scalar found
    rw [UnorderedMap.lookup_insert_eq] at found ⊢
    rcases known typed with ⟨here, sameType⟩ | ⟨different, earlier⟩
    · rw [if_pos here] at found ⊢
      cases found
      rw [held, same (sameType ▸ scalar)]
    · rw [if_neg different] at found ⊢
      exact represents.scalars earlier scalar found

private theorem generateTensorDeclaration_runs {declaration : TensorDecl} (valid : Valid generator block)
    (faithful : Faithful False declared [declaration])
    (represents : Represents analyzer.symbols state.store generator.values registers)
    (analyzed : analyzeTensorDeclaration declaration analyzer = .ok () analyzer')
    (success : generateTensorDeclaration declared declaration generator = .ok () final)
    (within : Within final blocks) :
    Runs operations blocks generator block previous registers analyzer'.symbols final
      (evaluateStatement operations.always (.tensorDecl declaration) state) := by
  obtain ⟨type, found, _, isFinal⟩ := (generateTensorDeclaration_ok valid.toActive).mp success
  subst isFinal
  have emitted : Within (generator.appendTo block
      (.tensorDecl generator.nextValueId declaration.name type)) blocks := within
  have step : (machine operations blocks).step (generator.position block previous registers) = _ :=
    emitted.step valid.isOpen rfl
  have represents := represents.preserved valid
    (.update generator registers (operations.tensor declaration.name type))
  rw [evaluateStatement]
  refine ⟨block, previous, _, valid.current, .one step, ?_⟩
  apply represents.bind (Function.update_self _ _ _) _ (analyzeTensorDeclaration_known analyzed)
  intro scalar
  have exact := faithful declaration (List.mem_singleton.mpr rfl) (.inl scalar)
  rw [Option.some.inj (found.symm.trans exact)]
  rfl

private theorem generateAssignment_runs {assignment : Assignment} (valid : Valid generator block)
    (agrees : Agrees False analyzer.symbols generator.values)
    (stored : StoreTyped analyzer.symbols state.store)
    (represents : Represents analyzer.symbols state.store generator.values registers)
    (analyzed : analyzeAssignment assignment analyzer = .ok () analyzer')
    (success : generateAssignment assignment generator = .ok () final)
    (within : Within final blocks) :
    Runs operations blocks generator block previous registers analyzer'.symbols final
      (evaluateStatement operations.always (.assignment assignment) state) := by
  obtain ⟨type, typed, known⟩ := analyzeAssignment_known analyzed
  obtain ⟨info, middle, first, isFinal⟩ := generateAssignment_ok.mp success
  subst isFinal
  have assigned := generateExpression_valid valid first
  rw [evaluateStatement]
  apply Runs.first (generateExpression_computes valid agrees stored represents typed first within)
  intro value after registers' computed evaluated preserves held same
  have sameStore := ((evaluateExpression_sound stored typed).store evaluated).2
  have represents' := represents.preserved valid preserves
  rw [← assigned.values, ← sameStore] at represents'
  exact ⟨block, previous, registers', assigned.valid.current, .refl,
    represents'.bind held same known⟩

private theorem generateReturn_runs {returnStatement : ReturnStmt} (valid : Valid generator block)
    (agrees : Agrees False analyzer.symbols generator.values)
    (stored : StoreTyped analyzer.symbols state.store)
    (represents : Represents analyzer.symbols state.store generator.values registers)
    (analyzed : analyzeReturn returnStatement analyzer = .ok () analyzer')
    (success : generateReturn returnStatement generator = .ok () final)
    (within : Within final blocks) :
    Runs operations blocks generator block previous registers analyzer'.symbols final
      (evaluateStatement operations.always (.returnStmt returnStatement) state) := by
  have typed := (analyzeReturn_ok.mp analyzed).1
  obtain ⟨info, middle, first, isFinal⟩ := (generateReturn_ok fun _ _ first =>
    (generateExpression_valid valid first).valid.toActive).mp success
  subst isFinal
  have returned := generateExpression_valid valid first
  obtain ⟨body, found, unterminated⟩ := returned.valid.isOpen
  have ended : Within (middle.terminate block (.returnOp info.value)) blocks := within
  have grows := Grows.terminate returned.valid.isOpen (.returnOp info.value)
  rw [evaluateStatement]
  apply Runs.first (generateExpression_computes valid agrees stored represents typed first
    (ended.of_grows grows))
  intro value after registers' computed evaluated preserves held same
  apply Machine.Evaluates.halt
  rw [ended.transfer found (blocks_terminate_self found), ← same rfl]
  exact congrArg Sum.inr (readRegister_some held)

/-- Closing a block leaves the others alone. -/
theorem blocks_closeInto_other {target : BlockId} (outside : ending ∉ ends) :
    (closeInto target ends generator).blocks ending = generator.blocks ending := by
  induction ends generalizing generator with
  | nil => rfl
  | cons block ends ih =>
    simp only [List.mem_cons, not_or] at outside
    obtain ⟨other, outside⟩ := outside
    rw [IRGenerator.closeInto, ih outside, blocks_terminate, if_neg other]

private theorem blocks_closeInto {target : BlockId} {body : BasicBlock} (distinct : ends.Nodup)
    (member : ending ∈ ends) (found : generator.blocks ending = some body) :
    (closeInto target ends generator).blocks ending = some (body.terminate (.branch target)) := by
  induction ends generalizing generator with
  | nil => cases member
  | cons block ends ih =>
    obtain ⟨absent, distinct⟩ := List.nodup_cons.mp distinct
    rw [IRGenerator.closeInto]
    rcases List.mem_cons.mp member with here | later
    · subst here
      rw [blocks_closeInto_other absent, blocks_terminate_self found]
    · apply ih distinct later
      have other : ending ≠ block := fun same => absent (same ▸ later)
      rw [blocks_terminate, if_neg other, found]

/-- The step from the end of a branch into the block that joins the branches. -/
theorem join_step (built : generator.WellBuilt) (distinct : ends.Nodup) (member : ending ∈ ends)
    (isOpen : Open generator ending) (joined : Joined generator ends (generator.join ends))
    (within : Within (generator.join ends) blocks) :
    (machine operations blocks).step (generator.position ending previous registers) =
      .inl ((generator.join ends).position generator.nextBlockId (some ⟨ending, registers⟩)
        registers) := by
  obtain ⟨body, found, _⟩ := isOpen
  have old : ending < generator.nextBlockId := built.lt_next found
  have added : (generator.addBlock "if.end").blocks ending = some body := by
    rw [blocks_addBlock _ built.sized, if_neg (Nat.ne_of_lt old), found]
  rw [within.transfer found (blocks_closeInto distinct member added)]
  unfold IRGenerator.position
  rw [joined.untouched.length]
  rfl

/-- While the phis of a join are executed: the bound names hold what they hold
at the end of the branch that was taken, and its registers are kept. -/
structure Carries (taken : Environment) (atEnd : Registers Contents) (bound : Nat)
    (generator : IRGenerator) (registers : Registers Contents) : Prop where
  older : bound ≤ generator.nextValueId
  kept : ∀ id, id < bound → registers id = atEnd id
  bounded : ∀ {name info}, generator.values.lookup name = some info →
    info.value < generator.nextValueId
  values : ∀ {name info}, generator.values.lookup name = some info →
    ∃ source, taken.lookup name = some source ∧ registers info.value = atEnd source.value

section Carrying

variable {takenValues : Environment} {atEnd : Registers Contents} {bound : Nat}

private theorem lookup_offer_cases {other : String} {found : ValueInfo}
    (known : (generator.offer name info).values.lookup other = some found) :
    other = name ∧ found = info ∨ generator.values.lookup other = some found := by
  cases absent : generator.values.lookup name with
  | none =>
    rw [lookup_offer absent] at known
    split at known
    · rename_i here
      exact .inl ⟨here, (Option.some.inj known).symm⟩
    · exact .inr known
  | some earlier =>
    have present : name ∈ generator.values := AList.lookup_isSome.mp (by simp [absent])
    rw [IRGenerator.offer, UnorderedMap.emplace_present present] at known
    exact .inr known

theorem Carries.offer {source : ValueInfo}
    (carries : Carries takenValues atEnd bound generator registers)
    (taken : takenValues.lookup name = some source) (small : info.value < generator.nextValueId)
    (held : registers info.value = atEnd source.value) :
    Carries takenValues atEnd bound (generator.offer name info) registers where
  older := carries.older
  kept := carries.kept
  bounded := by
    intro other found known
    rcases lookup_offer_cases known with ⟨_, same⟩ | earlier
    · exact same ▸ small
    · exact carries.bounded earlier
  values := by
    intro other found known
    rcases lookup_offer_cases known with ⟨here, same⟩ | earlier
    · subst here same
      exact ⟨source, taken, held⟩
    · exact carries.values earlier

/-- A phi writes a new register only. -/
theorem Carries.appendTo (carries : Carries takenValues atEnd bound generator registers)
    (block : BlockId) (operation : Operation) (value : Value Contents) :
    Carries takenValues atEnd bound (generator.appendTo block operation)
      (Function.update registers generator.nextValueId (some value)) where
  older := Nat.le_succ_of_le carries.older
  kept := by
    intro id old
    rw [Function.update_of_ne (Nat.ne_of_lt (old.trans_le carries.older))]
    exact carries.kept id old
  bounded := fun known => Nat.lt_succ_of_lt (carries.bounded known)
  values := by
    intro name info known
    rw [Function.update_of_ne (Nat.ne_of_lt (carries.bounded known))]
    exact carries.values known

/-- A phi of two branch ends reads the value of the end that was left. -/
theorem execute_joinPhi {atEnd : Registers Contents} {result : ValueId}
    {thenValue elseValue source : ValueInfo} (distinct : thenEnd ≠ elseEnd)
    (chosen : ending = thenEnd ∧ source = thenValue ∨
      ending = elseEnd ∧ source = elseValue) :
    execute operations (some ⟨ending, atEnd⟩) registers
      (joinPhi result thenEnd elseEnd thenValue elseValue) = readRegister atEnd source.value := by
  rcases chosen with ⟨sameEnd, sameValue⟩ | ⟨sameEnd, sameValue⟩
  · subst sameEnd sameValue
    simp [joinPhi, execute, executePhi]
  · subst sameEnd sameValue
    simp [joinPhi, execute, executePhi, distinct]

theorem mergeValues_grows {merge : BlockId} {entries : List (String × ValueInfo)}
    {elseValues : Environment} (active : Active generator merge)
    (success : mergeValues thenEnd elseEnd elseValues entries generator = .ok () final) :
    Grows {merge} ∅ generator final := by
  induction entries generalizing generator with
  | nil =>
    cases success
    exact .refl _
  | cons entry entries ih =>
    rcases (mergeValues_cons_ok active).mp success with
      ⟨_, success⟩ | ⟨elseValue, _, _, ⟨_, success⟩ | ⟨_, success⟩⟩
    · exact ih active success
    · exact { ih (active.offer _ _) success with }
    · have grows := Grows.appendTo active.isOpen
        (IR.joinPhi generator.nextValueId thenEnd elseEnd entry.2 elseValue)
      exact grows.append { ih ((active.appendTo _).offer _ _) success with }

/-- Executing the phis of the block that joins two branches. -/
theorem mergeValues_carries (operations : Operations Contents) {merge : BlockId}
    {entries : List (String × ValueInfo)} {elseValues : Environment} (distinct : thenEnd ≠ elseEnd)
    (active : Active generator merge)
    (reads : ∀ name thenValue elseValue, (name, thenValue) ∈ entries →
      elseValues.lookup name = some elseValue → ∃ source, takenValues.lookup name = some source ∧
        (ending = thenEnd ∧ source = thenValue ∨ ending = elseEnd ∧ source = elseValue))
    (defined : ∀ {name info}, takenValues.lookup name = some info →
      info.value < bound ∧ ∃ value, atEnd info.value = some value)
    (carries : Carries takenValues atEnd bound generator registers)
    (success : mergeValues thenEnd elseEnd elseValues entries generator = .ok () final)
    (within : Within final blocks) :
    ∃ registers', (machine operations blocks).Leads
        (generator.position merge (some ⟨ending, atEnd⟩) registers)
        (final.position merge (some ⟨ending, atEnd⟩) registers') ∧
      Carries takenValues atEnd bound final registers' := by
  induction entries generalizing generator registers with
  | nil =>
    cases success
    exact ⟨registers, .refl, carries⟩
  | cons entry entries ih =>
    obtain ⟨name, thenValue⟩ := entry
    have later name thenValue elseValue (member : (name, thenValue) ∈ entries) :=
      reads name thenValue elseValue (List.mem_cons_of_mem _ member)
    rcases (mergeValues_cons_ok active).mp success with
      ⟨_, success⟩ | ⟨elseValue, found, _, ⟨same, success⟩ | ⟨_, success⟩⟩
    · exact ih active later carries success
    · obtain ⟨source, taken, chosen⟩ := reads name thenValue elseValue List.mem_cons_self found
      have sameSource : thenValue.value = source.value := by
        rcases chosen with ⟨_, isSource⟩ | ⟨_, isSource⟩
        · rw [isSource]
        · rw [isSource, same]
      have small := (defined taken).1
      rw [← sameSource] at small
      apply ih (active.offer name thenValue) later _ success
      apply carries.offer taken (small.trans_le carries.older)
      rw [← sameSource]
      exact carries.kept _ small
    · obtain ⟨source, taken, chosen⟩ := reads name thenValue elseValue List.mem_cons_self found
      obtain ⟨small, value, held⟩ := defined taken
      have active' := (active.appendTo (joinPhi generator.nextValueId thenEnd elseEnd thenValue
        elseValue)).offer name ⟨generator.nextValueId, thenValue.type⟩
      have executed : execute operations (some ⟨ending, atEnd⟩) registers
          (joinPhi generator.nextValueId thenEnd elseEnd thenValue elseValue) = .ok value := by
        rw [execute_joinPhi distinct chosen, readRegister_some held]
      have offered := within.of_grows (mergeValues_grows active' success)
      have emitted : Within (generator.appendTo merge
          (joinPhi generator.nextValueId thenEnd elseEnd thenValue elseValue)) blocks := offered
      have step := emitted.step active.isOpen executed
      have written := carries.appendTo merge
        (joinPhi generator.nextValueId thenEnd elseEnd thenValue elseValue) value
      have carries' : Carries takenValues atEnd bound ((generator.appendTo merge
          (joinPhi generator.nextValueId thenEnd elseEnd thenValue elseValue)).offer name
            ⟨generator.nextValueId, thenValue.type⟩) _ :=
        written.offer taken (Nat.lt_succ_self _) (by simp [held])
      obtain ⟨registers', leads, carries'⟩ := ih active' later carries' success
      exact ⟨registers', .head step leads, carries'⟩

theorem Carries.represents (carries : Carries takenValues atEnd bound final registers)
    (represents : Represents symbols store takenValues atEnd) :
    Represents symbols store final.values registers where
  defined := by
    intro name info found
    obtain ⟨source, taken, same⟩ := carries.values found
    rw [same]
    exact represents.defined taken
  scalars := by
    intro name type info typed scalar found
    obtain ⟨source, taken, same⟩ := carries.values found
    rw [same]
    exact represents.scalars typed scalar taken

end Carrying

theorem JoinRun.within (run : JoinRun order values thenGenerator elseGenerator final)
    (within : Within final blocks) : Within elseGenerator blocks := by
  cases run with
  | neither _ _ same =>
    subst same
    exact within
  | elseOnly _ _ _ joined same =>
    subst same
    have within : Within (elseGenerator.join _) blocks := within
    exact within.of_grows joined.grows
  | thenOnly _ _ _ joined same =>
    subst same
    have within : Within (elseGenerator.join _) blocks := within
    exact within.of_grows joined.grows
  | both _ _ _ _ joined _ _ merged =>
    have entered := within.of_grows merged.grows
    have within : Within (elseGenerator.join _) blocks := entered
    exact within.of_grows joined.grows

/-- From the end of the branch that was taken, the execution reaches the place
where the generator goes on. -/
theorem JoinRun.follows (run : JoinRun order values thenGenerator elseGenerator final)
    (branched : Branched tested block thenGenerator elseGenerator) (within : Within final blocks)
    (side : taken = thenGenerator ∨ taken = elseGenerator)
    (current : taken.currentBlockId = some ending)
    (framed : elseGenerator.blocks ending = taken.blocks ending)
    (represents : Represents symbols store taken.values registers) :
    ∃ merge registers', final.currentBlockId = some merge ∧
      (machine operations blocks).Leads (taken.position ending previous registers)
        (final.position merge (some ⟨ending, registers⟩) registers') ∧
      Represents symbols store final.values registers' := by
  have samePosition : taken.position ending previous registers =
      elseGenerator.position ending previous registers := by
    simp only [IRGenerator.position, IRGenerator.length, framed]
  have available {name info} (found : taken.values.lookup name = some info) :
      info.value < elseGenerator.nextValueId := by
    rcases side with isThen | isElse
    · subst isThen
      exact branched.built.value_lt ((branched.thenEnd ending current).2.2 found)
    · subst isElse
      exact branched.built.value_lt ((branched.elseEnd ending current).2.2 found)
  rw [samePosition]
  cases run with
  | neither thenCurrent elseCurrent _ =>
    rcases side with isThen | isElse
    · rw [isThen, thenCurrent] at current
      cases current
    · rw [isElse, elseCurrent] at current
      cases current
  | elseOnly elseEnd thenCurrent elseCurrent joined same =>
    subst same
    rcases side with isThen | isElse
    · rw [isThen, thenCurrent] at current
      cases current
    · subst isElse
      cases elseCurrent.symm.trans current
      have isOpen := (branched.elseEnd ending current).2.1
      exact ⟨_, registers, rfl, .one (join_step branched.built (List.nodup_singleton ending)
        List.mem_cons_self isOpen joined within), represents⟩
  | thenOnly thenEnd thenCurrent elseCurrent joined same =>
    subst same
    rcases side with isThen | isElse
    · subst isThen
      cases thenCurrent.symm.trans current
      have isOpen := (branched.thenEnd ending current).2.1
      exact ⟨_, registers, rfl, .one (join_step branched.built (List.nodup_singleton ending)
        List.mem_cons_self isOpen joined within), represents⟩
    · rw [isElse, elseCurrent] at current
      cases current
  | both thenEnd elseEnd thenCurrent elseCurrent joined merging success merged =>
    have distinct : [thenEnd, elseEnd].Nodup := by simpa using merging.distinct
    have entered := within.of_grows merged.grows
    have withinJoin : Within (elseGenerator.join [thenEnd, elseEnd]) blocks := entered
    have ended : ending ∈ [thenEnd, elseEnd] ∧ Open elseGenerator ending := by
      rcases side with isThen | isElse
      · subst isThen
        cases thenCurrent.symm.trans current
        exact ⟨List.mem_cons_self, (branched.thenEnd ending current).2.1⟩
      · subst isElse
        cases elseCurrent.symm.trans current
        exact ⟨by simp, (branched.elseEnd ending current).2.1⟩
    have reads name thenValue elseValue
        (member : (name, thenValue) ∈ order.traverse elseGenerator.nextBlockId thenGenerator.values)
        (found : elseGenerator.values.lookup name = some elseValue) :
        ∃ source, taken.values.lookup name = some source ∧
          (ending = thenEnd ∧ source = thenValue ∨ ending = elseEnd ∧ source = elseValue) := by
      rcases side with isThen | isElse
      · subst isThen
        cases thenCurrent.symm.trans current
        exact ⟨thenValue, order.mem_traverse.mp member, .inl ⟨rfl, rfl⟩⟩
      · subst isElse
        cases elseCurrent.symm.trans current
        exact ⟨elseValue, found, .inr ⟨rfl, rfl⟩⟩
    have start : Carries taken.values registers elseGenerator.nextValueId
        ((elseGenerator.join [thenEnd, elseEnd]).enter (some elseGenerator.nextBlockId) ∅)
        registers :=
      ⟨by simp, fun _ _ => rfl, fun found => by simp at found, fun found => by simp at found⟩
    obtain ⟨registers', leads, carries⟩ := mergeValues_carries operations merging.distinct
      merging.valid.toActive reads (fun found => ⟨available found, represents.defined found⟩) start
      success within
    exact ⟨_, registers', merged.merging.valid.current,
      .head (join_step branched.built distinct ended.1 ended.2 joined withinJoin) leads,
      carries.represents represents⟩

/-- What a branch does, the conditional does. -/
theorem JoinRun.runs {branch : IRGenerator}
    {result : EStateM.Result Fault (State Contents) (Completion Contents)}
    (run : JoinRun order values thenGenerator elseGenerator final)
    (branched : Branched tested block thenGenerator elseGenerator) (within : Within final blocks)
    (side : taken = thenGenerator ∨ taken = elseGenerator)
    (framed : ∀ ending, taken.currentBlockId = some ending →
      elseGenerator.blocks ending = taken.blocks ending)
    (branchRun : Runs operations blocks branch ending previous registers symbols taken result) :
    Runs operations blocks branch ending previous registers symbols final result := by
  cases result with
  | error fault after => exact branchRun
  | ok completion after =>
    cases completion with
    | returned value => exact branchRun
    | continues =>
      obtain ⟨ending, previous', registers', current, leads, represents⟩ := branchRun
      obtain ⟨merge, registers'', current', further, represents'⟩ :=
        run.follows branched within side current (framed ending current) represents
      exact ⟨merge, _, registers'', current', leads.trans further, represents'⟩

theorem Represents.mono {later : SymbolTable}
    (represents : Represents symbols store values registers)
    (known : ∀ {name type}, later.typeOf name = some type → symbols.typeOf name = some type) :
    Represents later store values registers where
  defined := represents.defined
  scalars := fun typed => represents.scalars (known typed)

theorem Runs.mono {later : SymbolTable}
    {result : EStateM.Result Fault (State Contents) (Completion Contents)}
    (run : Runs operations blocks generator block previous registers symbols final result)
    (known : ∀ {name type}, later.typeOf name = some type → symbols.typeOf name = some type) :
    Runs operations blocks generator block previous registers later final result := by
  cases result with
  | error fault after => exact run
  | ok completion after =>
    cases completion with
    | returned value => exact run
    | continues =>
      obtain ⟨block', previous', registers', current, leads, represents⟩ := run
      exact ⟨block', previous', registers', current, leads, represents.mono known⟩

variable {condition : Expression} {thenStatements elseStatements : List Statement}

private theorem blocks_fork {body : BasicBlock} {id : ValueId} (built : generator.WellBuilt)
    (found : generator.blocks block = some body) :
    (generator.fork block id).blocks block =
      some (body.terminate (.condBranch id generator.nextBlockId (generator.nextBlockId + 1))) := by
  have old := built.lt_next found
  apply blocks_terminate_self
  have other : block ≠ (generator.addBlock "if.then").nextBlockId :=
    Nat.ne_of_lt (Nat.lt_succ_of_lt old)
  rw [blocks_addBlock _ (built.addBlock "if.then").sized, if_neg other,
    blocks_addBlock _ built.sized, if_neg (Nat.ne_of_lt old), found]

/-- The step into the branch that the condition asks for. -/
theorem Conditional.step {truth : Bool} (conditional : Conditional order declared condition
      thenStatements elseStatements generator block info tested thenGenerator elseGenerator final)
    (within : Within (thenGenerator.enterElse tested) blocks)
    (held : registers info.value = some (.i1 truth)) :
    (machine operations blocks).step (tested.position block previous registers) =
      .inl (if truth then
          (tested.enterThen block info.value).position tested.nextBlockId
            (some ⟨block, registers⟩) registers
        else (thenGenerator.enterElse tested).position (tested.nextBlockId + 1)
          (some ⟨block, registers⟩) registers) := by
  obtain ⟨body, found, _⟩ := conditional.computed.valid.isOpen
  have entered : Within thenGenerator blocks := within
  have started := entered.of_grows conditional.thenBranch.grows
  have forked : Within (tested.fork block info.value) blocks := started
  have elseUntouched := conditional.thenBranch.grows.untouched (by simp)
    conditional.fork.elseUntouched (by simp)
  rw [forked.transfer found (blocks_fork conditional.computed.valid.built found)]
  simp only [transfer, IRGenerator.position, readRegister_some held]
  cases truth with
  | true =>
    have length : (tested.enterThen block info.value).length tested.nextBlockId = 0 :=
      conditional.fork.thenUntouched.length
    rw [if_pos rfl, length]
    rfl
  | false =>
    have length : (thenGenerator.enterElse tested).length (tested.nextBlockId + 1) = 0 :=
      elseUntouched.length
    rw [if_neg Bool.false_ne_true, length]
    rfl

/-- Generating the else-branch does not touch the end of the then-branch. -/
theorem Conditional.framed (conditional : Conditional order declared condition thenStatements
      elseStatements generator block info tested thenGenerator elseGenerator final)
        (ending : BlockId)
    (current : thenGenerator.currentBlockId = some ending) :
    elseGenerator.blocks ending = thenGenerator.blocks ending := by
  have old := (conditional.thenBranch.settled.valid ending current).lt_next
  have other : ending ≠ tested.nextBlockId + 1 := by
    rcases conditional.thenBranch.moved ending current with here | new
    · exact here ▸ Nat.ne_of_lt (Nat.lt_succ_self _)
    · simp only [enter_nextBlockId, fork_nextBlockId] at new
      exact Nat.ne_of_gt new
  exact conditional.elseBranch.grows.frame ending old other

variable {statement : Statement} {statements : List Statement}

private theorem generateBranch_runs_of
    (each : ∀ statement ∈ statements,
      ∀ {generator final block previous registers state analyzer analyzer'},
      Valid generator block → Agrees False analyzer.symbols generator.values →
      Faithful False declared (declarationsOf statement) →
      StoreTyped analyzer.symbols state.store →
      Represents analyzer.symbols state.store generator.values registers →
      analyzeStatement analysisOrder statement analyzer = .ok () analyzer' →
      generateStatement order declared statement generator = .ok () final →
      Within final blocks →
      Runs operations blocks generator block previous registers analyzer'.symbols final
        (evaluateStatement operations.always statement state))
    (valid : Valid generator block) (agrees : Agrees False analyzer.symbols generator.values)
    (faithful : Faithful False declared (declarationsIn statements))
    (stored : StoreTyped analyzer.symbols state.store)
    (represents : Represents analyzer.symbols state.store generator.values registers)
    (analyzed : analyzeStatements analysisOrder statements analyzer = .ok () analyzer')
    (success : generateBranch order declared statements generator = .ok () final)
    (within : Within final blocks) :
    Runs operations blocks generator block previous registers analyzer'.symbols final
      (evaluateStatements operations.always statements state) := by
  induction statements generalizing generator block previous registers state analyzer with
  | nil =>
    cases analyzed
    cases success
    exact ⟨block, previous, registers, valid.current, .refl, represents⟩
  | cons statement statements ih =>
    obtain ⟨between, firstAnalyzed, restAnalyzed⟩ := analyzeStatements_cons_ok.mp analyzed
    rw [generateBranch_cons valid.current] at success
    obtain ⟨middle, first, rest⟩ := then_ok.mp success
    have advanced := generateStatement_valid valid first
    have faithfulHere : Faithful False declared (declarationsOf statement) :=
      fun declaration member => faithful declaration (List.mem_append_left _ member)
    have faithfulRest : Faithful False declared (declarationsIn statements) :=
      fun declaration member => faithful declaration (List.mem_append_right _ member)
    have sound : Sound _ (evaluateStatement operations.always _ _) :=
      evaluateStatement_sound stored firstAnalyzed
    have withinMiddle : Within middle blocks := by
      cases current : middle.currentBlockId with
      | none =>
        rw [generateBranch_stopped current] at rest
        cases rest
        exact within
      | some next =>
        exact within.of_grows
          (generateBranch_valid (advanced.settled.valid next current) rest).grows
    have run : Runs operations blocks generator block previous registers between.symbols middle
        (evaluateStatement operations.always statement state) :=
      each statement List.mem_cons_self valid agrees faithfulHere stored represents firstAnalyzed
        first withinMiddle
    rw [evaluateStatements]
    cases evaluated : evaluateStatement operations.always statement state with
    | error fault after =>
      rw [evaluated] at run
      rw [bind_of_error evaluated]
      exact run
    | ok completion after =>
      rw [evaluated] at run sound
      rw [bind_of_ok evaluated]
      cases completion with
      | returned value => exact run
      | continues =>
        obtain ⟨next, previous', registers', current, leads, represents'⟩ := run
        have agreesNext := generateStatement_agrees valid agrees faithfulHere firstAnalyzed first
          (by simp [current])
        exact .prepend leads (ih (fun other member => each other (List.mem_cons_of_mem _ member))
          (advanced.settled.valid next current) agreesNext faithfulRest sound represents'
          restAnalyzed rest)

/-- Executing what a statement became does what the statement does. -/
theorem generateStatement_runs (valid : Valid generator block)
    (agrees : Agrees False analyzer.symbols generator.values)
    (faithful : Faithful False declared (declarationsOf statement))
    (stored : StoreTyped analyzer.symbols state.store)
    (represents : Represents analyzer.symbols state.store generator.values registers)
    (analyzed : analyzeStatement analysisOrder statement analyzer = .ok () analyzer')
    (success : generateStatement order declared statement generator = .ok () final)
    (within : Within final blocks) :
    Runs operations blocks generator block previous registers analyzer'.symbols final
      (evaluateStatement operations.always statement state) := by
  induction statement generalizing generator final block previous registers state analyzer
    analyzer' with
  | tensorDecl declaration =>
    rw [analyzeStatement] at analyzed
    rw [generateStatement] at success
    exact generateTensorDeclaration_runs valid faithful represents analyzed success within
  | assignment assignment =>
    rw [analyzeStatement] at analyzed
    rw [generateStatement] at success
    exact generateAssignment_runs valid agrees stored represents analyzed success within
  | returnStmt returnStatement =>
    rw [analyzeStatement] at analyzed
    rw [generateStatement] at success
    exact generateReturn_runs valid agrees stored represents analyzed success within
  | ifStmt condition thenStatements elseStatements location thenIH elseIH =>
    obtain ⟨thenAnalyzer, elseAnalyzer, typed, thenAnalyzed, elseAnalyzed, merged⟩ :=
      analyzeStatement_if_ok.mp analyzed
    obtain ⟨info, tested, thenGenerator, elseGenerator, conditional⟩ :=
      generateStatement_conditional valid success
    have withinElse := conditional.joined.within within
    have entered := withinElse.of_grows conditional.elseBranch.grows
    have withinThen : Within thenGenerator blocks := entered
    have started := withinThen.of_grows conditional.thenBranch.grows
    have withinFork : Within (tested.fork block info.value) blocks := started
    have withinTested := withinFork.of_grows conditional.fork.grows
    rw [evaluateStatement]
    apply Runs.first (generateExpression_computes valid agrees stored represents typed
      conditional.first
      withinTested)
    intro value after registers' computed evaluated preserves held same
    obtain ⟨valueTyped, sameStore⟩ := (evaluateExpression_sound stored typed).store evaluated
    obtain ⟨truth, isTruth⟩ := Value.type_eq_i1.mp valueTyped
    rw [same rfl, isTruth] at held
    subst isTruth
    have stored' : StoreTyped analyzer.symbols after.tick.store := sameStore ▸ stored
    have agrees' : Agrees False analyzer.symbols tested.values :=
      conditional.computed.values ▸ agrees
    have represents' := represents.preserved valid preserves
    rw [← conditional.computed.values, ← sameStore] at represents'
    have faithfulThen : Faithful False declared (declarationsIn thenStatements) :=
      fun declaration member => faithful declaration (List.mem_append_left _ member)
    have faithfulElse : Faithful False declared (declarationsIn elseStatements) :=
      fun declaration member => faithful declaration (List.mem_append_right _ member)
    rw [bind_of_ok (chooseBranch_i1 after truth)]
    have step : (machine operations blocks).step (tested.position block previous registers') = _ :=
      conditional.step entered held
    cases truth with
    | true =>
      have branchRun : Runs operations blocks (tested.enterThen block info.value) tested.nextBlockId
          (some ⟨block, registers'⟩) registers' thenAnalyzer.symbols thenGenerator _ :=
        generateBranch_runs_of thenIH conditional.thenValid agrees' faithfulThen stored' represents'
          thenAnalyzed conditional.thenRun withinThen
      have branchRun := branchRun.mono fun known =>
        (analyzeStatement_if_branches thenAnalyzed elseAnalyzed merged known).1
      exact .prepend (.one step) (conditional.joined.runs conditional.branched within (.inl rfl)
        conditional.framed branchRun)
    | false =>
      have branchRun :
          Runs operations blocks (thenGenerator.enterElse tested) (tested.nextBlockId + 1)
          (some ⟨block, registers'⟩) registers' elseAnalyzer.symbols elseGenerator _ :=
        generateBranch_runs_of elseIH conditional.elseValid (by exact agrees') faithfulElse
          (by exact stored') (by exact represents') elseAnalyzed conditional.elseRun withinElse
      have branchRun := branchRun.mono fun known =>
        (analyzeStatement_if_branches thenAnalyzed elseAnalyzed merged known).2
      exact .prepend (.one step) (conditional.joined.runs conditional.branched within (.inr rfl)
        (fun _ _ => rfl) branchRun)
  | nullIf =>
    rw [generateStatement] at success
    cases success

private theorem generateBranch_runs (valid : Valid generator block)
    (agrees : Agrees False analyzer.symbols generator.values)
    (faithful : Faithful False declared (declarationsIn statements))
    (stored : StoreTyped analyzer.symbols state.store)
    (represents : Represents analyzer.symbols state.store generator.values registers)
    (analyzed : analyzeStatements analysisOrder statements analyzer = .ok () analyzer')
    (success : generateBranch order declared statements generator = .ok () final)
    (within : Within final blocks) :
    Runs operations blocks generator block previous registers analyzer'.symbols final
      (evaluateStatements operations.always statements state) :=
  generateBranch_runs_of (fun _ _ => generateStatement_runs) valid agrees faithful stored represents
    analyzed success within

/-- Statements that are accepted at top level are generated as those of a branch are. -/
theorem generateTopLevel_branch (valid : Valid generator block)
    (success : generateTopLevel order declared statements generator = .ok () final) :
    generateBranch order declared statements generator = .ok () final := by
  induction statements generalizing generator block with
  | nil => exact success
  | cons statement statements ih =>
    rw [generateTopLevel_cons valid.current] at success
    rw [generateBranch_cons valid.current]
    obtain ⟨middle, first, rest⟩ := then_ok.mp success
    apply then_ok.mpr ⟨middle, first, _⟩
    cases current : middle.currentBlockId with
    | some next => exact ih ((generateStatement_valid valid first).settled.valid next current) rest
    | none =>
      cases statements with
      | nil => exact rest
      | cons next statements =>
        rw [generateTopLevel_stopped current] at rest
        cases rest

variable {program : Program} {module : Module} {accepted : SemanticAnalyzer}

/-- The program and its module return the same value, or both are stuck in a
division without a quotient. -/
def SameOutcome (operations : Operations Contents) (program : Program) (module : Module) : Prop :=
  (∃ value, Returns operations.always program value ∧ module.Executes operations (.ok value)) ∨
    Fails operations.always program .undefinedDivision ∧
      module.Executes operations (.error .undefinedDivision)

theorem generate_sameOutcome (analyzed : analyze analysisOrder program = .ok accepted)
    (scalarsKept : ∀ declaration ∈ declarationsIn program.statements,
      declaration.type.shape = [] →
        accepted.symbols.typeOf declaration.name = some declaration.type)
    (generated : generate order accepted program = .ok module) :
    SameOutcome operations program module := by
  obtain ⟨final, success, _, isModule⟩ := generate_ok.mp generated
  obtain ⟨built, stopped, _⟩ := generateUnverified_valid success
  obtain ⟨run, _⟩ := generateUnverified_ok.mp success
  subst isModule
  have faithful : Faithful False accepted.symbols (declarationsIn program.statements) :=
    fun declaration member exact => scalarsKept declaration member (exact.resolve_right id)
  have stored : StoreTyped ({} : SemanticAnalyzer).symbols ({} : State Contents).store :=
    fun name type known => by simp at known
  have represents : Represents ({} : SemanticAnalyzer).symbols ({} : State Contents).store
      started.values (fun _ => none) :=
    ⟨fun found => by simp [started] at found, fun known => by simp at known⟩
  have runs : Runs operations final.module.block started 0 none (fun _ => none)
      accepted.symbols final (evaluate operations.always program) :=
    generateBranch_runs .started (fun name type known => by simp at known) faithful
      stored represents
      (analyze_ok.mp analyzed) (generateTopLevel_branch .started run)
      (by rw [built.block_eq]; exact .refl final)
  have start : started.position 0 none (fun _ => none) =
      (Config.initial final.module.entry : Config Contents) := by
    rw [built.entry]
    rfl
  unfold SameOutcome Module.Executes
  rw [← start]
  cases evaluated : evaluate operations.always program with
  | error fault after =>
    have sound : Sound accepted.symbols (evaluate operations.always program) :=
      evaluateStatements_sound stored (analyze_ok.mp analyzed)
    rw [evaluated] at runs sound
    exact .inr ⟨⟨after, sound ▸ evaluated⟩, runs⟩
  | ok completion after =>
    rw [evaluated] at runs
    cases completion with
    | returned value => exact .inl ⟨value, ⟨after, evaluated⟩, runs⟩
    | continues =>
      obtain ⟨_, _, _, current, _⟩ := runs
      rw [stopped] at current
      cases current

/-- A module has one outcome, and so has its program. -/
theorem SameOutcome.executes_ok (same : SameOutcome operations program module) :
    module.Executes operations (.ok value) ↔ Returns operations.always program value := by
  rcases same with ⟨other, ⟨after, returns⟩, executes⟩ | ⟨⟨after, fails⟩, executes⟩
  · constructor
    · intro executes'
      cases executes.unique executes'
      exact ⟨after, returns⟩
    · intro ⟨_, returns'⟩
      cases returns.symm.trans returns'
      exact executes
  · constructor
    · intro executes'
      cases executes.unique executes'
    · intro ⟨_, returns'⟩
      cases fails.symm.trans returns'

theorem SameOutcome.executes_error (same : SameOutcome operations program module) :
    module.Executes operations (.error .undefinedDivision) ↔
      Fails operations.always program .undefinedDivision := by
  rcases same with ⟨other, ⟨after, returns⟩, executes⟩ | ⟨⟨after, fails⟩, executes⟩
  · constructor
    · intro executes'
      cases executes.unique executes'
    · intro ⟨_, fails'⟩
      cases returns.symm.trans fails'
  · exact ⟨fun _ => ⟨after, fails⟩, fun _ => executes⟩

/-- A module returns what its program returns and is stuck in a division where
its program is, provided the analyser's final table gives the tensors declared
without dimensions the types they declare. -/
theorem generate_preserves (analyzed : analyze analysisOrder program = .ok accepted)
    (scalarsKept : ∀ declaration ∈ declarationsIn program.statements,
      declaration.type.shape = [] →
        accepted.symbols.typeOf declaration.name = some declaration.type)
    (generated : generate order accepted program = .ok module) (operations : Operations Contents) :
    SameOutcome operations program module ∧
      (∀ value, module.Executes operations (.ok value) ↔ Returns operations.always program value) ∧
      (module.Executes operations (.error .undefinedDivision) ↔
        Fails operations.always program .undefinedDivision) := by
  have same : SameOutcome operations program module :=
    generate_sameOutcome analyzed scalarsKept generated
  exact ⟨same, fun _ => same.executes_ok, same.executes_error⟩

theorem generate_preserves_declaredScalar : ∃ accepted module,
    analyze .stored declaredScalar = .ok accepted ∧
      generate .stored accepted declaredScalar = .ok module ∧
      SameOutcome (Operations.fixed : Operations Unit) declaredScalar module := by
  obtain ⟨accepted, module, analyzed, generated⟩ :
      ∃ accepted module, analyze .stored declaredScalar = .ok accepted ∧
        generate .stored accepted declaredScalar = .ok module :=
    exists_of_compile (by decide +kernel)
  obtain ⟨same, _⟩ := generate_preserves analyzed (declaredScalar_kept analyzed) generated
    (Operations.fixed : Operations Unit)
  exact ⟨accepted, module, analyzed, generated, same⟩

/-- Two numbers are compared as `f64` in the program, and as `i64` in its
module: the name of both is declared again with that type. -/
def redeclaredOperand : Program where
  statements := [
    .ifStmt (.binary .equal (.integer 1 {}) (.integer 1 {}) {})
      [.tensorDecl ⟨"A", .scalar "f64", {}⟩,
        .ifStmt (.binary .equal (.identifier "A" {}) (.identifier "A" {}) {})
          [.returnStmt ⟨.integer 1 {}, {}⟩] [.returnStmt ⟨.integer 2 {}, {}⟩] {}]
      [.assignment ⟨"Z", .integer 1 {}, {}⟩] {},
    .tensorDecl ⟨"A", .scalar "i64", {}⟩,
    .returnStmt ⟨.integer 0 {}, {}⟩]

theorem redeclaredOperand_not_preserved : ∃ accepted module,
    analyze .stored redeclaredOperand = .ok accepted ∧
      generate .stored accepted redeclaredOperand = .ok module ∧
      Returns (Operations.fixed : Operations Unit).always redeclaredOperand (.i64 2) ∧
      module.Executes (Operations.fixed : Operations Unit) (.ok (.i64 1)) := by
  have returned : returnedValue (Operations.fixed : Operations Unit).always redeclaredOperand =
      some (.i64 2) := by decide +kernel
  have computed : (analyze .stored redeclaredOperand).toOption.any (fun accepted =>
      (generate .stored accepted redeclaredOperand).toOption.any fun module =>
        decide ((machine (Operations.fixed : Operations Unit) module.block).run 30
          (.initial module.entry) = some (.ok (.i64 1)))) = true := by decide +kernel
  obtain ⟨accepted, analyzed, computed⟩ := (Option.any_eq_true _ _).mp computed
  obtain ⟨module, generated, result⟩ := (Option.any_eq_true _ _).mp computed
  exact ⟨accepted, module, toOption_eq_some.mp analyzed, toOption_eq_some.mp generated,
    returnedValue_eq_some.mp returned, .of_run (of_decide_eq_true result)⟩

end Ocelotl.IR
