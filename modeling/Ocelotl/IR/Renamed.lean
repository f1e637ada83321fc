import Ocelotl.IR.Module
import Ocelotl.Library.Renaming
import Mathlib.Data.List.Forall2

namespace Ocelotl.IR

open Library

variable {ids ids' : Renaming} {operation operation' : Operation}
  {operations operations' : List Operation} {terminator terminator' : Terminator}
  {block block' : BasicBlock}

def PhiIncoming.rename (rename : ValueId → ValueId) (incoming : PhiIncoming) : PhiIncoming :=
  ⟨incoming.predecessor, rename incoming.value⟩

def Operation.rename (rename : ValueId → ValueId) : Operation → Operation
  | .tensorDecl result name type => .tensorDecl (rename result) name type
  | .constantInt result value type => .constantInt (rename result) value type
  | .constantFloat result value type => .constantFloat (rename result) value type
  | .binary result kind lhs rhs type => .binary (rename result) kind (rename lhs) (rename rhs) type
  | .compare result kind lhs rhs type =>
    .compare (rename result) kind (rename lhs) (rename rhs) type
  | .phi result type incoming =>
    .phi (rename result) type (incoming.map (PhiIncoming.rename rename))
  | .matMul result lhs rhs type => .matMul (rename result) (rename lhs) (rename rhs) type
  | .relu result input type => .relu (rename result) (rename input) type

def Terminator.rename (rename : ValueId → ValueId) : Terminator → Terminator
  | .branch target => .branch target
  | .condBranch condition trueTarget falseTarget =>
    .condBranch (rename condition) trueTarget falseTarget
  | .returnOp value => .returnOp (rename value)

/-- The same block with other ids, and with its phis in any order. -/
structure BasicBlock.Renamed (rename : ValueId → ValueId) (block block' : BasicBlock) : Prop where
  id : block'.id = block.id
  name : block'.name = block.name
  terminator : block'.terminator = block.terminator.map (Terminator.rename rename)
  operations : ∃ phis phis' rest, block.operations = phis ++ rest ∧
    block'.operations = phis' ++ rest.map (Operation.rename rename) ∧
    phis'.Perm (phis.map (Operation.rename rename)) ∧
    (∀ operation ∈ phis, operation.isPhi = true) ∧ ∀ operation ∈ rest, operation.isPhi = false

/-- The same blocks in the same order, with other ids. -/
structure Module.Renamed (rename : ValueId → ValueId) (module module' : Module) : Prop where
  bijective : Function.Bijective rename
  entry : module'.entry = module.entry
  blocks : List.Forall₂ (BasicBlock.Renamed rename) module.blocks module'.blocks

inductive OperationSent (ids : Renaming) : Operation → Operation → Prop where
  | tensorDecl {result result' : ValueId} {name : String} {type : TensorType}
    (sends : ids.Sends result result') :
    OperationSent ids (.tensorDecl result name type) (.tensorDecl result' name type)
  | constantInt {result result' : ValueId} {value : BitVec 64} {type : TensorType}
    (sends : ids.Sends result result') :
    OperationSent ids (.constantInt result value type) (.constantInt result' value type)
  | constantFloat {result result' : ValueId} {value : Double} {type : TensorType}
    (sends : ids.Sends result result') :
    OperationSent ids (.constantFloat result value type) (.constantFloat result' value type)
  | binary {result result' lhs lhs' rhs rhs' : ValueId} {kind : BinaryKind} {type : TensorType}
    (sends : ids.Sends result result') (left : ids.Sends lhs lhs') (right : ids.Sends rhs rhs') :
    OperationSent ids (.binary result kind lhs rhs type) (.binary result' kind lhs' rhs' type)
  | compare {result result' lhs lhs' rhs rhs' : ValueId} {kind : CompareKind} {type : TensorType}
    (sends : ids.Sends result result') (left : ids.Sends lhs lhs') (right : ids.Sends rhs rhs') :
    OperationSent ids (.compare result kind lhs rhs type) (.compare result' kind lhs' rhs' type)
  | phi {result result' : ValueId} {type : TensorType} {incoming incoming' : List PhiIncoming}
    (sends : ids.Sends result result')
    (sources : List.Forall₂ (fun source source' => source'.predecessor = source.predecessor ∧
      ids.Sends source.value source'.value) incoming incoming') :
    OperationSent ids (.phi result type incoming) (.phi result' type incoming')
  | matMul {result result' lhs lhs' rhs rhs' : ValueId} {type : TensorType}
    (sends : ids.Sends result result') (left : ids.Sends lhs lhs') (right : ids.Sends rhs rhs') :
    OperationSent ids (.matMul result lhs rhs type) (.matMul result' lhs' rhs' type)
  | relu {result result' input input' : ValueId} {type : TensorType}
    (sends : ids.Sends result result') (argument : ids.Sends input input') :
    OperationSent ids (.relu result input type) (.relu result' input' type)

inductive TerminatorSent (ids : Renaming) : Terminator → Terminator → Prop where
  | branch {target : BlockId} : TerminatorSent ids (.branch target) (.branch target)
  | condBranch {condition condition' : ValueId} {trueTarget falseTarget : BlockId}
    (sends : ids.Sends condition condition') :
    TerminatorSent ids (.condBranch condition trueTarget falseTarget)
      (.condBranch condition' trueTarget falseTarget)
  | returnOp {value value' : ValueId} (sends : ids.Sends value value') :
    TerminatorSent ids (.returnOp value) (.returnOp value')

/-- The phis come first, and in any order. -/
inductive OperationsSent (ids : Renaming) : List Operation → List Operation → Prop where
  | intro {phis sent phis' rest rest' : List Operation}
    (isPhi : ∀ operation ∈ phis, operation.isPhi = true)
    (phisSent : List.Forall₂ (OperationSent ids) phis sent) (shuffled : sent.Perm phis')
    (ordinary : ∀ operation ∈ rest, operation.isPhi = false)
    (restSent : List.Forall₂ (OperationSent ids) rest rest') :
    OperationsSent ids (phis ++ rest) (phis' ++ rest')

structure BlockSent (ids : Renaming) (block block' : BasicBlock) : Prop where
  id : block'.id = block.id
  name : block'.name = block.name
  terminator : Option.Rel (TerminatorSent ids) block.terminator block'.terminator
  operations : OperationsSent ids block.operations block'.operations

theorem OperationSent.mono (sent : OperationSent ids operation operation')
    (longer : ids.Extends ids') :
    OperationSent ids' operation operation' := by
  cases sent with
  | tensorDecl sends => exact .tensorDecl (sends.mono longer)
  | constantInt sends => exact .constantInt (sends.mono longer)
  | constantFloat sends => exact .constantFloat (sends.mono longer)
  | binary sends left right =>
    exact .binary (sends.mono longer) (left.mono longer) (right.mono longer)
  | compare sends left right =>
    exact .compare (sends.mono longer) (left.mono longer) (right.mono longer)
  | phi sends sources =>
    exact .phi (sends.mono longer) (sources.imp fun _ _ source => source.imp_right (·.mono longer))
  | matMul sends left right =>
    exact .matMul (sends.mono longer) (left.mono longer) (right.mono longer)
  | relu sends argument => exact .relu (sends.mono longer) (argument.mono longer)

theorem TerminatorSent.mono (sent : TerminatorSent ids terminator terminator')
    (longer : ids.Extends ids') :
    TerminatorSent ids' terminator terminator' := by
  cases sent with
  | branch => exact .branch
  | condBranch sends => exact .condBranch (sends.mono longer)
  | returnOp sends => exact .returnOp (sends.mono longer)

theorem OperationsSent.mono (sent : OperationsSent ids operations operations')
    (longer : ids.Extends ids') :
    OperationsSent ids' operations operations' := by
  cases sent with
  | intro isPhi phisSent shuffled ordinary restSent =>
    exact .intro isPhi (phisSent.imp fun _ _ sent => sent.mono longer) shuffled ordinary
      (restSent.imp fun _ _ sent => sent.mono longer)

/-- Both blocks end in such terminators, or neither ends yet. -/
abbrev EndSent (ids : Renaming) : Option Terminator → Option Terminator → Prop :=
  Option.Rel (TerminatorSent ids)

theorem EndSent.mono {last last' : Option Terminator} (sent : EndSent ids last last')
    (longer : ids.Extends ids') :
    EndSent ids' last last' := by
  cases sent with
  | some same => exact .some (same.mono longer)
  | none => exact .none

theorem BlockSent.mono (sent : BlockSent ids block block') (longer : ids.Extends ids') :
    BlockSent ids' block block' where
  id := sent.id
  name := sent.name
  terminator := EndSent.mono sent.terminator longer
  operations := sent.operations.mono longer

theorem OperationSent.result (sent : OperationSent ids operation operation') :
    ids.Sends (resultOf operation) (resultOf operation') := by
  cases sent <;> assumption

theorem OperationSent.type (sent : OperationSent ids operation operation') :
    typeOf operation' = typeOf operation := by
  cases sent <;> rfl

theorem OperationSent.rename (sent : OperationSent ids operation operation') :
    operation' = operation.rename ids.apply := by
  cases sent with
  | tensorDecl sends | constantInt sends | constantFloat sends =>
    rw [Operation.rename, sends.apply_eq]
  | binary sends left right | compare sends left right | matMul sends left right =>
    rw [Operation.rename, sends.apply_eq, left.apply_eq, right.apply_eq]
  | @phi _ _ _ incoming incoming' sends sources =>
    have same : incoming' = incoming.map (PhiIncoming.rename ids.apply) := by
      refine (List.forall₂_eq_eq_eq ▸ List.forall₂_map_left_iff.mpr ?_ : _ = _).symm
      refine sources.imp fun source source' related => ?_
      obtain ⟨predecessor, sends⟩ := related
      rw [PhiIncoming.rename, sends.apply_eq, ← predecessor]
    rw [Operation.rename, sends.apply_eq, same]
  | relu sends argument => rw [Operation.rename, sends.apply_eq, argument.apply_eq]

theorem TerminatorSent.rename (sent : TerminatorSent ids terminator terminator') :
    terminator' = terminator.rename ids.apply := by
  cases sent with
  | branch => rfl
  | condBranch sends | returnOp sends => rw [Terminator.rename, sends.apply_eq]

private theorem map_rename_of_sent (sent : List.Forall₂ (OperationSent ids) operations operations') :
    operations' = operations.map (Operation.rename ids.apply) := by
  induction sent with
  | nil => rfl
  | cons here _ ih => rw [List.map_cons, ← here.rename, ih]

theorem OperationsSent.renamed (sent : OperationsSent ids operations operations') :
    ∃ phis phis' rest, operations = phis ++ rest ∧
      operations' = phis' ++ rest.map (Operation.rename ids.apply) ∧
      phis'.Perm (phis.map (Operation.rename ids.apply)) ∧
      (∀ operation ∈ phis, operation.isPhi = true) ∧
        ∀ operation ∈ rest, operation.isPhi = false := by
  cases sent with
  | intro isPhi phisSent shuffled ordinary restSent =>
    exact ⟨_, _, _, rfl, map_rename_of_sent restSent ▸ rfl,
      map_rename_of_sent phisSent ▸ shuffled.symm,
      isPhi, ordinary⟩

theorem EndSent.renamed {last last' : Option Terminator} (sent : EndSent ids last last') :
    last' = last.map (Terminator.rename ids.apply) := by
  cases sent with
  | some same => rw [Option.map_some, same.rename]
  | none => rfl

theorem BlockSent.renamed (sent : BlockSent ids block block') : block.Renamed ids.apply block' where
  id := sent.id
  name := sent.name
  terminator := EndSent.renamed sent.terminator
  operations := sent.operations.renamed

end Ocelotl.IR
