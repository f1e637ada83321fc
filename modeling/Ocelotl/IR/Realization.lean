import Ocelotl.Semantic.TypeSystem

/-! Which programs the phases after the analyser can build, by rules that know
nothing of blocks, operations or phis. Tensors can be declared and passed on, but
two paths that meet must not bring different tensors under one name. -/

namespace Ocelotl.IR

open Ast Semantic

/-- What a name stands for where a path gets to: a number of this type, or the
tensor that was declared after so many others. -/
inductive Binding where
  | scalar (type : TensorType)
  | tensor (index : Nat)
  deriving DecidableEq, Repr

abbrev Bindings := String → Option Binding

namespace Bindings

/-- Nothing stands for two things. -/
def Agree (first second : Bindings) : Prop :=
  ∀ name binding binding', first name = some binding → second name = some binding' →
    binding = binding'

/-- The names that both know. -/
def meet (first second : Bindings) : Bindings :=
  fun name => if first name = second name then first name else none

theorem Agree.meet_eq_some {first second : Bindings} (agree : first.Agree second) {name : String}
    {binding : Binding} :
    first.meet second name = some binding ↔ first name = some binding ∧ ∃ binding',
      second name = some binding' := by
  unfold meet
  constructor
  · intro known
    split at known
    · rename_i same
      exact ⟨known, binding, same.symm.trans known⟩
    · cases known
  · rintro ⟨known, binding', known'⟩
    rw [if_pos, known]
    rw [known, known', agree name binding binding' known known']

end Bindings

/-- What is known where the two branches of a conditional meet. No path leaves a
branch that has nothing. -/
inductive Joins : Option Bindings → Option Bindings → Option Bindings → Prop where
  | neither : Joins none none none
  | thenOnly (bindings : Bindings) : Joins (some bindings) none (some bindings)
  | elseOnly (bindings : Bindings) : Joins none (some bindings) (some bindings)
  | both {first second : Bindings} (agree : first.Agree second) :
    Joins (some first) (some second) (some (first.meet second))

/-- The expression can be computed, without a call, and stands for this. -/
inductive Denotes (bindings : Bindings) : Expression → Binding → Prop where
  | identifier {name : String} {location : SourceLocation} {binding : Binding}
    (known : bindings name = some binding) :
    Denotes bindings (.identifier name location) binding
  | integer {value : BitVec 64} {location : SourceLocation} :
    Denotes bindings (.integer value location) (.scalar (.scalar "i64"))
  | float {value : Double} {location : SourceLocation} :
    Denotes bindings (.float value location) (.scalar (.scalar "f64"))
  | binary {op : BinaryOperator} {lhs rhs : Expression} {location : SourceLocation}
    {operand : TensorType}
    (left : Denotes bindings lhs (.scalar operand))
    (right : Denotes bindings rhs (.scalar operand)) :
    Denotes bindings (.binary op lhs rhs location) (.scalar (binaryType op operand))

section Statements

-- The types that storage can be allocated for, and the final table of the analyser.
variable (sized : TensorType → Prop) (declared : Context)

mutual

/-- The statement can be built where so many tensors were declared. It ends with
this number of them, and with these bindings if a path leaves it. -/
inductive Realizes : Nat → Bindings → Statement → Nat → Option Bindings → Prop where
  | tensorDecl {count : Nat} {bindings : Bindings} {declaration : TensorDecl} {type : TensorType}
    (new : bindings declaration.name = none) (known : declared declaration.name = some type)
    (storage : sized type) :
    Realizes count bindings (.tensorDecl declaration) (count + 1)
      (some (Function.update bindings declaration.name (some (.tensor count))))
  | assignment {count : Nat} {bindings : Bindings} {assignment : Assignment} {binding : Binding}
    (denotes : Denotes bindings assignment.value binding) :
    Realizes count bindings (.assignment assignment) count
      (some (Function.update bindings assignment.target (some binding)))
  | returnStmt {count : Nat} {bindings : Bindings} {returnStatement : ReturnStmt}
    {binding : Binding}
    (denotes : Denotes bindings returnStatement.value binding) :
    Realizes count bindings (.returnStmt returnStatement) count none
  | ifStmt {count middle final : Nat} {bindings : Bindings}
    {thenAfter elseAfter after : Option Bindings} {condition : Expression}
    {thenStatements elseStatements : List Statement}
    {location : SourceLocation}
    (denotes : Denotes bindings condition (.scalar (.scalar "i1")))
    (thenRealized : RealizesBranch count (some bindings) thenStatements middle thenAfter)
    (elseRealized : RealizesBranch middle (some bindings) elseStatements final elseAfter)
    (joins : Joins thenAfter elseAfter after) :
    Realizes count bindings (.ifStmt condition thenStatements elseStatements location) final after

/-- The statements of a branch. What no path gets to is not built. -/
inductive RealizesBranch :
    Nat → Option Bindings → List Statement → Nat → Option Bindings → Prop where
  | nil {count : Nat} {bindings : Bindings} :
    RealizesBranch count (some bindings) [] count (some bindings)
  | dead {count : Nat} {statements : List Statement} :
    RealizesBranch count none statements count none
  | cons {count middle final : Nat} {bindings : Bindings} {next after : Option Bindings}
    {statement : Statement} {statements : List Statement}
    (first : Realizes count bindings statement middle next)
    (rest : RealizesBranch middle next statements final after) :
    RealizesBranch count (some bindings) (statement :: statements) final after

end

/-- The statements of a program. A path gets to every one of them, and none to their end. -/
inductive RealizesAll : Nat → Bindings → List Statement → Prop where
  | last {count final : Nat} {bindings : Bindings} {statement : Statement}
    (ends : Realizes sized declared count bindings statement final none) :
      RealizesAll count bindings [statement]
  | cons {count middle : Nat} {bindings next : Bindings} {statement : Statement}
    {statements : List Statement}
    (first : Realizes sized declared count bindings statement middle (some next))
    (rest : RealizesAll middle next statements) :
      RealizesAll count bindings (statement :: statements)

def RealizesProgram (program : Program) : Prop :=
  RealizesAll sized declared 0 (fun _ => none) program.statements

end Statements

end Ocelotl.IR
