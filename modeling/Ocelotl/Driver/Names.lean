import Ocelotl.Driver.Language
import Ocelotl.Driver.Layout
import Ocelotl.Evaluation.Renaming

/-! Names have no meaning: programs that differ in the names of their tensors and
numbers are compiled both or neither, and their executables do the same. -/

namespace Ocelotl.Semantic

open Ast

variable {map : NameMap} {Entry Entry' : Type} {onEntry : Entry → Entry'}
  {table : String → Option Entry} {name : String}

/-- The entries of a table, under the new names. -/
def renameTable (map : NameMap) (onEntry : Entry → Entry') (table : String → Option Entry) :
    String → Option Entry' :=
  fun name => (table (map.symm name)).map onEntry

private theorem renameTable_apply :
    renameTable map onEntry table (map name) = (table name).map onEntry := by
  rw [renameTable, NameMap.symm_apply]

private theorem renameTable_update {entry : Option Entry} :
    renameTable map onEntry (Function.update table name entry) =
      Function.update (renameTable map onEntry table) (map name) (entry.map onEntry) := by
  funext other
  by_cases same : other = map name
  · subst same
    rw [renameTable_apply, Function.update_self, Function.update_self]
  · have different : map.symm other ≠ name := by
      rintro rfl
      exact same NameMap.apply_symm.symm
    rw [renameTable, Function.update_of_ne different, Function.update_of_ne same, renameTable]

private theorem renameTable_some {entry : Entry} (found : table name = some entry) :
    renameTable map onEntry table (map name) = some (onEntry entry) := by
  rw [renameTable_apply, found, Option.map_some]

private theorem renameTable_none (missing : table name = none) :
    renameTable map onEntry table (map name) = none := by
  rw [renameTable_apply, missing, Option.map_none]

/-- What two tables have in common. -/
theorem map_ite_eq [DecidableEq Entry] [DecidableEq Entry'] (injective : Function.Injective onEntry)
    (first second : Option Entry) :
    (if first = second then first else none).map onEntry =
      if first.map onEntry = second.map onEntry then first.map onEntry else none := by
  by_cases same : first = second
  · rw [if_pos same, if_pos (congrArg (Option.map onEntry) same)]
  · rw [if_neg same, if_neg ((Option.map_injective injective).ne same), Option.map_none]

variable {context context' before thenContext elseContext : Context} {expression : Expression}
  {type : TensorType} {statement : Statement} {statements : List Statement} {program : Program}

def renameContext (map : NameMap) (context : Context) : Context :=
  renameTable map (renameType map) context

private theorem renameContext_update {name : String} :
    renameContext map (Function.update context name (some type)) =
      Function.update (renameContext map context) (map name) (some (renameType map type)) :=
        renameTable_update

private theorem renameContext_join :
    renameContext map (before.join thenContext elseContext) = (renameContext map before).join
      (renameContext map thenContext) (renameContext map elseContext) := by
  funext name
  simp only [renameContext, renameTable, Context.join]
  cases before (map.symm name) with
  | some type => rfl
  | none => exact map_ite_eq renameType_injective _ _

private theorem binaryType_rename {op : BinaryOperator} :
    binaryType op (renameType map type) = renameType map (binaryType op type) := by
  cases op <;> rfl

theorem HasType.rename (typed : HasType context expression type) :
    HasType (renameContext map context) (renameExpression map expression)
      (renameType map type) := by
  induction typed with
  | identifier known => exact .identifier (renameTable_some known)
  | integer => exact .integer
  | float => exact .float
  | binary _ _ numeric leftIH rightIH =>
    rw [← binaryType_rename]
    refine .binary leftIH rightIH ?_
    rwa [renameType_of_scalar numeric.shape]
  | relu _ ih =>
    rw [renameExpression, map.keeps "relu" (by decide)]
    exact .relu ih
  | matmul _ _ leftIH rightIH =>
    rw [renameExpression, map.keeps "matmul" (by decide),
      renameType_of_tensor (List.cons_ne_nil _ _)]
    rw [renameType_of_tensor (List.cons_ne_nil _ _)] at leftIH rightIH
    exact .matmul leftIH rightIH

private theorem typesAll_rename
    (each : ∀ statement ∈ statements, ∀ context context', Types context statement context' →
      Types (renameContext map context) (renameStatement map statement)
        (renameContext map context'))
    (typed : TypesAll context statements context') :
    TypesAll (renameContext map context) (renameStatements map statements)
      (renameContext map context') := by
  induction statements generalizing context with
  | nil =>
    cases typed
    exact .nil
  | cons statement statements ih =>
    cases typed with
    | cons first rest =>
      refine .cons (each statement List.mem_cons_self _ _ first) (ih ?_ rest)
      exact fun other member => each other (List.mem_cons_of_mem _ member)

theorem Types.rename (typed : Types context statement context') :
    Types (renameContext map context) (renameStatement map statement)
      (renameContext map context') := by
  induction statement generalizing context context' with
  | tensorDecl declaration =>
    cases typed with
    | tensorDecl new =>
      rw [renameContext_update]
      exact .tensorDecl (renameTable_none new)
  | assignment assignment =>
    cases typed with
    | introduction typed new =>
      rw [renameContext_update]
      exact .introduction typed.rename (renameTable_none new)
    | overwriting typed known => exact .overwriting typed.rename (renameTable_some known)
  | returnStmt returnStatement =>
    cases typed with
    | returnStmt typed => exact .returnStmt (renameType_scalar "i64" ▸ typed.rename)
  | ifStmt condition thenStatements elseStatements location thenIH elseIH =>
    cases typed with
    | ifStmt typed thenTyped elseTyped oneType =>
      have thenRenamed := typesAll_rename (fun other member _ _ => thenIH other member) thenTyped
      have elseRenamed := typesAll_rename (fun other member _ _ => elseIH other member) elseTyped
      rw [renameContext_join]
      refine .ifStmt (renameType_scalar "i1" ▸ typed.rename) thenRenamed elseRenamed ?_
      intro name type type' new inThen inElse
      obtain ⟨old, found, rfl⟩ := Option.map_eq_some_iff.mp inThen
      obtain ⟨old', found', rfl⟩ := Option.map_eq_some_iff.mp inElse
      exact congrArg (renameType map) (oneType (Option.map_eq_none_iff.mp new) found found')
  | nullIf => cases typed

theorem TypesProgram.rename (typed : TypesProgram program context) :
    TypesProgram (renameProgram map program) (renameContext map context) :=
  typesAll_rename (fun _ _ _ _ => Types.rename) typed

end Ocelotl.Semantic

namespace Ocelotl.IR

open Ast Semantic

variable {map : NameMap} {bindings first second : Bindings} {binding : Binding}
  {expression : Expression} {statement : Statement} {statements : List Statement}
  {program : Program} {declared : Context} {sized : TensorType → Prop} {name : String}
  {thenAfter elseAfter after : Option Bindings}

def renameBinding (map : NameMap) : Binding → Binding
  | .scalar type => .scalar (renameType map type)
  | .tensor index => .tensor index

private theorem renameBinding_injective : Function.Injective (renameBinding map) := by
  intro binding binding' same
  cases binding with
  | scalar type =>
    cases binding' with
    | scalar type' => exact congrArg Binding.scalar (renameType_injective (Binding.scalar.inj same))
    | tensor index => cases same
  | tensor index =>
    cases binding' with
    | scalar type => cases same
    | tensor index' => exact same

def renameBindings (map : NameMap) (bindings : Bindings) : Bindings :=
  renameTable map (renameBinding map) bindings

private theorem renameBindings_update :
    renameBindings map (Function.update bindings name (some binding)) =
      Function.update (renameBindings map bindings) (map name) (some (renameBinding map binding)) :=
        renameTable_update

private theorem renameBindings_meet :
    renameBindings map (first.meet second) =
      (renameBindings map first).meet (renameBindings map second) := by
  funext name
  exact map_ite_eq renameBinding_injective _ _

theorem Bindings.Agree.rename (agree : first.Agree second) :
    (renameBindings map first).Agree (renameBindings map second) := by
  intro name binding binding' inFirst inSecond
  obtain ⟨old, found, rfl⟩ := Option.map_eq_some_iff.mp inFirst
  obtain ⟨old', found', rfl⟩ := Option.map_eq_some_iff.mp inSecond
  exact congrArg (renameBinding map) (agree _ _ _ found found')

theorem Joins.rename (joins : Joins thenAfter elseAfter after) :
    Joins (thenAfter.map (renameBindings map)) (elseAfter.map (renameBindings map))
      (after.map (renameBindings map)) := by
  cases joins with
  | neither => exact .neither
  | thenOnly bindings => exact .thenOnly _
  | elseOnly bindings => exact .elseOnly _
  | both agree =>
    rw [Option.map_some, Option.map_some, Option.map_some, renameBindings_meet]
    exact .both agree.rename

theorem Denotes.rename (denotes : Denotes bindings expression binding) :
    Denotes (renameBindings map bindings) (renameExpression map expression)
      (renameBinding map binding) := by
  induction denotes with
  | identifier known => exact .identifier (renameTable_some known)
  | integer => exact .integer
  | float => exact .float
  | binary _ _ leftIH rightIH =>
    rw [renameBinding, ← binaryType_rename]
    exact .binary leftIH rightIH

mutual

theorem Realizes.rename (sizes : ∀ type, sized type → sized (renameType map type)) :
    ∀ {count bindings statement final after},
      Realizes sized declared count bindings statement final after →
    Realizes sized (renameContext map declared) count (renameBindings map bindings)
      (renameStatement map statement)
      final (after.map (renameBindings map))
  | _, _, _, _, _, .tensorDecl new known storage => by
    rw [Option.map_some, renameBindings_update]
    exact .tensorDecl (renameTable_none new) (renameTable_some known) (sizes _ storage)
  | _, _, _, _, _, .assignment denotes => by
    rw [Option.map_some, renameBindings_update]
    exact .assignment denotes.rename
  | _, _, _, _, _, .returnStmt denotes => .returnStmt denotes.rename
  | _, _, _, _, _, .ifStmt denotes thenRealized elseRealized joins =>
    .ifStmt denotes.rename (thenRealized.rename sizes) (elseRealized.rename sizes) joins.rename

theorem RealizesBranch.rename (sizes : ∀ type, sized type → sized (renameType map type)) :
    ∀ {count before statements final after},
      RealizesBranch sized declared count before statements final after →
    RealizesBranch sized (renameContext map declared) count (before.map (renameBindings map))
      (renameStatements map statements) final (after.map (renameBindings map))
  | _, _, _, _, _, .nil => .nil
  | _, _, _, _, _, .dead => .dead
  | _, _, _, _, _, .cons first rest => .cons (first.rename sizes) (rest.rename sizes)

end

theorem RealizesAll.rename {count : Nat} (sizes : ∀ type, sized type → sized (renameType map type))
    (realizes : RealizesAll sized declared count bindings statements) :
    RealizesAll sized (renameContext map declared) count (renameBindings map bindings)
      (renameStatements map statements) := by
  induction realizes with
  | last ends => exact .last (ends.rename sizes)
  | cons first _ ih => exact .cons (first.rename sizes) ih

theorem RealizesProgram.rename (sizes : ∀ type, sized type → sized (renameType map type))
    (realizes : RealizesProgram sized declared program) :
    RealizesProgram sized (renameContext map declared) (renameProgram map program) :=
  RealizesAll.rename sizes realizes

end Ocelotl.IR

namespace Ocelotl.Codegen

open Ast

variable {map : NameMap} {type : TensorType}

private theorem tensorStorageSize_rename :
    tensorStorageSize (renameType map type) = tensorStorageSize type := by
  by_cases scalar : type.shape = []
  · rw [renameType_of_scalar scalar]
  · have same {element : String} (member : element ∈ reserved) :
        map type.elementType = element ↔ type.elementType = element :=
          NameMap.apply_eq_reserved member
    rw [renameType_of_tensor scalar]
    unfold tensorStorageSize
    have f32 := @same "f32" (by decide)
    have f64 := @same "f64" (by decide)
    have i64 := @same "i64" (by decide)
    simp only [f32, f64, i64]

theorem Sized.rename (sized : Sized type) : Sized (renameType map type) := by
  obtain ⟨size, computed⟩ := sized
  exact ⟨size, tensorStorageSize_rename.trans computed⟩

end Ocelotl.Codegen

namespace Ocelotl.Driver

open Ast Frontend Semantic IR Library LLVM Codegen Evaluation

variable {Contents : Type} {host host' : Host} {map : NameMap} {source source' : List Char}
  {program : Program} {function function' : LLVM.Function} {environment : Environment Contents}

private theorem compileProgram_sameResult
    (ranked : ∀ declaration ∈ declarationsIn program.statements, declaration.type.shape ≠ [])
    (compiled : compileProgram host program = .ok function) (environment : Environment Contents) :
    SameResult environment program function := by
  simp only [compileProgram, except_bind_ok, mapError_ok] at compiled
  obtain ⟨analyzer, accepted, module, generated, lowers⟩ := compiled
  exact sameResult_of_ranked ranked accepted generated lowers environment

private theorem ranked_of_renamed {tokens : List Token}
    (derives : DerivesProgram host.stod tokens program) :
    ∀ declaration ∈ declarationsIn (renameProgram map program).statements,
      declaration.type.shape ≠ [] :=
  shapes_of_statements (DerivesStatements.rename derives)

private theorem result_ok {compiled : Except CompileError LLVM.Function} :
    result compiled = .ok function ↔ compiled = .ok function := mapError_ok

/-- The source with other names is compiled to what the renamed tree is compiled to. -/
theorem compileToLLVM_of_renamed (renamed : Renamed map source source')
    (parsed : parse host.stod source = .ok program) :
    compileToLLVM host source' = .ok function ↔ compileProgram host (renameProgram map program) =
      .ok function := by
  obtain ⟨program', parsed', same⟩ := parse_of_renamed renamed parsed
  rw [compileToLLVM_of_parse parsed', ← result_ok, compileProgram_congr same, result_ok]

private theorem compiles_of_renamed (sameStod : host.stod = host'.stod)
    (verifier : host.AcceptsWellFormed) (verifier' : host'.AcceptsWellFormed)
    (renamed : Renamed map source source') (compiled : compileToLLVM host source = .ok function) :
    ∃ function', compileToLLVM host' source' = .ok function' := by
  obtain ⟨program, parsed, _⟩ := except_bind_ok.mp compiled
  have parsed := mapError_ok.mp parsed
  have derives := parseProgram_sound parsed
  rw [compileToLLVM_of_parse parsed] at compiled
  obtain ⟨context, typed, realizes⟩ :=
    (compileProgram_ok_iff verifier (shapes_of_statements derives)).mp ⟨function, compiled⟩
  obtain ⟨function', compiled'⟩ := (compileProgram_ok_iff verifier' (ranked_of_renamed derives)).mpr
    ⟨renameContext map context, typed.rename, realizes.rename fun _ => Sized.rename⟩
  rw [sameStod] at parsed
  exact ⟨function', (compileToLLVM_of_renamed renamed parsed).mpr compiled'⟩

/-- Sources that differ in names and layout are compiled both or neither, and to
executables that do the same. The orders of the hash maps may differ too. -/
theorem compileToLLVM_renamed (sameStod : host.stod = host'.stod)
    (verifier : host.AcceptsWellFormed) (verifier' : host'.AcceptsWellFormed)
    (renamed : Renamed map source source') :
    ((∃ function, compileToLLVM host source = .ok function) ↔
        ∃ function', compileToLLVM host' source' = .ok function') ∧
      ∀ function function', compileToLLVM host source = .ok function →
        compileToLLVM host' source' = .ok function' →
        ∀ environment : Environment Contents, ∃ outcome outcome',
          function.Executes environment outcome ∧
          function'.Executes environment outcome' ∧
            outcome.map Exit.status = outcome'.map Exit.status := by
  refine ⟨⟨?_, ?_⟩, ?_⟩
  · rintro ⟨function, compiled⟩
    exact compiles_of_renamed sameStod verifier verifier' renamed compiled
  · rintro ⟨function', compiled'⟩
    exact compiles_of_renamed sameStod.symm verifier' verifier renamed.symm compiled'
  · intro function function' compiled compiled' environment
    obtain ⟨program, parsed, _⟩ := except_bind_ok.mp compiled
    have parsed := mapError_ok.mp parsed
    have derives := parseProgram_sound parsed
    have ranked := shapes_of_statements derives
    rw [compileToLLVM_of_parse parsed] at compiled
    rw [sameStod] at parsed
    rw [compileToLLVM_of_renamed renamed parsed] at compiled'
    have same := compileProgram_sameResult ranked compiled environment
    have same' := compileProgram_sameResult (ranked_of_renamed derives) compiled' environment
    rcases same with ⟨bits, exit, returns, exits, status⟩ | ⟨fails, divides⟩
    · obtain ⟨exit', exits', status'⟩ := same'.exits (returns.rename ranked rfl)
      refine ⟨.ok exit, .ok exit', exits, exits', ?_⟩
      exact congrArg Except.ok (status.trans status'.symm)
    · exact ⟨_, _, divides, same'.undefinedDivision_iff.mpr (fails.rename ranked), rfl⟩

/-- `X` and `Y` change places. -/
def swapped : NameMap where
  names := Equiv.swap "X" "Y"
  keeps := by decide

def guardedByX : List Char :=
  "tensor A: f64[2] X = 7 if X > 3 { Y = 21 / X } else { Y = 0 - 1 } return (X - 8) * Y".toList

def guardedByY : List Char :=
  "tensor A:f64[2]\nY=7\nif Y>3 { X=21/Y } else { X=0-1 }\nreturn (Y-8)*X".toList

theorem compileToLLVM_renamed_swapped :
    ∃ function function', compileToLLVM Host.fixed guardedByX = .ok function ∧
    compileToLLVM Host.fixed guardedByY = .ok function' ∧ ∃ outcome outcome',
      function.Executes Environment.fixed outcome ∧ function'.Executes Environment.fixed outcome' ∧
        outcome.map Exit.status = outcome'.map Exit.status := by
  have renamed : Renamed swapped guardedByX guardedByY := by
    unfold Renamed
    decide +kernel
  have compiles : (compileToLLVM Host.fixed guardedByX).toOption.isSome = true := by decide +kernel
  obtain ⟨function, compiled⟩ := Option.isSome_iff_exists.mp compiles
  have compiled := toOption_eq_some.mp compiled
  have verifier : Host.fixed.AcceptsWellFormed := fun _ _ => rfl
  obtain ⟨both, alike⟩ := compileToLLVM_renamed rfl verifier verifier renamed
  obtain ⟨function', compiled'⟩ := both.mp ⟨function, compiled⟩
  exact ⟨function, function', compiled, compiled',
    alike function function' compiled compiled' Environment.fixed⟩

end Ocelotl.Driver
