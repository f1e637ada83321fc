import Ocelotl.Codegen.LoweredCode

namespace Ocelotl.Codegen

open Library LLVM Evaluation

variable {Contents : Type} {environment : Environment Contents} {blocks : List LLVM.BasicBlock}
  {config next : LLVM.Config} {instruction : Instruction} {code rest : List Instruction}
  {last : LLVM.Terminator}

/-- Execution stands before this code, which reaches to the end of its block. -/
def At (blocks : List LLVM.BasicBlock) (code : List Instruction) (last : LLVM.Terminator)
    (config : LLVM.Config) : Prop :=
  ∃ body, blocks[config.label]? = some body ∧ body.instructions.drop config.index = code ∧
    body.terminator = some last

/-- Instructions that do nothing but write their result. -/
def computes : Instruction → Bool
  | .binary _ _ _ _ | .icmp _ _ _ _ | .fcmp _ _ _ _ | .phi _ _ _ | .trunc _ _ => true
  | .alloca _ | .store _ _ | .load _ _ | .callAlloc _ _ _ | .callFree _ => false

theorem execute_computes (pure : computes instruction = true)
    (success : execute environment config instruction = .ok next) :
    ∃ registers, next = { config.advance with registers } := by
  cases instruction with
  | binary result opcode lhs rhs =>
    simp only [execute, except_bind_ok] at success
    obtain ⟨_, _, _, _, value, _, success⟩ := success
    cases success
    exact ⟨_, rfl⟩
  | icmp result predicate lhs rhs =>
    simp only [execute, except_bind_ok] at success
    obtain ⟨_, _, _, _, value, _, success⟩ := success
    cases success
    exact ⟨_, rfl⟩
  | fcmp result predicate lhs rhs =>
    simp only [execute, except_bind_ok] at success
    obtain ⟨_, _, _, _, value, _, success⟩ := success
    cases success
    exact ⟨_, rfl⟩
  | phi result type incoming =>
    rw [execute] at success
    split at success
    · cases success
      exact ⟨config.registers, rfl⟩
    · obtain ⟨value, _, success⟩ := except_bind_ok.mp success
      cases success
      exact ⟨_, rfl⟩
  | trunc result operand =>
    simp only [execute, except_bind_ok] at success
    obtain ⟨value, _, success⟩ := success
    split at success
    · cases success
      exact ⟨_, rfl⟩
    · cases success
  | alloca _ | store _ _ | load _ _ | callAlloc _ _ _ | callFree _ => cases pure

/-- A phi whose entries give a value defines it. -/
theorem execute_phi {result : RegisterId} {type : ScalarType} {incoming : List (Operand × Label)}
    {value : LLVM.Value} (taken : LLVM.executePhi config.previous incoming = .ok value) :
    execute environment config (.phi result type incoming) = .ok (config.define result value) := by
  have nonempty : incoming ≠ [] := by
    intro empty
    subst empty
    unfold LLVM.executePhi at taken
    split at taken <;> cases taken
  rw [execute, if_neg nonempty, taken]
  rfl

/-- An instruction that is executed moves on within its block. -/
theorem execute_moves (success : execute environment config instruction = .ok next) :
    next.label = config.label ∧ next.index = config.index + 1 ∧
      next.previous = config.previous := by
  by_cases pure : computes instruction = true
  · obtain ⟨registers, same⟩ := execute_computes pure success
    rw [same]
    exact ⟨rfl, rfl, rfl⟩
  cases instruction with
  | alloca slot =>
    cases success
    exact ⟨rfl, rfl, rfl⟩
  | store value slot =>
    simp only [execute, except_bind_ok] at success
    obtain ⟨_, _, _, _, success⟩ := success
    split at success
    · cases success
    · cases success
      exact ⟨rfl, rfl, rfl⟩
  | load result slot =>
    simp only [execute, except_bind_ok] at success
    obtain ⟨_, _, success⟩ := success
    split at success
    · cases success
      exact ⟨rfl, rfl, rfl⟩
    · cases success
    · cases success
  | callAlloc result size alignment =>
    cases success
    exact ⟨rfl, rfl, rfl⟩
  | callFree pointer =>
    simp only [execute, except_bind_ok] at success
    obtain ⟨_, _, success⟩ := success
    cases success
    exact ⟨rfl, rfl, rfl⟩
  | binary _ _ _ _ | icmp _ _ _ _ | fcmp _ _ _ _ | phi _ _ _ | trunc _ _ => exact absurd rfl pure

theorem At.present (here : At blocks (instruction :: code) last config) :
    ∃ body, blocks[config.label]? = some body ∧
      body.instructions[config.index]? = some instruction ∧
      body.instructions.drop (config.index + 1) = code ∧ body.terminator = some last := by
  obtain ⟨body, found, suffix, ends⟩ := here
  refine ⟨body, found, ?_, ?_, ends⟩
  · rw [← List.head?_drop, suffix]
    rfl
  · rw [← List.tail_drop, suffix]
    rfl

theorem At.step (here : At blocks (instruction :: code) last config)
    (success : execute environment config instruction = .ok next) :
    (machine environment blocks).step config = .inl next ∧ At blocks code last next := by
  obtain ⟨body, found, present, suffix, ends⟩ := here.present
  obtain ⟨label, index, _⟩ := execute_moves success
  constructor
  · simp only [machine, found, present, success]
  · exact ⟨body, label.symm ▸ found, index.symm ▸ suffix, ends⟩

theorem At.stuck {reason : LLVM.Stuck} (here : At blocks (instruction :: code) last config)
    (failure : execute environment config instruction = .error reason) :
    (machine environment blocks).step config = .inr (.error reason) := by
  obtain ⟨body, found, present, _⟩ := here.present
  simp only [machine, found, present, failure]

theorem At.transfer (environment : Environment Contents) (here : At blocks [] last config) :
    (machine environment blocks).step config = LLVM.transfer config last := by
  obtain ⟨body, found, suffix, ends⟩ := here
  have absent : body.instructions[config.index]? = none := by
    rw [← List.head?_drop, suffix]
    rfl
  simp only [machine, found, absent, ends]

/-- The effect of the code that allocates these slots. -/
structure Prepared (slots : List SlotId) (config next : LLVM.Config) : Prop where
  label : next.label = config.label
  previous : next.previous = config.previous
  registers : next.registers = config.registers
  calls : next.calls = config.calls
  events : next.events = config.events
  cells : ∀ slot, next.slots slot = if slot ∈ slots then .holds .null else config.slots slot

private theorem execute_alloca (environment : Environment Contents) (config : LLVM.Config) (slot : SlotId) :
    execute environment config (.alloca slot) = .ok (config.setSlot slot .uninitialised) := rfl

private theorem execute_store (environment : Environment Contents) {value : Operand} {slot : SlotId}
    {pointer : Pointer} (stored : pointerOf config.registers value = .ok pointer)
    (allocated : config.slots slot ≠ .unallocated) :
    execute environment config (.store value (.slot slot)) =
      .ok (config.setSlot slot (.holds pointer)) := by
  have slotted : slotOf config.registers (.slot slot) = .ok slot := rfl
  simp only [execute, stored, slotted, bind, Except.bind, if_neg allocated]
  rfl

theorem prologue_runs (environment : Environment Contents) {slots : List SlotId}
    (here : At blocks (slotCode slots ++ rest) last config) :
    ∃ next, (machine environment blocks).Leads config next ∧ At blocks rest last next ∧
      Prepared slots config next := by
  induction slots generalizing config with
  | nil => exact ⟨config, .refl, here, rfl, rfl, rfl, rfl, rfl, fun _ => by simp⟩
  | cons slot slots ih =>
    obtain ⟨allocates, here⟩ := At.step here (execute_alloca environment config slot)
    have allocated : (config.setSlot slot .uninitialised).slots slot ≠ .unallocated := by
      simp [Config.setSlot]
    obtain ⟨stores, here⟩ := At.step here (execute_store environment rfl allocated)
    obtain ⟨next, leads, there, prepared⟩ := ih here
    refine ⟨next, .head allocates (.head stores leads), there, prepared.label, prepared.previous,
      prepared.registers, prepared.calls, prepared.events, fun other => ?_⟩
    rw [prepared.cells]
    by_cases same : other = slot
    · simp [Config.setSlot, same]
    · simp [Config.setSlot, Config.advance, same]

private theorem pointerOf_register {registers : LLVM.Registers} {result : RegisterId} {pointer : Pointer}
    (found : registers result = some (.pointer pointer)) :
    pointerOf registers (.register result) = .ok pointer := by
  simp only [pointerOf, LLVM.evaluate, found]
  rfl

/-- What the allocator returns to its next call. -/
def answer (environment : Environment Contents) (config : LLVM.Config) : Pointer :=
  if environment.succeeds config.calls then .allocation config.calls else .null

/-- The effect of the code that allocates a tensor and keeps its pointer in a slot. -/
structure Allocated (register : RegisterId) (slot : SlotId) (size alignment : BitVec 64)
    (pointer : Pointer) (config next : LLVM.Config) : Prop where
  label : next.label = config.label
  previous : next.previous = config.previous
  registers : next.registers = Function.update config.registers register (some (.pointer pointer))
  cells : next.slots = Function.update config.slots slot (.holds pointer)
  calls : next.calls = config.calls + 1
  events : next.events = config.events ++ [.alloc size alignment pointer]

theorem allocation_runs (environment : Environment Contents) {register : RegisterId} {slot : SlotId}
    {size alignment : BitVec 64}
    (here : At blocks (.callAlloc register size alignment ::
      .store (.register register) (.slot slot) ::
      rest) last config) (allocated : config.slots slot ≠ .unallocated) :
    ∃ next, (machine environment blocks).Leads config next ∧ At blocks rest last next ∧
      Allocated register slot size alignment (answer environment config) config next := by
  have answered : execute environment config (.callAlloc register size alignment) =
    .ok (config.alloc register size alignment (environment.succeeds config.calls)) := rfl
  obtain ⟨calls, here⟩ := At.step here answered
  have returned :
      (config.alloc register size alignment (environment.succeeds config.calls)).registers
      register = some (.pointer (answer environment config)) := by
    simp [Config.alloc, Config.advance, answer]
  obtain ⟨stores, here⟩ := At.step here
    (execute_store environment (pointerOf_register returned) allocated)
  exact ⟨_, .head calls (.head stores .refl), here, rfl, rfl, rfl, rfl, rfl, rfl⟩

/-- The pointer in a slot that has one. -/
def pointerIn : Cell → Pointer
  | .holds pointer => pointer
  | .unallocated | .uninitialised => .null

@[simp] theorem pointerIn_holds (pointer : Pointer) : pointerIn (.holds pointer) = pointer := rfl

/-- The effect of the code that releases these slots. -/
structure Released (register : RegisterId) (entries : List (IR.ValueId × SlotId))
    (config next : LLVM.Config) : Prop where
  older : ∀ result, result < register → next.registers result = config.registers result
  events : next.events = config.events ++ entries.map fun entry =>
    .free (pointerIn (config.slots entry.2))

private theorem execute_load (environment : Environment Contents) {slot : SlotId} {pointer : Pointer}
    {result : RegisterId} (held : config.slots slot = .holds pointer) :
    execute environment config (.load result (.slot slot)) =
      .ok (config.define result (.pointer pointer)) := by
  have slotted : slotOf config.registers (.slot slot) = .ok slot := rfl
  simp only [execute, slotted, bind, Except.bind, held]
  rfl

private theorem execute_callFree (environment : Environment Contents) {operand : Operand}
    {pointer : Pointer} (freed : pointerOf config.registers operand = .ok pointer) :
    execute environment config (.callFree operand) = .ok (config.record (.free pointer)) := by
  simp only [execute, freed, bind, Except.bind]
  rfl

theorem release_runs (environment : Environment Contents) {register : RegisterId}
    {entries : List (IR.ValueId × SlotId)}
    (here : At blocks (releaseCode register entries ++ rest) last config)
    (held : ∀ entry ∈ entries, ∃ pointer, config.slots entry.2 = .holds pointer) :
    ∃ next, (machine environment blocks).Leads config next ∧ At blocks rest last next ∧
      Released register entries config next := by
  induction entries generalizing config register with
  | nil => exact ⟨config, .refl, here, fun _ _ => rfl, by simp⟩
  | cons entry entries ih =>
    obtain ⟨id, slot⟩ := entry
    obtain ⟨pointer, holds⟩ := held _ List.mem_cons_self
    obtain ⟨loads, here⟩ := At.step here (execute_load environment holds)
    have loaded : (config.define register (.pointer pointer)).registers register =
        some (.pointer pointer) := by simp [Config.define]
    obtain ⟨frees, here⟩ := At.step here
      (execute_callFree environment (pointerOf_register loaded))
    obtain ⟨next, leads, there, released⟩ := ih here fun other member =>
      held other (List.mem_cons_of_mem _ member)
    refine ⟨next, .head loads (.head frees leads), there, fun result old => ?_, ?_⟩
    · rw [released.older result (Nat.lt_succ_of_lt old)]
      exact Function.update_of_ne (Nat.ne_of_lt old) _ _
    · rw [released.events]
      simp [Config.record, Config.define, Config.advance, holds]

theorem evaluate_older {registers registers' : LLVM.Registers} {register : RegisterId}
    {operand : Operand} (older : ∀ result, operand = .register result → result < register)
    (same : ∀ result, result < register → registers' result = registers result) :
    evaluate registers' operand = evaluate registers operand := by
  cases operand with
  | register result => simp only [LLVM.evaluate, same result (older result rfl)]
  | integer _ | float _ | null | slot _ => rfl

/-- The status is the low bits of the returned value. -/
theorem return_runs {status : RegisterId} {operand : Operand} {bits : BitVec 64}
    (here : At blocks [.trunc status operand] (.ret (.register status)) config)
    (evaluates : evaluate config.registers operand = .ok (.i64 bits)) :
    (machine environment blocks).Evaluates config (.ok ⟨bits.setWidth 32, config.events⟩) := by
  have success : execute environment config (.trunc status operand) =
      .ok (config.define status (.i32 (bits.setWidth 32))) := by
    simp only [execute, evaluates, bind, Except.bind]
    rfl
  obtain ⟨steps, there⟩ := here.step success
  apply Machine.Evaluates.next steps
  apply Machine.Evaluates.halt
  rw [there.transfer]
  simp [LLVM.transfer, LLVM.evaluate, Config.define, Config.advance, pure, Except.pure]

theorem release_returns (environment : Environment Contents) {register status : RegisterId}
    {entries : List (IR.ValueId × SlotId)} {operand : Operand} {bits : BitVec 64}
    (here : At blocks (releaseCode register entries ++ [.trunc status operand])
      (.ret (.register status))
      config) (held : ∀ entry ∈ entries, ∃ pointer, config.slots entry.2 = .holds pointer)
    (older : ∀ result, operand = .register result → result < register)
    (evaluates : evaluate config.registers operand = .ok (.i64 bits)) :
    ∃ events, (machine environment blocks).Evaluates config (.ok ⟨bits.setWidth 32, events⟩) := by
  obtain ⟨next, leads, there, released⟩ := release_runs environment here held
  exact ⟨_, leads.evaluates (return_runs there (evaluate_older older released.older ▸ evaluates))⟩

end Ocelotl.Codegen
