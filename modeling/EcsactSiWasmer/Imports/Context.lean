import EcsactSiWasmer.Objects.World

open Ecsact.CallMem Ecsact.World

namespace Ecsact

def getExecutionContext (val : WasmVal) : CallbackM CtxPtr := do
  onCallMem (callMemRead (← ofI32 val) .context)

-- The subtraction is one of `size_t`, and its result is narrowed to an `int32_t`.
def getExecutionContextMemory (val : WasmVal) : CallbackM MemPtr := do
  onCallMem (callMemRead ((← ofI32 val) - 8) .memory)

def ecsactIdFromWasmI32 (val : WasmVal) : CallbackM (BitVec 32) :=
  ofI32 val

def getVoidPtr (val : WasmVal) (memory : MemPtr) : CallbackM HostPtr := do
  let v ← ofI32 val
  if v = 0 then return .null
  return .data memory v.toInt

def getConstVoidPtr (val : WasmVal) (memory : MemPtr) : CallbackM HostPtr :=
  getVoidPtr val memory

-- How a callback passes on one of the guest's arguments.
inductive Pass
  | id
  | bool
  | ptr
  | constPtr
  deriving DecidableEq

def Pass.arg (pass : Pass) (val : WasmVal) (memory : MemPtr) : CallbackM HostArg := do
  match pass with
  | id       => return .i32 (← ecsactIdFromWasmI32 val)
  | bool     => return .bool ((← ofI32 val) ≠ 0)
  | ptr      => return .ptr (← getVoidPtr val memory)
  | constPtr => return .ptr (← getConstVoidPtr val memory)

def passArgs (args : List WasmVal) (memory : MemPtr) : List (Nat × Pass) → CallbackM (List HostArg)
  | []                => return []
  | (i, pass) :: rest => do
    let arg ← pass.arg (← argData args i) memory
    return arg :: (← passArgs args memory rest)

-- A callback which passes the context and some of the other arguments on to the runtime.
def forward {α : Type} (name : String) (fn : EcsactFn) (passed : List (Nat × Pass))
    (answer : Runtime → HostView → α) (args : List WasmVal) : CallbackM α := do
  onCallMem (debugTraceMethod name)
  let ctx ← getExecutionContext (← argData args 0)
  let memory ← getExecutionContextMemory (← argData args 0)
  let passed ← passArgs args memory passed
  hostCall fn (.ctx ctx :: passed) answer

def forwardVoid (name : String) (fn : EcsactFn) (passed : List (Nat × Pass)) : Callback :=
  fun args => do
    forward name fn passed (fun _ _ => ()) args
    return none

def wasmEcsactSystemExecutionContextAction : Callback :=
  forwardVoid "ecsact_system_execution_context_action" .action [(1, .ptr)]

def wasmEcsactSystemExecutionContextAdd : Callback :=
  forwardVoid "ecsact_system_execution_context_add" .add [(1, .id), (2, .constPtr)]

def wasmEcsactSystemExecutionContextRemove : Callback :=
  forwardVoid "ecsact_system_execution_context_remove" .remove [(1, .id), (2, .ptr)]

def wasmEcsactSystemExecutionContextGet : Callback :=
  forwardVoid "ecsact_system_execution_context_get" .get [(1, .id), (2, .ptr), (3, .ptr)]

def wasmEcsactSystemExecutionContextUpdate : Callback :=
  forwardVoid "ecsact_system_execution_context_update" .update
    [(1, .id), (2, .constPtr), (3, .ptr)]

def wasmEcsactSystemExecutionContextStreamToggle : Callback :=
  forwardVoid "ecsact_system_execution_context_stream_toggle" .streamToggle
    [(1, .id), (2, .bool), (2, .constPtr)]

def boolVal (b : Bool) : WasmVal :=
  .i32 (if b then 1 else 0)

def wasmEcsactSystemExecutionContextHas : Callback := fun args => do
  let hasComponent ← forward "ecsact_system_execution_context_has" .has [(1, .id), (2, .ptr)]
    (·.has) args
  setResult 0 (boolVal hasComponent)
  return none

-- The loop over the guest's array of pointers, from its `i`-th entry on.
def componentDataList (memory : MemPtr) (listWasm : HostPtr) : Nat → Nat → CallbackM (List HostPtr)
  | 0,     _ => return []
  | n + 1, i => do
    let v ← loadWord 32 (listWasm.add (4 * i))
    let ptr ← getConstVoidPtr (.i32 v) memory
    return ptr :: (← componentDataList memory listWasm n (i + 1))

-- `resize` gets a negative count as a `size_t` beyond `max_size()`.
def wasmEcsactSystemExecutionContextGenerate : Callback := fun args => do
  onCallMem (debugTraceMethod "ecsact_system_execution_context_generate")
  let ctx ← getExecutionContext (← argData args 0)
  let memory ← getExecutionContextMemory (← argData args 0)
  let componentsCount ← ofI32 (← argData args 1)
  if componentsCount.toInt < 0 then throw (.exception "std::length_error")
  let listWasm ← getVoidPtr (← argData args 3) memory
  let list ← componentDataList memory listWasm componentsCount.toInt.toNat 0
  let ids ← getVoidPtr (← argData args 2) memory
  hostCall .generate [.ctx ctx, .i32 componentsCount, .ptr ids, .ptrs list] fun _ _ => ()
  return none

def wasmEcsactSystemExecutionContextParent : Callback := fun args => do
  onCallMem (debugTraceMethod "ecsact_system_execution_context_parent")
  let ctx ← getExecutionContext (← argData args 0)
  let mem ← getExecutionContextMemory (← argData args 0)
  let _ ← hostCall .id [.ctx ctx] (·.id)
  let _ ← onCallMem (callMemAlloc mem .memory)
  let parent ← hostCall .parent [.ctx ctx] (·.parent)
  setResult 0 (.i32 (← onCallMem (callMemAlloc parent .context)))
  return none

def wasmEcsactSystemExecutionContextSame : Callback := fun args => do
  onCallMem (debugTraceMethod "ecsact_system_execution_context_same")
  let a ← getExecutionContext (← argData args 0)
  let b ← getExecutionContext (← argData args 1)
  let same ← hostCall .same [.ctx a, .ctx b] (·.same)
  setResult 0 (boolVal same)
  return none

def wasmEcsactSystemExecutionContextOther : Callback := fun args => do
  onCallMem (debugTraceMethod "ecsact_system_execution_context_other")
  let ctx ← getExecutionContext (← argData args 0)
  let mem ← getExecutionContextMemory (← argData args 0)
  let _ ← hostCall .id [.ctx ctx] (·.id)
  let assocId ← ecsactIdFromWasmI32 (← argData args 1)
  let other ← hostCall .other [.ctx ctx, .i32 assocId] (·.other)
  let _ ← onCallMem (callMemAlloc mem .memory)
  setResult 0 (.i32 (← onCallMem (callMemAlloc other .context)))
  return none

def wasmEcsactSystemExecutionContextEntity : Callback := fun args => do
  onCallMem (debugTraceMethod "ecsact_system_execution_context_entity")
  let ctx ← getExecutionContext (← argData args 0)
  let entity ← hostCall .entity [.ctx ctx] (·.entity)
  setResult 0 (.i32 entity)
  return none

-- The slot of the handle holds the context, and the one before it the memory.
structure CallMem.Denotes (c : CallMem) (handle : BitVec 32) (ctx : CtxPtr) (mem : MemPtr) :
    Prop where
  context : callMemRead handle .context c = .ok ctx c
  memory  : callMemRead (handle - 8) .memory c = .ok mem c

end Ecsact
