import EcsactSiWasmer.Objects.CallMem
import EcsactSiWasmer.Objects.Files
import EcsactSiWasmer.Objects.Logger

namespace Ecsact

-- The functions of the Ecsact runtime which the program calls with an execution context.
inductive EcsactFn
  | id
  | action
  | add
  | remove
  | get
  | update
  | has
  | generate
  | parent
  | same
  | other
  | entity
  | streamToggle
  deriving DecidableEq

inductive HostArg
  | ctx (ctx : CtxPtr)
  | i32 (v : BitVec 32)
  | bool (b : Bool)
  | ptr (ptr : HostPtr)
  | ptrs (ptrs : List HostPtr)
  deriving DecidableEq

structure HostCall where
  fn   : EcsactFn
  args : List HostArg
  deriving DecidableEq

-- What the runtime can see when it is called: all calls up to this one, and the guests' memories.
structure HostView where
  calls    : List HostCall
  memories : MemPtr → LinearMemory

-- The Ecsact runtime, by its answers and by what its calls leave in the guests' memories.
structure Runtime where
  id       : HostView → BitVec 32
  has      : HostView → Bool
  parent   : HostView → CtxPtr
  same     : HostView → Bool
  other    : HostView → CtxPtr
  entity   : HostView → BitVec 32
  memories : HostView → MemPtr → LinearMemory

-- A runtime which answers with zeros and leaves the guests' memories alone.
def Runtime.inert : Runtime where
  id _          := 0
  has _         := false
  parent _      := 0
  same _        := false
  other _       := 0
  entity _      := 0
  memories view := view.memories

-- A read or write through a guest pointer.
structure Access where
  mem    : MemPtr
  offset : Int
  data   : List Byte
  write  : Bool
  deriving DecidableEq

-- The bytes which are stored by accesses.
def written (accesses : List Access) : List Byte :=
  accesses.flatMap fun access => if access.write then access.data else []

-- What an import callback can reach. The host calls so far and the accesses of the current call are
-- not in the source. `results` is the vector of the current call, whose entries are unset at first.
structure World where
  runtime   : Runtime
  callMem   : CallMem
  memories  : MemPtr → LinearMemory
  files     : Files
  logger    : Logger LogLevel
  hostCalls : List HostCall         := []
  accesses  : List Access           := []
  results   : List (Option WasmVal) := []

-- A world in which nothing has happened yet, with one page for each guest.
def World.idle (runtime : Runtime) (ndebug : Bool) : World where
  runtime  := runtime
  callMem  := { ndebug := ndebug, info := none }
  memories := fun _ => { size := 65536, size_le := by decide, bytes := .zeros }
  files    := { disk := fun _ => none }
  logger   := {}

abbrev CallbackM := EStateM Fault World

-- `wasm_func_callback_t`. No callback of the program looks at anything but its arguments' data.
abbrev Callback := List WasmVal → CallbackM (Option Trap)

namespace World

def onCallMem {α : Type} (x : CallMemM α) : CallbackM α :=
  EStateM.zoom callMem (fun c w => { w with callMem := c }) x

def onFiles {α : Type} (x : FilesM α) : CallbackM α :=
  EStateM.zoom files (fun f w => { w with files := f }) x

-- `args->data[i]`
def argData (args : List WasmVal) (i : Nat) : CallbackM WasmVal :=
  match args[i]? with
  | some val => return val
  | none     => throw (.badArg i)

-- `val.of.i32`, and the assert on the kind which most uses make.
def ofI32 : WasmVal → CallbackM (BitVec 32)
  | .i32 v => return v
  | .i64 _ => throw .badKind

-- `results->data[j]`
def setResult (j : Nat) (val : WasmVal) : CallbackM Unit := do
  let w ← get
  if j < w.results.length then set { w with results := w.results.set j (some val) }
  else throw (.badResult j)

def accessed (w : World) (access : Access) : World :=
  { w with accesses := w.accesses ++ [access] }

-- An access does not fault for being outside of the memory, where it is undefined in C++. What is said
-- of calls is about addresses in bounds wherever that matters.
def loadBytes (ptr : HostPtr) (n : Nat) : CallbackM (List Byte) := do
  match ptr with
  | .null            => throw (.undefined "null pointer")
  | .data mem offset =>
    let w ← get
    let bytes := (w.memories mem).bytes.read offset n
    set (w.accessed { mem := mem, offset := offset, data := bytes, write := false })
    return bytes

def stored (w : World) (mem : MemPtr) (offset : Int) (bytes : List Byte) : World :=
  { w with
    memories := Function.update w.memories mem
      { w.memories mem with bytes := (w.memories mem).bytes.write offset bytes }
  }

def storeBytes (ptr : HostPtr) (bytes : List Byte) : CallbackM Unit := do
  match ptr with
  | .null            => throw (.undefined "null pointer")
  | .data mem offset =>
    let w ← get
    let access : Access := { mem := mem, offset := offset, data := bytes, write := true }
    set ((w.stored mem offset bytes).accessed access)

def loadWord (w : Nat) (ptr : HostPtr) : CallbackM (BitVec w) := do
  return BitVec.ofNat w (leVal (← loadBytes ptr (w / 8)))

def storeWord {w : Nat} (ptr : HostPtr) (v : BitVec w) : CallbackM Unit :=
  storeBytes ptr (leBytes (w / 8) v.toNat)

def pushStdioStr (level : LogLevel) (str : List Byte) : CallbackM Unit :=
  modify fun w => { w with logger := w.logger.pushStdioStr level str }

def hostView (w : World) (fn : EcsactFn) (args : List HostArg) : HostView where
  calls    := w.hostCalls ++ [⟨fn, args⟩]
  memories := w.memories

-- The state after a call of a runtime function.
def called (w : World) (fn : EcsactFn) (args : List HostArg) : World :=
  { w with
    hostCalls := w.hostCalls ++ [⟨fn, args⟩]
    memories  := w.runtime.memories (w.hostView fn args)
  }

def hostCall {α : Type} (fn : EcsactFn) (args : List HostArg) (answer : Runtime → HostView → α) :
    CallbackM α := do
  let w ← get
  set (w.called fn args)
  return answer w.runtime (w.hostView fn args)

end World
end Ecsact
