import Mathlib.Logic.Relation
import EcsactSiWasmer.Execution.Load

open Ecsact.CallMem Ecsact.World

namespace Ecsact.Program

-- The index is taken modulo the size of the pool, which is undefined if that is 0.
def ensureMinst (thread : ThreadId) : ProgramM SystemImpls := do
  match (← get).lock thread with
  | some minst => return minst
  | none       =>
    modify fun p => { p with nextAvailableIndex := p.nextAvailableIndex + 1 }
    let p ← get
    if p.allMinsts = [] then throw (.undefined "% 0")
    match p.allMinsts[p.nextAvailableIndex.toNat % p.allMinsts.length]? with
    | none       => throw (.undefined "all_minsts[index]")
    | some minst =>
      modify fun p => { p with threadMinst := Function.update p.threadMinst thread (some minst) }
      return minst

-- The start of `ecsact_si_wasm_system_impl`, up to the call of the guest, with the function that is
-- called and its argument.
def enterSystemImpl (thread : ThreadId) (ctx : CtxPtr) : ProgramM (MinstExport × BitVec 32) := do
  let minst ← ensureMinst thread
  let systemId ← onThread thread (hostCall .id [.ctx ctx] (·.id))
  assert (minst.sysImplExports systemId).isSome
  match minst.sysImplExports systemId with
  | none     => throw (.undefined "itr->second")
  | some exp =>
    let handle ← onThread thread (onCallMem (enterSystem minst.memory.ptr ctx))
    modify fun p => { p with running := (thread, minst) :: p.running }
    return (exp, handle)

-- The system which the runtime names for an execution.
def systemId (p : Program) (thread : ThreadId) (ctx : CtxPtr) : SystemId :=
  (p.view thread).runtime.id <| (p.view thread).hostView .id [.ctx ctx]

-- The deferred end of the call memory, and of the reference to the instance.
def leaveSystemImpl (thread : ThreadId) : ProgramM Unit := do
  onThread thread (onCallMem (setCallMemData none 0))
  modify fun p => { p with running := p.running.filter (·.1 ≠ thread) }

-- The trap which the guest's function returns is dropped.
def ecsactSiWasmSystemImpl (thread : ThreadId) (ctx : CtxPtr) (guest : BitVec 32 → GuestRun) :
    ProgramM Unit := do
  let (exp, handle) ← enterSystemImpl thread ctx
  let _ ← onThread thread (exp.funcCall (guest handle))
  leaveSystemImpl thread

def ecsactSiWasmSetTrapHandler (handler : Option TrapHandler) : ProgramM Unit :=
  modify ({ · with trapHandler := handler })

def ecsactSiWasmReset : ProgramM Unit :=
  modify ({ · with allMinsts := [], nextAvailableIndex := 0 })

-- A step of the program. An execution is split at the guest's calls of imports, so that those on
-- different threads and the calls of the program's own functions can come in any order.
inductive Event
  | start (thread : ThreadId)
  | exit (thread : ThreadId)
  | load (thread : ThreadId) (systems : List (SystemId × String)) (builds : Nat → Build)
  | reset
  | setTrapHandler (handler : Option TrapHandler)
  | enter (thread : ThreadId) (ctx : CtxPtr)
  | guest (thread : ThreadId) (call : ImportCall)
  | leave (thread : ThreadId)

-- A thread is busy from the start of an execution to its end.
def busy (p : Program) (thread : ThreadId) : Bool :=
  p.running.any (·.1 == thread)

namespace Event

-- A guest may call all that there is to import here, also what its own module does not.
def Enabled (p : Program) : Event → Prop
  | start thread                      => thread ∉ p.threads
  | exit thread                       => thread ∈ p.threads ∧ ¬p.busy thread
  | load thread _ _ | enter thread _  => thread ∈ p.threads ∧ ¬p.busy thread
  | guest thread _ | leave thread     => p.busy thread
  | reset | setTrapHandler _          => True

-- A thread's variables go with it.
def run : Event → ProgramM Unit
  | start thread               => modify fun p => { p with threads := thread :: p.threads }
  | exit thread                => modify fun p => { p with
      threads     := p.threads.filter (· ≠ thread)
      threadMinst := Function.update p.threadMinst thread none
      callMemInfo := Function.update p.callMemInfo thread none
    }
  | load thread systems builds => do
    let _ ← ecsactSiWasmLoad thread systems builds
    return
  | reset                      => ecsactSiWasmReset
  | setTrapHandler handler     => ecsactSiWasmSetTrapHandler handler
  | enter thread ctx           => do
    let _ ← enterSystemImpl thread ctx
    return
  | guest thread call          => do
    let _ ← onThread thread call.run
    return
  | leave thread               => leaveSystemImpl thread

end Event

-- A fault ends the program, so there is no step then.
structure Step (p : Program) (event : Event) (p' : Program) : Prop where
  enabled : event.Enabled p
  run     : event.run p = .ok () p'

-- The program before anything is loaded.
structure Starts (p : Program) : Prop where
  allMinsts   : p.allMinsts = []
  threadMinst : p.threadMinst = fun _ => none
  running     : p.running = []
  registered  : p.registered = []

-- The programs to which steps that meet a condition lead.
def Runs (c : Program → Event → Prop) : Program → Program → Prop :=
  Relation.ReflTransGen fun p p' => ∃ event, c p event ∧ Step p event p'

def Reachable (p : Program) : Prop :=
  ∃ p₀, Starts p₀ ∧ Runs (fun _ _ => True) p₀ p

end Ecsact.Program
