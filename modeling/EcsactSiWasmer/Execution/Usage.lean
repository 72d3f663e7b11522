import EcsactSiWasmer.Execution.Outcome

open Ecsact.CallMem

namespace Ecsact.Program

-- A successful load, with the number of the first instance that it has made and the executions since,
-- by their threads and instances.
structure Serving where
  systems  : List (SystemId × String)
  builds   : Nat → Build
  first    : Nat
  executed : List (ThreadId × SystemImpls) := []

namespace Serving

def executes (serving : Serving) (thread : ThreadId) (minst : SystemImpls) : Serving :=
  { serving with executed := (thread, minst) :: serving.executed }

-- A thread which ends takes its executions with it, as the next one of its name is another.
def forget (serving : Serving) (thread : ThreadId) : Serving :=
  { serving with executed := serving.executed.filter (·.1 ≠ thread) }

end Serving

-- The steps which are of no consequence to the executions that follow.
def Event.Continues : Event → Prop
  | start _ | setTrapHandler _ | guest _ _ | leave _ => True
  | exit _ | load _ _ _ | reset | enter _ _          => False

-- The runs in which loads and resets happen with no execution in flight, and each execution after a
-- successful load with no failed load or reset since.
inductive Usage : Program → Option Serving → Prop
  | start {p : Program} : Starts p → p.callMemInfo = (fun _ => none) → Usage p none
  | load {p p' : Program} {serving : Option Serving} {thread : ThreadId}
      {systems : List (SystemId × String)} {builds : Nat → Build} {err : SiError} :
      Usage p serving → (Event.load thread systems builds).Enabled p → p.running = [] →
      ecsactSiWasmLoad thread systems builds p = .ok err p' →
      Usage p' (if err = .ok then some ⟨systems, builds, p.created, []⟩ else none)
  | reset {p p' : Program} {serving : Option Serving} :
      Usage p serving → p.running = [] → Step p .reset p' → Usage p' none
  | enter {p p' : Program} {serving : Serving} {thread : ThreadId} {ctx : CtxPtr}
      {r : MinstExport × BitVec 32} {minst : SystemImpls} :
      Usage p (some serving) → (Event.enter thread ctx).Enabled p →
      enterSystemImpl thread ctx p = .ok r p' → p'.running = (thread, minst) :: p.running →
      Usage p' (some (serving.executes thread minst))
  | exit {p p' : Program} {serving : Option Serving} {thread : ThreadId} :
      Usage p serving → Step p (.exit thread) p' → Usage p' (serving.map (·.forget thread))
  | other {p p' : Program} {serving : Option Serving} {event : Event} :
      Usage p serving → event.Continues → Step p event p' → Usage p' serving

-- The start of an execution, on an instance of the load and with its function and its memory. The
-- thread has had no other instance since the load, and no call memory was left to it.
structure Dispatched (serving : Serving) (thread : ThreadId) (ctx : CtxPtr) (p p' : Program)
    (minst : SystemImpls) (exp : MinstExport) (handle : BitVec 32) : Prop where
  returns  : enterSystemImpl thread ctx p = .ok (exp, handle) p'
  running  : p'.running = (thread, minst) :: p.running
  made     : ∃ k < 100, minst.id = serving.first + k ∧ (serving.builds k).minst = .ok minst.minst
  function : ∃ name, serving.systems.reverse.lookup (p.systemId thread ctx) = some name ∧
    minst.minst.findExport name = some exp ∧ exp.kind = .func
  memory   : ∃ memory, minst.minst.exports.find? (·.kind = .memory) = some memory ∧
    callMemRead 0 .memory (p'.view thread).callMem = .ok memory.ptr (p'.view thread).callMem
  context  : callMemRead handle .context (p'.view thread).callMem = .ok ctx (p'.view thread).callMem
  executed : ∀ e ∈ serving.executed, e.1 = thread → e.2 = minst
  unset    : p.callMemInfo thread = none

end Ecsact.Program
