import EcsactSiWasmer.Execution.Bounds

namespace Ecsact

-- A call of the runtime by which a guest uses the contexts that it was given, and its own memory.
structure HostCall.Owned (issued : IssuedHandles) (mem : MemPtr) (size : Nat) (c : HostCall) :
    Prop where
  contexts : ∀ ctx, .ctx ctx ∈ c.args → ∃ handle, (handle, ctx) ∈ issued
  pointers : ∀ ptr ∈ c.args.flatMap HostArg.toPtrs, ptr.Into mem size

namespace Program

-- The steps which are not part of an execution.
def Event.Aside : Event → Prop
  | start _ | exit _ | load _ _ _ | reset | setTrapHandler _ => True
  | enter _ _ | guest _ _ | leave _                          => False

-- The steps in which guests keep to what is theirs, with the handles of each thread's execution and the
-- contexts that the runtime has handed out for them.
inductive Hosts (issued : ThreadId → IssuedHandles) (p : Program) :
    (ThreadId → IssuedHandles) → Program → Prop
  | enter {p' : Program} {thread : ThreadId} {ctx : CtxPtr} {r : MinstExport × BitVec 32} :
      (Event.enter thread ctx).Enabled p → enterSystemImpl thread ctx p = .ok r p' →
      Hosts issued p (Function.update issued thread [(r.2, ctx)]) p'
  | derive {p' : Program} {thread : ThreadId} {call : ImportCall} {n : Native} {mem : MemPtr}
      {ctx : CtxPtr} {handle : BitVec 32} : (call.name, n) ∈ nativeApi → n.asksId →
      (Event.guest thread call).Abides issued p → Step p (.guest thread call) p' →
      n.answer mem ((issued thread).lookup ·) call (p.view thread) = .context ctx →
      p'.world.results = [some (.i32 handle)] →
      Hosts issued p (Function.update issued thread (issued thread ++ [(handle, ctx)])) p'
  | guest {p' : Program} {thread : ThreadId} {call : ImportCall} : ¬DerivesHandle call.name →
      (Event.guest thread call).Abides issued p → Step p (.guest thread call) p' →
      Hosts issued p issued p'
  | leave {p' : Program} {thread : ThreadId} : Step p (.leave thread) p' →
      Hosts issued p (Function.update issued thread []) p'
  | aside {p' : Program} {event : Event} : event.Aside → event.Abides issued p → Step p event p' →
      Hosts issued p issued p'

-- The runs of such steps.
inductive Hosting : (ThreadId → IssuedHandles) → Program → Prop
  | start {p : Program} : Starts p → p.callMemInfo = (fun _ => none) → Hosting (fun _ => []) p
  | step {issued issued' : ThreadId → IssuedHandles} {p p' : Program} : Hosting issued p →
      Hosts issued p issued' p' → Hosting issued' p'

-- What a guest's call of an import has done, with the other threads' executions and the other guests'
-- memories left alone. What the runtime does to those is its own.
structure Isolated (issued : IssuedHandles) (thread : ThreadId) (minst : SystemImpls)
    (call : ImportCall) (p p' : Program) : Prop where
  accesses : ∀ a ∈ p'.world.accesses,
    a.Inside minst.memory.ptr (call.memory p.world minst.memory.ptr).size
  calls    : ∃ made, p'.world.hostCalls = p.world.hostCalls ++ made ∧
    (∀ c ∈ made, c.Owned issued minst.memory.ptr (call.memory p.world minst.memory.ptr).size) ∧
    (made = [] → ∀ mem, mem ≠ minst.memory.ptr →
      (p'.world.memories mem).bytes = (call.memory p.world mem).bytes)
  threads  : ∀ thread', thread' ≠ thread → (p'.view thread').callMem = (p.view thread').callMem

end Program
end Ecsact
