import EcsactSiWasmer.Execution.Hosting
import EcsactSiWasmer.Execution.Provenance
import EcsactSiWasmer.Execution.Translation
import EcsactSiWasmer.Lib.Along

namespace Ecsact

-- A step of systems which run on several threads. Between their steps the program's functions may be
-- called, but for the loads.
inductive Turn
  | enter (thread : ThreadId) (ctx : CtxPtr) (code : SystemCode) (mem : MemPtr)
  | call (thread : ThreadId)
  | leave (thread : ThreadId)
  | aside (event : Program.Event)

-- The steps which the systems make themselves.
def Turn.Own : Turn → Prop
  | call _ | leave _ => True
  | _                => False

-- A system on a thread: how it goes on, what it was given for its contexts, and its memory.
structure Task (α : Type) where
  code  : SystemCode
  given : List α
  mem   : MemPtr

-- The systems that run natively.
structure Systems where
  world : World
  tasks : ThreadId → Option (Task CtxPtr) := fun _ => none

namespace Systems

def step (s : Systems) : Turn → Systems
  | .enter thread ctx code mem =>
    { s with tasks := Function.update s.tasks thread (some ⟨code, [ctx], mem⟩) }
  | .call thread               =>
    match s.tasks thread with
    | some ⟨.call c next, ctxs, mem⟩ =>
      let answer := c.answer mem ctxs s.world
      let w := c.after mem ctxs s.world
      let task := ⟨next answer.reply (w.memories mem), ctxs ++ answer.contexts, mem⟩
      { world := w, tasks := Function.update s.tasks thread (some task) }
    | _                              => s
  | .leave thread              => { s with tasks := Function.update s.tasks thread none }
  | .aside _                   => s

-- The calls do not meet a slip of the bindings, and systems end where their code does.
def Regular (s : Systems) : Turn → Prop
  | .call thread  => ∃ c next ctxs mem, s.tasks thread = some ⟨.call c next, ctxs, mem⟩ ∧
      c.Regular mem ctxs s.world
  | .leave thread => ∃ ctxs mem, s.tasks thread = some ⟨.done, ctxs, mem⟩
  | _             => True

def run (s : Systems) (turns : List Turn) : Systems :=
  turns.foldl step s

end Systems

-- The guests that are made of the systems, on the threads of the program.
structure Guests where
  program : Program
  tasks   : ThreadId → Option (Task (BitVec 32)) := fun _ => none

namespace Guests

-- The guests' steps are the program's.
inductive Step : Guests → Turn → Guests → Prop
  | enter {p p' : Program} {tasks : ThreadId → Option (Task (BitVec 32))} {thread : ThreadId}
      {ctx : CtxPtr} {code : SystemCode} {exp : MinstExport} {handle : BitVec 32}
      {minst : SystemImpls} : (Program.Event.enter thread ctx).Enabled p →
      Program.enterSystemImpl thread ctx p = .ok (exp, handle) p' →
      p'.running = (thread, minst) :: p.running →
      Step ⟨p, tasks⟩ (.enter thread ctx code minst.memory.ptr)
        ⟨p', Function.update tasks thread (some ⟨code, [handle], minst.memory.ptr⟩)⟩
  | call {p p' : Program} {tasks : ThreadId → Option (Task (BitVec 32))} {thread : ThreadId}
      {c : ApiCall} {next : Reply → LinearMemory → SystemCode} {handles : List (BitVec 32)}
      {mem : MemPtr} : tasks thread = some ⟨.call c next, handles, mem⟩ →
      Program.Step p (.guest thread (c.toImport handles)) p' →
      Step ⟨p, tasks⟩ (.call thread) ⟨p', Function.update tasks thread <| some {
        code  := next (c.reply p'.world.results) (p'.world.memories mem)
        given := handles ++ c.handles p'.world.results
        mem   := mem
      }⟩
  | leave {p p' : Program} {tasks : ThreadId → Option (Task (BitVec 32))} {thread : ThreadId}
      {handles : List (BitVec 32)} {mem : MemPtr} :
      tasks thread = some ⟨.done, handles, mem⟩ → Program.Step p (.leave thread) p' →
      Step ⟨p, tasks⟩ (.leave thread) ⟨p', Function.update tasks thread none⟩
  | aside {p p' : Program} {tasks : ThreadId → Option (Task (BitVec 32))} {event : Program.Event} :
      event.Aside → ¬event.IsLoad → Program.Step p event p' →
      Step ⟨p, tasks⟩ (.aside event) ⟨p', tasks⟩

end Guests
end Ecsact
