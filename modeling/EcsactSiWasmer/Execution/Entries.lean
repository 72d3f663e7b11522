import EcsactSiWasmer.Execution.Account

open Ecsact.CallMem Ecsact.World

namespace Ecsact

-- A moment at which the callback of an import is entered: what the calling thread can reach, and the
-- first memory that the calling instance exports.
structure Entry where
  world  : World
  memory : Option MemPtr

namespace Entry

-- The call memory of the thread is set, and its first slot holds the memory of the instance.
def Active (e : Entry) : Prop :=
  ∃ mem, e.memory = some mem ∧ callMemRead 0 .memory e.world.callMem = .ok mem e.world.callMem

end Entry

namespace Minst

-- The first memory that an instance exports.
def memory (inst : Minst) : Option MemPtr :=
  (inst.exports.find? (·.kind = .memory)).map MinstExport.ptr

def initializeEntries (inst : Minst) (guest : GuestRun) (w : World) : List Entry :=
  (inst.initializeBegun guest w).map (⟨·.2, inst.memory⟩)

-- The start function runs before there is an instance for the program.
def createEntries (build : Build) (w : World) : List Entry :=
  match build.module with
  | .error _   => []
  | .ok module =>
    match module.imports.find? fun imp => (importResolver imp).isNone with
    | some _ => []
    | none   =>
      match build.externs with
      | .error _ => []
      | .ok ptrs =>
        let inst : Minst := {
          imports := module.imports
          exports := List.zipWith (fun e ptr => ⟨e.name, e.kind, ptr⟩) module.exports ptrs
        }
        (ImportCall.begun build.startRun.calls w).map (⟨·.2, inst.memory⟩)

end Minst

namespace Program

-- The entries of an iteration of the load, during the instantiation and during `_initialize`.
def loadMinstEntries (thread : ThreadId) (systems : List (SystemId × String)) (build : Build)
    (p : Program) : List Entry :=
  Minst.createEntries build (p.view thread) ++
    match onThread thread (Minst.create build) p with
    | .ok (.ok inst) p₁ =>
      match getSystemImplExports inst systems fun _ => none, inst.exports.find? (·.kind = .memory) with
      | .ok _, some memory =>
        match onThread thread (onCallMem (enterInitialize memory.ptr)) p₁ with
        | .ok _ p₂   => inst.initializeEntries build.initRun (p₂.view thread)
        | .error _ _ => []
      | _,     _           => []
    | _                 => []

def loadLoopEntries (thread : ThreadId) (systems : List (SystemId × String))
    (builds : Nat → Build) : Nat → Nat → Program → List Entry
  | 0,     _, _ => []
  | n + 1, i, p =>
    loadMinstEntries thread systems (builds i) p ++
      match loadMinst thread systems (builds i) p with
      | .ok none p' => loadLoopEntries thread systems builds n (i + 1) p'
      | _           => []

namespace Event

-- The entries of a step, whether or not it comes to its end.
def entries (p : Program) : Event → List Entry
  | load thread systems builds =>
    if p.setSystemExecutionImpl then
      loadLoopEntries thread systems builds 100 0 { p with allMinsts := [] }
    else []
  | guest thread _             =>
    (p.running.filter (·.1 = thread)).map fun r => ⟨p.view thread, r.2.minst.memory⟩
  | _                          => []

end Event
end Program

namespace Build

-- The engine gets to the start function.
def Instantiates (build : Build) : Prop :=
  ∃ module ptrs, build.module = .ok module ∧
    (∀ imp ∈ module.imports, (importResolver imp).isSome) ∧ build.externs = .ok ptrs

end Build

namespace Program

-- The iterations which the loop of a load comes to, each with the program that it starts in.
def loadLoopReached (thread : ThreadId) (systems : List (SystemId × String))
    (builds : Nat → Build) : Nat → Nat → Program → List (Build × Program)
  | 0,     _, _ => []
  | n + 1, i, p =>
    (builds i, p) :: EStateM.after (loadMinst thread systems (builds i)) (fun err p' =>
      if err = none then loadLoopReached thread systems builds n (i + 1) p' else []) p

-- The steps in which no start function calls an import, and no guest asks for more handles than its
-- call memory has space for.
def Event.Regular (p : Program) : Event → Prop
  | load thread systems builds => p.setSystemExecutionImpl = true →
    ∀ r ∈ loadLoopReached thread systems builds 100 0 { p with allMinsts := [] },
      (r.1.Instantiates → r.1.startRun.calls = []) ∧
      (loadMinstBegun thread systems r.1 r.2).countP (DerivesHandle ·.1.name) ≤ 255
  | guest thread call          => DerivesHandle call.name →
    ∀ info, p.callMemInfo thread = some info → info.dataOffset + 16 ≤ info.maxSize
  | _                          => True

end Program
end Ecsact
