import EcsactSiWasmer.Execution.System
import EcsactSiWasmer.Lib.SharedPtr

open EStateM Ecsact.World Ecsact.CallMem

namespace Ecsact

-- What the engine makes for an instance and is asked to delete, by the number of its call. Types,
-- functions and vectors of these are never deleted.
inductive EngineObject
  | store (n : Nat)
  | module (n : Nat)
  | inst (n : Nat)
  deriving DecidableEq

-- `_store`, `_module` and `_instance` of a `minst`, which are null at first.
structure MinstPtrs where
  store  : Option Nat := none
  module : Option Nat := none
  inst   : Option Nat := none

namespace MinstPtrs

-- `minst::minst(minst&&)`, with what it makes and what it leaves.
def move (ptrs : MinstPtrs) : MinstPtrs × MinstPtrs :=
  (ptrs, {})

-- `minst::~minst`, by the objects that it deletes.
def destroy (ptrs : MinstPtrs) : List EngineObject :=
  ptrs.inst.toList.map .inst ++ ptrs.module.toList.map .module ++ ptrs.store.toList.map .store

def Whole (ptrs : MinstPtrs) : Prop :=
  ∃ store module inst, ptrs = ⟨some store, some module, some inst⟩

end MinstPtrs

-- The program with the reference counts of its instances, by their numbers, with the pointers which
-- each of these keeps, and with the objects that the engine was asked to make and to delete.
structure Counted where
  program : Program
  blocks  : SharedPtr.Blocks Nat := {}
  ptrs    : Nat → MinstPtrs      := fun _ => {}
  made    : List EngineObject    := []
  deleted : List EngineObject    := []

abbrev CountedM := EStateM Fault Counted

namespace Counted

def lift {α : Type} (x : ProgramM α) : CountedM α :=
  EStateM.zoom program (fun p s => { s with program := p }) x

def wasmNew (f : Nat → EngineObject) : CountedM Nat := do
  let n := (← get).made.length
  modify fun s => { s with made := s.made ++ [f n] }
  return n

def destroy (ptrs : MinstPtrs) : CountedM Unit :=
  modify fun s => { s with deleted := s.deleted ++ ptrs.destroy }

-- The instances that the program refers to, by the numbers of the references.
def references (s : Counted) : List Nat :=
  s.program.allMinsts.map (·.id) ++ s.program.running.map (·.2.id)

-- The end of a `std::shared_ptr` to an instance.
def release (s : Counted) (id : Nat) : Counted :=
  { s with
    blocks  := s.blocks.release id
    deleted := s.deleted ++ if s.blocks.count id = 1 then (s.ptrs id).destroy else []
  }

def releaseAll (s : Counted) (ids : List Nat) : Counted :=
  ids.foldl release s

-- `self` ends with the function, and has been moved from if that succeeds. With an error, `_instance`
-- is null, and `_module` only if there is no module.
def create (thread : ThreadId) (build : Build) :
    CountedM (Except MinstError (Minst × MinstPtrs)) := do
  let self : MinstPtrs := { store := some (← wasmNew .store) }
  match ← lift (Program.onThread thread (Minst.create build)) with
  | .error err =>
    let module ← if err.code = .compileFail then pure none else some <$> wasmNew .module
    destroy { self with module := module }
    return .error err
  | .ok inst   =>
    let self := { self with module := some (← wasmNew .module) }
    let self := { self with inst := some (← wasmNew .inst) }
    let (result, self) := self.move
    destroy self
    return .ok (inst, result)

-- `std::make_shared` and `emplace_back`
def makeShared (inst : Minst) (exports : SystemId → Option MinstExport) (memory : MinstExport)
    (ptrs : MinstPtrs) : CountedM Unit := do
  modify fun s => { s with
    blocks := s.blocks.make s.program.created
    ptrs   := Function.update s.ptrs s.program.created ptrs
  }
  lift (Program.emplaceBack inst exports memory)

-- `result` ends with the iteration.
def loadMinst (thread : ThreadId) (systems : List (SystemId × String)) (build : Build) :
    CountedM (Option SiError) := do
  match ← create thread build with
  | .error err        =>
    lift (modify ({ · with lastErrorMessage := err.message }))
    return some (← lift (Program.createError err.code))
  | .ok (inst, result) =>
    match getSystemImplExports inst systems fun _ => none with
    | .error err  =>
      destroy result
      return some err
    | .ok exports =>
      let wasmMem := inst.exports.find? (·.kind = .memory)
      lift (Program.assert wasmMem.isSome)
      match wasmMem with
      | none        => throw (.undefined "wasm_mem")
      | some memory =>
        lift (Program.onThread thread (onCallMem (enterInitialize memory.ptr)))
        let initTrap ← lift (Program.onThread thread (inst.callInitialize build.initRun))
        lift (Program.onThread thread (onCallMem (setCallMemData none 0)))
        match initTrap with
        | some _ =>
          destroy result
          return some .initializeFail
        | none   =>
          let (ptrs, result) := result.move
          makeShared inst exports memory ptrs
          destroy result
          return none

def loadLoop (thread : ThreadId) (systems : List (SystemId × String)) (builds : Nat → Build) :
    Nat → Nat → CountedM (Option SiError)
  | 0,     _ => return none
  | n + 1, i => do
    match ← loadMinst thread systems (builds i) with
    | some err => return some err
    | none     => loadLoop thread systems builds n (i + 1)

-- `all_minsts.clear()`
def clear : CountedM Unit :=
  modify fun s =>
    let s' := s.releaseAll (s.program.allMinsts.map (·.id))
    { s' with program := { s'.program with allMinsts := [] } }

def ecsactSiWasmLoad (thread : ThreadId) (systems : List (SystemId × String))
    (builds : Nat → Build) : CountedM SiError := do
  if !(← get).program.setSystemExecutionImpl then return .noSetSystemExecution
  clear
  match ← loadLoop thread systems builds 100 0 with
  | some err => return err
  | none     =>
    lift (modify fun p => { p with registered := p.registered ++ systems.map Prod.fst })
    return .ok

def ecsactSiWasmReset : CountedM Unit := do
  clear
  lift (modify ({ · with nextAvailableIndex := 0 }))

-- `thread_minst.lock()`, by the count in the control block.
def lock (thread : ThreadId) : CountedM (Option SystemImpls) := do
  match (← get).program.threadMinst thread with
  | none   => return none
  | some m =>
    if (← get).blocks.expired m.id then return none
    modify fun s => { s with blocks := s.blocks.copy m.id }
    return some m

def ensureMinst (thread : ThreadId) : CountedM SystemImpls := do
  match ← lock thread with
  | some minst => return minst
  | none       =>
    lift (modify fun p => { p with nextAvailableIndex := p.nextAvailableIndex + 1 })
    let p := (← get).program
    if p.allMinsts = [] then throw (.undefined "% 0")
    match p.allMinsts[p.nextAvailableIndex.toNat % p.allMinsts.length]? with
    | none       => throw (.undefined "all_minsts[index]")
    | some minst =>
      modify fun s => { s with blocks := s.blocks.copy minst.id }
      lift (modify fun p => { p with
        threadMinst := Function.update p.threadMinst thread (some minst)
      })
      return minst

def enterSystemImpl (thread : ThreadId) (ctx : CtxPtr) : CountedM (MinstExport × BitVec 32) := do
  let minst ← ensureMinst thread
  let systemId ← lift (Program.onThread thread (hostCall .id [.ctx ctx] (·.id)))
  lift (Program.assert (minst.sysImplExports systemId).isSome)
  match minst.sysImplExports systemId with
  | none     => throw (.undefined "itr->second")
  | some exp =>
    let handle ← lift (Program.onThread thread (onCallMem (enterSystem minst.memory.ptr ctx)))
    lift (modify fun p => { p with running := (thread, minst) :: p.running })
    return (exp, handle)

-- The reference of the execution ends after its call memory.
def leaveSystemImpl (thread : ThreadId) : CountedM Unit := do
  lift (Program.onThread thread (onCallMem (setCallMemData none 0)))
  modify fun s =>
    let s' := s.releaseAll <| (s.program.running.filter (·.1 = thread)).map (·.2.id)
    { s' with program := { s'.program with
        running := s'.program.running.filter (·.1 ≠ thread) } }

def run : Program.Event → CountedM Unit
  | .load thread systems builds => do
    let _ ← ecsactSiWasmLoad thread systems builds
    return
  | .reset                      => ecsactSiWasmReset
  | .enter thread ctx           => do
    let _ ← enterSystemImpl thread ctx
    return
  | .leave thread               => leaveSystemImpl thread
  | event                       => lift event.run

-- The result without the counts.
def project {α β : Type} (f : α → β) : EStateM.Result Fault Counted α → EStateM.Result Fault Program β
  | .ok a s    => .ok (f a) s.program
  | .error e s => .error e s.program

structure Step (s : Counted) (event : Program.Event) (s' : Counted) : Prop where
  enabled : event.Enabled s.program
  run     : Counted.run event s = .ok () s'

-- The programs which can be reached when the instances are counted, before the first of which nothing
-- has been made.
inductive Reachable : Counted → Prop
  | start {p : Program} : Program.Starts p → p.created = 0 → Reachable { program := p }
  | step {s s' : Counted} {event : Program.Event} : Reachable s → Step s event s' → Reachable s'

end Counted
end Ecsact
