import EcsactSiWasmer.Imports.Tables

open Ecsact.CallMem Ecsact.World

namespace Ecsact

-- `ecsact_system_like_id`
abbrev SystemId := BitVec 32

-- `wasm_externkind_t`
inductive ExternKind
  | func
  | global
  | table
  | memory
  deriving DecidableEq

-- `minst_export`, with the pointer of its union.
structure MinstExport where
  name : String
  kind : ExternKind
  ptr  : BitVec 64
  deriving DecidableEq

-- `minst_import`
structure MinstImport where
  module : String
  name   : String
  deriving DecidableEq

structure Minst where
  imports : List MinstImport
  exports : List MinstExport

-- `minst_ecsact_system_impls`. The number by which an instance differs from all others is not in the
-- source, where it is its address.
structure SystemImpls where
  id             : Nat
  minst          : Minst
  sysImplExports : SystemId → Option MinstExport
  memory         : MinstExport

-- `ecsact_si_wasm_error`
inductive SiError
  | ok
  | fileOpenFail
  | fileReadFail
  | compileFail
  | instantiateFail
  | exportNotFound
  | exportInvalid
  | guestImportInvalid
  | initializeFail
  | noSetSystemExecution
  deriving DecidableEq

-- `ecsact_si_wasm_trap_handler`
abbrev TrapHandler := BitVec 64

-- A call of a trap handler.
structure TrapReport where
  handler  : TrapHandler
  systemId : SystemId
  message  : String
  deriving DecidableEq

-- What the program keeps in its variables, those of each thread included. Not in the source are
-- `running`, the references which the executions in flight hold in their local variables, `created`,
-- the number of the instances made so far, `registered`, which is the runtime's, `threads`, and
-- `reports`.
structure Program where
  world                  : World
  callMemInfo            : ThreadId → Option CallMemInfo
  setSystemExecutionImpl : Bool
  trapHandler            : Option TrapHandler               := none
  lastErrorMessage       : String                           := ""
  allMinsts              : List SystemImpls                 := []
  nextAvailableIndex     : BitVec 64                        := 0
  threadMinst            : ThreadId → Option SystemImpls    := fun _ => none
  running                : List (ThreadId × SystemImpls)    := []
  created                : Nat                              := 0
  registered             : List SystemId                    := []
  threads                : List ThreadId                    := []
  reports                : List TrapReport                  := []

abbrev ProgramM := EStateM Fault Program

namespace Program

-- What a thread can reach.
def view (thread : ThreadId) (p : Program) : World :=
  { p.world with callMem := { p.world.callMem with info := p.callMemInfo thread } }

def put (thread : ThreadId) (w : World) (p : Program) : Program :=
  { p with
    world       := w
    callMemInfo := Function.update p.callMemInfo thread w.callMem.info
  }

def onThread {α : Type} (thread : ThreadId) (x : CallbackM α) : ProgramM α :=
  EStateM.zoom (view thread) (put thread) x

def assert (c : Bool) : ProgramM Unit := do
  if !(← get).world.callMem.ndebug && !c then throw .assertFailed

-- An instance is there for as long as the pool or an execution refers to it.
def holds (p : Program) (m : SystemImpls) : Bool :=
  p.allMinsts.any (·.id == m.id) || p.running.any (·.2.id == m.id)

-- `thread_minst.lock()`
def lock (p : Program) (thread : ThreadId) : Option SystemImpls :=
  (p.threadMinst thread).filter p.holds

-- The program as it starts.
def initial (runtime : Runtime) (ndebug : Bool) : Program where
  world                  := .idle runtime ndebug
  callMemInfo            := fun _ => none
  setSystemExecutionImpl := true

end Program
end Ecsact
