import EcsactSiWasmer.Execution.System

namespace Ecsact

-- The types of WebAssembly. The callbacks' own are those of two kinds only.
inductive ValType
  | i32
  | i64
  | f32
  | f64
  | other (n : Nat)
  deriving DecidableEq

structure Signature where
  params  : List ValType
  results : List ValType
  deriving DecidableEq

inductive ExternType
  | func (type : Signature)
  | global
  | table
  | memory
  deriving DecidableEq

def ExternType.kind : ExternType → ExternKind
  | func _ => .func
  | global => .global
  | table  => .table
  | memory => .memory

-- A module as its bytes describe it, with the types of what it exports. Those of its imports are
-- looked at by the engine alone, when it makes an instance.
structure ModuleType where
  imports : List MinstImport
  exports : List (String × ExternType)

namespace ModuleType

variable (m : ModuleType)

-- What is left of it where the load only asks for kinds.
def module : Module where
  imports := m.imports
  exports := m.exports.map fun e => ⟨e.1, e.2.kind⟩

-- The exports of an instance of it, by the pointers which the engine has for them.
def instExports (ptrs : List (BitVec 64)) : List MinstExport :=
  List.zipWith (fun e ptr => ⟨e.1, e.2.kind, ptr⟩) m.exports ptrs

def typeOf (name : String) : Option ExternType :=
  (m.exports.find? (·.1 = name)).map (·.2)

def resolved : Bool :=
  m.imports.all fun imp => (importResolver imp).isSome

-- `ecsact_si_wasm_system_impl` calls a function with one `int32_t`, and takes no results.
def systemType : ExternType :=
  .func ⟨[.i32], []⟩

-- What is wrong with the export of a name which the load is to use for a system.
def requestError (name : String) : Option SiError :=
  match m.typeOf name with
  | none      => some .exportNotFound
  | some type => if type = systemType then none else some .exportInvalid

-- The part of this for which a type is not needed.
def kindError (name : String) : Option SiError :=
  match m.typeOf name with
  | none      => some .exportNotFound
  | some type => if type.kind = .func then none else some .exportInvalid

def firstError (error : String → Option SiError) (systems : List (SystemId × String)) :
    Option SiError :=
  systems.findSome? fun e => error e.2

def hasMemory : Bool :=
  m.exports.any (·.2 = .memory)

-- `_initialize` is called without arguments.
def initializable : Bool :=
  match m.typeOf "_initialize" with
  | none              => true
  | some (.func type) => type.params = []
  | some _            => false

end ModuleType

-- The checks of a load, in their order.
inductive Stage
  | setSystemExecution
  | compile
  | imports
  | instantiate
  | exports (err : SiError)
  | memory
  | init
  deriving DecidableEq

-- The error by which a load tells which check has failed. None is for a module without a memory, so
-- any will do there.
def Stage.Reports : Stage → SiError → Prop
  | setSystemExecution, err => err = .noSetSystemExecution
  | compile,            err => err = .compileFail
  | imports,            err => err = .guestImportInvalid
  | instantiate,        err => err = .instantiateFail
  | exports err',       err => err = err'
  | memory,             err => err ≠ .ok
  | init,               err => err = .initializeFail

def Stage.Tells : Option Stage → SiError → Prop
  | none,       err => err = .ok
  | some stage, err => stage.Reports err

-- What the engine makes of a module in one iteration of the load.
structure Attempt where
  module   : Except String ModuleType
  externs  : Except String (List (BitVec 64))
  startRun : GuestRun := {}
  initRun  : GuestRun := {}

namespace Attempt

variable (a : Attempt)

def build : Build where
  module   := a.module.map ModuleType.module
  externs  := a.externs
  startRun := a.startRun
  initRun  := a.initRun

-- The engine has a pointer for each exported item. It does not call a function without the arguments
-- which that takes, but traps.
structure Specified : Prop where
  externs : ∀ m ptrs, a.module = .ok m → a.externs = .ok ptrs → ptrs.length = m.exports.length
  arity   : ∀ m type, a.module = .ok m → m.typeOf "_initialize" = some (.func type) →
    type.params ≠ [] → a.initRun.calls = [] ∧ a.initRun.trap.isSome

-- The first check which fails, of those behind the instantiation and of all.

def failureOf (m : ModuleType) (systems : List (SystemId × String)) : Option Stage :=
  match ModuleType.firstError m.requestError systems with
  | some err => some (.exports err)
  | none     =>
    if !m.hasMemory then some .memory
    else if !m.initializable then some .init
    else if (m.typeOf "_initialize").isSome && a.initRun.trap.isSome then some .init
    else none

def failure (systems : List (SystemId × String)) : Option Stage :=
  match a.module with
  | .error _ => some .compile
  | .ok m    =>
    if !m.resolved then some .imports
    else
      match a.externs with
      | .error _ => some .instantiate
      | .ok _    =>
        if a.startRun.trap.isSome then some .instantiate
        else a.failureOf m systems

-- The module and the pointers of its exports, if the engine gets to make an instance.
def linked : Option (ModuleType × List (BitVec 64)) :=
  match a.module, a.externs with
  | .ok m, .ok ptrs => if m.resolved then some (m, ptrs) else none
  | _,     _        => none

end Attempt

-- A guest's function returns, with a trap or without, to the thread which calls it.
def GuestRun.Returns (guest : GuestRun) (thread : ThreadId) (p : Program) : Prop :=
  ∃ trap p', Program.onThread thread guest.call p = .ok trap p'

-- The shapes of a module with which the load can deal in an iteration that it starts in a state.
-- They are needed of what it looks at, as it stops at the first error which it finds.
structure Attempt.Suits (a : Attempt) (thread : ThreadId) (systems : List (SystemId × String))
    (p : Program) (m : ModuleType) (ptrs : List (BitVec 64)) : Prop where
  start    : a.startRun.Returns thread p
  types    : a.startRun.trap = none → ∀ e ∈ systems.takeWhile (m.kindError ·.2 = none),
    m.requestError e.2 = none ∨
      ModuleType.firstError m.kindError systems = some .exportInvalid
  memory   : a.startRun.trap = none → ModuleType.firstError m.kindError systems = none → m.hasMemory
  function : a.startRun.trap = none → ModuleType.firstError m.kindError systems = none →
    ∀ type, m.typeOf "_initialize" = some type → type.kind = .func
  init     : a.startRun.trap = none → ModuleType.firstError m.kindError systems = none →
    (m.typeOf "_initialize").isSome → ∀ memory trap p₁ p₂,
    (m.instExports ptrs).find? (·.kind = .memory) = some memory →
    Program.onThread thread a.startRun.call p = .ok trap p₁ →
    Program.onThread thread (World.onCallMem (CallMem.enterInitialize memory.ptr)) p₁ = .ok () p₂ →
    a.initRun.Returns thread p₂

namespace Program

variable (thread : ThreadId) (systems : List (SystemId × String)) (attempts : Nat → Attempt)
  (p : Program)

def builds (i : Nat) : Build :=
  (attempts i).build

def firstFailure : Option Stage :=
  if !p.setSystemExecutionImpl then some .setSystemExecution
  else (List.range 100).findSome? fun i => (attempts i).failure systems

-- The load returns, and its error tells which check has failed first, if any has.
def LoadReports : Prop :=
  ∃ err p', ecsactSiWasmLoad thread systems (builds attempts) p = .ok err p' ∧
    Stage.Tells (firstFailure systems attempts p) err

-- The iterations which the load gets to, by the states that it starts them in.
def Iterates (i : Nat) (p' : Program) : Prop :=
  i < 100 ∧ p.setSystemExecutionImpl = true ∧
    loadLoop thread systems (builds attempts) i 0 { p with allMinsts := [] } = .ok none p'

end Program
end Ecsact
