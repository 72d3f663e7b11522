import EcsactSiWasmer.Execution.Guest
import EcsactSiWasmer.Objects.Program

open Ecsact.CallMem Ecsact.World

namespace Ecsact

-- `minst_error_code`
inductive MinstErrorCode
  | ok
  | compileFail
  | unresolvedGuestImport
  | instantiateFail
  deriving DecidableEq

-- `minst_error`
structure MinstError where
  code    : MinstErrorCode
  message : String
  deriving DecidableEq

-- An exported item as the module declares it.
structure ExportType where
  name : String
  kind : ExternKind
  deriving DecidableEq

structure Module where
  imports : List MinstImport
  exports : List ExportType

-- What the engine makes of the module in one iteration of the load: the module or an error, the
-- pointers of the exported items or an error, and the runs of the module's start function and of its
-- function `_initialize`, if it gets as far.
structure Build where
  module   : Except String Module
  externs  : Except String (List (BitVec 64))
  startRun : GuestRun := {}
  initRun  : GuestRun := {}

def importResolver (imp : MinstImport) : Option ImportResolveFunc :=
  if imp.module = "env" then guestEnvModuleImports.lookup imp.name
  else if imp.module = "wasi_snapshot_preview1" then guestWasiModuleImports.lookup imp.name
  else none

def unresolvedMessage (imp : MinstImport) : String :=
  "Guest import '" ++ imp.module ++ "." ++ imp.name ++ "' is unresolved"

namespace Minst

def findExport (inst : Minst) (name : String) : Option MinstExport :=
  inst.exports.find? (·.name = name)

-- `wasm_instance_new`
def instanceNew (build : Build) : CallbackM (Except String (List (BitVec 64))) := do
  match build.externs with
  | .error message => return .error message
  | .ok ptrs       =>
    match ← build.startRun.call with
    | some trap => return .error trap.message
    | none      => return .ok ptrs

def create (build : Build) : CallbackM (Except MinstError Minst) := do
  match build.module with
  | .error message => return .error ⟨.compileFail, message⟩
  | .ok module     =>
    match module.imports.find? fun imp => (importResolver imp).isNone with
    | some imp => return .error ⟨.unresolvedGuestImport, unresolvedMessage imp⟩
    | none     =>
      match ← instanceNew build with
      | .error message => return .error ⟨.instantiateFail, message⟩
      | .ok ptrs       => return .ok {
          imports := module.imports
          exports := List.zipWith (fun e ptr => ⟨e.name, e.kind, ptr⟩) module.exports ptrs
        }

end Minst

-- `func_call` of an exported item. The pointer of one which is not a function is used as one if the
-- assert is compiled out.
def MinstExport.funcCall (exp : MinstExport) (guest : GuestRun) : CallbackM (Option Trap) := do
  onCallMem (CallMem.assert (exp.kind = .func))
  if exp.kind = .func then guest.call else throw (.undefined "func")

def Minst.callInitialize (inst : Minst) (guest : GuestRun) : CallbackM (Option Trap) := do
  match inst.findExport "_initialize" with
  | some exp => exp.funcCall guest
  | none     => return none

-- The loop over the systems, from the exports that it has found so far.
def getSystemImplExports (inst : Minst) :
    List (SystemId × String) → (SystemId → Option MinstExport) →
    Except SiError (SystemId → Option MinstExport)
  | [],                    exports => .ok exports
  | (sysId, name) :: rest, exports =>
    match inst.findExport name with
    | none     => .error .exportNotFound
    | some exp =>
      if exp.kind ≠ .func then .error .exportInvalid
      else getSystemImplExports inst rest (Function.update exports sysId (some exp))

namespace Program

-- The switch over the error code, whose first case fails an assert and falls through.
def createError : MinstErrorCode → ProgramM SiError
  | .ok                    => do
    assert false
    return .compileFail
  | .compileFail           => return .compileFail
  | .unresolvedGuestImport => return .guestImportInvalid
  | .instantiateFail       => return .instantiateFail

def emplaceBack (inst : Minst) (exports : SystemId → Option MinstExport) (memory : MinstExport) :
    ProgramM Unit :=
  modify fun p => { p with
    allMinsts := p.allMinsts ++ [⟨p.created, inst, exports, memory⟩]
    created   := p.created + 1
  }

-- An iteration of the loop, with the error which it returns from the function.
def loadMinst (thread : ThreadId) (systems : List (SystemId × String)) (build : Build) :
    ProgramM (Option SiError) := do
  match ← onThread thread (Minst.create build) with
  | .error err =>
    modify ({ · with lastErrorMessage := err.message })
    return some (← createError err.code)
  | .ok inst   =>
    match getSystemImplExports inst systems fun _ => none with
    | .error err  => return some err
    | .ok exports =>
      let wasmMem := inst.exports.find? (·.kind = .memory)
      assert wasmMem.isSome
      match wasmMem with
      | none        => throw (.undefined "wasm_mem")
      | some memory =>
        onThread thread (onCallMem (enterInitialize memory.ptr))
        let initTrap ← onThread thread (inst.callInitialize build.initRun)
        onThread thread (onCallMem (setCallMemData none 0))
        match initTrap with
        | some _ => return some .initializeFail
        | none   =>
          emplaceBack inst exports memory
          return none

def loadLoop (thread : ThreadId) (systems : List (SystemId × String)) (builds : Nat → Build) :
    Nat → Nat → ProgramM (Option SiError)
  | 0,     _ => return none
  | n + 1, i => do
    match ← loadMinst thread systems (builds i) with
    | some err => return some err
    | none     => loadLoop thread systems builds n (i + 1)

def ecsactSiWasmLoad (thread : ThreadId) (systems : List (SystemId × String))
    (builds : Nat → Build) : ProgramM SiError := do
  if !(← get).setSystemExecutionImpl then return .noSetSystemExecution
  modify ({ · with allMinsts := [] })
  match ← loadLoop thread systems builds 100 0 with
  | some err => return err
  | none     =>
    modify fun p => { p with registered := p.registered ++ systems.map Prod.fst }
    return .ok

-- What `fopen` and `fread` make of a file.
inductive LoadedFile
  | missing
  | unread
  | content (bytes : List Byte)

-- A file without a byte counts as one that could not be read, as `fread` returns 0.
def ecsactSiWasmLoadFile (thread : ThreadId) (file : LoadedFile)
    (systems : List (SystemId × String)) (engine : List Byte → Nat → Build) : ProgramM SiError :=
  match file with
  | .missing       => return .fileOpenFail
  | .unread        => return .fileReadFail
  | .content []    => return .fileReadFail
  | .content bytes => ecsactSiWasmLoad thread systems (engine bytes)

def messageBytes (p : Program) : List Byte :=
  p.lastErrorMessage.toUTF8.data.toList.map (·.toBitVec)

def ecsactSiWasmLastErrorMessageLength : ProgramM (BitVec 32) := do
  return BitVec.ofNat 32 (← get).messageBytes.length

-- The bytes which are copied to `out_message`.
def ecsactSiWasmLastErrorMessage (messageMaxLength : BitVec 32) : ProgramM (List Byte) := do
  let message := (← get).messageBytes
  let size := BitVec.ofNat 32 message.length
  return message.take (if size.slt messageMaxLength then size else messageMaxLength).toInt.toNat

end Program
end Ecsact
