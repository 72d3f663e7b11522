import EcsactSiWasmer.Execution.Grants
import EcsactSiWasmer.Imports.Iovecs

open Ecsact.CallMem

namespace Ecsact

-- The imports which get a descriptor or a count from the guest.
def numberImports : List String :=
  ["fd_read", "fd_close", "fd_fdstat_get", "fd_write", "ecsact_system_execution_context_generate"]

-- A file can be read, as it is open or can be opened.
def Files.opens (files : Files) (info : VirtualFileInfo) : Bool :=
  match info.openedFile with
  | some file => file.isSome
  | none      => (files.disk (cStr info.realPath)).isSome

namespace ImportCall

variable (call : ImportCall) (w : World)

-- The call returns an error and leaves the files and the guests' memories as they were.
def ReportsUnknown : Prop :=
  ∃ w' errno, call.run w = .ok none w' ∧ w'.results = [some (.i32 errno)] ∧ errno ≠ 0 ∧
    w'.files = w.files ∧ w'.memories = (call.enter w).memories

structure Total : Prop where
  returns : ∃ trap w', call.run w = .ok trap w'
  unknown : call.name ≠ "ecsact_system_execution_context_generate" → ¬IsStdio (call.val 0) →
    w.files.virtualFiles (call.val 0) = none → call.ReportsUnknown w

-- All buffers of a read are empty.
def AsksForNothing (mem : MemPtr) : Prop :=
  ∀ j < (call.val 2).toInt.toNat,
    ¬0 < (iovecAt ((call.enter w).memories mem).bytes (call.val 1).toInt j).bufLen.toInt

def FindsMemory (mem : MemPtr) : Prop :=
  callMemRead 0 .memory w.callMem = .ok mem w.callMem

-- What each of the callbacks needs of the guest's numbers, in a call which is active.
structure Answerable : Prop where
  read     : call.name = "fd_read" → ∃ mem info, FindsMemory w mem ∧
    w.files.virtualFiles (call.val 0) = some info ∧
    (w.files.opens info ∨ call.AsksForNothing w mem)
  close    : call.name = "fd_close" → (w.callMem.ndebug = false → w.callMem.info.isSome) ∧
    (IsStdio (call.val 0) ∨ ∃ info, w.files.virtualFiles (call.val 0) = some info ∧
      info.openedFile ≠ some none)
  fdstat   : call.name = "fd_fdstat_get" → ∃ mem, FindsMemory w mem ∧
    (IsStdio (call.val 0) ∨ w.files.virtualFiles (call.val 0) ≠ none ∨
      ((call.enter w).memories mem).bytes.read (call.val 1).toInt 24 = ({} : Fdstat).encode)
  write    : call.name = "fd_write" → ∃ mem, FindsMemory w mem
  generate : call.name = "ecsact_system_execution_context_generate" →
    ∃ ctx mem, w.callMem.Denotes (call.val 0) ctx mem ∧ 0 ≤ (call.val 1).toInt ∧
      (call.val 3 ≠ 0 ∨ call.val 1 = 0)

end ImportCall
end Ecsact
