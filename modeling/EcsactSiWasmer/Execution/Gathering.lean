import EcsactSiWasmer.Execution.Accesses
import EcsactSiWasmer.Execution.Guest
import EcsactSiWasmer.Imports.Iovecs

open Ecsact.CallMem

namespace Ecsact.ImportCall

variable (call : ImportCall) (w : World) (mem : MemPtr)

-- The guest's memory as the callback finds it.
def memory : LinearMemory :=
  call.stores w.memories mem

-- A write, in a call which is active, of buffers which the guest may pass, and with 4 bytes for their
-- number, as it is of 32 bits for the guest. The map of the texts has its keys in order.
structure Gathers : Prop where
  name   : call.name = "fd_write"
  active : callMemRead 0 .memory w.callMem = .ok mem w.callMem
  args   : Arrayed (call.memory w mem) (call.val 1) (call.val 2)
  ret    : (call.val 3).toNat < 2 ^ 31 ∧ (call.val 3).toNat + 4 ≤ (call.memory w mem).size
  texts  : Logger.Sorted w.logger.stdioStrings

-- The contents of the buffers, one after the other.
def payload : List Byte :=
  (call.memory w mem).bytes.gather (buffers (call.memory w mem).bytes (call.val 1) (call.val 2))

-- The text of one level is longer by the payload, which the guest learns the length of.
structure Appends (level : LogLevel) (w' : World) : Prop where
  errno : w'.results = [some (.i32 0)]
  text  : Logger.text level w'.logger.stdioStrings =
    Logger.text level w.logger.stdioStrings ++ call.payload w mem
  other : ∀ l ≠ level, Logger.text l w'.logger.stdioStrings = Logger.text l w.logger.stdioStrings
  count : (w'.memories mem).bytes.readWord 32 (call.val 3).toNat =
    BitVec.ofNat 32 (call.payload w mem).length

-- Nothing is written but the number of an error.
structure Declines (w' : World) : Prop where
  errno    : ∃ errno ≠ 0, w'.results = [some (.i32 errno)]
  logger   : w'.logger = w.logger
  memories : w'.memories = call.stores w.memories

-- The call returns, and the host has used no bytes but those of the guest's memory. What it has done is
-- a matter of the descriptor.
def Writes : Prop :=
  ∃ w', call.run w = .ok none w' ∧
    (∀ a ∈ w'.accesses, a.Inside mem (call.memory w mem).size) ∧
    (call.val 0 = wasiStdoutFd → call.Appends w mem .info w') ∧
    (call.val 0 = wasiStderrFd → call.Appends w mem .error w') ∧
    (call.val 0 ≠ wasiStdoutFd → call.val 0 ≠ wasiStderrFd → call.Declines w w')

end Ecsact.ImportCall
