import EcsactSiWasmer.Execution.Account
import EcsactSiWasmer.Execution.Gathering
import EcsactSiWasmer.Execution.Grants
import EcsactSiWasmer.Execution.Transactions

open Ecsact.CallMem Ecsact.World

namespace Ecsact

-- What a call adds to the stored strings: the buffers of a write to one of the two streams.
def ImportCall.pushes (call : ImportCall) (w : World) : List (LogLevel × List Byte) :=
  if call.name = "fd_write" ∧ (call.val 0 = wasiStderrFd ∨ call.val 0 = wasiStdoutFd) then
    match callMemRead 0 .memory w.callMem with
    | .error _ _ => []
    | .ok mem _  =>
      (writeBuffers (call.memory w mem).bytes (call.val 1).toInt 0 (call.val 2).toInt.toNat).map
        (stdLevel (call.val 0), ·)
  else []

-- A write to one of the two streams, of buffers which the guest may pass, in a call which is active.
structure ImportCall.Prints (call : ImportCall) (w : World) (mem : MemPtr) : Prop where
  name   : call.name = "fd_write"
  stream : call.val 0 = wasiStderrFd ∨ call.val 0 = wasiStdoutFd
  active : callMemRead 0 .memory w.callMem = .ok mem w.callMem
  args   : Vectored (call.memory w mem) (call.val 1) (call.val 2) (call.val 3)

namespace Program

def ecsactSiWasmAllowFileReadAccess (realPath virtualPath : String) : ProgramM (BitVec 32) :=
  EStateM.zoom world (fun w p => { p with world := w }) <|
    onFiles (Files.allowFileReadAccess realPath virtualPath)

def Event.output (p : Program) (event : Event) : List (LogLevel × List Byte) :=
  (event.begun p).flatMap fun b => b.1.pushes b.2

-- The runs of the program, whatever guests pass, with the grants of the host, what has happened to the
-- stored strings, and what the consumers have got. The host grants and consumes at any time, and
-- others change its files.
inductive Exchange : List Grant → List (Logger.Op LogLevel) → List (Logger.Delivery LogLevel) →
    Program → Prop
  | start {p : Program} {disk : String → Option (List Byte)} : Starts p →
      p.world.files = { disk := disk } → p.world.logger = Logger.initial → Exchange [] [] [] p
  | step {grants : List Grant} {ops : List (Logger.Op LogLevel)}
      {delivered : List (Logger.Delivery LogLevel)} {p p' : Program} {event : Event} :
      Exchange grants ops delivered p → Step p event p' →
      Exchange grants (ops ++ (event.output p).map fun s => .push s.1 s.2) delivered p'
  | allow {grants : List Grant} {ops : List (Logger.Op LogLevel)}
      {delivered : List (Logger.Delivery LogLevel)} {p p' : Program}
      {realPath virtualPath : String} {fd : BitVec 32} : Exchange grants ops delivered p →
      ecsactSiWasmAllowFileReadAccess realPath virtualPath p = .ok fd p' →
      Exchange (grants ++ [⟨realPath, virtualPath, fd⟩]) ops delivered p'
  | consume {grants : List Grant} {ops ops' : List (Logger.Op LogLevel)}
      {delivered : List (Logger.Delivery LogLevel)} {p : Program} {thread : ThreadId}
      {reaction : Logger.Reaction LogLevel} {logger : Logger LogLevel} :
      Exchange grants ops delivered p →
      (Logger.Event.consume thread reaction).run p.world.logger = some (ops', logger) →
      Exchange grants (ops ++ ops')
        (delivered ++ (Logger.Event.consume thread reaction).deliveries p.world.logger)
        { p with world := { p.world with logger := logger } }
  | elsewhere {grants : List Grant} {ops : List (Logger.Op LogLevel)}
      {delivered : List (Logger.Delivery LogLevel)} {p : Program}
      {disk : String → Option (List Byte)} {content : Nat → List Byte} :
      Exchange grants ops delivered p →
      Exchange grants ops delivered { p with world := { p.world with files := { p.world.files with
        disk    := disk
        streams := p.world.files.streams.mapIdx fun k s => { s with content := content k }
      } } }

-- What has been written to a level is passed on once and in its order, but for the text which is still
-- stored.
structure Conserves (ops : List (Logger.Op LogLevel))
    (delivered : List (Logger.Delivery LogLevel)) (p : Program) (level : LogLevel) : Prop where
  delivered : delivered.filter (·.logLevel = level) =
    (Logger.chunks level [] ops).flatMap fun t =>
      (Logger.messages t).map fun m => Logger.deliver ⟨level, m⟩
  text      : (Logger.chunks level [] ops).flatten ++ Logger.text level p.world.logger.stdioStrings =
    Logger.pushed level ops

end Program
end Ecsact
