import EcsactSiWasmer.Execution.Exchange
import EcsactSiWasmer.Execution.Hosting
import EcsactSiWasmer.Execution.Totality

open Ecsact.World

namespace Ecsact

-- What a call of an import needs to return, besides handles that the guest was given and space for
-- those that it asks for.
structure ImportCall.Returnable (call : ImportCall) (w : World) (mem : MemPtr) : Prop where
  has      : call.name ≠ "ecsact_system_execution_context_has"
  generate : call.name = "ecsact_system_execution_context_generate" →
    0 ≤ (call.val 1).toInt ∧ (call.val 3 ≠ 0 ∨ call.val 1 = 0)
  read     : call.name = "fd_read" → ∃ info, w.files.virtualFiles (call.val 0) = some info ∧
    (w.files.opens info ∨ call.AsksForNothing w mem)
  close    : call.name = "fd_close" → IsStdio (call.val 0) ∨
    ∃ info, w.files.virtualFiles (call.val 0) = some info ∧ info.openedFile ≠ some none

namespace Program

-- The instance which a thread's next execution gets.
def seat (p : Program) (thread : ThreadId) : Option SystemImpls :=
  (p.lock thread).or p.allMinsts[(p.nextAvailableIndex + 1).toNat % p.allMinsts.length]?

namespace Event

-- What a step needs not to end in a fault, if it is no load.
def Returns (p : Program) : Event → Prop
  | enter thread ctx  => ∃ minst, p.seat thread = some minst ∧
    (minst.sysImplExports (p.systemId thread ctx)).isSome
  | guest thread call => ∃ minst, (thread, minst) ∈ p.running ∧
    call.Returnable (p.view thread) minst.memory.ptr
  | _                 => True

end Event

-- The runs of all that the host and the guests can do, with the handles of each thread's execution and
-- the grants of the host. Others may change the files of the host at any time.
inductive Embedded : (ThreadId → IssuedHandles) → List Grant → Program → Prop
  | start {p : Program} {disk : String → Option (List Byte)} : Starts p →
      p.callMemInfo = (fun _ => none) → p.world.files = { disk := disk } →
      p.world.logger = Logger.initial → Embedded (fun _ => []) [] p
  | step {issued issued' : ThreadId → IssuedHandles} {grants : List Grant} {p p' : Program} :
      Embedded issued grants p → Hosts issued p issued' p' → Embedded issued' grants p'
  | allow {issued : ThreadId → IssuedHandles} {grants : List Grant} {p p' : Program}
      {realPath virtualPath : String} {fd : BitVec 32} : Embedded issued grants p →
      ecsactSiWasmAllowFileReadAccess realPath virtualPath p = .ok fd p' →
      Embedded issued (grants ++ [⟨realPath, virtualPath, fd⟩]) p'
  | consume {issued : ThreadId → IssuedHandles} {grants : List Grant} {p : Program}
      {thread : ThreadId} {reaction : Logger.Reaction LogLevel} {ops : List (Logger.Op LogLevel)}
      {logger : Logger LogLevel} : Embedded issued grants p →
      (Logger.Event.consume thread reaction).run p.world.logger = some (ops, logger) →
      Embedded issued grants { p with world := { p.world with logger := logger } }
  | elsewhere {issued : ThreadId → IssuedHandles} {grants : List Grant} {p : Program}
      {disk : String → Option (List Byte)} {content : Nat → List Byte} : Embedded issued grants p →
      Embedded issued grants { p with world := { p.world with files := { p.world.files with
        disk    := disk
        streams := p.world.files.streams.mapIdx fun k s => { s with content := content k }
      } } }

-- Guests which keep to what is theirs see nothing of the host's files but what is granted, do nothing
-- about what is granted, and touch nothing outside of their memories, also in a step that ends in a
-- fault.
structure Confines (issued : ThreadId → IssuedHandles) (grants : List Grant) (p : Program) :
    Prop where
  refines : Files.Refines grants p.world.files
  streams : ∀ s ∈ p.world.files.streams, ∃ g ∈ grants, s.Reads g
  reads   : ∀ event : Event, event.Abides issued p → ∀ b ∈ event.begun p, b.1.name = "fd_read" →
    Delivers grants (b.1.val 0) (b.1.run b.2).state
  keeps   : ∀ event : Event, event.Abides issued p →
    Files.SameMappings p.world.files (event.run p).state.world.files
  inside  : ∀ event : Event, event.Abides issued p → ∀ b ∈ event.begun p, ∀ mem, b.1.Finds b.2 mem →
    ∀ a ∈ (b.1.run b.2).state.accesses, a.Inside mem (b.1.memory b.2 mem).size

end Program
end Ecsact
