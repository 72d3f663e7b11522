import EcsactSiWasmer.Execution.Accesses
import EcsactSiWasmer.Execution.Account
import EcsactSiWasmer.Execution.Gathering
import EcsactSiWasmer.Execution.Handles

namespace Ecsact

-- A pointer is null, or it is to one of the `size` bytes of the guest memory at `mem`.
def HostPtr.Into (mem : MemPtr) (size : Nat) : HostPtr → Prop
  | null             => True
  | data mem' offset => mem' = mem ∧ 0 ≤ offset ∧ offset < size

namespace ImportCall

variable (call : ImportCall) (w : World) (mem : MemPtr)

-- The guest's words are addresses in its memory if the host uses them as such: for the ranges which the
-- call names, and for what the runtime is to use. The flag is one of these, as a binding takes a
-- pointer from it. What the host does with other addresses is undefined in C++.
structure InBounds : Prop where
  named   : ∀ write v k n, call.Names (call.run w).state.accesses write v k n →
    v.toNat < 2 ^ 31 ∧ v.toNat + k + n ≤ (call.memory w mem).size
  pointed : ∀ v, call.Points (call.run w).state.accesses v →
    v.toNat < 2 ^ 31 ∧ v.toNat < (call.memory w mem).size
  flag    : call.name = "ecsact_system_execution_context_stream_toggle" →
    (call.val 2).toNat < 2 ^ 31 ∧ (call.val 2).toNat < (call.memory w mem).size

end ImportCall

namespace Program.Event

-- The handles which the guests of a step have been given. Those of a load have none.
def given (issued : ThreadId → IssuedHandles) : Event → IssuedHandles
  | guest thread _ => issued thread
  | _              => []

-- The steps in which guests pass no other handles.
def PassesIssued (issued : ThreadId → IssuedHandles) (p : Program) (event : Event) : Prop :=
  ∀ b ∈ event.begun p, b.1.PassesIssued (event.given issued)

-- The steps in which no guest asks for more handles than its call memory has space for.
def Fits (p : Program) (event : Event) : Prop :=
  ∀ b ∈ event.begun p, DerivesHandle b.1.name → b.2.HasRoom

-- The steps in which guests name nothing outside of their memories.
def InBounds (p : Program) (event : Event) : Prop :=
  ∀ b ∈ event.begun p, ∀ mem, b.1.Finds b.2 mem → b.1.InBounds b.2 mem

-- The steps in which guests keep to what is theirs.
structure Abides (issued : ThreadId → IssuedHandles) (p : Program) (event : Event) : Prop where
  passes : event.PassesIssued issued p
  fits   : event.Fits p
  bounds : event.InBounds p

end Program.Event
end Ecsact
