import EcsactSiWasmer.Execution.Bindings
import Mathlib.Data.Set.Lattice
import Mathlib.Order.CompletePartialOrder

open Ecsact.CallMem

namespace Ecsact

-- The handles which a guest was given during a call of a system, each with the context that it was
-- issued for.
abbrev IssuedHandles := List (BitVec 32 × CtxPtr)

-- The call passes no other handles. The API says which of its arguments are.
def ImportCall.PassesIssued (call : ImportCall) (issued : IssuedHandles) : Prop :=
  ∀ n, (call.name, n) ∈ nativeApi → ∀ e ∈ call.vals.zip n.roles, e.2 = .context →
    ∃ ctx, (e.1, ctx) ∈ issued

-- The buffer has space for the two slots of one more handle.
def World.HasRoom (w : World) : Prop :=
  ∀ info, w.callMem.info = some info → info.dataOffset + 16 ≤ info.maxSize

-- The states of a system's execution between the guest's calls, in which it passes handles that it
-- was given only. All but the call memory, which is the thread's own, may change in between.
inductive Execution (mem : MemPtr) : World → IssuedHandles → Prop
  | enter {w : World} {ctx : CtxPtr} {handle : BitVec 32} {c : CallMem} :
      enterSystem mem ctx w.callMem = .ok handle c →
      Execution mem { w with callMem := c } [(handle, ctx)]
  | derive {w w' : World} {issued : IssuedHandles} {call : ImportCall} {n : Native} {ctx : CtxPtr}
      {handle : BitVec 32} : Execution mem w issued → (call.name, n) ∈ nativeApi → n.asksId →
      call.PassesIssued issued → w.HasRoom → call.run w = .ok none w' →
      n.answer mem (issued.lookup ·) call w = .context ctx → w'.results = [some (.i32 handle)] →
      Execution mem w' (issued ++ [(handle, ctx)])
  | other {w w' : World} {issued : IssuedHandles} {call : ImportCall} : Execution mem w issued →
      ¬DerivesHandle call.name → call.PassesIssued issued → call.run w = .ok none w' →
      Execution mem w' issued
  | elsewhere {w w' : World} {issued : IssuedHandles} : Execution mem w issued →
      w'.callMem = w.callMem → Execution mem w' issued

-- The bytes of a handle's slots, that of the memory before that of the context.
def slotsOf (handle : BitVec 32) : Set Nat :=
  {i | handle.toNat - 8 ≤ i ∧ i < handle.toNat + 8}

-- Each handle resolves to what it was issued for, and the guest's next call ends in no assert.
structure Stable (mem : MemPtr) (w : World) (issued : IssuedHandles) : Prop where
  context  : ∀ p ∈ issued, getExecutionContext (.i32 p.1) w = .ok p.2 w
  memory   : ∀ p ∈ issued, getExecutionContextMemory (.i32 p.1) w = .ok mem w
  disjoint : issued.Pairwise fun p q => p.1 ≠ q.1 ∧ Disjoint (slotsOf p.1) (slotsOf q.1)
  asserts  : ∀ call : ImportCall, call.PassesIssued issued →
    (DerivesHandle call.name → w.HasRoom) →
      ∀ e w', call.run w = .error e w' → e ≠ .assertFailed

-- The states of an execution in which the guest may pass any values as handles, with the handles that
-- it was given.
inductive AnyExecution (mem : MemPtr) : World → List (BitVec 32) → Prop
  | enter {w : World} {ctx : CtxPtr} {handle : BitVec 32} {c : CallMem} :
      enterSystem mem ctx w.callMem = .ok handle c →
      AnyExecution mem { w with callMem := c } [handle]
  | derive {w w' : World} {handles : List (BitVec 32)} {call : ImportCall} {handle : BitVec 32} :
      AnyExecution mem w handles → DerivesHandle call.name → call.run w = .ok none w' →
      w'.results = [some (.i32 handle)] → AnyExecution mem w' (handles ++ [handle])
  | other {w w' : World} {handles : List (BitVec 32)} {call : ImportCall} :
      AnyExecution mem w handles → ¬DerivesHandle call.name → call.run w = .ok none w' →
      AnyExecution mem w' handles
  | elsewhere {w w' : World} {handles : List (BitVec 32)} : AnyExecution mem w handles →
      w'.callMem = w.callMem → AnyExecution mem w' handles

-- The eight bytes which start at a handle are in the buffer.
def CallMemInfo.Has (info : CallMemInfo) (handle : BitVec 32) : Prop :=
  0 ≤ handle.toInt ∧ handle.toInt + 8 ≤ info.maxSize

-- Those bytes, whatever they hold.
def CallMemInfo.wordAt (info : CallMemInfo) (handle : BitVec 32) : CtxPtr :=
  info.data.readWord 64 handle.toInt

namespace ImportCall

variable (call : ImportCall) (n : Native) (w : World)

def PassesForged (handles : List (BitVec 32)) : Prop :=
  ∃ i : Nat, n.roles[i]? = some .context ∧ call.val i ∉ handles

-- The process ends in an assert. So far the call has reached neither the runtime nor guest memory.
def Asserts : Prop :=
  ∃ w', call.run w = .error .assertFailed w' ∧ w'.hostCalls = w.hostCalls ∧
    w'.memories = (call.enter w).memories ∧ w'.accesses = []

-- What a call of the runtime gets as its contexts are the words at the handles.
def PassesWords (info : CallMemInfo) (c : HostCall) : Prop :=
  c.args ≠ [] ∧ ∀ (i : Nat) arg, n.roles[i]? = some .context → c.args[i]? = some arg →
    arg = .ctx (info.wordAt (call.val i))

-- What the call looks up and adds is in the buffer. Two of the bindings look for no memory in front of
-- a handle.
structure InBuffer (info : CallMemInfo) : Prop where
  contexts : ∀ i : Nat, n.roles[i]? = some .context → info.Has (call.val i)
  memory   : n.fn ≠ .same → n.fn ≠ .entity → info.Has (call.val 0 - 8)
  room     : DerivesHandle call.name → w.HasRoom

-- The call does not trap, and cannot return without a call of the runtime. What it does outside of the
-- buffer is undefined in C++.
def Unchecked : Prop :=
  ∃ info, w.callMem.info = some info ∧ info.maxSize = 4096 ∧
    (∀ handle, info.Has handle →
      getExecutionContext (.i32 handle) w = .ok (info.wordAt handle) w) ∧
    (call.InBuffer n w info → ∃ made, (call.run w).state.hostCalls = w.hostCalls ++ made ∧
      (∀ c ∈ made, call.PassesWords n info c) ∧
      ∀ trap w', call.run w = .ok trap w' → trap = none ∧ made ≠ [])

end ImportCall
end Ecsact
