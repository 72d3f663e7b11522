import EcsactSiWasmer.Execution.Guest

open Ecsact.CallMem

namespace Ecsact

-- All slots lie inside of the data.
def CallMemInfo.Roomy (info : CallMemInfo) : Prop :=
  ∀ s ∈ info.slots, s.offset + s.size ≤ info.maxSize

def CallMem.Roomy (c : CallMem) : Prop :=
  ∀ info, c.info = some info → info.Roomy

namespace ImportCall

abbrev Derives (call : ImportCall) : Prop :=
  DerivesHandle call.name

-- The calls of a run which hand out a handle and return.
def derivations (calls : List ImportCall) (w : World) : Nat :=
  (runAll calls w).1.countP (·.Derives)

-- The call memory with which the program's two callers let a guest run.
inductive Entered (c : CallMem) : CallMem → Prop
  | system {mem ctx handle c'} (h : enterSystem mem ctx c = .ok handle c') : Entered c c'
  | init {mem c'} (h : enterInitialize mem c = .ok () c') : Entered c c'

end ImportCall
end Ecsact
