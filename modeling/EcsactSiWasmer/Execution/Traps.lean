import EcsactSiWasmer.Execution.System

namespace Ecsact

namespace ImportCall

-- The imports that a guest calls, up to the first which does not return to it.
def made : List ImportCall → World → List ImportCall
  | [],            _ => []
  | call :: calls, w =>
    match call.run w with
    | .ok none w' => call :: made calls w'
    | _           => [call]

def Exits (calls : List ImportCall) : Prop :=
  ∃ call ∈ calls, call.name = "proc_exit"

-- Nothing is called after `proc_exit`.
def Stops (calls : List ImportCall) : Prop :=
  calls.Pairwise fun call _ => call.name ≠ "proc_exit"

end ImportCall

open ImportCall

namespace Program

-- A call of one of the two functions, with what the guest does in an execution.
inductive Call
  | setTrapHandler (handler : Option TrapHandler)
  | systemImpl (thread : ThreadId) (ctx : CtxPtr) (guest : BitVec 32 → GuestRun)

def Call.run : Call → ProgramM Unit
  | setTrapHandler handler      => ecsactSiWasmSetTrapHandler handler
  | systemImpl thread ctx guest => ecsactSiWasmSystemImpl thread ctx guest

def runCalls : List Call → ProgramM Unit
  | []            => return
  | call :: calls => do
    call.run
    runCalls calls

-- One call of the installed handler, if there is one.
def report (p : Program) (id : SystemId) (message : String) : List TrapReport :=
  (p.trapHandler.map fun handler => ⟨handler, id, message⟩).toList

-- What the handler has to be told of an execution, by the guest's calls and the trap that its
-- function has returned.
def Reports (p p' : Program) (id : SystemId) (calls : List ImportCall) : Option Trap → Prop
  | some trap => p'.reports = p.reports ++ p.report id trap.message
  | none      =>
    (Exits calls → ∃ message, p'.reports = p.reports ++ p.report id message) ∧
    (¬Exits calls → p'.reports = p.reports)

def Call.Tells (p p' : Program) : Call → Prop
  | setTrapHandler _            => p'.reports = p.reports
  | systemImpl thread ctx guest => ∃ exp handle p₁ trap w,
    enterSystemImpl thread ctx p = .ok (exp, handle) p₁ ∧
    exp.funcCall (guest handle) (p₁.view thread) = .ok trap w ∧
    Stops (made (guest handle).calls (p₁.view thread)) ∧
    p.Reports p' (p.systemId thread ctx) (made (guest handle).calls (p₁.view thread)) trap

-- No end of a guest's function is lost in a sequence of calls.
def Tell : List Call → Program → Prop
  | [],            _ => True
  | call :: calls, p => ∃ p', call.run p = .ok () p' ∧ call.Tells p p' ∧ Tell calls p'

-- There is nothing to be told, as either no handler is installed or each guest returns, and no guest
-- goes on after `proc_exit`. All guests are given the handle 8.
def Uneventful : Option TrapHandler → List Call → Prop
  | _,       []                         => True
  | _,       .setTrapHandler h :: calls => Uneventful h calls
  | handler, .systemImpl _ _ g :: calls =>
    (Stops (g 8).calls ∧ (handler = none ∨ (g 8).trap = none ∧ ¬Exits (g 8).calls)) ∧
    Uneventful handler calls

end Program
end Ecsact
