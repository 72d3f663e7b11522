import EcsactSiWasmer.Imports.Tables

namespace Ecsact

-- A guest's call of an import, after what the guest has itself stored. The engine passes values of
-- the declared kinds, as the module has been validated against the types of its imports.
structure ImportCall where
  name   : String
  func   : ImportResolveFunc
  mem    : (name, func) ∈ importTables
  args   : List WasmVal
  typed  : args.map WasmVal.kind = func.funcType.params
  stores : (MemPtr → LinearMemory) → MemPtr → LinearMemory := id

namespace ImportCall

def vals (call : ImportCall) : List (BitVec 32) :=
  call.args.filterMap fun
    | .i32 v => some v
    | .i64 _ => none

def val (call : ImportCall) (i : Nat) : BitVec 32 :=
  call.vals.getD i 0

-- The world in which the callback of a call starts.
def enter (call : ImportCall) (w : World) : World :=
  { w with
    memories := call.stores w.memories
    accesses := []
    results  := .replicate call.func.funcType.results.length none
  }

def run (call : ImportCall) : CallbackM (Option Trap) := fun w =>
  call.func.funcCallback call.args (call.enter w)

-- The calls which return to the guest, up to the first which does not, and the last state.
def runAll : List ImportCall → World → List ImportCall × World
  | [],            w => ([], w)
  | call :: calls, w =>
    match call.run w with
    | .ok none w'     => let (done, w'') := runAll calls w'; (call :: done, w'')
    | .ok (some _) w' => ([], w')
    | .error _ w'     => ([], w')

end ImportCall

-- What a guest does when one of its functions is called: the imports that it calls, unless one of
-- them does not return, and the message of the trap that it ends in.
structure GuestRun where
  calls : List ImportCall := []
  trap  : Option String   := none

namespace GuestRun

def callImports : List ImportCall → CallbackM (Option Trap)
  | []            => return none
  | call :: calls => do
    match ← call.run with
    | some trap => return some trap
    | none      => callImports calls

-- `wasm_func_call`
def call (guest : GuestRun) : CallbackM (Option Trap) := do
  match ← callImports guest.calls with
  | some trap => return some trap
  | none      => return guest.trap.map Trap.mk

end GuestRun
end Ecsact
