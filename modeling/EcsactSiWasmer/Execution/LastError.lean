import EcsactSiWasmer.Execution.Outcome

namespace Ecsact

open Program

-- A load makes it to an iteration in which no instance is created.
def FailsInCreate (systems : List (SystemId × String)) (builds : Nat → Build) : Prop :=
  ∃ i < 100, (∀ k < i, (builds k).error systems = none) ∧ ∃ err, (builds i).minst = .error err

-- The message of the first iteration in which no instance is created, if the load gets to one.
def createMessage (systems : List (SystemId × String)) (builds : Nat → Build) :
    Nat → Nat → Option String
  | 0,     _ => none
  | n + 1, i =>
    match (builds i).minst with
    | .error err => some err.message
    | .ok _      =>
      if (builds i).error systems = none then createMessage systems builds n (i + 1) else none

-- The text of a message, up to the lengths which an `int32_t` has.
def textOf (message : String) : List Byte :=
  let bytes := message.toUTF8.data.toList.map (·.toBitVec)
  bytes.take (BitVec.ofNat 32 bytes.length).toInt.toNat

-- A call of one of the two functions which load a module.
inductive LoadCall
  | load (thread : ThreadId) (systems : List (SystemId × String)) (builds : Nat → Build)
  | loadFile (thread : ThreadId) (file : LoadedFile) (systems : List (SystemId × String))
      (engine : List Byte → Nat → Build)

namespace LoadCall

def run : LoadCall → ProgramM SiError
  | load thread systems builds          => ecsactSiWasmLoad thread systems builds
  | loadFile thread file systems engine => ecsactSiWasmLoadFile thread file systems engine

def next (p : Program) (c : LoadCall) : Program :=
  (c.run p).state

-- The text which a caller gets after a call, in a buffer of the length that it is told.
def message (c : LoadCall) : ProgramM (List Byte) := do
  let _ ← c.run
  ecsactSiWasmLastErrorMessage (← ecsactSiWasmLastErrorMessageLength)

def Errs (p : Program) (c : LoadCall) : Prop :=
  ∃ err p', c.run p = .ok err p' ∧ err ≠ .ok

-- The text after a call is the same whatever message the calls before it have left.
def Owns (p : Program) (c : LoadCall) : Prop :=
  ∃ text, ∀ message, ∃ p', c.message { p with lastErrorMessage := message } = .ok text p'

-- A call gets to create an instance, and fails in that.
def Stores (p : Program) : LoadCall → Prop
  | load _ systems builds          =>
    p.setSystemExecutionImpl = true ∧ FailsInCreate systems builds
  | loadFile _ file systems engine => p.setSystemExecutionImpl = true ∧
    ∃ bytes ≠ [], file = .content bytes ∧ FailsInCreate systems (engine bytes)

-- The message which a call stores.
def stored (p : Program) : LoadCall → Option String
  | load _ systems builds                                    =>
    if p.setSystemExecutionImpl then createMessage systems builds 100 0 else none
  | loadFile _ (.content (byte :: bytes)) systems engine     =>
    if p.setSystemExecutionImpl then createMessage systems (engine (byte :: bytes)) 100 0 else none
  | loadFile ..                                              => none

end LoadCall
end Ecsact
