import EcsactSiWasmer.Execution.Grants
import EcsactSiWasmer.Execution.Opens
import EcsactSiWasmer.Lib.Handover

open EStateM

namespace Ecsact

-- A descriptor is mapped to a file which is not recorded as open.
def Files.Closed (fd : BitVec 32) (files : Files) : Prop :=
  ∃ info, files.virtualFiles fd = some info ∧ info.openedFile = none

-- A world without the state of the files, of which a guest gets nothing but through its calls.
def World.apart (w : World) : World :=
  { w with files := { disk := fun _ => none } }

-- How a call ends for the instance which has made it.
abbrev Outcome := Result Fault World (Option Trap)

def Outcome.apart : Outcome → Outcome
  | .ok trap w => .ok trap w.apart
  | .error e w => .error e w.apart

def Outcome.delivered : Outcome → List Byte
  | .ok _ w    => Ecsact.delivered w
  | .error _ _ => []

def FileCall.outcome (files : Files) (c : FileCall) : Outcome :=
  Outcome.apart (c.run files)

variable {ι : Type}

-- What the instances get of their calls of a descriptor, as these are made one after the other.
def outcomes (cs : List (ι × FileCall)) (files : Files) : List (ι × Outcome) :=
  cs.observations FileCall.next FileCall.outcome files

def received (outcomes : List (ι × Outcome)) : List Byte :=
  outcomes.flatMap fun o => o.2.delivered

-- No instance makes its calls while the file is open by those of another one.
def TakesTurns (fd : BitVec 32) (cs : List (ι × FileCall)) (files : Files) : Prop :=
  cs.HandsOver FileCall.next (Files.Closed fd) none files

end Ecsact
