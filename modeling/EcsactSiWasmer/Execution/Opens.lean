import EcsactSiWasmer.Execution.Guest
import EcsactSiWasmer.Lib.Along

open Ecsact.CallMem

namespace Ecsact

-- A guest's call in a world of its own, but for the state of the files, which is that of before. The
-- world has its own disk, so that a file can be there for one call and not for another.
structure FileCall where
  call  : ImportCall
  world : World

namespace FileCall

variable (fd : BitVec 32) (files : Files) (c : FileCall)

def start : World :=
  { c.world with files := { files with disk := c.world.files.disk } }

def run : EStateM.Result Fault World (Option Trap) :=
  c.call.run (c.start files)

def next : Files :=
  (c.run files).state.files

-- The call comes to open the file of a descriptor, which is not there.
structure FailsToOpen : Prop where
  name   : c.call.name = "fd_read"
  active : ∃ mem, callMemRead 0 .memory c.world.callMem = .ok mem c.world.callMem
  absent : ∃ info, files.virtualFiles fd = some info ∧ info.openedFile = none ∧
    c.world.files.disk (cStr info.realPath) = none

-- The call reports an error, leaves the guest's memory as it is, and the file as one that is not open.
def ReportsClosed : Prop :=
  ∃ w errno info, c.run files = .ok none w ∧ w.results = [some (.i32 errno)] ∧ errno ≠ 0 ∧
    w.memories = (c.call.enter (c.start files)).memories ∧
    w.files.virtualFiles fd = some info ∧ info.openedFile = none

-- No call of `fread` or `fclose` gets a null pointer.
structure OpensSoundly : Prop where
  closed  : c.FailsToOpen fd files → c.ReportsClosed fd files
  nonNull : ∀ w, c.run files ≠ .error (.undefined "null FILE*") w

-- The calls are of the two functions which open and close a descriptor's file.
def IsFor : Prop :=
  (c.call.name = "fd_read" ∨ c.call.name = "fd_close") ∧ c.call.val 0 = fd

end FileCall
end Ecsact
