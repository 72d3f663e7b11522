import EcsactSiWasmer.Execution.Bounds
import EcsactSiWasmer.Execution.Grants
import EcsactSiWasmer.Execution.Totality

namespace Ecsact

-- The fields of a status, at the offsets at which a guest looks for them.
structure Fdstat.At (s : Fdstat) (m : ByteStore) (a : Int) : Prop where
  filetype   : m a = s.fsFiletype.value
  flags      : m.readWord 16 (a + 2) = s.fsFlags
  base       : m.readWord 64 (a + 8) = s.fsRightsBase
  inheriting : m.readWord 64 (a + 16) = s.fsRightsInheriting

def Fdstat.permits (s : Fdstat) (right : BitVec 64) : Bool :=
  s.fsRightsBase &&& right == right

-- The descriptor is that of a grant in force.
def granted (grants : List Grant) (fd : BitVec 32) : Bool :=
  grants.any fun g => g.fd = fd ∧ inForce grants g.virtualPath = some g

-- What a descriptor stands for, as a matter of the grants.
def status (grants : List Grant) (fd : BitVec 32) : Fdstat :=
  if fd = wasiStderrFd ∨ fd = wasiStdoutFd then stdoutFdstat
  else if granted grants fd then Files.fileFdstat
  else {}

-- A guest is told the status of a descriptor, and what it tries is what the rights say. A read of a
-- file needs one which can be opened, if there is anything to read. All of it stays in the guest's
-- memory.
structure Honours (grants : List Grant) (w : World) (mem : MemPtr) (call : ImportCall) : Prop where
  inside : ∀ a ∈ (call.run w).state.accesses, a.Inside mem (call.memory w mem).size
  fdstat : call.name = "fd_fdstat_get" → ∃ w', call.run w = .ok none w' ∧
    (status grants (call.val 0)).At (w'.memories mem).bytes (call.val 1).toNat ∧
    w'.results = [some (.i32 (if (status grants (call.val 0)).fsFiletype = .unknown then 1 else 0))]
  write  : call.name = "fd_write" → ∃ w', call.run w = .ok none w' ∧
    w'.results = [some (.i32 (if (status grants (call.val 0)).permits Rights.fdWrite then 0 else 1))]
  read   : call.name = "fd_read" → ((∃ w', call.run w = .ok none w') ↔
    (status grants (call.val 0)).permits Rights.fdRead ∧
      ∀ info, w.files.virtualFiles (call.val 0) = some info →
        w.files.opens info ∨ call.AsksForNothing w mem)

end Ecsact
