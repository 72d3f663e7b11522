import EcsactSiWasmer.Execution.Guest
import EcsactSiWasmer.Lib.Registry

namespace Ecsact

-- A call of `ecsact_si_wasm_allow_file_read_access`, with the descriptor that it returned.
structure Grant where
  realPath    : String
  virtualPath : String
  fd          : BitVec 32
  deriving DecidableEq

-- The grant in force for a virtual path.
def inForce (grants : List Grant) (virtualPath : String) : Option Grant :=
  grants.latest Grant.virtualPath virtualPath

-- The bytes which a call of `fd_read` has delivered to the guest: what it stored before the number of
-- the bytes.
def delivered (w : World) : List Byte :=
  written w.accesses.dropLast

-- A stream reads the file at the real path of a grant. A path has no null character in it; what the
-- C library gets of a string which does is the part before.
structure Stream.Reads (s : Stream) (g : Grant) : Prop where
  mode : s.mode = "r"
  path : s.path = cStr g.realPath
  real : (∀ c ∈ g.realPath.toList, c.toNat ≠ 0) → s.path = g.realPath

-- The one grant which a descriptor is for, where no later one is for the same virtual path.
structure Current (grants : List Grant) (d : BitVec 32) (g : Grant) : Prop where
  mem    : g ∈ grants
  fd     : g.fd = d
  unique : ∀ g' ∈ grants, g'.fd = d → g' = g
  latest : inForce grants g.virtualPath = some g

-- What a call has delivered is what is in the file of the current grant of a descriptor, up to the
-- position at which the next read will start.
def Delivers (grants : List Grant) (fd : BitVec 32) (w : World) : Prop :=
  delivered w = [] ∨ ∃ g s pos, Current grants fd g ∧ s ∈ w.files.streams ∧ s.Reads g ∧
    delivered w = (s.content.take s.pos).drop pos

namespace Files

-- No mapping is added, removed or changed.
structure SameMappings (files files' : Files) : Prop where
  index : files'.virtualFileMap = files.virtualFileMap
  table : ∀ fd, (files'.virtualFiles fd).map ({ · with openedFile := none }) =
    (files.virtualFiles fd).map ({ · with openedFile := none })

-- The states which the files can be in, with the grants up to then: after calls of the host, of the
-- functions of `wasi_fs.cc` and of the guests' imports, in any order. A call can end in a fault, and
-- others may change the files of the host at any time, those which are open included.
inductive History : List Grant → Files → Prop
  | start {disk : String → Option (List Byte)} : History [] { disk := disk }
  | allow {grants : List Grant} {files files' : Files} {realPath virtualPath : String}
      {fd : BitVec 32} : History grants files →
      allowFileReadAccess realPath virtualPath files = .ok fd files' →
      History (grants ++ [⟨realPath, virtualPath, fd⟩]) files'
  | ensureOpen {grants : List Grant} {files : Files} {fd : BitVec 32} : History grants files →
      History grants (ensureOpen fd files).state
  | close {grants : List Grant} {files : Files} {fd : BitVec 32} : History grants files →
      History grants (close fd files).state
  | guest {grants : List Grant} {w : World} {call : ImportCall} : History grants w.files →
      History grants (call.run w).state.files
  | elsewhere {grants : List Grant} {files : Files} {disk : String → Option (List Byte)}
      {content : Nat → List Byte} : History grants files → History grants { files with
        disk    := disk
        streams := files.streams.mapIdx fun k s => { s with content := content k }
      }

-- The two maps stand for the map from virtual paths to the grants in force, and for nothing else.
structure Refines (grants : List Grant) (files : Files) : Prop where
  inverse     : ∀ v fd, files.virtualFileMap v = some fd ↔
    ∃ info, files.virtualFiles fd = some info ∧ info.virtualPath = v ∧ info.pseudoFileDescriptor = fd
  pseudo      : ∀ fd info, files.virtualFiles fd = some info → info.pseudoFileDescriptor = fd
  current     : ∀ v, files.virtualFileMap v = (inForce grants v).map Grant.fd
  realPath    : ∀ v g, inForce grants v = some g →
    files.realPathOf v = g.realPath ∧ files.realPath g.fd = g.realPath
  fdstat      : ∀ v g, inForce grants v = some g →
    files.fdstatOf v = files.fdstat g.fd ∧ (files.fdstat g.fd).fsFiletype = .regularFile
  unmapped    : ∀ v, inForce grants v = none → files.realPathOf v = "" ∧ files.fdstatOf v = {}
  superseded  : ∀ g ∈ grants, inForce grants g.virtualPath ≠ some g →
    files.virtualFiles g.fd = none ∧ files.realPath g.fd = "" ∧ files.fdstat g.fd = {}
  descriptors : grants.Pairwise (·.fd ≠ ·.fd)
  positive    : ∀ g ∈ grants, 10 < g.fd.toInt

-- A call of the host for one virtual path returns a new descriptor, and the mappings of all others
-- are what they were, their open files included.
def Remaps (grants : List Grant) (files : Files) (realPath virtualPath : String) : Prop :=
  ∃ fd files', allowFileReadAccess realPath virtualPath files = .ok fd files' ∧
    (∀ g ∈ grants, g.fd ≠ fd) ∧ 10 < fd.toInt ∧ files'.streams = files.streams ∧
    ∀ v ≠ virtualPath, files'.virtualFileMap v = files.virtualFileMap v ∧
      ∀ fd', files.virtualFileMap v = some fd' → files'.virtualFiles fd' = files.virtualFiles fd'

end Files
end Ecsact
