import EcsactSiWasmer.Objects.Files

namespace Ecsact

-- A call of a function of `wasi_fs.cc` which opens, closes or forgets files. Whatever is to be opened
-- is there.
inductive FileOp
  | allow (realPath virtualPath : String)
  | ensureOpen (fd : BitVec 32) (disk : String → List Byte)
  | close (fd : BitVec 32)

-- The entry of a descriptor records the `FILE*` of a stream.
def Files.Records (files : Files) (fd : BitVec 32) (k : Nat) : Prop :=
  ∃ info, files.virtualFiles fd = some info ∧ info.openedFile = some (some k)

namespace FileOp

-- The `FILE*` which a call returns, if it is of a kind to return one.
def call : FileOp → FilesM (Option FilePtr)
  | allow realPath virtualPath => do
    let _ ← Files.allowFileReadAccess realPath virtualPath
    return none
  | ensureOpen fd disk         => do
    modify ({ · with disk := fun path => some (disk path) })
    return some (← Files.ensureOpen fd)
  | close fd                   => do
    Files.close fd
    return none

-- What a call passes to `std::fclose`.
def passed (files : Files) : FileOp → List FilePtr
  | close fd => ((files.virtualFiles fd).bind (·.openedFile)).toList
  | _        => []

-- The call maps a virtual path anew while the file which it stands for is open.
def DropsOpen (files : Files) : FileOp → Prop
  | allow _ virtualPath => ∃ fd info file, files.virtualFileMap virtualPath = some fd ∧
    files.virtualFiles fd = some info ∧ info.openedFile = some file
  | _                   => False

end FileOp

-- The faults of a call of the C library with something other than an open file.
def misuses : List Fault :=
  [.undefined "null FILE*", .undefined "dangling FILE*", .undefined "closed FILE*"]

-- The files, and what has been passed to `std::fclose` so far.
structure Ownership where
  files   : Files
  fclosed : List FilePtr

namespace Ownership

def next (o : Ownership) (op : FileOp) : Ownership where
  files   := (op.call o.files).state
  fclosed := o.fclosed ++ op.passed o.files

-- Each stream is either recorded in one entry or has been passed to `std::fclose` once, and that is
-- when it is closed. Nothing else has been passed.
structure Accounted (o : Ownership) : Prop where
  once   : ∀ k < o.files.streams.length,
    (∃! fd, o.files.Records fd k) ∧ o.fclosed.count (some k) = 0 ∨
      (∀ fd, ¬o.files.Records fd k) ∧ o.fclosed.count (some k) = 1
  closed : ∀ k s, o.files.streams[k]? = some s → (s.closed ↔ some k ∈ o.fclosed)
  known  : ∀ file ∈ o.fclosed, ∃ k < o.files.streams.length, file = some k

-- A call uses none but open files, returns none but open files, and leaves all accounted for.
structure Keeps (o : Ownership) (op : FileOp) : Prop where
  accounted : (o.next op).Accounted
  sound     : ∀ e files, op.call o.files = .error e files → e ∉ misuses
  usable    : ∀ file files, op.call o.files = .ok (some file) files →
    ∃ k s, file = some k ∧ files.streams[k]? = some s ∧ s.closed = false

end Ownership
end Ecsact
