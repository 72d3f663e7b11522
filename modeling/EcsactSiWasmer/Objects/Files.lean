import EcsactSiWasmer.Lib.Effect
import EcsactSiWasmer.Objects.Wasm
import Mathlib.Data.List.TakeWhile

namespace Ecsact

-- `ecsact_si_wasi_filetype`
inductive Filetype
  | unknown
  | blockDevice
  | characterDevice
  | directory
  | regularFile
  | socketDgram
  | socketStream
  | symbolicLink
  deriving DecidableEq

def Filetype.value : Filetype → Byte
  | unknown         => 0
  | blockDevice     => 1
  | characterDevice => 2
  | directory       => 3
  | regularFile     => 4
  | socketDgram     => 5
  | socketStream    => 6
  | symbolicLink    => 7

-- The enumerators of `ecsact_si_wasi_fdflags` and `ecsact_si_wasi_rights` which the program sets.

namespace Fdflags

def rsync : BitVec 16 := 1 <<< 3

def sync : BitVec 16 := 1 <<< 4

end Fdflags

namespace Rights

def fdDatasync : BitVec 64 := 1 <<< 0

def fdRead : BitVec 64 := 1 <<< 1

def fdSeek : BitVec 64 := 1 <<< 2

def fdSync : BitVec 64 := 1 <<< 4

def fdWrite : BitVec 64 := 1 <<< 6

def fdAdvise : BitVec 64 := 1 <<< 7

def fdFilestatGet : BitVec 64 := 1 <<< 21

def pollFdReadwrite : BitVec 64 := 1 <<< 27

end Rights

-- `ecsact_si_wasi_fdstat_t`
structure Fdstat where
  fsFiletype         : Filetype  := .unknown
  fsFlags            : BitVec 16 := 0
  fsRightsBase       : BitVec 64 := 0
  fsRightsInheriting : BitVec 64 := 0
  deriving DecidableEq

-- The object representation of the host's struct, padding included, which is indeterminate in C++
-- unless the struct is value-initialised.
def Fdstat.encode (s : Fdstat) : List Byte :=
  [s.fsFiletype.value, 0] ++ leBytes 2 s.fsFlags.toNat ++ [0, 0, 0, 0] ++
    leBytes 8 s.fsRightsBase.toNat ++ leBytes 8 s.fsRightsInheriting.toNat

@[simp]
theorem Fdstat.encode_length (s : Fdstat) : s.encode.length = 24 := by
  simp [encode]

-- `c_str()`, as the C library reads it.
def cStr (str : String) : String :=
  String.ofList (str.toList.takeWhile (·.toNat ≠ 0))

theorem cStr_eq {str : String} (h : ∀ c ∈ str.toList, c.toNat ≠ 0) : cStr str = str := by
  have ht : str.toList.takeWhile (·.toNat ≠ 0) = str.toList :=
    List.takeWhile_eq_self_iff.mpr fun c hc => decide_eq_true (h c hc)
  rw [cStr, ht, String.ofList_toList]

-- A `FILE` object of the C library.
structure Stream where
  path    : String
  mode    : String
  content : List Byte
  pos     : Nat
  closed  : Bool

-- `std::FILE*`: null, or the number of a stream.
abbrev FilePtr := Option Nat

structure VirtualFileInfo where
  virtualPath          : String         := ""
  realPath             : String         := ""
  pseudoFileDescriptor : BitVec 32      := 0
  openedFile           : Option FilePtr := none
  fdstat               : Fdstat         := {}

-- The globals of `wasi_fs.cc`, the streams which `std::fopen` returned and the host's files.
structure Files where
  lastFileDescriptor : BitVec 32                           := 10
  virtualFiles       : BitVec 32 → Option VirtualFileInfo  := fun _ => none
  virtualFileMap     : String → Option (BitVec 32)         := fun _ => none
  streams            : List Stream                         := []
  disk               : String → Option (List Byte)

abbrev FilesM := EStateM Fault Files

namespace Files

-- Opens a file in a mode which neither creates nor changes it, as the program's only mode does.
def fopen (path mode : String) : FilesM FilePtr := do
  let files ← get
  match files.disk path with
  | none         => return none
  | some content =>
    let opened : Stream :=
      { path := path, mode := mode, content := content, pos := 0, closed := false }
    set { files with streams := files.streams ++ [opened] }
    return some files.streams.length

-- The stream behind a `FILE*`. Using a null pointer or a closed stream is undefined.
def stream (file : FilePtr) : FilesM (Nat × Stream) := do
  match file with
  | none   => throw (.undefined "null FILE*")
  | some k =>
    match (← get).streams[k]? with
    | none   => throw (.undefined "dangling FILE*")
    | some s =>
      if s.closed then throw (.undefined "closed FILE*")
      return (k, s)

def fread (n : Nat) (file : FilePtr) : FilesM (List Byte) := do
  let (k, s) ← stream file
  let bytes := (s.content.drop s.pos).take n
  modify fun files =>
    { files with streams := files.streams.set k { s with pos := s.pos + bytes.length } }
  return bytes

def fclose (file : FilePtr) : FilesM Unit := do
  let (k, s) ← stream file
  modify fun files => { files with streams := files.streams.set k { s with closed := true } }

def eraseVirtualIfExists (virtualPath : String) : FilesM Unit := do
  let files ← get
  match files.virtualFileMap virtualPath with
  | none    => return
  | some fd =>
    set { files with
      virtualFiles   := Function.update files.virtualFiles fd none
      virtualFileMap := Function.update files.virtualFileMap virtualPath none
    }

-- The `fdstat` that each mapped file is given.
def fileFdstat : Fdstat where
  fsFiletype   := .regularFile
  fsFlags      := Fdflags.rsync ||| Fdflags.sync
  fsRightsBase := Rights.fdRead ||| Rights.fdSeek

-- The increment of the last `int32_t` is undefined.
def allowFileReadAccess (realPath virtualPath : String) : FilesM (BitVec 32) := do
  eraseVirtualIfExists virtualPath
  let files ← get
  if files.lastFileDescriptor = BitVec.intMax 32 then throw (.undefined "++last_file_descriptor")
  let fd := files.lastFileDescriptor + 1
  let info := { (files.virtualFiles fd).getD {} with
    pseudoFileDescriptor := fd
    virtualPath          := virtualPath
    realPath             := realPath
    fdstat               := fileFdstat
  }
  set { files with
    lastFileDescriptor := fd
    virtualFiles       := Function.update files.virtualFiles fd (some info)
    virtualFileMap     := Function.update files.virtualFileMap virtualPath (some fd)
  }
  return fd

def realPath (files : Files) (fd : BitVec 32) : String :=
  ((files.virtualFiles fd).map (·.realPath)).getD ""

def realPathOf (files : Files) (virtualPath : String) : String :=
  ((files.virtualFileMap virtualPath).map files.realPath).getD ""

def fdstat (files : Files) (fd : BitVec 32) : Fdstat :=
  ((files.virtualFiles fd).map (·.fdstat)).getD {}

def fdstatOf (files : Files) (virtualPath : String) : Fdstat :=
  ((files.virtualFileMap virtualPath).map files.fdstat).getD {}

-- `virtual_files.at(pseudo_fd)`
def virtualFilesAt (pseudoFd : BitVec 32) : FilesM VirtualFileInfo := do
  match (← get).virtualFiles pseudoFd with
  | none      => throw (.exception "std::out_of_range")
  | some info => return info

def setOpenedFile (pseudoFd : BitVec 32) (info : VirtualFileInfo) (file : Option FilePtr) :
    FilesM Unit :=
  modify fun files => { files with
    virtualFiles := Function.update files.virtualFiles pseudoFd
      (some { info with openedFile := file })
  }

def ensureOpen (pseudoFd : BitVec 32) : FilesM FilePtr := do
  let info ← virtualFilesAt pseudoFd
  match info.openedFile with
  | some file => return file
  | none      =>
    let file ← fopen (cStr info.realPath) "r"
    setOpenedFile pseudoFd info (some file)
    return file

def close (pseudoFd : BitVec 32) : FilesM Unit := do
  let info ← virtualFilesAt pseudoFd
  match info.openedFile with
  | none      => return
  | some file =>
    fclose file
    setOpenedFile pseudoFd info none

end Files
end Ecsact
