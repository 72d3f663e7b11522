import EcsactSiWasmer.Objects.World

open Ecsact.CallMem Ecsact.World

namespace Ecsact

def wasiStdinFd : BitVec 32 := 0

def wasiStdoutFd : BitVec 32 := 1

def wasiStderrFd : BitVec 32 := 2

-- `ecsact_si_wasi_ciovec_t`
structure Ciovec where
  buf    : BitVec 32
  bufLen : BitVec 32
  deriving DecidableEq

def Ciovec.decode (bytes : List Byte) : Ciovec where
  buf    := BitVec.ofNat 32 (leVal (bytes.take 4))
  bufLen := BitVec.ofNat 32 (leVal (bytes.drop 4))

-- `call_mem_read<wasm_memory_t*>(0)`
def callMemory : CallbackM MemPtr :=
  onCallMem (callMemRead 0 .memory)

def argI32 (args : List WasmVal) (i : Nat) : CallbackM (BitVec 32) := do
  ofI32 (← argData args i)

-- `iovec[i]`
def loadCiovec (iovec : HostPtr) (i : Nat) : CallbackM Ciovec := do
  return Ciovec.decode (← loadBytes (iovec.add (8 * i)) 8)

def setErrno (errno : BitVec 32) : CallbackM Unit :=
  setResult 0 (.i32 errno)

def ecsactSiWasiProcExit : Callback := fun _ => do
  onCallMem (debugTraceMethod "proc_exit")
  return none

def ecsactSiWasiFdSeek : Callback := fun _ => do
  onCallMem (debugTraceMethod "fd_seek")
  setErrno 0
  return none

-- The loop of `fd_write` over the iovecs from the `i`-th on.
def writeLoop (mem : MemPtr) (iovec : HostPtr) (logLevel : LogLevel) :
    Nat → Nat → BitVec 64 → CallbackM (BitVec 64)
  | 0,     _, writeAmount => return writeAmount
  | n + 1, i, writeAmount => do
    let io ← loadCiovec iovec i
    if 0 < io.bufLen.toInt then
      let str ← loadBytes (wasmMemoryCast mem io.buf) io.bufLen.toNat
      pushStdioStr logLevel str
      writeLoop mem iovec logLevel n (i + 1) (writeAmount + io.bufLen.signExtend 64)
    else
      writeLoop mem iovec logLevel n (i + 1) writeAmount

def ecsactSiWasiFdWrite : Callback := fun args => do
  onCallMem (debugTraceMethod "fd_write")
  let mem ← callMemory
  let fd ← argI32 args 0
  let iovec := wasmMemoryCast mem (← argI32 args 1)
  let iovecLen ← argI32 args 2
  let outWriteAmount := wasmMemoryCast mem (← argI32 args 3)
  if fd = wasiStderrFd ∨ fd = wasiStdoutFd then
    let logLevel := if fd = wasiStdoutFd then LogLevel.info else LogLevel.error
    let writeAmount ← writeLoop mem iovec logLevel iovecLen.toInt.toNat 0 0
    storeWord outWriteAmount writeAmount
    setErrno 0
  else
    setErrno 1
  return none

-- The loop of `fd_read` over the iovecs from the `i`-th on.
def readLoop (mem : MemPtr) (iovec : HostPtr) (f : FilePtr) :
    Nat → Nat → BitVec 64 → CallbackM (BitVec 64)
  | 0,     _, readAmount => return readAmount
  | n + 1, i, readAmount => do
    let io ← loadCiovec iovec i
    if 0 < io.bufLen.toInt then
      let bytes ← onFiles (Files.fread io.bufLen.toNat f)
      storeBytes (wasmMemoryCast mem io.buf) bytes
      readLoop mem iovec f n (i + 1) (readAmount + BitVec.ofNat 64 bytes.length)
    else
      readLoop mem iovec f n (i + 1) readAmount

def ecsactSiWasiFdRead : Callback := fun args => do
  onCallMem (debugTraceMethod "fd_read")
  let mem ← callMemory
  let fd ← argI32 args 0
  let iovec := wasmMemoryCast mem (← argI32 args 1)
  let iovecLen ← argI32 args 2
  let outReadAmount := wasmMemoryCast mem (← argI32 args 3)
  let f ← onFiles (Files.ensureOpen fd)
  let readAmount ← readLoop mem iovec f iovecLen.toInt.toNat 0 0
  storeWord outReadAmount readAmount
  setErrno 0
  return none

def ecsactSiWasiFdClose : Callback := fun args => do
  onCallMem (debugTraceMethod "fd_close")
  let fd ← argI32 args 0
  if fd ≠ wasiStdoutFd ∧ fd ≠ wasiStderrFd ∧ fd ≠ wasiStdinFd then
    onFiles (Files.close fd)
    setErrno 0
  else
    setErrno 1
  return none

-- The out parameters are of the host's type `size_t`.
def ecsactSiWasiEnvironSizesGet : Callback := fun args => do
  onCallMem (debugTraceMethod "environ_sizes_get")
  let mem ← callMemory
  let retptr0 := wasmMemoryCast mem (← argI32 args 0)
  let retptr1 := wasmMemoryCast mem (← argI32 args 1)
  storeWord retptr0 (0 : BitVec 64)
  storeWord retptr1 (0 : BitVec 64)
  setErrno 0
  return none

def ecsactSiWasiEnvironGet : Callback := fun args => do
  onCallMem (debugTraceMethod "environ_get")
  let mem ← callMemory
  let environArg := wasmMemoryCast mem (← argI32 args 0)
  let environBufArg := wasmMemoryCast mem (← argI32 args 1)
  storeBytes environArg [0]
  storeBytes environBufArg [0]
  setErrno 0
  return none

def stdoutFdstat : Fdstat where
  fsFiletype   := .characterDevice
  fsRightsBase := Rights.fdDatasync ||| Rights.fdSync ||| Rights.fdWrite ||| Rights.fdAdvise |||
    Rights.fdFilestatGet ||| Rights.pollFdReadwrite

def defaultFdstats (fd : BitVec 32) : Option Fdstat :=
  if fd = wasiStdinFd then some {}
  else if fd = wasiStdoutFd ∨ fd = wasiStderrFd then some stdoutFdstat
  else none

def ecsactSiWasiFdFdstatGet : Callback := fun args => do
  onCallMem (debugTraceMethod "fd_fdstat_get")
  let mem ← callMemory
  let fd ← argI32 args 0
  let ret := wasmMemoryCast mem (← argI32 args 1)
  match defaultFdstats fd with
  | some stat => storeBytes ret stat.encode
  | none      => storeBytes ret ((← get).files.fdstat fd).encode
  if (← loadBytes ret 1) ≠ [Filetype.unknown.value] then setErrno 0
  else setErrno 1
  return none

end Ecsact
