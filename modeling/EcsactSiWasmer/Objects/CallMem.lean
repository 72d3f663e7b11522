import EcsactSiWasmer.Lib.Effect
import EcsactSiWasmer.Objects.Wasm

namespace Ecsact

-- The `std::type_info` of the values kept in call memory.
inductive SlotType
  | memory
  | context
  deriving DecidableEq

structure Slot where
  offset : Nat
  size   : Nat
  deriving DecidableEq

-- `call_mem_info_t`. The list of the slots handed out so far is not in the source.
structure CallMemInfo where
  data            : ByteStore
  maxSize         : Nat
  dataOffset      : Nat                   := 0
  dataOffsetTypes : Nat → Option SlotType := fun _ => none
  methodTrace     : List String           := []
  slots           : List Slot             := []

-- The thread-local `call_mem_info` and whether the asserts are compiled out.
structure CallMem where
  ndebug : Bool
  info   : Option CallMemInfo

abbrev CallMemM := EStateM Fault CallMem

namespace CallMem

def assert (p : Bool) : CallMemM Unit := do
  if !(← get).ndebug && !p then throw .assertFailed

def assertHasValue : CallMemM Unit := do
  assert (← get).info.isSome

-- Access to the value of the optional, without a check.
def value : CallMemM CallMemInfo := do
  match (← get).info with
  | some info => return info
  | none      => throw (.undefined "call_mem_info")

def setValue (info : CallMemInfo) : CallMemM Unit :=
  modify ({ · with info := some info })

def setCallMemData (data : Option ByteStore) (maxSize : Nat) : CallMemM Unit := do
  match data with
  | none       => modify ({ · with info := none })
  | some bytes =>
    assert !(← get).info.isSome
    setValue { data := bytes, maxSize := maxSize }

-- The byte offset of an `int32_t` as a key of type `size_t`.
def offsetKey (offset : BitVec 32) : Nat :=
  (offset.signExtend 64).toNat

def assignOffsetType (ndebug : Bool) (info : CallMemInfo) (type : SlotType) :
    Nat → Option SlotType :=
  if ndebug then info.dataOffsetTypes
  else Function.update info.dataOffsetTypes info.dataOffset type

def callMemAllocRaw (dataSize : Nat) (type : SlotType) : CallMemM (BitVec 32) := do
  assertHasValue
  assert (0 < dataSize)
  let info ← value
  let index := BitVec.ofNat 32 info.dataOffset
  assert !(info.dataOffsetTypes info.dataOffset).isSome
  setValue { info with
    dataOffsetTypes := assignOffsetType (← get).ndebug info type
    dataOffset      := info.dataOffset + dataSize
    slots           := info.slots ++ [⟨info.dataOffset, dataSize⟩]
  }
  assert (0 ≤ index.toInt)
  return index

-- The pointer is given relative to `data.data()`.
def callMemReadRaw (offset : BitVec 32) (type : SlotType) : CallMemM Int := do
  assertHasValue
  let info ← value
  assert (offsetKey offset < info.dataOffset)
  assert (info.dataOffsetTypes (offsetKey offset) = some type)
  return offset.toInt

-- Without asserts, a read or write may be outside of `data`, where it is undefined in C++ and does not
-- fault here.
def callMemRead (offset : BitVec 32) (type : SlotType) : CallMemM (BitVec 64) := do
  let ptr ← callMemReadRaw offset type
  return (← value).data.readWord 64 ptr

def callMemAlloc (v : BitVec 64) (type : SlotType) : CallMemM (BitVec 32) := do
  let offset ← callMemAllocRaw 8 type
  let ptr ← callMemReadRaw offset type
  let info ← value
  setValue { info with data := info.data.writeWord ptr v }
  return offset

def debugTraceMethod (methodName : String) : CallMemM Unit := do
  if !(← get).ndebug then
    assertHasValue
    let info ← value
    setValue { info with methodTrace := info.methodTrace ++ [methodName] }

-- The call memory of `ecsact_si_wasm_system_impl`, which passes the returned handle to the guest.
def enterSystem (mem : MemPtr) (ctx : CtxPtr) : CallMemM (BitVec 32) := do
  setCallMemData (some .zeros) 4096
  let _ ← callMemAlloc mem .memory
  callMemAlloc ctx .context

-- The call memory of the guest's `_initialize` function during `ecsact_si_wasm_load`.
def enterInitialize (mem : MemPtr) : CallMemM Unit := do
  setCallMemData (some .zeros) 4096
  let _ ← callMemAlloc mem .memory

end CallMem
end Ecsact
