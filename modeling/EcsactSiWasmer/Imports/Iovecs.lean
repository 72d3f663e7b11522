import EcsactSiWasmer.Imports.Wasi
import EcsactSiWasmer.Lib.Vectored

namespace Ecsact

def IsStdio (fd : BitVec 32) : Prop :=
  fd = wasiStdoutFd ∨ fd = wasiStderrFd ∨ fd = wasiStdinFd

instance : DecidablePred IsStdio :=
  fun fd => inferInstanceAs <| Decidable (fd = _ ∨ fd = _ ∨ fd = _)

def stdLevel (fd : BitVec 32) : LogLevel :=
  if fd = wasiStdoutFd then .info else .error

-- The buffer which a guest asks for at an index of its array.
def iovecAt (bytes : ByteStore) (offset : Int) (i : Nat) : Ciovec :=
  Ciovec.decode (bytes.read (offset + 8 * i) 8)

-- The buffer of an entry as the guest means it: neither its address nor its length is negative.
def Ciovec.buffer (io : Ciovec) : Buffer where
  start  := io.buf.toNat
  length := io.bufLen.toNat

-- The array which a guest passes, by its address and its number of entries.
def iovecs (bytes : ByteStore) (iovec iovecLen : BitVec 32) : List Ciovec :=
  (List.range iovecLen.toNat).map (iovecAt bytes iovec.toNat)

def buffers (bytes : ByteStore) (iovec iovecLen : BitVec 32) : List Buffer :=
  (iovecs bytes iovec iovecLen).map Ciovec.buffer

-- The contents of the buffers which are not empty.
def writeBuffers (bytes : ByteStore) (offset : Int) : Nat → Nat → List (List Byte)
  | _, 0     => []
  | i, n + 1 =>
    let io := iovecAt bytes offset i
    if 0 < io.bufLen.toInt then
      bytes.read io.buf.toInt io.bufLen.toNat :: writeBuffers bytes offset (i + 1) n
    else
      writeBuffers bytes offset (i + 1) n

-- The array and its buffers are in the guest's memory, and the host takes no address or length for a
-- negative one.
structure Arrayed (memory : LinearMemory) (iovec iovecLen : BitVec 32) : Prop where
  array   : iovec.toNat < 2 ^ 31 ∧ iovec.toNat + 8 * iovecLen.toNat ≤ memory.size
  buffers : ∀ io ∈ iovecs memory.bytes iovec iovecLen, io.buf.toNat < 2 ^ 31 ∧
    io.bufLen.toNat < 2 ^ 31 ∧ io.buf.toNat + io.bufLen.toNat ≤ memory.size

-- The 8 bytes which the host stores for the number are in the guest's memory as well.
structure Vectored (memory : LinearMemory) (iovec iovecLen retptr : BitVec 32) : Prop
    extends Arrayed memory iovec iovecLen where
  ret : retptr.toNat < 2 ^ 31 ∧ retptr.toNat + 8 ≤ memory.size

-- Nothing that a guest passes for a read overlaps, those 8 bytes included.
structure Scattered (memory : LinearMemory) (iovec iovecLen retptr : BitVec 32) : Prop
    extends Vectored memory iovec iovecLen retptr where
  apart : (⟨iovec.toNat, 8 * iovecLen.toNat⟩ :: ⟨retptr.toNat, 8⟩ ::
    Ecsact.buffers memory.bytes iovec iovecLen).Pairwise Buffer.Apart

end Ecsact
