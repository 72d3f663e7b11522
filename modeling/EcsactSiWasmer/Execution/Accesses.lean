import EcsactSiWasmer.Execution.Bindings

open Ecsact.CallMem

namespace Ecsact

-- An array in guest memory, by the indices of the arguments with its address and its length, and by
-- the size of its entries. If the entries are iovecs, `fills` says whether their buffers are written.
structure GuestArray where
  address : Nat
  length  : Nat
  size    : Nat
  fills   : Option Bool := none

-- What the arguments of an import name: ranges, by the indices of the arguments with their addresses
-- and by their sizes, and an array.
structure GuestRanges where
  out   : List (Nat × Nat)  := []
  array : Option GuestArray := none

def guestRanges : List (String × GuestRanges) := [
  ("ecsact_system_execution_context_generate",
    { array := some { address := 3, length := 1, size := 4 } }),
  ("fd_write",
    { out := [(3, 8)], array := some { address := 1, length := 2, size := 8, fills := false } }),
  ("fd_read",
    { out := [(3, 8)], array := some { address := 1, length := 2, size := 8, fills := true } }),
  ("environ_sizes_get", { out := [(0, 8), (1, 8)] }),
  ("environ_get", { out := [(0, 1), (1, 1)] }),
  ("fd_fdstat_get", { out := [(1, 24)] })
]

namespace Access

-- An access is `k` bytes after a guest address. Nothing is said of addresses from 2^31 on.
def At (a : Access) (v : BitVec 32) (k : Nat) : Prop :=
  v.toNat < 2 ^ 31 → a.offset = v.toNat + k

-- An access is to bytes of the guest memory at `mem`, of which there are `size`.
structure Inside (a : Access) (mem : MemPtr) (size : Nat) : Prop where
  mem : a.mem = mem
  ge  : 0 ≤ a.offset
  le  : a.offset + a.data.length ≤ size

def Changes (a : Access) (mem : MemPtr) (x : Int) : Prop :=
  a.write = true ∧ a.mem = mem ∧ a.offset ≤ x ∧ x < a.offset + a.data.length

end Access

namespace HostArg

def toPtrs : HostArg → List HostPtr
  | ptr p   => [p]
  | ptrs ps => ps
  | _       => []

end HostArg

namespace ImportCall

variable (call : ImportCall)

def ranges : GuestRanges :=
  (guestRanges.lookup call.name).getD {}

-- The callback looks its memory up in front of the slot of the handle, or in the first slot.
def Finds (w : World) (mem : MemPtr) : Prop :=
  let slot := if (nativeApi.lookup call.name).isSome then call.val 0 - 8 else 0
  callMemRead slot .memory w.callMem = .ok mem w.callMem

-- A read of an entry of the array.
structure Entry (array : GuestArray) (i : Nat) (e : Access) : Prop where
  read   : e.write = false
  lt     : i < (call.val array.length).toNat
  length : e.data.length = array.size
  offset : e.At (call.val array.address) (array.size * i)

-- The `n` bytes that are `k` bytes after an address are the guest's to be read or written, given what
-- the callback has read so far.
inductive Names (log : List Access) (write : Bool) : BitVec 32 → Nat → Nat → Prop
  | out {i n} : (i, n) ∈ call.ranges.out → Names log write (call.val i) 0 n
  | entry {array i} : call.ranges.array = some array → i < (call.val array.length).toNat →
      write = false → Names log write (call.val array.address) (array.size * i) array.size
  | buffer {array i e} : call.ranges.array = some array → array.fills = some write → e ∈ log →
      call.Entry array i e →
      Names log write (Ciovec.decode e.data).buf 0 (Ciovec.decode e.data).bufLen.toNat

-- The guest's pointers to what the runtime is to use: arguments and words of the array.
inductive Points (log : List Access) : BitVec 32 → Prop
  | arg {n i} : (call.name, n) ∈ nativeApi → n.roles[i]? = some .ptr → Points log (call.val i)
  | word {array i e} : call.ranges.array = some array → e ∈ log → call.Entry array i e →
      Points log (BitVec.ofNat 32 (leVal e.data))

-- A pointer which the runtime gets is null or a guest address in the callback's memory.
def Hands (finds : MemPtr → Prop) (log : List Access) (ptr : HostPtr) : Prop :=
  ptr = .null ∨ ∃ mem offset v, ptr = .data mem offset ∧ finds mem ∧ call.Points log v ∧
    (v.toNat < 2 ^ 31 → offset = v.toNat)

-- The pointers of a call of the runtime, except for the one that is taken from a flag.
def Passes (finds : MemPtr → Prop) (log : List Access) (c : HostCall) : Prop :=
  c.fn ≠ .streamToggle → ∀ ptr ∈ c.args.flatMap HostArg.toPtrs, call.Hands finds log ptr

-- What a call does to guest memory and hands to the runtime, and that it never refuses.
structure Sandboxed (w w' : World) : Prop where
  accesses : ∀ a ∈ w'.accesses, call.Finds w a.mem ∧
    ∃ v k n, call.Names w'.accesses a.write v k n ∧ a.data.length ≤ n ∧ a.At v k
  inside   : ∀ size : Nat,
    (∀ write v k n, call.Names w'.accesses write v k n →
      v.toNat < 2 ^ 31 ∧ v.toNat + k + n ≤ size) →
    ∀ a ∈ w'.accesses, 0 ≤ a.offset ∧ a.offset + a.data.length ≤ size
  handed   : ∃ made, w'.hostCalls = w.hostCalls ++ made ∧
    ∀ c ∈ made, call.Passes (call.Finds w) w'.accesses c
  trap     : ∀ trap, call.run w = .ok trap w' → trap = none

-- The WASI imports which write to guest memory.
def outImports : List String :=
  ["fd_write", "fd_read", "environ_sizes_get", "environ_get", "fd_fdstat_get"]

-- What a call may change of guest memory: bytes of its out parameters and of the buffers that it
-- fills, as far as it writes them. If it fails, that is what it reports itself by. The two strings of
-- the environment are empty afterwards, as they are ended where they start.
structure Frames (w w' : World) : Prop where
  changes : ∀ mem (x : Nat), x < ((call.enter w).memories mem).size →
    (w'.memories mem).bytes x ≠ ((call.enter w).memories mem).bytes x →
    call.Finds w mem ∧ ∃ a ∈ w'.accesses, a.Changes mem x ∧
      ∃ v n, call.Names w'.accesses true v 0 n ∧ a.offset = v.toNat ∧ a.data.length ≤ n
  errno   : ∀ errno, call.name ≠ "fd_fdstat_get" → call.run w = .ok none w' →
    w'.results = [some (.i32 errno)] → errno ≠ 0 → w'.memories = (call.enter w).memories
  ends    : call.name = "environ_get" → ∀ mem, call.Finds w mem → ∀ i < 2,
    (call.val i).toNat < 2 ^ 31 → (w'.memories mem).bytes (call.val i).toNat = 0

end ImportCall
end Ecsact
