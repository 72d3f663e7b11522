import EcsactSiWasmer.Lib.ByteStore

namespace Ecsact

-- The ways in which a host function ends other than by returning. `undefined` is what C++ leaves
-- undefined. The last three are accesses to entries of a `wasm_val_vec_t` which are not there, or
-- which are of another kind.
inductive Fault
  | assertFailed
  | exception (what : String)
  | undefined (what : String)
  | badArg (i : Nat)
  | badKind
  | badResult (j : Nat)
  deriving DecidableEq

def Fault.IsBadAccess : Fault → Prop
  | badArg _ | badKind | badResult _ => True
  | _                                => False

-- `wasm_valkind_t`, as far as the import tables use it.
inductive ValKind
  | i32
  | i64
  deriving DecidableEq

inductive WasmVal
  | i32 (v : BitVec 32)
  | i64 (v : BitVec 64)
  deriving DecidableEq

def WasmVal.kind : WasmVal → ValKind
  | i32 _ => .i32
  | i64 _ => .i64

structure FuncType where
  params  : List ValKind
  results : List ValKind
  deriving DecidableEq

-- The constructors of `wasm.h` and `util.hh` that the import tables use, by numbers of parameters
-- and results.

def wasmFunctypeNew10 (p₁ : ValKind) : FuncType :=
  ⟨[p₁], []⟩

def wasmFunctypeNew11 (p₁ r : ValKind) : FuncType :=
  ⟨[p₁], [r]⟩

def wasmFunctypeNew20 (p₁ p₂ : ValKind) : FuncType :=
  ⟨[p₁, p₂], []⟩

def wasmFunctypeNew21 (p₁ p₂ r : ValKind) : FuncType :=
  ⟨[p₁, p₂], [r]⟩

def wasmFunctypeNew30 (p₁ p₂ p₃ : ValKind) : FuncType :=
  ⟨[p₁, p₂, p₃], []⟩

def wasmFunctypeNew40 (p₁ p₂ p₃ p₄ : ValKind) : FuncType :=
  ⟨[p₁, p₂, p₃, p₄], []⟩

def wasmFunctypeNew41 (p₁ p₂ p₃ p₄ r : ValKind) : FuncType :=
  ⟨[p₁, p₂, p₃, p₄], [r]⟩

structure Trap where
  message : String
  deriving DecidableEq

-- `wasm_memory_t*`
abbrev MemPtr := BitVec 64

-- `ecsact_system_execution_context*`
abbrev CtxPtr := BitVec 64

-- A guest's memory as the host sees it: the bytes at `wasm_memory_data`, of which the guest owns
-- those in `[0, size)`. What a host pointer reaches outside of them is other memory of the host.
structure LinearMemory where
  size    : Nat
  size_le : size ≤ 2 ^ 32
  bytes   : ByteStore

-- A host pointer into (or relative to) a guest's memory.
inductive HostPtr
  | null
  | data (mem : MemPtr) (offset : Int)
  deriving DecidableEq

namespace HostPtr

def add : HostPtr → Int → HostPtr
  | null, _          => null
  | data mem off, n => data mem (off + n)

@[simp]
theorem add_data (mem : MemPtr) (off n : Int) : (data mem off).add n = data mem (off + n) :=
  rfl

end HostPtr

def wasmMemoryCast (wasmMem : MemPtr) (wasmGuestPtr : BitVec 32) : HostPtr :=
  .data wasmMem wasmGuestPtr.toInt

-- The distance by which the conversion of a guest address to `int32_t` misses it.
theorem toInt_eq_toNat {v : BitVec 32} (h : v.toNat < 2 ^ 31) : v.toInt = v.toNat :=
  BitVec.toInt_eq_toNat_of_lt <| by omega

theorem toInt_eq_sub {v : BitVec 32} (h : 2 ^ 31 ≤ v.toNat) : v.toInt = v.toNat - 2 ^ 32 := by
  rw [BitVec.toInt_eq_toNat_cond]
  rw [if_neg (by omega)]
  norm_num

end Ecsact
