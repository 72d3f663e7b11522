import EcsactSiWasmer.Execution.Accesses
import EcsactSiWasmer.Execution.Theorems.Calls
import EcsactSiWasmer.Imports.Theorems.Signatures
import EcsactSiWasmer.Imports.Theorems.Wasi

open EStateM Ecsact.World Ecsact.CallMem

namespace Ecsact
namespace ImportCall

variable {call : ImportCall} {finds : MemPtr → Prop}

section

variable {log log' : List Access} {write : Bool} {v : BitVec 32} {k n : Nat}

theorem Names.mono (h : call.Names log write v k n) (hl : log ⊆ log') :
    call.Names log' write v k n := by
  cases h
  case out h              => exact .out h
  case entry h hi hw      => exact .entry h hi hw
  case buffer h hf he hc  => exact .buffer h hf (hl he) hc

theorem Points.mono (h : call.Points log v) (hl : log ⊆ log') : call.Points log' v := by
  cases h
  case arg h hr     => exact .arg h hr
  case word h he hc => exact .word h (hl he) hc

theorem Hands.mono {ptr : HostPtr} (h : call.Hands finds log ptr) (hl : log ⊆ log') :
    call.Hands finds log' ptr := by
  cases h
  case inl h => exact .inl h
  case inr h =>
    have ⟨mem, offset, v, hp, hm, hv, ho⟩ := h
    exact .inr ⟨mem, offset, v, hp, hm, hv.mono hl, ho⟩

theorem hands_voidPtr {mem : MemPtr} (hm : finds mem) (hv : call.Points log v) :
    call.Hands finds log (voidPtr v mem) := by
  rw [voidPtr]
  split
  case isTrue  => exact .inl rfl
  case isFalse => exact .inr ⟨mem, v.toInt, v, rfl, hm, hv, toInt_eq_toNat⟩

end

-- An access to what the guest has named, at the converted address.
def Reaches (call : ImportCall) (log : List Access) (a : Access) : Prop :=
  ∃ v k n, call.Names log a.write v k n ∧ a.data.length ≤ n ∧ a.offset = v.toInt + k

theorem Reaches.mono {log log' : List Access} {a : Access} (h : call.Reaches log a)
    (hl : log ⊆ log') : call.Reaches log' a :=
  have ⟨v, k, n, hn, hd⟩ := h
  ⟨v, k, n, hn.mono hl, hd⟩

-- The accesses and the calls of the runtime that a part of a callback makes.
structure Makes (call : ImportCall) (finds : MemPtr → Prop) (w w' : World) (log : List Access)
    (made : List HostCall) : Prop where
  accesses  : w'.accesses = w.accesses ++ log
  hostCalls : w'.hostCalls = w.hostCalls ++ made
  reaches   : ∀ a ∈ log, finds a.mem ∧ call.Reaches w'.accesses a
  passes    : ∀ c ∈ made, call.Passes finds w'.accesses c
  native    : nativeApi.lookup call.name = none → made = []
  changes   : made = [] → ∀ mem x,
    (w'.memories mem).bytes x ≠ (w.memories mem).bytes x → ∃ a ∈ log, a.Changes mem x

def Confined (call : ImportCall) (finds : MemPtr → Prop) (w w' : World) : Prop :=
  ∃ log made, call.Makes finds w w' log made

-- The read of an entry of the guest's array.
def entryAccess (w : World) (mem : MemPtr) (v : BitVec 32) (n i : Nat) : Access where
  mem    := mem
  offset := v.toInt + n * i
  data   := (w.memories mem).bytes.read (v.toInt + n * i) n
  write  := false

namespace Confined

variable {w w' : World} {α : Type}

theorem of_eq (ha : w'.accesses = w.accesses) (hc : w'.hostCalls = w.hostCalls)
    (hm : w'.memories = w.memories) : call.Confined finds w w' :=
  ⟨[], [], by simp [ha], by simp [hc], nofun, nofun, fun _ => rfl,
    fun _ _ _ h => absurd (by rw [hm]) h⟩

theorem trans {w'' : World} (h₁ : call.Confined finds w w') (h₂ : call.Confined finds w' w'') :
    call.Confined finds w w'' := by
  have ⟨log₁, made₁, h₁⟩ := h₁
  have ⟨log₂, made₂, h₂⟩ := h₂
  have hl : w'.accesses ⊆ w''.accesses := by
    rw [h₂.accesses]
    exact List.subset_append_left ..
  refine ⟨log₁ ++ log₂, made₁ ++ made₂, ?_, ?_, fun a ha => ?_, fun c hc => ?_, fun hn => ?_,
    fun hm mem x hx => ?_⟩
  · rw [h₂.accesses, h₁.accesses, List.append_assoc]
  · rw [h₂.hostCalls, h₁.hostCalls, List.append_assoc]
  · cases List.mem_append.mp ha
    case inl ha => exact ⟨(h₁.reaches a ha).1, (h₁.reaches a ha).2.mono hl⟩
    case inr ha => exact h₂.reaches a ha
  · cases List.mem_append.mp hc
    case inl hc => exact fun hf ptr hp => (h₁.passes c hc hf ptr hp).mono hl
    case inr hc => exact h₂.passes c hc
  · rw [h₁.native hn, h₂.native hn, List.append_nil]
  · have ⟨hm₁, hm₂⟩ := List.append_eq_nil_iff.mp hm
    by_cases he : (w'.memories mem).bytes x = (w.memories mem).bytes x
    case pos =>
      have ⟨a, ha, hc⟩ := h₂.changes hm₂ mem x (he ▸ hx)
      exact ⟨a, List.mem_append_right _ ha, hc⟩
    case neg =>
      have ⟨a, ha, hc⟩ := h₁.changes hm₁ mem x he
      exact ⟨a, List.mem_append_left _ ha, hc⟩

instance : IsPreorder World (call.Confined finds) where
  refl _  := of_eq rfl rfl rfl
  trans _ _ _ := trans

theorem accessed {a : Access} (hm : finds a.mem)
    (hr : call.Reaches (w.accessed a).accesses a) : call.Confined finds w (w.accessed a) :=
  ⟨[a], [], rfl, by simp [World.accessed], by simpa using ⟨hm, hr⟩, nofun,
    fun _ => rfl, fun _ _ _ h => absurd rfl h⟩

theorem stored {a : Access} (hm : finds a.mem) (hw : a.write = true)
    (hr : call.Reaches (w.accessed a).accesses a) :
    call.Confined finds w ((w.stored a.mem a.offset a.data).accessed a) := by
  refine ⟨[a], [], rfl, by simp [World.accessed, World.stored], ?_, nofun, fun _ => rfl,
    fun _ mem x hx => ?_⟩
  · simpa using ⟨hm, hr⟩
  · refine ⟨a, List.mem_singleton_self a, hw, ?_⟩
    by_cases he : mem = a.mem
    case pos =>
      subst he
      simp only [World.accessed, World.stored, Function.update_self] at hx
      exact ⟨rfl, ByteStore.write_changes hx⟩
    case neg =>
      simp only [World.accessed, World.stored, Function.update_of_ne he] at hx
      exact absurd rfl hx

theorem called {fn : EcsactFn} {args : List HostArg} (hn : (nativeApi.lookup call.name).isSome)
    (h : call.Passes finds w.accesses ⟨fn, args⟩) : call.Confined finds w (w.called fn args) :=
  ⟨[], [⟨fn, args⟩], by simp [World.called], rfl, nofun, fun _ hc => List.mem_singleton.mp hc ▸ h,
    fun hl => by simp [hl] at hn, nofun⟩

theorem onCallMem {x : CallMemM α} : Within (call.Confined finds) (onCallMem x) := by
  intro w
  simp only [World.onCallMem, EStateM.zoom]
  split <;> exact of_eq rfl rfl rfl

theorem onFiles {x : FilesM α} : Within (call.Confined finds) (onFiles x) := by
  intro w
  simp only [World.onFiles, EStateM.zoom]
  split <;> exact of_eq rfl rfl rfl

theorem setResult {j : Nat} {val : WasmVal} : Within (call.Confined finds) (setResult j val) := by
  intro w
  by_cases h : j < w.results.length
  case pos => rw [setResult_ok h]; exact of_eq rfl rfl rfl
  case neg => rw [setResult_error h]; exact of_eq rfl rfl rfl

theorem pushStdioStr {level : LogLevel} {str : List Byte} :
    Within (call.Confined finds) (pushStdioStr level str) :=
  fun _ => of_eq rfl rfl rfl

theorem hostCall {fn : EcsactFn} {args : List HostArg} {answer : Runtime → HostView → α}
    (hn : (nativeApi.lookup call.name).isSome) (h : ∀ log, call.Passes finds log ⟨fn, args⟩) :
    Within (call.Confined finds) (hostCall fn args answer) :=
  fun _ => called hn <| h _

theorem hostCall_of_eq_nil {fn : EcsactFn} {args : List HostArg} {answer : Runtime → HostView → α}
    (hn : (nativeApi.lookup call.name).isSome) (h : args.flatMap HostArg.toPtrs = []) :
    Within (call.Confined finds) (World.hostCall fn args answer) :=
  hostCall hn fun _ _ ptr hp => by simp [h] at hp

section

variable {mem : MemPtr} {i n : Nat}

theorem storeBytes {bytes : List Byte} (hm : finds mem) (ho : (i, n) ∈ call.ranges.out)
    (hl : bytes.length ≤ n) :
    Within (call.Confined finds) (storeBytes (wasmMemoryCast mem (call.val i)) bytes) :=
  fun w => @stored _ _ w ⟨mem, (call.val i).toInt, bytes, true⟩ hm rfl
    ⟨call.val i, 0, n, .out ho, hl, by simp⟩

theorem loadBytes {k : Nat} (hm : finds mem) (ho : (i, n) ∈ call.ranges.out) (hl : k ≤ n) :
    Within (call.Confined finds) (loadBytes (wasmMemoryCast mem (call.val i)) k) :=
  fun w => @accessed _ _ w
    ⟨mem, (call.val i).toInt, (w.memories mem).bytes.read (call.val i).toInt k, false⟩ hm
    ⟨call.val i, 0, n, .out ho, by simpa using hl, by simp⟩

end

section

variable {mem : MemPtr} {array : GuestArray} {i : Nat}

theorem entry_entryAccess (hi : i < (call.val array.length).toNat) :
    call.Entry array i (entryAccess w mem (call.val array.address) array.size i) where
  read     := rfl
  lt       := hi
  length   := by simp [entryAccess]
  offset h := by simp [entryAccess, toInt_eq_toNat h]

theorem entry (hm : finds mem) (ha : call.ranges.array = some array)
    (hi : i < (call.val array.length).toNat) : call.Confined finds w
      (w.accessed (entryAccess w mem (call.val array.address) array.size i)) :=
  accessed hm ⟨call.val array.address, array.size * i, array.size, .entry ha hi rfl,
    by simp [entryAccess], by simp [entryAccess]⟩

-- The range of an iovec's buffer is named once the iovec has been read.
theorem buffer {a : Access} {log : List Access} (ha : call.ranges.array = some array)
    (hi : i < (call.val array.length).toNat) (hf : array.fills = some a.write)
    (he : entryAccess w mem (call.val array.address) array.size i ∈ log)
    (ho : a.offset = (Ciovec.decode
      (entryAccess w mem (call.val array.address) array.size i).data).buf.toInt)
    (hl : a.data.length ≤ (Ciovec.decode
      (entryAccess w mem (call.val array.address) array.size i).data).bufLen.toNat) :
    call.Reaches log a :=
  ⟨_, 0, _, .buffer ha hf he (entry_entryAccess hi), hl, by simp [ho]⟩

end
end Confined
end ImportCall
end Ecsact
