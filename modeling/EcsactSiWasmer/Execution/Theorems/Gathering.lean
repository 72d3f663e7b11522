import EcsactSiWasmer.Execution.Gathering
import EcsactSiWasmer.Execution.Theorems.Writes
import EcsactSiWasmer.Imports.Theorems.Iovecs

open EStateM Ecsact.World Ecsact.CallMem

namespace Ecsact

namespace Logger

variable {L : Type} [LinearOrder L] {lg : Logger L} {level : L} {strs : List (List Byte)}

theorem sorted_pushStdioStr {str : List Byte} (h : Sorted lg.stdioStrings) :
    Sorted (lg.pushStdioStr level str).stdioStrings :=
  sorted_appendString h

-- Pushes of a level extend its text by all that is pushed.
theorem text_foldl_pushStdioStr (h : Sorted lg.stdioStrings) (l : L) :
    text l (strs.foldl (·.pushStdioStr level ·) lg).stdioStrings =
      if l = level then text l lg.stdioStrings ++ strs.flatten else text l lg.stdioStrings := by
  induction strs generalizing lg
  case nil => simp
  case cons str strs hi =>
    rw [List.foldl_cons, hi (sorted_pushStdioStr h), pushStdioStr, text_appendString h]
    split
    case isTrue  => rw [List.append_assoc, List.flatten_cons]
    case isFalse => rfl

end Logger

theorem Access.inside_iff {mem : MemPtr} {size : Nat} {v : BitVec 32} {data : List Byte} {write : Bool}
    (hv : v.toNat < 2 ^ 31) : (⟨mem, v.toInt, data, write⟩ : Access).Inside mem size ↔
      v.toNat + data.length ≤ size := by
  have hx := toInt_eq_toNat hv
  constructor
  case mp  => exact fun h => by have := h.le; simp only [hx] at this; omega
  case mpr => exact fun h => ⟨rfl, by simp [hx], by simp only [hx]; omega⟩

section

variable {m : ByteStore} {offset : Int} {i n : Nat} {ios : List Ciovec}

-- The buffers which the loop pushes are all that are not empty.
theorem writeBuffers_flatten (hi : (List.range' i n).map (iovecAt m offset) = ios)
    (hl : ∀ io ∈ ios, io.buf.toNat < 2 ^ 31 ∧ io.bufLen.toNat < 2 ^ 31) :
    (writeBuffers m offset i n).flatten = m.gather (ios.map Ciovec.buffer) := by
  induction n generalizing i ios
  case zero =>
    subst hi
    rfl
  case succ n ih =>
    rw [List.range'_succ, List.map_cons] at hi
    subst hi
    have ⟨hl, hl'⟩ := List.forall_mem_cons.mp hl
    have ih := ih rfl hl'
    rw [writeBuffers, List.map_cons, ByteStore.gather, List.flatMap_cons, ← ByteStore.gather, ← ih]
    split
    case isTrue =>
      rw [List.flatten_cons, toInt_eq_toNat hl.1]
      rfl
    case isFalse hb =>
      have hz : (iovecAt m offset i).buffer.length = 0 := (not_pos_iff hl.2).mp hb
      rw [hz]
      rfl

-- The loop stays in the array and in the buffers.
theorem inside_writeLoads {mem : MemPtr} {size : Nat} (ho : 0 ≤ offset)
    (ha : offset + 8 * (i + n : Nat) ≤ size) (hi : (List.range' i n).map (iovecAt m offset) = ios)
    (hl : ∀ io ∈ ios, io.buf.toNat < 2 ^ 31 ∧ io.bufLen.toNat < 2 ^ 31 ∧
      io.buf.toNat + io.bufLen.toNat ≤ size) :
    ∀ a ∈ writeLoads m mem offset i n, a.Inside mem size := by
  induction n generalizing i ios
  case zero => nofun
  case succ n ih =>
    rw [List.range'_succ, List.map_cons] at hi
    subst hi
    have ⟨⟨hb, _, hs⟩, hl⟩ := List.forall_mem_cons.mp hl
    have hr : ∀ a ∈ writeLoads m mem offset (i + 1) n, a.Inside mem size :=
      ih (by omega) rfl hl
    refine List.forall_mem_cons.mpr ⟨⟨rfl, ?ge, ?le⟩, ?rest⟩
    case ge => simp only; omega
    case le => simp only [ByteStore.read_length]; omega
    case rest =>
      split
      case isFalse => exact hr
      case isTrue =>
        refine List.forall_mem_cons.mpr ⟨(Access.inside_iff hb).mpr ?_, hr⟩
        rwa [ByteStore.read_length]

end

namespace ImportCall

variable {call : ImportCall} {w : World} {mem : MemPtr}

namespace Gathers

theorem flatten (h : call.Gathers w mem) :
    (writeBuffers (call.memory w mem).bytes (call.val 1).toInt 0 (call.val 2).toInt.toNat).flatten =
      call.payload w mem :=
  writeBuffers_flatten h.args.range'_map fun io hi =>
    have h := h.args.buffers io hi
    ⟨h.1, h.2.1⟩

theorem results_length (h : call.Gathers w mem) : 0 < (call.enter w).results.length := by
  rw [ImportCall.enter_length h.name rfl]
  exact Nat.one_pos

theorem run_eq (h : call.Gathers w mem) : call.run w = ecsactSiWasiFdWrite
    [.i32 (call.val 0), .i32 (call.val 1), .i32 (call.val 2), .i32 (call.val 3)] (call.enter w) :=
  ImportCall.run_eq (k := 4) h.name rfl rfl w

-- The number is stored in 8 bytes, of which the guest has named 4.
theorem accesses_stdio (h : call.Gathers w mem)
    (hf : call.val 0 = wasiStderrFd ∨ call.val 0 = wasiStdoutFd) {w' : World}
    (hr : call.run w = .ok none w') : (∀ a ∈ w'.accesses, a.Inside mem (call.memory w mem).size) ↔
      (call.val 3).toNat + 8 ≤ (call.memory w mem).size := by
  have hw := @fdWrite_ok mem (call.val 0) (call.val 1) (call.val 2) (call.val 3)
    (call.enter w) h.active h.results_length hf _ rfl
  cases (h.run_eq.symm.trans hr).symm.trans hw
  have hb := toInt_eq_toNat h.args.iovecLen_lt
  have ha := toInt_eq_toNat h.args.array.1
  have hl := @inside_writeLoads (call.memory w mem).bytes (call.val 1).toInt 0
    (call.val 2).toInt.toNat _ mem (call.memory w mem).size (by omega)
    (by have := h.args.array.2; omega) h.args.range'_map h.args.buffers
  constructor
  case mp =>
    intro hi
    have hs := hi _ <| List.mem_append_right _ <| List.mem_singleton_self _
    rwa [Access.inside_iff h.ret.1, leBytes_length] at hs
  case mpr =>
    intro hs
    refine List.forall_mem_append.mpr ⟨List.forall_mem_append.mpr ⟨nofun, hl⟩, ?store⟩
    case store =>
      refine List.forall_mem_singleton.mpr <| (Access.inside_iff h.ret.1).mpr ?_
      rwa [leBytes_length]

theorem appends (h : call.Gathers w mem)
    (hf : call.val 0 = wasiStderrFd ∨ call.val 0 = wasiStdoutFd) :
    ∃ w', call.run w = .ok none w' ∧ call.Appends w mem (stdLevel (call.val 0)) w' := by
  have hw := @fdWrite_ok mem (call.val 0) (call.val 1) (call.val 2) (call.val 3)
    (call.enter w) h.active h.results_length hf _ rfl
  have ht := @Logger.text_foldl_pushStdioStr _ _ w.logger (stdLevel (call.val 0))
    (writeBuffers (call.memory w mem).bytes (call.val 1).toInt 0 (call.val 2).toInt.toNat) h.texts
  refine ⟨_, h.run_eq.trans hw, ?errno, ?text, fun l hn => ?other, ?count⟩
  case errno => exact ImportCall.enter_set h.name rfl rfl w _
  case text  => exact (ht _).trans <| by rw [if_pos rfl, h.flatten]
  case other => exact (ht l).trans <| if_neg hn
  case count =>
    rw [← toInt_eq_toNat h.ret.1, ← h.flatten]
    simp only [stored, Function.update_self]
    exact readWord_count

theorem declines (h : call.Gathers w mem)
    (hf : ¬(call.val 0 = wasiStderrFd ∨ call.val 0 = wasiStdoutFd)) :
    ∃ w', call.run w = .ok none w' ∧ w'.accesses = [] ∧ call.Declines w w' := by
  have hw := h.run_eq.trans <|
    @fdWrite_unknown mem (call.val 0) (call.val 1) (call.val 2) (call.val 3) (call.enter w)
      h.active h.results_length hf
  exact ⟨_, hw, rfl, ⟨1, by decide, ImportCall.enter_set h.name rfl rfl w _⟩, rfl, rfl⟩

-- A write goes wrong exactly if the 8 bytes which the host stores for the number do not fit.
theorem writes_iff (h : call.Gathers w mem) : call.Writes w mem ↔
    call.val 0 ≠ wasiStdoutFd ∧ call.val 0 ≠ wasiStderrFd ∨
      (call.val 3).toNat + 8 ≤ (call.memory w mem).size := by
  by_cases hf : call.val 0 = wasiStderrFd ∨ call.val 0 = wasiStdoutFd
  case neg =>
    have ⟨w', hr, ha, hd⟩ := h.declines hf
    have ⟨he, ho⟩ := not_or.mp hf
    refine iff_of_true ⟨w', hr, ?_, fun h => absurd h ho, fun h => absurd h he, fun _ _ => hd⟩
      (.inl ⟨ho, he⟩)
    rw [ha]
    nofun
  case pos =>
    have hn : ¬(call.val 0 ≠ wasiStdoutFd ∧ call.val 0 ≠ wasiStderrFd) :=
      fun h => hf.elim h.2 h.1
    rw [or_iff_right hn]
    constructor
    case mp =>
      intro ⟨w', hr, hi, _⟩
      exact (h.accesses_stdio hf hr).mp hi
    case mpr =>
      intro hs
      have ⟨w', hr, ha⟩ := h.appends hf
      refine ⟨w', hr, (h.accesses_stdio hf hr).mpr hs, fun ho => ?info, fun he => ?error,
        fun ho he => absurd ⟨ho, he⟩ hn⟩
      case info  => rwa [stdLevel, if_pos ho] at ha
      case error => rwa [stdLevel, if_neg (by rw [he]; decide)] at ha

end Gathers

theorem arrayed_writeLine : Arrayed (writeLine.world.memories 1) 0 2 where
  array   := by decide
  buffers := by
    have hi : iovecs (writeLine.world.memories 1).bytes 0 2 = [⟨16, 1⟩, ⟨17, 1⟩] := by decide
    rw [hi]
    simp only [List.forall_mem_cons]
    exact ⟨by decide, by decide, nofun⟩

-- The line "a\n" in two buffers, with its length at an address of which 4 bytes are the guest's.
theorem gathers_fdWrite {retptr : BitVec 32} (hr : retptr.toNat + 4 ≤ 65536) :
    (fdWrite 1 0 2 retptr).Gathers writeLine.world 1 where
  name   := rfl
  active := rfl
  args   := arrayed_writeLine
  ret    := ⟨show retptr.toNat < 2 ^ 31 by omega, hr⟩
  texts  := .nil

theorem writes_iff_writeLine : writeLine.call.Writes writeLine.world 1 ↔
    writeLine.call.val 0 ≠ wasiStdoutFd ∧ writeLine.call.val 0 ≠ wasiStderrFd ∨
      (writeLine.call.val 3).toNat + 8 ≤ (writeLine.call.memory writeLine.world 1).size :=
  Gathers.writes_iff <| @gathers_fdWrite 24 <| by decide

-- In the last 4 bytes of the memory there is no space for 8.
theorem not_writes_last : (fdWrite 1 0 2 65532).Gathers writeLine.world 1 ∧
    ¬(fdWrite 1 0 2 65532).Writes writeLine.world 1 := by
  have h : (fdWrite 1 0 2 65532).Gathers writeLine.world 1 := gathers_fdWrite <| by decide
  refine ⟨h, fun ⟨w', hr, hi, _⟩ => ?_⟩
  exact absurd ((h.accesses_stdio (.inr rfl) hr).mp hi) <| by decide

end ImportCall
end Ecsact
