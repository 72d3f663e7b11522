import EcsactSiWasmer.Imports.Theorems.Wasi

open EStateM Ecsact.World Ecsact.CallMem

namespace Ecsact

namespace Files

variable {s : Stream} {n m : Nat}

-- What is left after a read.
theorem drop_readBytes :
    s.content.drop (s.pos + (readBytes s n).length) = (s.content.drop s.pos).drop n := by
  rw [← List.drop_drop, readBytes, List.length_take]
  by_cases h : n ≤ (s.content.drop s.pos).length
  case pos => rw [Nat.min_eq_left h]
  case neg =>
    rw [Nat.min_eq_right (by omega), List.drop_length, List.drop_of_length_le (by omega)]

theorem readBytes_add : readBytes s n ++
    readBytes { s with pos := s.pos + (readBytes s n).length } m = readBytes s (n + m) := by
  have h : readBytes { s with pos := s.pos + (readBytes s n).length } m =
      ((s.content.drop s.pos).drop n).take m := congrArg (List.take m) drop_readBytes
  rw [h, readBytes, readBytes, List.take_add]

end Files

section

variable {mem : MemPtr} {offset : Int} {n i k : Nat} {amount : BitVec 64} {w : World} {s : Stream}
  {ios : List Ciovec} {io : Ciovec}

-- The memories after one of them has got other bytes.
def withBytes (memories : MemPtr → LinearMemory) (mem : MemPtr) (bytes : ByteStore) :
    MemPtr → LinearMemory :=
  Function.update memories mem { memories mem with bytes := bytes }

variable {memories : MemPtr → LinearMemory} {m m' : ByteStore}

@[simp]
theorem withBytes_bytes : (withBytes memories mem m mem).bytes = m := by
  rw [withBytes, Function.update_self]

@[simp]
theorem withBytes_withBytes :
    withBytes (withBytes memories mem m) mem m' = withBytes memories mem m' := by
  simp only [withBytes, Function.update_self, Function.update_idem]

@[simp]
theorem withBytes_self : withBytes memories mem (memories mem).bytes = memories :=
  Function.update_eq_self mem memories

theorem not_pos_iff (h : io.bufLen.toNat < 2 ^ 31) :
    ¬0 < io.bufLen.toInt ↔ io.bufLen.toNat = 0 := by
  rw [toInt_eq_toNat h]
  omega

-- An entry stays as it is when a buffer is filled which is apart from the array.
theorem iovecAt_write {bytes : List Byte} {N j : Nat} (hb : io.buf.toNat < 2 ^ 31)
    (ha : io.buffer.Apart ⟨offset, 8 * N⟩) (hj : j < N) (hl : bytes.length ≤ io.bufLen.toNat) :
    iovecAt (m.write io.buf.toInt bytes) offset j = iovecAt m offset j := by
  rw [toInt_eq_toNat hb]
  refine congrArg Ciovec.decode <| ByteStore.read_congr (b := ⟨offset + 8 * j, 8⟩) fun x hx => ?_
  refine ByteStore.write_of_not_has (b := io.buffer) hl fun hx' => ha x hx' ?_
  simp only [Buffer.Has] at hx ⊢
  push_cast
  omega

-- The loop fills the buffers one after the other, as long as the array is not one of them.
theorem readLoop_scatter {N : Nat} (hc : s.closed = false) (hs : w.files.streams[k]? = some s)
    (hn : i + n ≤ N) (hi : (List.range' i n).map (iovecAt (w.memories mem).bytes offset) = ios)
    (hl : ∀ io ∈ ios, io.buf.toNat < 2 ^ 31 ∧ io.bufLen.toNat < 2 ^ 31)
    (ha : ∀ io ∈ ios, io.buffer.Apart ⟨offset, 8 * N⟩) : ∃ accesses,
      written accesses = Files.readBytes s (Buffer.capacity (ios.map Ciovec.buffer)) ∧
      readLoop mem (.data mem offset) (some k) n i amount w =
        .ok (amount + BitVec.ofNat 64 (written accesses).length)
          (w.hasRead k s (withBytes w.memories mem ((w.memories mem).bytes.scatter
            (ios.map Ciovec.buffer) (s.content.drop s.pos))) accesses) := by
  induction n generalizing i amount w s ios
  case zero =>
    subst hi
    refine ⟨[], rfl, ?_⟩
    have hz := Files.setStream_pos_zero hs
    simp only [hasRead, written, List.flatMap_nil, List.length_nil, hz, List.append_nil,
      List.range'_zero, List.map_nil, ByteStore.scatter, withBytes_self]
    rw [show amount + BitVec.ofNat 64 0 = amount from BitVec.add_zero amount]
    rfl
  case succ n ih =>
    let load := loadsIovec w mem offset i
    rw [List.range'_succ, List.map_cons] at hi
    subst hi
    obtain ⟨hl, hl'⟩ := List.forall_mem_cons.mp hl
    obtain ⟨ha, ha'⟩ := List.forall_mem_cons.mp ha
    generalize hio : iovecAt (w.memories mem).bytes offset i = io at hl ha ⊢
    by_cases hb : 0 < io.bufLen.toInt
    case neg =>
      have hz := (not_pos_iff hl.2).mp hb
      obtain ⟨accesses, hw, hr⟩ := @ih (i + 1) amount (w.accessed load) s _ hc hs (by omega) rfl hl' ha'
      refine ⟨load :: accesses, ?written, ?run⟩
      case written =>
        rw [List.map_cons, Buffer.capacity_cons, show io.buffer.length = 0 from hz, Nat.zero_add]
        exact hw
      case run =>
        have hz : io.buffer.length = 0 := hz
        rw [readLoop_empty (hio.symm ▸ hb), List.map_cons, ByteStore.scatter_cons_empty hz]
        have hr₁ := @hasRead_load k w s load rfl hs
        rw [← hr₁] at hr ⊢
        rw [hr]
        exact congrArg _ hasRead_append
    case pos =>
      let bytes := Files.readBytes s io.bufLen.toNat
      let s' : Stream := { s with pos := s.pos + bytes.length }
      let m' := withBytes w.memories mem ((w.memories mem).bytes.write io.buf.toInt bytes)
      let store : Access := ⟨mem, io.buf.toInt, bytes, true⟩
      have hw : written [load, store] = bytes := List.append_nil bytes
      let w₂ := w.hasRead k s m' [load, store]
      have hk : w₂.files.streams[k]? = some s' := by
        rw [show s' = { s with pos := s.pos + (written [load, store]).length } by rw [hw]]
        exact List.getElem?_set_self (List.getElem?_eq_some_iff.mp hs).1
      have hm : (List.range' (i + 1) n).map (iovecAt (w₂.memories mem).bytes offset) =
          (List.range' (i + 1) n).map (iovecAt (w.memories mem).bytes offset) := by
        refine List.map_congr_left fun j hj => ?_
        rw [show w₂.memories = m' from rfl, withBytes_bytes]
        exact iovecAt_write hl.1 ha (by have := List.mem_range'_1.mp hj; omega)
          (List.length_take_le ..)
      obtain ⟨accesses, hd, hr⟩ := @ih (i + 1) (amount + BitVec.ofNat 64 bytes.length) w₂ s' _ hc hk
        (by omega) hm hl' ha'
      refine ⟨[load, store] ++ accesses, ?written, ?run⟩
      case written =>
        rw [written_append, hw, hd, Files.readBytes_add, List.map_cons, Buffer.capacity_cons]
        rfl
      case run =>
        refine (readLoop_buffer hc hs hio hb rfl).trans <| hr.trans ?_
        rw [written_append, hw, List.length_append, BitVec.ofNat_add, ← BitVec.add_assoc]
        have hh {m₃} := @hasRead_append k w s m' m₃ [load, store] accesses
        rw [hw] at hh
        refine congrArg _ <| hh.trans <| congrArg (w.hasRead k s · _) ?_
        rw [show w₂.memories = m' from rfl, withBytes_bytes, withBytes_withBytes, List.map_cons,
          ByteStore.scatter, Files.drop_readBytes, toInt_eq_toNat hl.1]
        rfl

end

-- The number which is stored in 8 bytes, as the guest reads it from 4 of them.
theorem readWord_count {m : ByteStore} {a : Int} {count : Nat} :
    (m.write a (leBytes 8 (BitVec.ofNat 64 count).toNat)).readWord 32 a = BitVec.ofNat 32 count := by
  rw [ByteStore.readWord_write_leBytes rfl (by decide)]
  exact BitVec.eq_of_toNat_eq <| by simp

section

variable {memory : LinearMemory} {a b c : BitVec 32}

namespace Arrayed

variable (h : Arrayed memory a b)

include h

theorem iovecLen_lt : b.toNat < 2 ^ 31 := by
  have hs := h.array.2
  have hm := memory.size_le
  omega

-- What the loops look up is the array.
theorem range'_map : (List.range' 0 b.toInt.toNat).map (iovecAt memory.bytes a.toInt) =
    iovecs memory.bytes a b := by
  rw [toInt_eq_toNat h.iovecLen_lt, toInt_eq_toNat h.array.1, Int.toNat_natCast,
    ← List.range_eq_range', iovecs]

end Arrayed

theorem Scattered.array_apart (h : Scattered memory a b c) :
    ∀ io ∈ iovecs memory.bytes a b, io.buffer.Apart ⟨a.toInt, 8 * b.toInt.toNat⟩ := by
  intro io hi
  have ha := (List.pairwise_cons.mp h.apart).1 io.buffer <|
    List.mem_cons_of_mem _ <| List.mem_map_of_mem hi
  rw [toInt_eq_toNat h.iovecLen_lt, toInt_eq_toNat h.array.1, Int.toNat_natCast]
  exact ha.symm

end

section

variable {mem : MemPtr} {fd a b c : BitVec 32} {k : Nat} {w : World} {files : Files} {s : Stream}

-- An `fd_read` fills the buffers with what follows the position of the stream, and stores how much
-- that is.
theorem fdRead_scatter (hm : callMemRead 0 .memory w.callMem = .ok mem w.callMem)
    (hl : 0 < w.results.length) (ho : Files.ensureOpen fd w.files = .ok (some k) files)
    (hs : files.streams[k]? = some s) (hc : s.closed = false)
    (hv : Scattered (w.memories mem) a b c) : ∃ accesses,
      written accesses = Files.readBytes s (Buffer.capacity (buffers (w.memories mem).bytes a b)) ∧
      ecsactSiWasiFdRead [.i32 fd, .i32 a, .i32 b, .i32 c] w =
        .ok none (w.afterRead
          (files.setStream k { s with pos := s.pos + (written accesses).length })
          (withBytes w.memories mem
            (((w.memories mem).bytes.scatter (buffers (w.memories mem).bytes a b)
              (s.content.drop s.pos)).write c.toInt
                (leBytes 8 (BitVec.ofNat 64 (written accesses).length).toNat)))
          (accesses ++ [countAccess mem c (written accesses).length])) := by
  let w₀ : World := { w.traced "fd_read" with files := files }
  have he : onFiles (Files.ensureOpen fd) (w.traced "fd_read") = .ok (some k) w₀ := zoom_ok ho
  have hb : ∀ io ∈ iovecs (w.memories mem).bytes a b,
      io.buf.toNat < 2 ^ 31 ∧ io.bufLen.toNat < 2 ^ 31 := fun io hi =>
    have h := hv.buffers io hi
    ⟨h.1, h.2.1⟩
  have ⟨accesses, hw, hr⟩ := @readLoop_scatter mem a.toInt b.toInt.toNat 0 k 0 w₀ s _
    b.toInt.toNat hc hs (by omega) hv.range'_map hb hv.array_apart
  refine ⟨accesses, hw, ?_⟩
  let count := countAccess mem c (written accesses).length
  have hz : (0 : BitVec 64) + BitVec.ofNat 64 (written accesses).length =
      BitVec.ofNat 64 (written accesses).length := BitVec.zero_add _
  rw [hz] at hr
  rw [fdRead_eq, withMemory_ok hm, bind_ok he, wasmMemoryCast, bind_ok hr]
  let w₁ := w₀.hasRead k s (withBytes w.memories mem ((w.memories mem).bytes.scatter
    (buffers (w.memories mem).bytes a b) (s.content.drop s.pos))) accesses
  let w₂ := (w₁.stored mem c.toInt count.data).accessed count
  have hc : storeWord (wasmMemoryCast mem c) (BitVec.ofNat 64 (written accesses).length) w₁ =
      .ok () w₂ := rfl
  apply (bind_ok hc).trans
  rw [setErrno, bind_ok (setResult_ok (w := w₂) hl)]
  apply congrArg (Result.ok none)
  simp [w₂, w₁, hasRead, stored, accessed, afterRead, w₀, World.traced, count, countAccess, withBytes]

end
end Ecsact
