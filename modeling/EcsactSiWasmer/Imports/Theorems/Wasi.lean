import EcsactSiWasmer.Imports.Iovecs
import EcsactSiWasmer.Imports.Theorems.Context
import EcsactSiWasmer.Objects.Theorems.Files

open EStateM Ecsact.World Ecsact.CallMem

namespace Ecsact

theorem Files.fread_length {n : Nat} {file : FilePtr} {files files' : Files} {bytes : List Byte}
    (h : fread n file files = .ok bytes files') : bytes.length ≤ n := by
  have ⟨s, _, _, h⟩ := bind_eq_ok.mp h
  have ⟨_, _, _, h⟩ := bind_eq_ok.mp h
  cases h
  simp

-- The loops run to an `int32_t`.
theorem toInt_toNat_le (v : BitVec 32) : v.toInt.toNat ≤ v.toNat := by
  by_cases h : v.toNat < 2 ^ 31
  case pos => rw [toInt_eq_toNat h, Int.toNat_natCast]
  case neg =>
    have hv := v.isLt
    rw [toInt_eq_sub (by omega)]
    omega

-- The start of the callbacks which look up the guest's memory in the first slot.
def withMemory {α : Type} (name : String) (f : MemPtr → CallbackM α) : CallbackM α := do
  onCallMem (debugTraceMethod name)
  let mem ← callMemory
  f mem

section

variable {fd a b c : BitVec 32}

theorem fdWrite_eq : ecsactSiWasiFdWrite [.i32 fd, .i32 a, .i32 b, .i32 c] =
    withMemory "fd_write" fun mem => do
      if fd = wasiStderrFd ∨ fd = wasiStdoutFd then
        let logLevel := if fd = wasiStdoutFd then LogLevel.info else LogLevel.error
        let writeAmount ← writeLoop mem (wasmMemoryCast mem a) logLevel b.toInt.toNat 0 0
        storeWord (wasmMemoryCast mem c) writeAmount
        setErrno 0
        return none
      else
        setErrno 1
        return none :=
  rfl

theorem fdRead_eq : ecsactSiWasiFdRead [.i32 fd, .i32 a, .i32 b, .i32 c] =
    withMemory "fd_read" fun mem => do
      let f ← onFiles (Files.ensureOpen fd)
      let readAmount ← readLoop mem (wasmMemoryCast mem a) f b.toInt.toNat 0 0
      storeWord (wasmMemoryCast mem c) readAmount
      setErrno 0
      return none :=
  rfl

theorem fdClose_eq : ecsactSiWasiFdClose [.i32 fd] = (do
    onCallMem (debugTraceMethod "fd_close")
    if fd ≠ wasiStdoutFd ∧ fd ≠ wasiStderrFd ∧ fd ≠ wasiStdinFd then
      onFiles (Files.close fd)
      setErrno 0
      return none
    else
      setErrno 1
      return none) :=
  rfl

theorem environSizesGet_eq : ecsactSiWasiEnvironSizesGet [.i32 a, .i32 b] =
    withMemory "environ_sizes_get" fun mem => do
      storeWord (wasmMemoryCast mem a) (0 : BitVec 64)
      storeWord (wasmMemoryCast mem b) (0 : BitVec 64)
      setErrno 0
      return none :=
  rfl

theorem environGet_eq : ecsactSiWasiEnvironGet [.i32 a, .i32 b] =
    withMemory "environ_get" fun mem => do
      storeBytes (wasmMemoryCast mem a) [0]
      storeBytes (wasmMemoryCast mem b) [0]
      setErrno 0
      return none :=
  rfl

-- The end of the callback, which looks at the type that it has just written.
def fdstatErrno (ret : HostPtr) : CallbackM (Option Trap) := do
  if (← loadBytes ret 1) ≠ [Filetype.unknown.value] then
    setErrno 0
    return none
  else
    setErrno 1
    return none

theorem fdFdstatGet_eq : ecsactSiWasiFdFdstatGet [.i32 fd, .i32 a] =
    withMemory "fd_fdstat_get" fun mem => (do
      match defaultFdstats fd with
      | some stat => storeBytes (wasmMemoryCast mem a) stat.encode
      | none      => storeBytes (wasmMemoryCast mem a) ((← get).files.fdstat fd).encode
      fdstatErrno (wasmMemoryCast mem a)) :=
  rfl

end

@[simp]
theorem written_append (l r : List Access) : written (l ++ r) = written l ++ written r :=
  List.flatMap_append

namespace Files

variable {files : Files} {s : Stream} {k n m : Nat}

theorem setStream_pos_zero (hs : files.streams[k]? = some s) :
    files.setStream k { s with pos := s.pos + 0 } = files := by
  have ⟨hl, he⟩ := List.getElem?_eq_some_iff.mp hs
  have h : files.streams.set k s = files.streams := by rw [← he, List.set_getElem_self]
  exact congrArg (fun streams => { files with streams := streams }) h

-- What is read next follows what has been read.
theorem readBytes_append : readBytes s n ++
    readBytes { s with pos := s.pos + (readBytes s n).length } m =
      readBytes s ((readBytes s n).length + m) := by
  have hn : (s.content.drop s.pos).take (readBytes s n).length = readBytes s n := by
    rw [readBytes, List.length_take, ← List.take_take, List.take_length]
  rw [readBytes.eq_def s ((readBytes s n).length + m), List.take_add, hn, List.drop_drop]
  rfl

end Files

section

variable {mem : MemPtr} {offset : Int} {n i k : Nat} {amount : BitVec 64} {w : World} {s : Stream}

def loadsIovec (w : World) (mem : MemPtr) (offset : Int) (i : Nat) : Access where
  mem    := mem
  offset := offset + 8 * i
  data   := (w.memories mem).bytes.read (offset + 8 * i) 8
  write  := false

theorem loadCiovec_ok : loadCiovec (.data mem offset) i w =
    .ok (iovecAt (w.memories mem).bytes offset i) (w.accessed (loadsIovec w mem offset i)) :=
  rfl

-- An empty buffer is passed over.
theorem readLoop_empty {file : FilePtr}
    (hb : ¬0 < (iovecAt (w.memories mem).bytes offset i).bufLen.toInt) :
    readLoop mem (.data mem offset) file (n + 1) i amount w =
      readLoop mem (.data mem offset) file n (i + 1) amount
        (w.accessed (loadsIovec w mem offset i)) := by
  rw [readLoop, bind_ok loadCiovec_ok, if_neg hb]

-- Without a stream, the first buffer which is not empty is the end.
theorem readLoop_null (m : MemPtr → LinearMemory) : ∃ accesses, written accesses = [] ∧
    ∀ {w amount}, w.memories = m → readLoop mem (.data mem offset) none n i amount w =
      if ∀ j, i ≤ j → j < i + n → ¬0 < (iovecAt (m mem).bytes offset j).bufLen.toInt then
        .ok amount { w with accesses := w.accesses ++ accesses }
      else .error (.undefined "null FILE*") { w with accesses := w.accesses ++ accesses } := by
  induction n generalizing i
  case zero =>
    refine ⟨[], rfl, fun _ => ?_⟩
    rw [if_pos (by omega), List.append_nil]
    rfl
  case succ n hi =>
    let io : Access := {
      mem    := mem
      offset := offset + 8 * i
      data   := (m mem).bytes.read (offset + 8 * i) 8
      write  := false
    }
    by_cases hb : 0 < (iovecAt (m mem).bytes offset i).bufLen.toInt
    case pos =>
      refine ⟨[io], rfl, fun {w _} hm => ?_⟩
      subst hm
      rw [readLoop, bind_ok loadCiovec_ok]
      rw [if_pos hb, if_neg fun h => h i (le_refl i) (by omega) hb]
      exact bind_error <| zoom_error Files.fread_null
    case neg =>
      have ⟨accesses, hw, h⟩ := @hi (i + 1)
      refine ⟨io :: accesses, hw, fun {w _} hm => ?_⟩
      subst hm
      have h {amount} := @h (w.accessed io) amount rfl
      rw [readLoop_empty hb]
      have he : (∀ j, i + 1 ≤ j → j < i + 1 + n →
          ¬0 < (iovecAt (w.memories mem).bytes offset j).bufLen.toInt) ↔
          ∀ j, i ≤ j → j < i + (n + 1) →
            ¬0 < (iovecAt (w.memories mem).bytes offset j).bufLen.toInt := by
        constructor
        case mp =>
          intro h j hj hl
          by_cases he : j = i
          case pos => exact he ▸ hb
          case neg => exact h j (by omega) (by omega)
        case mpr => exact fun h j hj hl => h j (by omega) (by omega)
      have ha : (w.accessed io).accesses ++ accesses = w.accesses ++ io :: accesses :=
        (List.append_cons ..).symm
      rw [ha] at h
      exact h.trans <| if_congr he rfl rfl

-- The world after reads of a stream which have made some accesses.
def World.hasRead (w : World) (k : Nat) (s : Stream) (memories : MemPtr → LinearMemory)
    (accesses : List Access) : World :=
  { w with
    memories := memories
    accesses := w.accesses ++ accesses
    files    := w.files.setStream k { s with pos := s.pos + (written accesses).length }
  }

theorem World.hasRead_append {m₁ m₂ : MemPtr → LinearMemory} {l₁ l₂ : List Access} :
    (w.hasRead k s m₁ l₁).hasRead k { s with pos := s.pos + (written l₁).length } m₂ l₂ =
      w.hasRead k s m₂ (l₁ ++ l₂) := by
  simp only [hasRead, Files.setStream, List.set_set, List.append_assoc, written_append,
    List.length_append, Nat.add_assoc]

theorem World.hasRead_load {access : Access} (ha : access.write = false)
    (hs : w.files.streams[k]? = some s) : w.hasRead k s w.memories [access] = w.accessed access := by
  have hw : written [access] = [] := by simp [written, ha]
  simp only [hasRead, hw, List.length_nil, Files.setStream_pos_zero hs]
  rfl

-- A buffer gets what follows the position of the stream.
theorem readLoop_buffer {iov : Ciovec} {bytes : List Byte} (hc : s.closed = false)
    (hs : w.files.streams[k]? = some s) (hi : iovecAt (w.memories mem).bytes offset i = iov)
    (hb : 0 < iov.bufLen.toInt) (hr : Files.readBytes s iov.bufLen.toNat = bytes) :
    readLoop mem (.data mem offset) (some k) (n + 1) i amount w =
      readLoop mem (.data mem offset) (some k) n (i + 1) (amount + BitVec.ofNat 64 bytes.length)
        (w.hasRead k s (Function.update w.memories mem
          { w.memories mem with bytes := (w.memories mem).bytes.write iov.buf.toInt bytes })
          [loadsIovec w mem offset i, ⟨mem, iov.buf.toInt, bytes, true⟩]) := by
  subst hi hr
  let iov := iovecAt (w.memories mem).bytes offset i
  let bytes := Files.readBytes s iov.bufLen.toNat
  let store : Access := ⟨mem, iov.buf.toInt, bytes, true⟩
  let w₁ : World := { w.accessed (loadsIovec w mem offset i) with
    files := w.files.setStream k { s with pos := s.pos + bytes.length } }
  let w₂ : World := (w₁.stored mem iov.buf.toInt bytes).accessed store
  have hf : onFiles (Files.fread iov.bufLen.toNat (some k))
      (w.accessed (loadsIovec w mem offset i)) = .ok bytes w₁ :=
    zoom_ok <| Files.fread_ok hs hc
  have hm : storeBytes (wasmMemoryCast mem iov.buf) bytes w₁ = .ok () w₂ := rfl
  have hw : written [loadsIovec w mem offset i, store] = bytes := List.append_nil bytes
  rw [readLoop, bind_ok loadCiovec_ok, if_pos hb]
  refine (bind_ok hf).trans <| (bind_ok hm).trans <| congrArg _ ?_
  simp only [hasRead, store, iov, bytes] at hw ⊢
  rw [hw]
  simp [w₂, w₁, accessed, stored, store, iov, bytes]

-- The loop reads on from the position of the stream, and moves it by what it has read. What it does
-- depends on nothing but the stream and the guests' memories.
theorem readLoop_ok (m : MemPtr → LinearMemory) (hc : s.closed = false) :
    ∃ accesses memories,
      written accesses = Files.readBytes s (written accesses).length ∧
      ∀ {w k amount}, w.memories = m → w.files.streams[k]? = some s →
        readLoop mem (.data mem offset) (some k) n i amount w =
          .ok (amount + BitVec.ofNat 64 (written accesses).length)
            (w.hasRead k s memories accesses) := by
  induction n generalizing i m s
  case zero =>
    refine ⟨[], m, rfl, fun {w k amount} hm hs => ?_⟩
    have hz := Files.setStream_pos_zero hs
    simp only [hasRead, written, List.flatMap_nil, List.length_nil, hz, List.append_nil, ← hm]
    rw [show amount + BitVec.ofNat 64 0 = amount from BitVec.add_zero amount]
    rfl
  case succ n hi =>
    let iov := iovecAt (m mem).bytes offset i
    let io : Access := {
      mem    := mem
      offset := offset + 8 * i
      data   := (m mem).bytes.read (offset + 8 * i) 8
      write  := false
    }
    by_cases hb : 0 < iov.bufLen.toInt
    case neg =>
      have ⟨accesses, memories, hd, hr⟩ := @hi (i + 1) s m hc
      refine ⟨io :: accesses, memories, hd, fun {w k amount} hm hs => ?_⟩
      subst hm
      have ha := @hasRead_append k w s w.memories memories [io] accesses
      rw [hasRead_load rfl hs] at ha
      have hr := @hr (w.accessed io) k amount rfl hs
      rw [readLoop_empty hb]
      exact hr.trans <| congrArg _ ha
    case pos =>
      let bytes := Files.readBytes s iov.bufLen.toNat
      let s' : Stream := { s with pos := s.pos + bytes.length }
      let m' := Function.update m mem
        { m mem with bytes := (m mem).bytes.write iov.buf.toInt bytes }
      let store : Access := ⟨mem, iov.buf.toInt, bytes, true⟩
      have hw : written [io, store] = bytes := List.append_nil bytes
      have ⟨accesses, memories, hd, hr⟩ := @hi (i + 1) s' m' hc
      refine ⟨[io, store] ++ accesses, memories, ?written, fun {w k amount} hm hs => ?run⟩
      case written =>
        rw [written_append, hw, List.length_append, ← Files.readBytes_append, ← hd]
      case run =>
        subst hm
        let w₂ := w.hasRead k s m' [io, store]
        have hk : w₂.files.streams[k]? = some s' := by
          rw [show s' = { s with pos := s.pos + (written [io, store]).length } by rw [hw]]
          exact List.getElem?_set_self (List.getElem?_eq_some_iff.mp hs).1
        have ha := @hasRead_append k w s m' memories [io, store] accesses
        rw [hw] at ha
        refine (readLoop_buffer hc hs rfl hb rfl).trans <| (@hr w₂ k _ rfl hk).trans ?_
        rw [ha, written_append, hw, List.length_append, BitVec.add_assoc, ← BitVec.ofNat_add]

end

-- A length which is taken for a positive number is added as it is.
theorem signExtend_bufLen {iov : Ciovec} (h : 0 < iov.bufLen.toInt) :
    iov.bufLen.signExtend 64 = BitVec.ofNat 64 iov.bufLen.toNat := by
  have hm : iov.bufLen.msb = false := by
    by_contra hm
    have hn := BitVec.toInt_neg_of_msb_true (Bool.of_not_eq_false hm)
    omega
  rw [BitVec.signExtend_eq_setWidth_of_msb_false hm]
  exact BitVec.eq_of_toNat_eq <| by simp

-- What the loop loads: each entry, and its buffer if that is not empty.
def writeLoads (bytes : ByteStore) (mem : MemPtr) (offset : Int) : Nat → Nat → List Access
  | _, 0     => []
  | i, n + 1 =>
    let io := iovecAt bytes offset i
    ⟨mem, offset + 8 * i, bytes.read (offset + 8 * i) 8, false⟩ ::
      if 0 < io.bufLen.toInt then
        ⟨mem, io.buf.toInt, bytes.read io.buf.toInt io.bufLen.toNat, false⟩ ::
          writeLoads bytes mem offset (i + 1) n
      else
        writeLoads bytes mem offset (i + 1) n

-- Each buffer is pushed on its own, and counted.
theorem writeLoop_ok {mem : MemPtr} {offset : Int} {level : LogLevel} {n i : Nat}
    {amount : BitVec 64} {w : World} : writeLoop mem (.data mem offset) level n i amount w =
      .ok (amount + BitVec.ofNat 64 (writeBuffers (w.memories mem).bytes offset i n).flatten.length)
        { w with
          accesses := w.accesses ++ writeLoads (w.memories mem).bytes mem offset i n
          logger   := (writeBuffers (w.memories mem).bytes offset i n).foldl
            (·.pushStdioStr level ·) w.logger
        } := by
  induction n generalizing i amount w
  case zero =>
    rw [writeBuffers, writeLoads, List.flatten_nil, List.length_nil, List.append_nil]
    rw [show amount + BitVec.ofNat 64 0 = amount from BitVec.add_zero amount]
    rfl
  case succ n hi =>
    let io := iovecAt (w.memories mem).bytes offset i
    let w₁ := w.accessed (loadsIovec w mem offset i)
    rw [writeLoop, bind_ok loadCiovec_ok, writeBuffers, writeLoads, List.append_cons]
    by_cases hb : 0 < io.bufLen.toInt
    case neg =>
      rw [if_neg hb, if_neg hb, if_neg hb]
      exact @hi (i + 1) amount w₁
    case pos =>
      let str := (w.memories mem).bytes.read io.buf.toInt io.bufLen.toNat
      let w₂ := w₁.accessed { mem := mem, offset := io.buf.toInt, data := str, write := false }
      let w₃ : World := { w₂ with logger := w₂.logger.pushStdioStr level str }
      have hl : loadBytes (wasmMemoryCast mem io.buf) io.bufLen.toNat w₁ = .ok str w₂ := rfl
      have hp : pushStdioStr level str w₂ = .ok () w₃ := rfl
      rw [if_pos hb, if_pos hb, if_pos hb, List.append_cons, List.flatten_cons, List.length_append,
        ByteStore.read_length, BitVec.ofNat_add, ← BitVec.add_assoc, ← signExtend_bufLen hb]
      exact (bind_ok hl).trans <| (bind_ok hp).trans <| @hi (i + 1) _ w₃

section

variable {α : Type} {name : String} {f : MemPtr → CallbackM α} {w : World} {mem : MemPtr}

theorem withMemory_ok (h : callMemRead 0 .memory w.callMem = .ok mem w.callMem) :
    withMemory name f w = f mem (w.traced name) := by
  have ⟨_, hi, _⟩ := callMemRead_eq_ok.mp h
  have ht : onCallMem (debugTraceMethod name) w = .ok () (w.traced name) :=
    zoom_ok <| debugTraceMethod_ok fun _ => by simp [hi]
  have hr := callMemRead_of_untraced (@untraced_traced w.callMem name) h
  rw [withMemory, bind_ok ht]
  exact bind_ok <| read_ok hr

-- Without a memory in the first slot, nothing but the trace changes, whatever the files are.
theorem withMemory_refused (h : ¬∃ mem, callMemRead 0 .memory w.callMem = .ok mem w.callMem) :
    ∃ e c, w.callMem.Refused e ∧ (c = w.callMem ∨ c = w.callMem.traced name) ∧
      ∀ (f : MemPtr → CallbackM α) files, withMemory name f { w with files := files } =
        .error e { w with files := files, callMem := c } := by
  cases @debugTraceMethod_cases w.callMem name
  case inr hd =>
    exact ⟨_, _, .inl ⟨hd.1.1, rfl⟩, .inl rfl, fun _ _ => bind_error <| zoom_error hd.2⟩
  case inl hd =>
    have ht := hd.2
    cases @callMemRead_cases (w.callMem.traced name) 0 .memory
    case inl hm =>
      have ⟨mem, hm⟩ := hm
      exact absurd ⟨mem, callMemRead_of_untraced untraced_traced.symm hm⟩ h
    case inr hm =>
      have ⟨e, hr, hm⟩ := hm
      refine ⟨e, _, refused_traced.mp hr, .inr rfl, fun f files => ?_⟩
      let w₁ : World := { w with files := files }
      have ht : onCallMem (debugTraceMethod name) w₁ = .ok () (w₁.traced name) := zoom_ok ht
      have hm : onCallMem (callMemRead 0 .memory) (w₁.traced name) =
          .error e (w₁.traced name) := zoom_error hm
      rw [withMemory, bind_ok ht]
      exact bind_error hm

theorem withMemory_cases : (∃ mem, callMemRead 0 .memory w.callMem = .ok mem w.callMem) ∨
    ∃ e w', w.callMem.Refused e ∧ withMemory name f w = .error e w' ∧
      (w' = w ∨ w' = w.traced name) := by
  by_cases h : ∃ mem, callMemRead 0 .memory w.callMem = .ok mem w.callMem
  case pos => exact .inl h
  case neg =>
    have ⟨e, c, hr, hc, he⟩ := @withMemory_refused α name _ h
    refine .inr ⟨e, _, hr, he f w.files, ?_⟩
    cases hc
    case inl hc => exact .inl <| by rw [hc]
    case inr hc => exact .inr <| by rw [hc]; rfl

end

-- The world after an `fd_read` has returned.
def World.afterRead (w : World) (files : Files) (memories : MemPtr → LinearMemory)
    (accesses : List Access) : World :=
  { w.traced "fd_read" with
    memories := memories
    accesses := w.accesses ++ accesses
    files    := files
    results  := w.results.set 0 (some (.i32 0))
  }

-- The store of the number of bytes read.
def countAccess (mem : MemPtr) (c : BitVec 32) (count : Nat) : Access where
  mem    := mem
  offset := c.toInt
  data   := leBytes 8 (BitVec.ofNat 64 count).toNat
  write  := true

section

variable {mem : MemPtr} {fd a b c : BitVec 32} {s : Stream}

theorem fdRead_ok (m : MemPtr → LinearMemory) (hc : s.closed = false) : ∃ accesses memories,
    written accesses = Files.readBytes s (written accesses).length ∧
    ∀ {w k files}, w.memories = m → callMemRead 0 .memory w.callMem = .ok mem w.callMem →
      Files.ensureOpen fd w.files = .ok (some k) files → files.streams[k]? = some s →
      0 < w.results.length →
      ecsactSiWasiFdRead [.i32 fd, .i32 a, .i32 b, .i32 c] w =
        .ok none (w.afterRead
          (files.setStream k { s with pos := s.pos + (written accesses).length }) memories
          (accesses ++ [countAccess mem c (written accesses).length])) := by
  have ⟨accesses, memories, hd, hr⟩ :=
    @readLoop_ok mem a.toInt b.toInt.toNat 0 s m hc
  let count := countAccess mem c (written accesses).length
  let memories' := Function.update memories mem
    { memories mem with bytes := (memories mem).bytes.write c.toInt count.data }
  refine ⟨accesses, memories', hd, fun {w k files} hm hmem ho hs hl => ?_⟩
  let w₀ : World := { w.traced "fd_read" with files := files }
  have he : onFiles (Files.ensureOpen fd) (w.traced "fd_read") = .ok (some k) w₀ := zoom_ok ho
  have hr₀ := @hr w₀ k 0 hm hs
  have hz : (0 : BitVec 64) + BitVec.ofNat 64 (written accesses).length =
      BitVec.ofNat 64 (written accesses).length := BitVec.zero_add _
  rw [hz] at hr₀
  rw [fdRead_eq, withMemory_ok hmem, bind_ok he, wasmMemoryCast, bind_ok hr₀]
  let w₁ := w₀.hasRead k s memories accesses
  let w₂ := (w₁.stored mem c.toInt count.data).accessed count
  have hc : storeWord (wasmMemoryCast mem c) (BitVec.ofNat 64 (written accesses).length) w₁ =
      .ok () w₂ := rfl
  rw [bind_ok hc]
  rw [setErrno, bind_ok (setResult_ok (w := w₂) hl)]
  apply congrArg (Result.ok none)
  simp [w₂, w₁, hasRead, stored, accessed, afterRead, memories', w₀, World.traced, count]

theorem fdRead_null (m : MemPtr → LinearMemory) : ∃ accesses memories, written accesses = [] ∧
    ∀ {w files}, w.memories = m → callMemRead 0 .memory w.callMem = .ok mem w.callMem →
      Files.ensureOpen fd w.files = .ok none files → 0 < w.results.length →
      ecsactSiWasiFdRead [.i32 fd, .i32 a, .i32 b, .i32 c] w =
        if ∀ j < b.toInt.toNat, ¬0 < (iovecAt (m mem).bytes a.toInt j).bufLen.toInt then
          .ok none (w.afterRead files memories (accesses ++ [countAccess mem c 0]))
        else
          .error (.undefined "null FILE*") { w.traced "fd_read" with
            accesses := w.accesses ++ accesses
            files    := files
          } := by
  have ⟨accesses, hw, hr⟩ := @readLoop_null mem a.toInt b.toInt.toNat 0 m
  let count := countAccess mem c 0
  let memories' := Function.update m mem
    { m mem with bytes := (m mem).bytes.write c.toInt count.data }
  refine ⟨accesses, memories', hw, fun {w files} hm hmem ho hl => ?_⟩
  let w₀ : World := { w.traced "fd_read" with files := files }
  have he : onFiles (Files.ensureOpen fd) (w.traced "fd_read") = .ok none w₀ := zoom_ok ho
  let w₁ : World := { w₀ with accesses := w.accesses ++ accesses }
  let w₂ := (w₁.stored mem c.toInt count.data).accessed count
  simp only [Nat.zero_le, Nat.zero_add, true_implies] at hr
  have hr := @hr w₀ 0 hm
  rw [fdRead_eq, withMemory_ok hmem, bind_ok he]
  split
  case isTrue h =>
    rw [wasmMemoryCast, bind_ok (hr.trans <| if_pos h)]
    have hc : storeWord (wasmMemoryCast mem c) (BitVec.ofNat 64 0) w₁ = .ok () w₂ := rfl
    apply (bind_ok hc).trans
    rw [setErrno, bind_ok (setResult_ok (w := w₂) hl)]
    apply congrArg (Result.ok none)
    simp [w₂, w₁, stored, accessed, afterRead, w₀, World.traced, count, memories', ← hm]
  case isFalse h =>
    exact bind_error <| hr.trans <| if_neg h

theorem fdRead_refused {w : World}
    (h : ¬∃ mem, callMemRead 0 .memory w.callMem = .ok mem w.callMem) : ∃ e c', ∀ files,
      ecsactSiWasiFdRead [.i32 fd, .i32 a, .i32 b, .i32 c] { w with files := files } =
        .error e { w with files := files, callMem := c' } := by
  have ⟨e, c', _, _, he⟩ := @withMemory_refused (Option Trap) "fd_read" w h
  rw [fdRead_eq]
  exact ⟨e, c', he _⟩

theorem fdRead_cases {w : World} :
    (∃ mem, callMemRead 0 .memory w.callMem = .ok mem w.callMem) ∨
      ∃ e w', w.callMem.Refused e ∧
        ecsactSiWasiFdRead [.i32 fd, .i32 a, .i32 b, .i32 c] w = .error e w' ∧
          (w' = w ∨ w' = w.traced "fd_read") := by
  rw [fdRead_eq]
  exact withMemory_cases

theorem fdRead_error {w : World} {files : Files} {e : Fault}
    (hm : callMemRead 0 .memory w.callMem = .ok mem w.callMem)
    (ho : Files.ensureOpen fd w.files = .error e files) :
    ecsactSiWasiFdRead [.i32 fd, .i32 a, .i32 b, .i32 c] w =
      .error e { w.traced "fd_read" with files := files } := by
  have he : onFiles (Files.ensureOpen fd) (w.traced "fd_read") =
      .error e { w.traced "fd_read" with files := files } := zoom_error ho
  rw [fdRead_eq, withMemory_ok hm, bind_error he]

end

section

variable {fd : BitVec 32} {w : World} {files : Files}

-- The world after an `fd_close` which has returned.
def World.afterClose (w : World) (files : Files) (errno : BitVec 32) : World :=
  { w.traced "fd_close" with
    files   := files
    results := w.results.set 0 (some (.i32 errno))
  }

theorem not_isStdio : ¬IsStdio fd ↔ fd ≠ wasiStdoutFd ∧ fd ≠ wasiStderrFd ∧ fd ≠ wasiStdinFd := by
  simp only [IsStdio, not_or, ne_eq]

theorem fdClose_stdio (ht : onCallMem (debugTraceMethod "fd_close") w = .ok () (w.traced "fd_close"))
    (hf : IsStdio fd) (hl : 0 < w.results.length) :
    ecsactSiWasiFdClose [.i32 fd] w = .ok none (w.afterClose w.files 1) := by
  rw [fdClose_eq, bind_ok ht, if_neg fun h => not_isStdio.mpr h hf]
  exact bind_ok <| setResult_ok <| by exact hl

theorem fdClose_ok (ht : onCallMem (debugTraceMethod "fd_close") w = .ok () (w.traced "fd_close"))
    (hf : ¬IsStdio fd) (hc : Files.close fd w.files = .ok () files) (hl : 0 < w.results.length) :
    ecsactSiWasiFdClose [.i32 fd] w = .ok none (w.afterClose files 0) := by
  have hz : onFiles (Files.close fd) (w.traced "fd_close") =
      .ok () { w.traced "fd_close" with files := files } := zoom_ok hc
  rw [fdClose_eq, bind_ok ht, if_pos (not_isStdio.mp hf), bind_ok hz]
  exact bind_ok <| setResult_ok <| by exact hl

theorem fdClose_error
    (ht : onCallMem (debugTraceMethod "fd_close") w = .ok () (w.traced "fd_close"))
    (hf : ¬IsStdio fd) {e : Fault} (hc : Files.close fd w.files = .error e files) :
    ecsactSiWasiFdClose [.i32 fd] w = .error e { w.traced "fd_close" with files := files } := by
  have hz : onFiles (Files.close fd) (w.traced "fd_close") =
      .error e { w.traced "fd_close" with files := files } := zoom_error hc
  rw [fdClose_eq, bind_ok ht, if_pos (not_isStdio.mp hf), bind_error hz]

theorem fdClose_refused {e : Fault}
    (ht : onCallMem (debugTraceMethod "fd_close") w = .error e w) :
    ecsactSiWasiFdClose [.i32 fd] w = .error e w := by
  rw [fdClose_eq, bind_error ht]

end
section

variable {mem : MemPtr} {fd a b c : BitVec 32} {w : World}

-- A write to the two streams ends with the buffers pushed, and the number of their bytes stored.
theorem fdWrite_ok (hm : callMemRead 0 .memory w.callMem = .ok mem w.callMem)
    (hl : 0 < w.results.length) (hf : fd = wasiStderrFd ∨ fd = wasiStdoutFd)
    {bufs : List (List Byte)}
    (hb : writeBuffers (w.memories mem).bytes a.toInt 0 b.toInt.toNat = bufs) :
    ecsactSiWasiFdWrite [.i32 fd, .i32 a, .i32 b, .i32 c] w =
      .ok none { (w.traced "fd_write").stored mem c.toInt
          (leBytes 8 (BitVec.ofNat 64 bufs.flatten.length).toNat) with
        accesses := w.accesses ++ writeLoads (w.memories mem).bytes mem a.toInt 0 b.toInt.toNat ++
          [⟨mem, c.toInt, leBytes 8 (BitVec.ofNat 64 bufs.flatten.length).toNat, true⟩]
        logger   := bufs.foldl (·.pushStdioStr (stdLevel fd) ·) w.logger
        results  := w.results.set 0 (some (.i32 0))
      } := by
  have h := @writeLoop_ok mem a.toInt (stdLevel fd) b.toInt.toNat 0 0 (w.traced "fd_write")
  have hb : writeBuffers ((w.traced "fd_write").memories mem).bytes a.toInt 0 b.toInt.toNat =
      bufs := hb
  have hz {v : BitVec 64} : 0 + v = v := BitVec.zero_add v
  rw [hb, hz] at h
  let w₁ : World := { w.traced "fd_write" with
    accesses := w.accesses ++ writeLoads (w.memories mem).bytes mem a.toInt 0 b.toInt.toNat
    logger   := bufs.foldl (·.pushStdioStr (stdLevel fd) ·) w.logger
  }
  let data := leBytes 8 (BitVec.ofNat 64 bufs.flatten.length).toNat
  let store : Access := { mem := mem, offset := c.toInt, data := data, write := true }
  let w₂ := (w₁.stored mem c.toInt data).accessed store
  have hs : storeWord (wasmMemoryCast mem c) (BitVec.ofNat 64 bufs.flatten.length) w₁ =
      .ok () w₂ := rfl
  rw [fdWrite_eq, withMemory_ok hm, if_pos hf]
  refine (bind_ok h).trans <| (bind_ok hs).trans ?_
  exact bind_ok <| setResult_ok <| by exact hl

theorem fdWrite_unknown (hm : callMemRead 0 .memory w.callMem = .ok mem w.callMem)
    (hl : 0 < w.results.length) (hf : ¬(fd = wasiStderrFd ∨ fd = wasiStdoutFd)) :
    ecsactSiWasiFdWrite [.i32 fd, .i32 a, .i32 b, .i32 c] w =
      .ok none { w.traced "fd_write" with results := w.results.set 0 (some (.i32 1)) } := by
  rw [fdWrite_eq, withMemory_ok hm, if_neg hf]
  exact bind_ok <| setResult_ok <| by exact hl

end

section

variable {mem : MemPtr} {fd a : BitVec 32} {w : World} {offset : Int} {stat : Fdstat}

theorem fdstatErrno_ok (hl : 0 < w.results.length)
    (hs : (w.memories mem).bytes.read offset 1 = [stat.fsFiletype.value]) :
    ∃ accesses, fdstatErrno (.data mem offset) w = .ok none { w with
      accesses := accesses
      results  := w.results.set 0 (some (.i32 (if stat.fsFiletype = .unknown then 1 else 0)))
    } := by
  let load : Access :=
    { mem := mem, offset := offset, data := [stat.fsFiletype.value], write := false }
  have hb : loadBytes (.data mem offset) 1 w =
      .ok [stat.fsFiletype.value] (w.accessed load) := by
    rw [loadBytes]
    simp only [load, ← hs]
    rfl
  refine ⟨(w.accessed load).accesses, ?_⟩
  rw [fdstatErrno, bind_ok hb]
  cases hf : stat.fsFiletype
  case unknown => exact bind_ok <| setResult_ok <| by exact hl
  all_goals exact bind_ok <| setResult_ok <| by exact hl

-- The status is stored, and then its type is looked at.
theorem fdFdstatGet_ok (hm : callMemRead 0 .memory w.callMem = .ok mem w.callMem)
    (hl : 0 < w.results.length) (hs : (defaultFdstats fd).getD (w.files.fdstat fd) = stat) :
    ∃ accesses, ecsactSiWasiFdFdstatGet [.i32 fd, .i32 a] w =
      .ok none { (w.traced "fd_fdstat_get").stored mem a.toInt stat.encode with
        accesses := accesses
        results  := w.results.set 0 (some (.i32 (if stat.fsFiletype = .unknown then 1 else 0)))
      } := by
  let store : Access := { mem := mem, offset := a.toInt, data := stat.encode, write := true }
  let w₁ := ((w.traced "fd_fdstat_get").stored mem a.toInt stat.encode).accessed store
  have hb : storeBytes (wasmMemoryCast mem a) stat.encode (w.traced "fd_fdstat_get") =
      .ok () w₁ := rfl
  have hr : (w₁.memories mem).bytes.read a.toInt 1 = [stat.fsFiletype.value] := by
    simp only [w₁, accessed, stored, Function.update_self]
    exact ByteStore.read_write_head
  have ⟨accesses, he⟩ := fdstatErrno_ok (w := w₁) hl hr
  refine ⟨accesses, ?_⟩
  rw [fdFdstatGet_eq, withMemory_ok hm]
  cases hd : defaultFdstats fd
  case some stat' =>
    rw [hd] at hs
    cases hs
    exact (bind_ok hb).trans he
  case none =>
    rw [hd] at hs
    cases hs
    exact (bind_ok rfl).trans <| (bind_ok hb).trans he

end
end Ecsact
