import EcsactSiWasmer.Execution.Seeks
import EcsactSiWasmer.Execution.Theorems.Sharing

open EStateM Ecsact.World Ecsact.CallMem

namespace Ecsact

open Files (Shows)
open Files.Shows (streamOf)

theorem ImportCall.fdSeek_run {call : ImportCall} (hn : call.name = "fd_seek") (w : World) :
    call.run w = ecsactSiWasiFdSeek call.args (call.enter w) := by
  rw [run, callback_eq hn rfl]

-- A seek does nothing but report success.
theorem fdSeek_ok {args : List WasmVal} {mem : MemPtr} {w : World}
    (hm : callMemRead 0 .memory w.callMem = .ok mem w.callMem) (hl : 0 < w.results.length) :
    ecsactSiWasiFdSeek args w =
      .ok none { w.traced "fd_seek" with results := w.results.set 0 (some (.i32 0)) } := by
  have ⟨info, hi, _⟩ := callMemRead_eq_ok.mp hm
  have ht : onCallMem (debugTraceMethod "fd_seek") w = .ok () (w.traced "fd_seek") :=
    zoom_ok <| debugTraceMethod_ok fun _ => by simp [hi]
  rw [ecsactSiWasiFdSeek, bind_ok ht]
  exact bind_ok <| setResult_ok hl

theorem ImportCall.fdSeek_results {call : ImportCall} (hn : call.name = "fd_seek") (w : World) :
    0 < (call.enter w).results.length := by
  rw [enter_length hn rfl]
  exact Nat.one_pos

theorem fdSeek_mem : ("fd_seek", ⟨wasmFunctypeNew41 .i32 .i64 .i32 .i32 .i32,
    ecsactSiWasiFdSeek⟩) ∈ importTables := by
  simp [importTables, guestWasiModuleImports]

theorem typed_seek (fd whence retptr : BitVec 32) (offset : BitVec 64) :
    [WasmVal.i32 fd, .i64 offset, .i32 whence, .i32 retptr].map WasmVal.kind =
      [.i32, .i64, .i32, .i32] :=
  rfl

def ImportCall.fdSeek (fd : BitVec 32) (offset : BitVec 64) (whence retptr : BitVec 32) :
    ImportCall where
  name  := "fd_seek"
  func  := ⟨wasmFunctypeNew41 .i32 .i64 .i32 .i32 .i32, ecsactSiWasiFdSeek⟩
  mem   := fdSeek_mem
  args  := [.i32 fd, .i64 offset, .i32 whence, .i32 retptr]
  typed := typed_seek fd whence retptr offset

namespace FileCall

variable {c : FileCall} {fd : BitVec 32} {files : Files}

theorem MovesCursor.seek (h : c.MovesCursor fd) (hn : c.call.name = "fd_seek") :
    ∃ w, c.run files = .ok none w ∧ w.results = [some (.i32 0)] ∧ w.files = (c.start files).files ∧
      w.memories = (c.call.enter (c.start files)).memories := by
  have ⟨mem, hm⟩ := h.active
  have hr := (c.call.fdSeek_run hn (c.start files)).trans <|
    @fdSeek_ok _ mem (c.call.enter (c.start files)) hm (c.call.fdSeek_results hn _)
  exact ⟨_, hr, ImportCall.enter_set hn rfl rfl _ _, rfl, rfl⟩

-- A read goes on from the position of the stream, and moves it by what it delivers.
theorem MovesCursor.read {path : String} {opened : Option (Option Stream)} {t : Stream}
    (h : c.MovesCursor fd) (hn : c.call.name = "fd_read") (hs : Shows fd path files opened)
    (ht : streamOf (c.world.files.disk (cStr path)) path opened = some t) :
    ∃ w, c.run files = .ok none w ∧ delivered w = Files.readBytes t (delivered w).length ∧
      Shows fd path w.files (some (some { t with pos := t.pos + (delivered w).length })) := by
  have ⟨mem, hm⟩ := h.active
  have hs : Shows fd path (c.start files).files opened := hs.withDisk
  have hc := hs.closed_eq_false ht
  have ⟨k, files', ho, hk, hs'⟩ := hs.ensureOpen_some ht
  have hr := c.call.fdRead_run hn (c.start files)
  have ⟨accesses, memories, hw, hok⟩ := @fdRead_ok mem fd (c.call.val 1) (c.call.val 2)
    (c.call.val 3) t (c.call.enter (c.start files)).memories hc
  have hok := @hok (c.call.enter (c.start files)) k files' rfl hm ho hk (c.call.fdRead_results hn _)
  rw [h.fd, hok] at hr
  refine ⟨_, hr, ?_⟩
  rw [delivered_afterRead rfl]
  exact ⟨hw, hs' _ hc⟩

end FileCall

theorem Files.Shows.position {fd : BitVec 32} {path : String} {files : Files}
    {opened : Option (Option Stream)} (h : Shows fd path files opened) :
    files.position fd = (opened.join.map (·.pos)).getD 0 := by
  cases h
  case closed hv _ ho         => simp [Files.position, hv, ho]
  case failed hv _ ho         => simp [Files.position, hv, ho]
  case stream hv _ ho hs _    => simp [Files.position, hv, ho, hs]

namespace Cursor

variable {fd : BitVec 32} {path : String} {content : List Byte} {cur : Cursor} {c : FileCall}

-- The offset is the position of the stream that a read starts from.
def Fits (fd : BitVec 32) (path : String) (content : List Byte) (cur : Cursor) : Prop :=
  ∃ opened t, Shows fd path cur.files opened ∧ streamOf (some content) path opened = some t ∧
    t.content = content ∧ t.pos = cur.offset

theorem Fits.read (h : cur.Fits fd path content) (hc : c.MovesCursor fd)
    (hd : c.world.files.disk (cStr path) = some content) (hn : c.call.name = "fd_read") :
    cur.Agrees c fd content ∧ (cur.next content.length c).Fits fd path content := by
  have ⟨opened, t, hs, ht, hcon, hp⟩ := h
  have ⟨w, hr, hw, hs'⟩ := hc.read hn hs (hd ▸ ht)
  have hne : c.call.name ≠ "fd_seek" := by
    rw [hn]
    decide
  refine ⟨⟨fun _ => ?read, fun hn => absurd hn hne, fun hn => absurd hn hne⟩, ?fits⟩
  case read =>
    rw [hr, Result.state_ok, hw, Files.readBytes, hcon, hp]
    exact List.take_prefix ..
  case fits =>
    let t' : Stream := { t with pos := t.pos + (delivered w).length }
    refine ⟨some (some t'), t', ?stream, rfl, hcon, ?pos⟩
    case stream =>
      rw [next, FileCall.next, hr]
      exact hs'
    case pos =>
      rw [next, if_pos hn, hr]
      exact congrArg (· + _) hp

-- Every seek reports success, and does not move the position.

theorem Fits.seek (h : cur.Fits fd path content) (hc : c.MovesCursor fd)
    (hn : c.call.name = "fd_seek") : c.Succeeds cur.files ∧
      (c.run cur.files).state.memories = (c.call.enter (c.start cur.files)).memories ∧
      cur.files.position fd = cur.offset ∧ (c.next cur.files).position fd = cur.offset := by
  have ⟨opened, t, hs, ht, _, hp⟩ := h
  have ⟨w, hr, he, hf, hm⟩ := @FileCall.MovesCursor.seek c fd cur.files hc hn
  have hs' : Shows fd path (c.next cur.files) opened := by
    rw [FileCall.next, hr, Result.state_ok, hf]
    exact hs.withDisk
  have ho : (opened.join.map (·.pos)).getD 0 = cur.offset := by
    cases opened
    case none =>
      cases ht
      exact hp
    case some opened =>
      cases ht
      exact hp
  rw [FileCall.Succeeds, hs.position, hs'.position, hr]
  exact ⟨he, hm, ho, ho⟩

theorem Fits.not_agrees (h : cur.Fits fd path content) (hc : c.MovesCursor fd)
    (hn : c.call.name = "fd_seek") : ¬cur.Agrees c fd content := by
  have ⟨hs, _, hp, hp'⟩ := h.seek hc hn
  exact fun ha => (ha.failure hn <| hp'.trans hp.symm).1 hs

-- So a seek is right about what it reports only if it asks for the offset at which the file is, and
-- the guest has that where it is to be stored.
theorem Fits.moves_iff (h : cur.Fits fd path content) (hc : c.MovesCursor fd)
    (hn : c.call.name = "fd_seek") : cur.Moves content.length c fd ↔
      c.target content.length cur.offset = some cur.offset ∧
      ∀ mem, callMemRead 0 .memory c.world.callMem = .ok mem c.world.callMem →
        ((c.call.enter (c.start cur.files)).memories mem).bytes.readWord 64 (c.call.val 2).toNat =
          BitVec.ofNat 64 cur.offset := by
  have ⟨_, hm, _, hp⟩ := h.seek hc hn
  constructor
  case mp =>
    intro ⟨ht, hs⟩
    rw [hp] at ht hs
    rw [hm] at hs
    exact ⟨ht, hs⟩
  case mpr =>
    intro ⟨ht, hs⟩
    refine ⟨hp.symm ▸ ht, ?_⟩
    rw [hp, hm]
    exact hs

theorem along_agrees_iff {files : Files} {info : VirtualFileInfo} {cs : List FileCall}
    (hv : files.virtualFiles fd = some info) (ho : info.openedFile = none)
    (hc : ∀ c ∈ cs, c.MovesCursor fd ∧
      c.world.files.disk (cStr info.realPath) = some content) :
    cs.Along (next content.length) (fun cur c => cur.Agrees c fd content) ⟨files, 0⟩ ↔
      ∀ c ∈ cs, c.call.name ≠ "fd_seek" := by
  rw [← @List.Along.const_iff _ _ (next content.length) ⟨files, 0⟩]
  have hs : Fits fd info.realPath content ⟨files, 0⟩ := ⟨none, _, .closed hv rfl ho, rfl, rfl, rfl⟩
  refine List.Along.iff_of_invariant hs hc (fun cur c h hc hn => ?step) fun cur c h hc => ?iff
  case step => exact (h.read hc.1 hc.2 <| hc.1.name.resolve_left hn).2
  case iff =>
    constructor
    case mp  => exact fun ha hn => h.not_agrees hc.1 hn ha
    case mpr => exact fun hn => (h.read hc.1 hc.2 <| hc.1.name.resolve_left hn).1

-- A guest seeks to the end of a file of 6 bytes, which its descriptor has the right to.

def seekShared : FileCall where
  call  := .fdSeek 11 0 2 8
  world := sharedWorld 1

theorem not_along_agrees_seekShared : (sharedFiles.fdstat 11).fsRightsBase &&& Rights.fdSeek ≠ 0 ∧
    ¬[seekShared].Along (next 6) (fun cur c => cur.Agrees c 11 [1, 2, 3, 4, 5, 6])
      ⟨sharedFiles, 0⟩ := by
  exact ⟨by decide, fun h => (h.1.failure rfl rfl).1 rfl⟩

theorem along_agrees_shared :
    [readShared 1].Along (next 6) (fun cur c => cur.Agrees c 11 [1, 2, 3, 4, 5, 6])
      ⟨sharedFiles, 0⟩ ↔ ∀ c ∈ [readShared 1], c.call.name ≠ "fd_seek" := by
  refine @along_agrees_iff 11 [1, 2, 3, 4, 5, 6] sharedFiles (Files.newInfo "shared" "x" 11) _
    rfl rfl fun c hc => ?_
  cases List.mem_singleton.mp hc
  exact ⟨⟨.inr rfl, rfl, 1, rfl⟩, rfl⟩

end Cursor
end Ecsact
