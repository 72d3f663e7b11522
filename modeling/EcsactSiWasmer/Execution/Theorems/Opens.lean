import EcsactSiWasmer.Execution.Opens
import EcsactSiWasmer.Execution.Theorems.Calls
import EcsactSiWasmer.Imports.Theorems.Signatures
import EcsactSiWasmer.Imports.Theorems.Wasi

open EStateM Ecsact.World Ecsact.CallMem

namespace Ecsact

-- The call of a callback of the WASI module, by the guest's values.

theorem ImportCall.fdRead_run {call : ImportCall} (hn : call.name = "fd_read") (w : World) :
    call.run w = ecsactSiWasiFdRead
      [.i32 (call.val 0), .i32 (call.val 1), .i32 (call.val 2), .i32 (call.val 3)] (call.enter w) :=
  run_eq (k := 4) hn rfl rfl w

theorem ImportCall.fdRead_results {call : ImportCall} (hn : call.name = "fd_read") (w : World) :
    0 < (call.enter w).results.length := by
  rw [enter_length hn rfl]
  exact Nat.one_pos

theorem ImportCall.fdClose_run {call : ImportCall} (hn : call.name = "fd_close") (w : World) :
    call.run w = ecsactSiWasiFdClose [.i32 (call.val 0)] (call.enter w) :=
  run_eq (k := 1) hn rfl rfl w

theorem ImportCall.fdClose_results {call : ImportCall} (hn : call.name = "fd_close") (w : World) :
    0 < (call.enter w).results.length := by
  rw [enter_length hn rfl]
  exact Nat.one_pos

namespace Files

variable {files files' : Files} {fd : BitVec 32} {info : VirtualFileInfo} {k : Nat} {s : Stream}

-- The stream which is recorded for a descriptor, if any, is open.
def Usable (fd : BitVec 32) (files : Files) : Prop :=
  ∃ info, files.virtualFiles fd = some info ∧ ∀ file, info.openedFile = some file →
    ∃ k s, file = some k ∧ files.streams[k]? = some s ∧ s.closed = false

theorem Usable.of_open (hv : files.virtualFiles fd = some info)
    (ho : info.openedFile = some (some k)) (hs : files.streams[k]? = some s)
    (hc : s.closed = false) : Usable fd files :=
  ⟨info, hv, fun _ hf => ⟨k, s, (Option.some_inj.mp <| ho.symm.trans hf).symm, hs, hc⟩⟩

theorem Usable.of_closed (hv : files.virtualFiles fd = some info) (ho : info.openedFile = none) :
    Usable fd files :=
  ⟨info, hv, fun _ hf => by simp [ho] at hf⟩

-- A file which is there can be opened.
theorem Usable.ensureOpen (h : Usable fd files)
    (hd : ∀ info, files.virtualFiles fd = some info → info.openedFile = none →
      files.disk (cStr info.realPath) ≠ none) :
    ∃ k s files', Files.ensureOpen fd files = .ok (some k) files' ∧
      files'.streams[k]? = some s ∧ s.closed = false := by
  have ⟨info, hv, hf⟩ := h
  cases ho : info.openedFile
  case some file =>
    obtain ⟨k, s, rfl, hs, hc⟩ := hf file ho
    exact ⟨k, s, files, ensureOpen_open hv ho, hs, hc⟩
  case none =>
    have ⟨content, hd⟩ := Option.ne_none_iff_exists'.mp <| hd info hv ho
    exact ⟨_, _, _, ensureOpen_opens hv ho hd, List.getElem?_concat_length, rfl⟩

theorem Usable.close (h : Usable fd files) :
    ∃ files', Files.close fd files = .ok () files' ∧ Usable fd files' := by
  have ⟨info, hv, hf⟩ := h
  cases ho : info.openedFile
  case none      => exact ⟨files, close_closed hv ho, h⟩
  case some file =>
    obtain ⟨k, s, rfl, hs, hc⟩ := hf file ho
    refine ⟨_, close_open hv ho hs hc, { info with openedFile := none }, ?_, nofun⟩
    rw [reclosed, withOpenedFile_apply, if_pos rfl]

end Files

namespace FileCall

variable {fd : BitVec 32} {files : Files} {c : FileCall}

theorem usable_start (h : files.Usable fd) : (c.start files).files.Usable fd :=
  h

theorem ne_null_of_refused {c : CallMem} {e : Fault} (h : c.Refused e) :
    e ≠ .undefined "null FILE*" := by
  cases h
  case inl h => rw [h.2]; decide
  case inr h => rw [h.2.2]; decide

-- Unless a file cannot be opened, there is no null pointer, and the recorded stream stays usable.
theorem usable_next (h : files.Usable fd) (hc : c.IsFor fd) (hn : ¬c.FailsToOpen fd files) :
    (∀ w, c.run files ≠ .error (.undefined "null FILE*") w) ∧ (c.next files).Usable fd := by
  have of_ok {trap w} (hr : c.run files = .ok trap w) (hu : w.files.Usable fd) :
      (∀ w, c.run files ≠ .error (.undefined "null FILE*") w) ∧ (c.next files).Usable fd := by
    rw [next, hr]
    exact ⟨nofun, hu⟩
  have of_refused {e w} (hr : c.run files = .error e w) (he : c.world.callMem.Refused e)
      (hw : w.files = (c.start files).files) :
      (∀ w, c.run files ≠ .error (.undefined "null FILE*") w) ∧ (c.next files).Usable fd := by
    rw [next, hr, Result.state_error, hw]
    refine ⟨fun w' hn => ?_, usable_start h⟩
    cases hn
    exact ne_null_of_refused he rfl
  have ⟨hc, hfd⟩ := hc
  cases hc
  case inl hc =>
    have hr := ImportCall.fdRead_run hc (c.start files)
    have hl := ImportCall.fdRead_results hc (c.start files)
    rw [hfd] at hr
    cases @fdRead_cases fd (c.call.val 1) (c.call.val 2) (c.call.val 3) (c.call.enter (c.start files))
    case inr hm =>
      have ⟨e, w, hf, he, hw⟩ := hm
      apply of_refused (hr.trans he) hf
      cases hw
      case inl hw => rw [hw]; rfl
      case inr hw => rw [hw]; rfl
    case inl hm =>
      have ⟨mem, hm⟩ := hm
      have ⟨k, s, files', ho, hs, hcl⟩ := (usable_start (c := c) h).ensureOpen fun info hv ho hd =>
        hn ⟨hc, ⟨mem, hm⟩, info, hv, ho, hd⟩
      have ⟨accesses, memories, _, hok⟩ := @fdRead_ok mem fd (c.call.val 1) (c.call.val 2)
        (c.call.val 3) s (c.call.enter (c.start files)).memories hcl
      apply of_ok (hr.trans <| hok rfl hm ho hs hl)
      have ⟨info, _, hv⟩ := Files.ensureOpen_eq_ok ho
      have hk := (List.getElem?_eq_some_iff.mp hs).1
      exact Files.Usable.of_open hv rfl (List.getElem?_set_self hk) hcl
  case inr hc =>
    have hr := ImportCall.fdClose_run hc (c.start files)
    have hl := ImportCall.fdClose_results hc (c.start files)
    rw [hfd] at hr
    cases @trace_cases (c.call.enter (c.start files)) "fd_close"
    case inr ht =>
      have ⟨e, hf, ht⟩ := ht
      exact of_refused (hr.trans <| fdClose_refused ht) hf rfl
    case inl ht =>
      by_cases hs : IsStdio fd
      case pos => exact of_ok (hr.trans <| fdClose_stdio ht hs hl) <| usable_start h
      case neg =>
        have ⟨files', hcl, hu⟩ := (usable_start (c := c) h).close
        exact of_ok (hr.trans <| fdClose_ok ht hs hcl hl) hu

-- A file which cannot be opened is recorded as open all the same.
theorem not_reportsClosed (hc : c.call.val 0 = fd) (h : c.FailsToOpen fd files) :
    ¬c.ReportsClosed fd files := by
  intro ⟨w, errno, info, hw, _, _, _, hi, hn⟩
  have ⟨mem, hm⟩ := h.active
  have ⟨info', hv, ho, hd⟩ := h.absent
  have hl := ImportCall.fdRead_results h.name (c.start files)
  have hf := @Files.ensureOpen_fails (c.start files).files fd info' hv ho hd
  have ⟨accesses, memories, _, hr⟩ := @fdRead_null mem fd (c.call.val 1) (c.call.val 2)
    (c.call.val 3) (c.call.enter (c.start files)).memories
  rw [run, ImportCall.fdRead_run h.name, hc, hr rfl hm hf hl] at hw
  split at hw
  case isFalse => cases hw
  case isTrue  =>
    cases hw
    have hi := Files.withOpenedFile_apply.symm.trans hi
    rw [if_pos rfl] at hi
    cases hi
    cases hn

theorem along_opensSoundly_iff {info : VirtualFileInfo} {cs : List FileCall}
    (hv : files.virtualFiles fd = some info) (ho : info.openedFile = none)
    (hc : ∀ c ∈ cs, c.IsFor fd) : cs.Along FileCall.next (OpensSoundly fd) files ↔
      cs.Along FileCall.next (fun files c => ¬c.FailsToOpen fd files) files := by
  refine List.Along.iff_of_invariant (Files.Usable.of_closed hv ho) hc
    (fun files c hu hc hn => (usable_next hu hc hn).2) fun files c hu hc => ?_
  constructor
  case mp  => exact fun h hf => not_reportsClosed hc.2 hf <| h.closed hf
  case mpr => exact fun hn => ⟨fun hf => absurd hf hn, (usable_next hu hc hn).1⟩

end FileCall

theorem fdRead_mem : ("fd_read", ⟨wasmFunctypeNew41 .i32 .i32 .i32 .i32 .i32,
    ecsactSiWasiFdRead⟩) ∈ importTables := by
  simp [importTables, guestWasiModuleImports]

def ImportCall.fdRead (fd iovec iovecLen outReadAmount : BitVec 32) : ImportCall where
  name  := "fd_read"
  func  := ⟨wasmFunctypeNew41 .i32 .i32 .i32 .i32 .i32, ecsactSiWasiFdRead⟩
  mem   := fdRead_mem
  args  := [.i32 fd, .i32 iovec, .i32 iovecLen, .i32 outReadAmount]
  typed := typed_quad fd iovec iovecLen outReadAmount

-- A system which has a buffer of 4 bytes at 16.
def bufferWorld (ndebug : Bool) : World :=
  (systemWorld ndebug).stored 1 0 [16, 0, 0, 0, 4, 0, 0, 0]

-- A virtual path is mapped to a file which is not there.
def lostFiles : Files :=
  Files.allowed { disk := fun _ => none } "lost" "x"

def readLost : FileCall where
  call  := .fdRead 11 0 1 8
  world := bufferWorld true

namespace FileCall

theorem not_along_opensSoundly :
    ¬[readLost].Along FileCall.next (OpensSoundly 11) lostFiles :=
  fun h => h.1.nonNull _ rfl

theorem along_opensSoundly_lost : [readLost].Along FileCall.next (OpensSoundly 11) lostFiles ↔
    [readLost].Along FileCall.next (fun files c => ¬c.FailsToOpen 11 files) lostFiles := by
  refine @along_opensSoundly_iff 11 lostFiles (Files.newInfo "lost" "x" 11) _ rfl rfl fun c hc => ?_
  rw [List.mem_singleton.mp hc]
  exact ⟨.inl rfl, rfl⟩

end FileCall
end Ecsact
