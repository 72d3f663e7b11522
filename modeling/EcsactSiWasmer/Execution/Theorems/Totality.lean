import EcsactSiWasmer.Execution.Theorems.Grants
import EcsactSiWasmer.Execution.Theorems.Opens
import EcsactSiWasmer.Execution.Totality

open EStateM Ecsact.World Ecsact.CallMem

namespace Ecsact

-- An open fails for a descriptor which is not mapped, and else gives a stream exactly if the file can
-- be opened.
theorem Files.Intact.ensureOpen_cases {files : Files} {fd : BitVec 32} {info : VirtualFileInfo}
    (h : files.Intact) (hv : files.virtualFiles fd = some info) :
    (files.opens info = true ∧ ∃ k s files', Files.ensureOpen fd files = .ok (some k) files' ∧
      files'.streams[k]? = some s ∧ s.closed = false) ∨
    (files.opens info = false ∧ ∃ files', Files.ensureOpen fd files = .ok none files') := by
  cases ho : info.openedFile
  case none =>
    cases hd : files.disk (cStr info.realPath)
    case none   => exact .inr ⟨by simp [opens, ho, hd], _, Files.ensureOpen_fails hv ho hd⟩
    case some c =>
      exact .inl ⟨by simp [opens, ho, hd], _, _, _, Files.ensureOpen_opens hv ho hd,
        List.getElem?_concat_length, rfl⟩
  case some file =>
    cases file
    case none   => exact .inr ⟨by simp [opens, ho], _, Files.ensureOpen_open hv ho⟩
    case some k =>
      have ⟨s, hs, hc, _⟩ := h.stream hv ho
      exact .inl ⟨by simp [opens, ho], k, s, files, Files.ensureOpen_open hv ho, hs, hc⟩

theorem Files.Intact.close_cases {files : Files} {fd : BitVec 32} {info : VirtualFileInfo}
    (h : files.Intact) (hv : files.virtualFiles fd = some info) :
    (info.openedFile ≠ some none ∧ ∃ files', Files.close fd files = .ok () files') ∨
    (info.openedFile = some none ∧
      Files.close fd files = .error (.undefined "null FILE*") files) := by
  cases ho : info.openedFile
  case none => exact .inl ⟨nofun, files, Files.close_closed hv ho⟩
  case some file =>
    cases file
    case none   => exact .inr ⟨rfl, Files.close_null hv ho⟩
    case some k =>
      have ⟨s, hs, hc, _⟩ := h.stream hv ho
      exact .inl ⟨by simp, _, Files.close_open hv ho hs hc⟩

theorem World.stored_eq_self {w : World} {mem : MemPtr} {offset : Int} {bytes : List Byte} :
    (w.stored mem offset bytes).memories = w.memories ↔
      (w.memories mem).bytes.read offset bytes.length = bytes := by
  rw [← ByteStore.write_eq_self, stored, Function.update_eq_self_iff]
  constructor
  case mp  => exact congrArg LinearMemory.bytes
  case mpr => exact fun h => by rw [h]

theorem toNat_lt_of_nonneg {v : BitVec 32} (h : 0 ≤ v.toInt) : v.toNat < 2 ^ 31 := by
  by_contra hc
  have hv := v.isLt
  rw [toInt_eq_sub (by omega)] at h
  omega

section

variable {handle count ids list : BitVec 32} {ctx : CtxPtr} {mem : MemPtr} {w : World}

theorem generate_negative (h : w.callMem.Denotes handle ctx mem) (hc : count.toInt < 0) :
    wasmEcsactSystemExecutionContextGenerate [.i32 handle, .i32 count, .i32 ids, .i32 list] w =
      .error (.exception "std::length_error")
        (w.traced "ecsact_system_execution_context_generate") := by
  rw [generate_eq, withContext_ok h, if_pos hc]
  rfl

theorem generate_null (h : w.callMem.Denotes handle ctx mem) (hc : 0 < count.toInt) :
    wasmEcsactSystemExecutionContextGenerate [.i32 handle, .i32 count, .i32 ids, .i32 0] w =
      .error (.undefined "null pointer")
        (w.traced "ecsact_system_execution_context_generate") := by
  have ⟨n, hn⟩ := Nat.exists_eq_succ_of_ne_zero (show count.toInt.toNat ≠ 0 by omega)
  rw [generate_eq, withContext_ok h, if_neg (by omega), hn]
  rfl

end

namespace ImportCall

variable {call : ImportCall} {w : World}

theorem not_total_of_error {e : Fault} {w' : World} (h : call.run w = .error e w') :
    ¬call.Total w := by
  intro ht
  have ⟨_, _, hr⟩ := ht.returns
  cases h.symm.trans hr

theorem Total.of_ok {trap : Option Trap} {w' : World} (h : call.run w = .ok trap w')
    (hm : IsStdio (call.val 0) ∨ w.files.virtualFiles (call.val 0) ≠ none) : call.Total w where
  returns := ⟨trap, w', h⟩
  unknown _ hs hv := absurd hv <| hm.resolve_left hs

theorem enter_results {name : String} {func : ImportResolveFunc} (hn : call.name = name)
    (hf : importTables.lookup name = some func) (hr : func.funcType.results.length = 1) :
    (call.enter w).results = [none] := by
  cases hf.symm.trans (hn ▸ lookup_importTables call.mem)
  rw [enter, hr]
  rfl

-- The calls of the other callbacks, by the guest's values.

theorem fdFdstatGet_run (hn : call.name = "fd_fdstat_get") : call.run w =
    ecsactSiWasiFdFdstatGet [.i32 (call.val 0), .i32 (call.val 1)] (call.enter w) :=
  run_eq (k := 2) hn rfl rfl w

theorem fdWrite_run (hn : call.name = "fd_write") : call.run w = ecsactSiWasiFdWrite
    [.i32 (call.val 0), .i32 (call.val 1), .i32 (call.val 2), .i32 (call.val 3)] (call.enter w) :=
  run_eq (k := 4) hn rfl rfl w

theorem generate_run (hn : call.name = "ecsact_system_execution_context_generate") :
    call.run w = wasmEcsactSystemExecutionContextGenerate
      [.i32 (call.val 0), .i32 (call.val 1), .i32 (call.val 2), .i32 (call.val 3)]
      (call.enter w) :=
  run_eq (k := 4) hn rfl rfl w

theorem FindsMemory.unique {mem mem' : MemPtr} (h : FindsMemory w mem) (h' : FindsMemory w mem') :
    mem' = mem := by
  cases h.symm.trans h'
  rfl

-- Without a memory, the callbacks which look it up end in an error.
theorem not_total_of_refused {name : String} {f : MemPtr → CallbackM (Option Trap)}
    (hr : call.run w = withMemory name f (call.enter w)) (h : ¬∃ mem, FindsMemory w mem) :
    ¬call.Total w := by
  have ⟨_, _, _, he, _⟩ := (@withMemory_cases _ name f (call.enter w)).resolve_left h
  exact not_total_of_error <| hr.trans he

theorem not_total_of_forged {name : String} {handle : BitVec 32}
    {f : CtxPtr → MemPtr → CallbackM (Option Trap)}
    (hr : call.run w = withContext name handle f (call.enter w))
    (h : ¬∃ ctx mem, w.callMem.Denotes handle ctx mem) : ¬call.Total w := by
  have ⟨_, _, _, he, _⟩ := (@withContext_cases _ name handle f (call.enter w)).resolve_left h
  exact not_total_of_error <| hr.trans he

-- A read needs a descriptor which is mapped, and a stream if it is to read anything.
theorem total_fdRead_iff (hi : w.files.Intact) (hn : call.name = "fd_read") : call.Total w ↔
    ∃ mem info, FindsMemory w mem ∧ w.files.virtualFiles (call.val 0) = some info ∧
      (w.files.opens info ∨ call.AsksForNothing w mem) := by
  have hr := fdRead_run hn w
  have hl := fdRead_results hn w
  by_cases hm : ∃ mem, FindsMemory w mem
  case neg =>
    exact iff_of_false (not_total_of_refused (hr.trans <| congrFun fdRead_eq _) hm)
      fun ⟨mem, _, h, _⟩ => hm ⟨mem, h⟩
  case pos =>
    have ⟨mem, hm⟩ := hm
    cases hv : w.files.virtualFiles (call.val 0)
    case none =>
      have he := fdRead_error (w := call.enter w) (a := call.val 1) (b := call.val 2)
        (c := call.val 3) hm <| Files.ensureOpen_unknown hv
      exact iff_of_false (not_total_of_error <| hr.trans he) (by simp)
    case some info =>
      have hp : w.files.virtualFiles (call.val 0) ≠ none := by simp [hv]
      cases hi.ensureOpen_cases hv
      case inl ho =>
        have ⟨ho, k, s, files, he, hs, hc⟩ := ho
        have ⟨accesses, memories, _, hok⟩ := @fdRead_ok mem (call.val 0) (call.val 1) (call.val 2)
          (call.val 3) s (call.enter w).memories hc
        exact iff_of_true (.of_ok (hr.trans <| hok rfl hm he hs hl) <| .inr hp)
          ⟨mem, info, hm, rfl, .inl ho⟩
      case inr ho =>
        have ⟨ho, files, he⟩ := ho
        have ⟨accesses, memories, _, hok⟩ := @fdRead_null mem (call.val 0) (call.val 1)
          (call.val 2) (call.val 3) (call.enter w).memories
        have hok := hr.trans <| hok rfl hm he hl
        constructor
        case mp =>
          intro ht
          refine ⟨mem, info, hm, rfl, .inr fun j hj hb => ?_⟩
          exact not_total_of_error (hok.trans <| if_neg fun h => h j hj hb) ht
        case mpr =>
          intro ⟨mem', info', hm', hv', h⟩
          cases hv'
          cases hm.unique hm'
          have ha := h.resolve_left <| by simp [ho]
          exact .of_ok (hok.trans <| if_pos ha) <| .inr hp

theorem total_fdClose_iff (hi : w.files.Intact) (hn : call.name = "fd_close") : call.Total w ↔
    (w.callMem.ndebug = false → w.callMem.info.isSome) ∧
      (IsStdio (call.val 0) ∨ ∃ info, w.files.virtualFiles (call.val 0) = some info ∧
        info.openedFile ≠ some none) := by
  have hr := fdClose_run hn w
  have hl := fdClose_results hn w
  cases @debugTraceMethod_cases w.callMem "fd_close"
  case inr hd =>
    have ⟨hd, ht⟩ := hd
    have ht : onCallMem (debugTraceMethod "fd_close") (call.enter w) =
      .error .assertFailed (call.enter w) := zoom_error ht
    exact iff_of_false (not_total_of_error <| hr.trans <| fdClose_refused ht) fun h => by
      simp [hd.1, hd.2] at h
  case inl hd =>
    have ⟨hd, ht⟩ := hd
    have ht : onCallMem (debugTraceMethod "fd_close") (call.enter w) =
      .ok () ((call.enter w).traced "fd_close") := zoom_ok ht
    by_cases hs : IsStdio (call.val 0)
    case pos =>
      exact iff_of_true (.of_ok (hr.trans <| fdClose_stdio ht hs hl) <| .inl hs) ⟨hd, .inl hs⟩
    case neg =>
      cases hv : w.files.virtualFiles (call.val 0)
      case none =>
        have he := @Files.close_unknown (call.enter w).files (call.val 0) hv
        exact iff_of_false (not_total_of_error <| hr.trans <| fdClose_error ht hs he) (by simp [hs])
      case some info =>
        have hp : w.files.virtualFiles (call.val 0) ≠ none := by simp [hv]
        cases hi.close_cases hv
        case inl ho =>
          have ⟨ho, files, hc⟩ := ho
          exact iff_of_true (.of_ok (hr.trans <| fdClose_ok ht hs hc hl) <| .inr hp)
            ⟨hd, .inr ⟨info, rfl, ho⟩⟩
        case inr ho =>
          have ⟨ho, he⟩ := ho
          exact iff_of_false (not_total_of_error <| hr.trans <| fdClose_error ht hs he)
            (by simp [hs, ho])

theorem defaultFdstats_eq_none {fd : BitVec 32} (h : ¬IsStdio fd) : defaultFdstats fd = none := by
  have ⟨ho, he, hi⟩ := not_isStdio.mp h
  simp [defaultFdstats, ho, he, hi]

-- The status of a descriptor which is not known is written all the same.
theorem total_fdFdstatGet_iff (hn : call.name = "fd_fdstat_get") : call.Total w ↔
    ∃ mem, FindsMemory w mem ∧ (IsStdio (call.val 0) ∨ w.files.virtualFiles (call.val 0) ≠ none ∨
      ((call.enter w).memories mem).bytes.read (call.val 1).toInt 24 =
        ({} : Fdstat).encode) := by
  have hr := fdFdstatGet_run (w := w) hn
  have hl := enter_results (w := w) hn rfl rfl
  have hz : 0 < (call.enter w).results.length := by simp [hl]
  by_cases hm : ∃ mem, FindsMemory w mem
  case neg =>
    exact iff_of_false (not_total_of_refused (hr.trans <| congrFun fdFdstatGet_eq _) hm)
      fun h => hm <| h.imp fun _ h => h.1
  case pos =>
    obtain ⟨mem, hm⟩ := hm
    obtain ⟨accesses, hok⟩ := @fdFdstatGet_ok mem (call.val 0) (call.val 1) (call.enter w) _ hm hz rfl
    have hok := hr.trans hok
    by_cases hk : IsStdio (call.val 0) ∨ w.files.virtualFiles (call.val 0) ≠ none
    case pos => exact iff_of_true (.of_ok hok hk) ⟨mem, hm, or_assoc.mp <| .inl hk⟩
    case neg =>
      obtain ⟨hs, hv⟩ := not_or.mp hk
      have hv := not_ne_iff.mp hv
      have hf : (defaultFdstats (call.val 0)).getD ((call.enter w).files.fdstat (call.val 0)) =
          {} := by
        simp [defaultFdstats_eq_none hs, Files.fdstat, enter, hv]
      rw [hf] at hok
      constructor
      case mp =>
        intro ht
        obtain ⟨w', _, hw, _, _, _, hw'⟩ := ht.unknown (by simp [hn]) hs hv
        cases hok.symm.trans hw
        have he := World.stored_eq_self.mp hw'
        rw [Fdstat.encode_length] at he
        exact ⟨mem, hm, .inr <| .inr he⟩
      case mpr =>
        rintro ⟨mem', hm', h⟩
        cases hm.unique hm'
        have he := (or_assoc.mpr h).resolve_left hk
        rw [← Fdstat.encode_length {}] at he
        exact {
          returns := ⟨_, _, hok⟩
          unknown := fun _ _ _ => ⟨_, 1, hok, by rw [hl]; rfl, by decide, rfl,
            World.stored_eq_self.mpr he⟩
        }

theorem total_fdWrite_iff (hn : call.name = "fd_write") :
    call.Total w ↔ ∃ mem, FindsMemory w mem := by
  have hr := fdWrite_run (w := w) hn
  have hl := enter_results (w := w) hn rfl rfl
  have hz : 0 < (call.enter w).results.length := by simp [hl]
  by_cases hm : ∃ mem, FindsMemory w mem
  case neg => exact iff_of_false (not_total_of_refused (hr.trans <| congrFun fdWrite_eq _) hm) hm
  case pos =>
    refine iff_of_true ?_ hm
    have ⟨mem, hm⟩ := hm
    by_cases hf : call.val 0 = wasiStderrFd ∨ call.val 0 = wasiStdoutFd
    case pos =>
      have hok := @fdWrite_ok mem (call.val 0) (call.val 1) (call.val 2) (call.val 3)
        (call.enter w) hm hz hf _ rfl
      exact .of_ok (hr.trans hok) <| .inl <| hf.elim (.inr <| .inl ·) .inl
    case neg =>
      have hok := hr.trans <| fdWrite_unknown (w := call.enter w) (a := call.val 1) (b := call.val 2)
        (c := call.val 3) hm hz hf
      exact {
        returns := ⟨_, _, hok⟩
        unknown := fun _ _ _ => ⟨_, 1, hok, by rw [hl]; rfl, by decide, rfl, rfl⟩
      }

theorem total_generate_iff (hn : call.name = "ecsact_system_execution_context_generate") :
    call.Total w ↔ ∃ ctx mem, w.callMem.Denotes (call.val 0) ctx mem ∧ 0 ≤ (call.val 1).toInt ∧
      (call.val 3 ≠ 0 ∨ call.val 1 = 0) := by
  have hr := generate_run (w := w) hn
  by_cases hd : ∃ ctx mem, w.callMem.Denotes (call.val 0) ctx mem
  case neg =>
    exact iff_of_false (not_total_of_forged (hr.trans <| congrFun generate_eq _) hd)
      fun ⟨ctx, mem, h, _⟩ => hd ⟨ctx, mem, h⟩
  case pos =>
    have ⟨ctx, mem, hd⟩ := hd
    by_cases hc : 0 ≤ (call.val 1).toInt
    case neg =>
      have he := hr.trans <| generate_negative (w := call.enter w) hd <| not_le.mp hc
      exact iff_of_false (not_total_of_error he) fun ⟨_, _, _, h, _⟩ => hc h
    case pos =>
      by_cases hl : call.val 3 ≠ 0 ∨ call.val 1 = 0
      case neg =>
        have ⟨hl, hz⟩ := not_or.mp hl
        have hp : 0 < (call.val 1).toInt :=
          lt_of_le_of_ne hc fun h => hz <| BitVec.toInt_inj.mp h.symm
        rw [not_not.mp hl] at hr
        exact iff_of_false (not_total_of_error <| hr.trans <| generate_null (w := call.enter w) hd hp)
          fun ⟨_, _, _, _, h⟩ => h.elim hl hz
      case pos =>
        have ⟨_, hok⟩ := @generate_ok (call.val 0) (call.enter w) ctx mem (call.val 1) (call.val 2)
          (call.val 3) hd (toNat_lt_of_nonneg hc) hl
        exact iff_of_true ⟨⟨_, _, hr.trans hok⟩, fun h => absurd hn h⟩ ⟨ctx, mem, hd, hc, hl⟩

-- The pointers among the guest's numbers are to be in bounds, with the 8 bytes of a count, as what the
-- host does at any others is undefined in C++. The model goes on there.
theorem total_iff {grants : List Grant} (h : Files.History grants w.files)
    (hn : call.name ∈ numberImports) : call.Total w ↔ call.Answerable w := by
  have hi := h.represents.intact
  constructor
  case mp =>
    exact fun ht => {
      read     := fun hn => (total_fdRead_iff hi hn).mp ht
      close    := fun hn => (total_fdClose_iff hi hn).mp ht
      fdstat   := fun hn => (total_fdFdstatGet_iff hn).mp ht
      write    := fun hn => (total_fdWrite_iff hn).mp ht
      generate := fun hn => (total_generate_iff hn).mp ht
    }
  case mpr =>
    intro ha
    simp only [numberImports, List.mem_cons, List.not_mem_nil, or_false] at hn
    obtain hn | hn | hn | hn | hn := hn
    case inl             => exact (total_fdRead_iff hi hn).mpr <| ha.read hn
    case inr.inl         => exact (total_fdClose_iff hi hn).mpr <| ha.close hn
    case inr.inr.inl     => exact (total_fdFdstatGet_iff hn).mpr <| ha.fdstat hn
    case inr.inr.inr.inl => exact (total_fdWrite_iff hn).mpr <| ha.write hn
    case inr.inr.inr.inr => exact (total_generate_iff hn).mpr <| ha.generate hn

-- No file is mapped, and so a read of any descriptor throws.
theorem not_total_unmapped : Files.History [] (bufferWorld true).files ∧
    FindsMemory (bufferWorld true) 1 ∧
    (∃ e w, (fdRead 11 0 1 8).run (bufferWorld true) = .error (.exception e) w) ∧
    ¬(fdRead 11 0 1 8).Total (bufferWorld true) :=
  ⟨.start, rfl, ⟨_, _, rfl⟩, not_total_of_error rfl⟩

theorem total_iff_unmapped :
    (fdRead 11 0 1 8).Total (bufferWorld true) ↔ (fdRead 11 0 1 8).Answerable (bufferWorld true) :=
  total_iff .start <| by decide

end ImportCall
end Ecsact
