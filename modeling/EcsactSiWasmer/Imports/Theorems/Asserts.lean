import EcsactSiWasmer.Execution.Bindings
import EcsactSiWasmer.Execution.Theorems.Calls
import EcsactSiWasmer.Imports.Theorems.Wasi

open EStateM Ecsact.World Ecsact.CallMem

namespace Ecsact

def Fault.IsAssert (e : Fault) : Prop :=
  e = .assertFailed

theorem Fault.foreign_isAssert : Foreign IsAssert :=
  ⟨nofun, nofun⟩

-- What the callbacks do once they have looked up their slots ends in no assert.

section

variable {mem : MemPtr} {ptr : HostPtr} {bytes : List Byte} {n i : Nat} {amount : BitVec 64}
  {level : LogLevel} {file : FilePtr}

theorem avoids_loadBytes : Avoids Fault.IsAssert (loadBytes ptr n) := by
  cases ptr
  case null => exact .throw nofun
  case data => exact .bind .get fun _ => .bind .modify fun _ => .pure

theorem avoids_storeBytes : Avoids Fault.IsAssert (storeBytes ptr bytes) := by
  cases ptr
  case null => exact .throw nofun
  case data => exact .bind .get fun _ => .modify

theorem avoids_setErrno {errno : BitVec 32} : Avoids Fault.IsAssert (setErrno errno) :=
  .bind .get fun _ => .ite .modify (.throw nofun)

theorem avoids_errno {errno : BitVec 32} :
    Avoids Fault.IsAssert (do setErrno errno; return (none : Option Trap)) :=
  .bind avoids_setErrno fun _ => .pure

theorem avoids_hostCall {α : Type} {fn : EcsactFn} {args : List HostArg}
    {answer : Runtime → HostView → α} : Avoids Fault.IsAssert (hostCall fn args answer) :=
  .bind .get fun _ => .bind .modify fun _ => .pure

theorem avoids_loadCiovec : Avoids Fault.IsAssert (loadCiovec ptr i) :=
  .bind avoids_loadBytes fun _ => .pure

theorem avoids_getVoidPtr {v : BitVec 32} : Avoids Fault.IsAssert (getVoidPtr (.i32 v) mem) := by
  rw [getVoidPtr_eq]
  exact .pure

theorem avoids_componentDataList : Avoids Fault.IsAssert (componentDataList mem ptr n i) := by
  induction n generalizing i
  case zero => exact .pure
  case succ n hi =>
    exact .bind (.bind avoids_loadBytes fun _ => .pure) fun _ => .bind avoids_getVoidPtr fun _ =>
      .bind hi fun _ => .pure

theorem avoids_writeLoop : Avoids Fault.IsAssert (writeLoop mem ptr level n i amount) := by
  induction n generalizing i amount
  case zero => exact .pure
  case succ n hi =>
    exact .bind avoids_loadCiovec fun _ =>
      .ite (.bind avoids_loadBytes fun _ => .bind .modify fun _ => hi) hi

theorem avoids_readLoop : Avoids Fault.IsAssert (readLoop mem ptr file n i amount) := by
  induction n generalizing i amount
  case zero => exact .pure
  case succ n hi =>
    have hf {n} : Avoids Fault.IsAssert (onFiles (Files.fread n file)) :=
      .zoom <| Files.avoids_fread Fault.foreign_isAssert
    exact .bind avoids_loadCiovec fun _ =>
      .ite (.bind hf fun _ => .bind avoids_storeBytes fun _ => hi) hi

end

section

variable {α : Type} {name : String} {w w' : World} {e : Fault}

theorem withMemory_ne_assert {mem : MemPtr} {f : MemPtr → CallbackM α}
    (hm : callMemRead 0 .memory w.callMem = .ok mem w.callMem)
    (hf : Avoids Fault.IsAssert (f mem)) (h : withMemory name f w = .error e w') :
    e ≠ .assertFailed := by
  rw [withMemory_ok hm] at h
  exact hf _ _ _ h

theorem trace_ne_assert {f : Unit → CallbackM α}
    (hi : w.callMem.ndebug = false → w.callMem.info.isSome) (hf : Avoids Fault.IsAssert (f ()))
    (h : (onCallMem (debugTraceMethod name) >>= f) w = .error e w') : e ≠ .assertFailed := by
  have ht : onCallMem (debugTraceMethod name) w = .ok () (w.traced name) :=
    zoom_ok <| debugTraceMethod_ok hi
  rw [bind_ok ht] at h
  exact hf _ _ _ h

theorem forward_ne_assert {β : Type} {fn : EcsactFn} {passed : List (Nat × Pass)}
    {answer : Runtime → HostView → α} {f : α → CallbackM β} {handle : BitVec 32}
    {vs : List (BitVec 32)} {ctx : CtxPtr} {mem : MemPtr} (hd : w.callMem.Denotes handle ctx mem)
    (hl : ∀ e ∈ passed, e.1 < vs.length + 1) (hf : ∀ a, Avoids Fault.IsAssert (f a))
    (h : (forward name fn passed answer ((handle :: vs).map .i32) >>= f) w = .error e w') :
    e ≠ .assertFailed := by
  rw [forward_eq hl] at h
  cases bind_eq_error.mp h
  case inl h =>
    rw [withContext_ok hd] at h
    cases h
  case inr h =>
    have ⟨a, _, _, h⟩ := h
    exact hf a _ _ _ h

theorem generate_ne_assert {handle count ids list : BitVec 32} {ctx : CtxPtr} {mem : MemPtr}
    (hd : w.callMem.Denotes handle ctx mem)
    (h : wasmEcsactSystemExecutionContextGenerate [.i32 handle, .i32 count, .i32 ids, .i32 list] w =
      .error e w') : e ≠ .assertFailed := by
  rw [generate_eq, withContext_ok hd] at h
  refine Avoids.ite (F := Fault.IsAssert) ?throws ?calls _ _ _ h
  case throws =>
    refine .bind (.throw nofun) fun _ => ?_
    exact .bind avoids_getVoidPtr fun _ => .bind avoids_componentDataList fun _ =>
      .bind avoids_getVoidPtr fun _ => .bind avoids_hostCall fun _ => .pure
  case calls =>
    exact .bind avoids_getVoidPtr fun _ => .bind avoids_componentDataList fun _ =>
      .bind avoids_getVoidPtr fun _ => .bind avoids_hostCall fun _ => .pure

theorem Runs.ne_assert {call : ImportCall} {fn : EcsactFn} {passed : List (Nat × Pass)} {k : Nat}
    {handle : BitVec 32} {vs : List (BitVec 32)} {ctx : CtxPtr} {mem : MemPtr}
    (hc : Runs call (forwardVoid name fn passed) (handle :: vs) k)
    (hd : w.callMem.Denotes handle ctx mem) (hl : ∀ e ∈ passed, e.1 < vs.length + 1)
    (h : call.run w = .error e w') : e ≠ .assertFailed := by
  rw [hc.run, forwardVoid] at h
  refine forward_ne_assert (w := call.enter w) hd hl ?_ h
  exact fun _ => .pure

end

section

variable {w w' : World} {args : List WasmVal} {mem : MemPtr} {e : Fault}

-- With a memory in the first slot, no function of the WASI module ends in an assert.
theorem wasi_ne_assert (hm : callMemRead 0 .memory w.callMem = .ok mem w.callMem)
    {entry : String × ImportResolveFunc} (hi : entry ∈ guestWasiModuleImports)
    (ha : args.map WasmVal.kind = entry.2.funcType.params)
    (h : entry.2.funcCallback args w = .error e w') : e ≠ .assertFailed := by
  have ⟨info, hc, _⟩ := callMemRead_eq_ok.mp hm
  have ht : w.callMem.ndebug = false → w.callMem.info.isSome := fun _ => hc ▸ rfl
  obtain ⟨name, f⟩ := entry
  apply wasi_cases hi
  case procExit =>
    rintro rfl rfl
    refine trace_ne_assert ht ?_ h
    exact .pure
  case fdSeek =>
    rintro rfl rfl
    refine trace_ne_assert ht ?_ h
    exact avoids_errno
  case fdWrite =>
    rintro rfl rfl
    have ⟨[fd, a, b, c], _, hv⟩ := exists_vals (k := 4) ha
    subst hv
    refine withMemory_ne_assert hm ?_ <| (congrFun fdWrite_eq w).symm.trans h
    exact .ite (.bind avoids_writeLoop fun _ => .bind avoids_storeBytes fun _ => avoids_errno)
      avoids_errno
  case fdRead =>
    rintro rfl rfl
    have ⟨[fd, a, b, c], _, hv⟩ := exists_vals (k := 4) ha
    subst hv
    have ho : Avoids Fault.IsAssert (onFiles (Files.ensureOpen fd)) :=
      .zoom <| Files.avoids_ensureOpen Fault.foreign_isAssert
    refine withMemory_ne_assert hm ?_ <| (congrFun fdRead_eq w).symm.trans h
    exact .bind ho fun _ => .bind avoids_readLoop fun _ => .bind avoids_storeBytes fun _ =>
      avoids_errno
  case fdClose =>
    rintro rfl rfl
    have ⟨[fd], _, hv⟩ := exists_vals (k := 1) ha
    subst hv
    have ho : Avoids Fault.IsAssert (onFiles (Files.close fd)) :=
      .zoom <| Files.avoids_close Fault.foreign_isAssert
    refine trace_ne_assert ht ?_ <| (congrFun fdClose_eq w).symm.trans h
    exact .ite (.bind ho fun _ => avoids_errno) avoids_errno
  case environSizesGet =>
    rintro rfl rfl
    have ⟨[a, b], _, hv⟩ := exists_vals (k := 2) ha
    subst hv
    refine withMemory_ne_assert hm ?_ <| (congrFun environSizesGet_eq w).symm.trans h
    exact .bind avoids_storeBytes fun _ => .bind avoids_storeBytes fun _ => avoids_errno
  case environGet =>
    rintro rfl rfl
    have ⟨[a, b], _, hv⟩ := exists_vals (k := 2) ha
    subst hv
    refine withMemory_ne_assert hm ?_ <| (congrFun environGet_eq w).symm.trans h
    exact .bind avoids_storeBytes fun _ => .bind avoids_storeBytes fun _ => avoids_errno
  case fdFdstatGet =>
    rintro rfl rfl
    have ⟨[fd, a], _, hv⟩ := exists_vals (k := 2) ha
    subst hv
    have he : Avoids Fault.IsAssert (fdstatErrno (wasmMemoryCast mem a)) :=
      .bind avoids_loadBytes fun _ => .ite avoids_errno avoids_errno
    refine withMemory_ne_assert hm ?_ <| (congrFun fdFdstatGet_eq w).symm.trans h
    cases defaultFdstats fd
    case none => exact .bind .get fun _ => .bind avoids_storeBytes fun _ => he
    case some => exact .bind avoids_storeBytes fun _ => he

theorem ImportCall.ne_assert_of_wasi {call : ImportCall}
    (hm : callMemRead 0 .memory w.callMem = .ok mem w.callMem)
    (hn : ∀ n, (call.name, n) ∉ nativeApi) (h : call.run w = .error e w') :
    e ≠ .assertFailed := by
  cases List.mem_append.mp call.mem
  case inl hi =>
    have ⟨n, hi⟩ := fst_mem_nativeApi hi
    exact absurd hi (hn n)
  case inr hi => exact wasi_ne_assert (w := call.enter w) hm hi call.typed h

-- A binding whose handles denote contexts ends in no assert.
theorem ImportCall.ne_assert_of_binding {call : ImportCall} {n : Native}
    (hm : (call.name, n) ∈ nativeApi) (hq : n.asksId = false)
    (hd : ∀ e ∈ call.vals.zip n.roles, e.2 = .context → ∃ ctx, w.callMem.Denotes e.1 ctx mem)
    (h : call.run w = .error e w') : e ≠ .assertFailed := by
  apply nativeApi_cases hm
  case action =>
    rintro hn rfl
    have ⟨[handle, a], _, hc⟩ := exists_runs hn rfl (k := 2) rfl
    have ⟨ctx, hd⟩ := hd (handle, .context) (by simp [hc.vals]) rfl
    exact hc.ne_assert hd (by simp) h
  case parent =>
    rintro hn rfl
    cases hq
  case same =>
    rintro hn rfl
    have ⟨[a, b], _, hc⟩ := exists_runs hn rfl (k := 2) rfl
    have ⟨ctx₁, h₁⟩ := hd (a, .context) (by simp [hc.vals]) rfl
    have ⟨ctx₂, h₂⟩ := hd (b, .context) (by simp [hc.vals]) rfl
    have hs := same_ok (w := call.enter w) h₁ h₂ (by simp [hc.enter_results, wasmFunctypeNew21])
    cases (hc.run.trans hs).symm.trans h
  case get =>
    rintro hn rfl
    have ⟨[handle, a, b, c], _, hc⟩ := exists_runs hn rfl (k := 4) rfl
    have ⟨ctx, hd⟩ := hd (handle, .context) (by simp [hc.vals]) rfl
    exact hc.ne_assert hd (by simp) h
  case update =>
    rintro hn rfl
    have ⟨[handle, a, b, c], _, hc⟩ := exists_runs hn rfl (k := 4) rfl
    have ⟨ctx, hd⟩ := hd (handle, .context) (by simp [hc.vals]) rfl
    exact hc.ne_assert hd (by simp) h
  case has =>
    rintro hn rfl
    have ⟨[handle, a, b], _, hc⟩ := exists_runs hn rfl (k := 3) rfl
    have ⟨ctx, hd⟩ := hd (handle, .context) (by simp [hc.vals]) rfl
    have hl : ∀ e ∈ [(1, Pass.id), (2, .ptr)], e.1 < [a, b].length + 1 := by simp
    refine forward_ne_assert (w := call.enter w) hd hl ?_ <| hc.run.symm.trans h
    exact fun _ => .bind (.bind .get fun _ => .ite .modify (.throw nofun)) fun _ => .pure
  case generate =>
    rintro hn rfl
    have ⟨[handle, count, ids, list], _, hc⟩ := exists_runs hn rfl (k := 4) rfl
    have ⟨ctx, hd⟩ := hd (handle, .context) (by simp [hc.vals]) rfl
    rw [hc.run] at h
    exact generate_ne_assert (w := call.enter w) hd h
  case add =>
    rintro hn rfl
    have ⟨[handle, a, b], _, hc⟩ := exists_runs hn rfl (k := 3) rfl
    have ⟨ctx, hd⟩ := hd (handle, .context) (by simp [hc.vals]) rfl
    exact hc.ne_assert hd (by simp) h
  case remove =>
    rintro hn rfl
    have ⟨[handle, a, b], _, hc⟩ := exists_runs hn rfl (k := 3) rfl
    have ⟨ctx, hd⟩ := hd (handle, .context) (by simp [hc.vals]) rfl
    exact hc.ne_assert hd (by simp) h
  case other =>
    rintro hn rfl
    cases hq
  case entity =>
    rintro hn rfl
    have ⟨[handle], _, hc⟩ := exists_runs hn rfl (k := 1) rfl
    have ⟨ctx, hd⟩ := hd (handle, .context) (by simp [hc.vals]) rfl
    have hs := entity_ok (w := call.enter w) hd (by simp [hc.enter_results, wasmFunctypeNew11])
    cases (hc.run.trans hs).symm.trans h
  case streamToggle =>
    rintro hn rfl
    have ⟨[handle, a, b, c], _, hc⟩ := exists_runs hn rfl (k := 4) rfl
    have ⟨ctx, hd⟩ := hd (handle, .context) (by simp [hc.vals]) rfl
    exact hc.ne_assert hd (by simp) h

end

end Ecsact
