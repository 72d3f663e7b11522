import EcsactSiWasmer.Execution.Theorems.Accesses

open EStateM Ecsact.World Ecsact.CallMem

namespace Ecsact

namespace ImportCall
namespace Confined

variable {call : ImportCall} {finds : MemPtr → Prop} {w : World} {α : Type}

theorem withMemory {name : String} {f : MemPtr → CallbackM α}
    (h : ∀ mem, callMemRead 0 .memory w.callMem = .ok mem w.callMem →
      Within (call.Confined finds) (f mem)) :
    call.Confined finds w (withMemory name f w).state := by
  have ht : call.Confined finds w (w.traced name) := of_eq rfl rfl rfl
  cases @withMemory_cases _ name f w
  case inl hm =>
    obtain ⟨mem, hm⟩ := hm
    rw [withMemory_ok hm]
    exact ht.trans <| h mem hm _
  case inr he =>
    obtain ⟨e, w', _, he, hw⟩ := he
    rw [he]
    cases hw
    case inl hw => rw [hw]; exact refl_of _ w
    case inr hw => rw [hw]; exact ht

theorem withContext {name : String} {handle : BitVec 32} {f : CtxPtr → MemPtr → CallbackM α}
    (h : ∀ ctx mem, w.callMem.Denotes handle ctx mem → Within (call.Confined finds) (f ctx mem)) :
    call.Confined finds w (withContext name handle f w).state := by
  have ht : call.Confined finds w (w.traced name) := of_eq rfl rfl rfl
  cases @withContext_cases _ name handle f w
  case inl hd =>
    have ⟨ctx, mem, hd⟩ := hd
    rw [withContext_ok hd]
    exact ht.trans <| h ctx mem hd _
  case inr he =>
    have ⟨e, w', _, he, hw⟩ := he
    rw [he]
    cases hw
    case inl hw => rw [hw]; exact refl_of _ w
    case inr hw => rw [hw]; exact ht

section

variable {mem : MemPtr} {p q i n : Nat} {amount : BitVec 64}

theorem loadCiovec_eq {v : BitVec 32} : loadCiovec (wasmMemoryCast mem v) i w =
    .ok (.decode (entryAccess w mem v 8 i).data) (w.accessed (entryAccess w mem v 8 i)) :=
  rfl

theorem writeLoop {level : LogLevel} (hm : finds mem)
    (ha : call.ranges.array = some ⟨p, q, 8, false⟩)
    (hl : i + n ≤ (call.val q).toNat) : Within (call.Confined finds)
      (writeLoop mem (wasmMemoryCast mem (call.val p)) level n i amount) := by
  induction n generalizing i amount
  case zero => exact .pure
  case succ n hi =>
    intro w
    let e := entryAccess w mem (call.val p) 8 i
    have he : call.Confined finds w (w.accessed e) :=
      @entry _ _ _ _ ⟨p, q, 8, false⟩ _ hm ha <| by simp only; omega
    rw [Ecsact.writeLoop, bind_ok loadCiovec_eq]
    split
    case isFalse => exact he.trans <| hi (by omega) _
    case isTrue =>
      let io := Ciovec.decode e.data
      let b : Access := {
        mem    := mem
        offset := io.buf.toInt
        data   := ((w.accessed e).memories mem).bytes.read io.buf.toInt io.bufLen.toNat
        write  := false
      }
      have hb : World.loadBytes (wasmMemoryCast mem io.buf) io.bufLen.toNat (w.accessed e) =
          .ok b.data ((w.accessed e).accessed b) :=
        rfl
      have hr : call.Reaches ((w.accessed e).accessed b).accesses b :=
        buffer ha (by simp only; omega) rfl (by simp [World.accessed, e]) rfl (by simp [b, io, e])
      rw [bind_ok hb]
      exact he.trans <| (accessed hm hr).trans <|
        pushStdioStr.bind (fun _ => hi (by omega)) _

theorem readLoop {file : FilePtr} (hm : finds mem)
    (ha : call.ranges.array = some ⟨p, q, 8, true⟩)
    (hl : i + n ≤ (call.val q).toNat) : Within (call.Confined finds)
      (readLoop mem (wasmMemoryCast mem (call.val p)) file n i amount) := by
  induction n generalizing i amount
  case zero => exact .pure
  case succ n hi =>
    intro w
    let e := entryAccess w mem (call.val p) 8 i
    have he : call.Confined finds w (w.accessed e) :=
      @entry _ _ _ _ ⟨p, q, 8, true⟩ _ hm ha <| by simp only; omega
    rw [Ecsact.readLoop, bind_ok loadCiovec_eq]
    split
    case isFalse => exact he.trans <| hi (by omega) _
    case isTrue =>
      let io := Ciovec.decode e.data
      have hf := @onFiles call finds _ (Files.fread io.bufLen.toNat file) (w.accessed e)
      cases hx : World.onFiles (Files.fread io.bufLen.toNat file) (w.accessed e)
      case error =>
        rw [bind_error hx]
        rw [hx] at hf
        exact he.trans hf
      case ok bytes w₁ =>
        rw [bind_ok hx]
        rw [hx] at hf
        obtain ⟨files, hq, rfl⟩ := zoom_eq_ok.mp hx
        let b : Access := { mem := mem, offset := io.buf.toInt, data := bytes, write := true }
        have hr : call.Reaches
            (({ w.accessed e with files := files } : World).accessed b).accesses b :=
          buffer ha (by simp only; omega) rfl (by simp [World.accessed, e]) rfl
            (Files.fread_length hq)
        refine he.trans <| hf.trans ?_
        exact (stored (w := { w.accessed e with files := files }) hm rfl hr).trans <| hi (by omega) _

-- The loop of the binding which reads the guest's array of pointers.
theorem componentDataList (hm : finds mem)
    (ha : call.ranges.array = some ⟨p, q, 4, none⟩)
    (hl : i + n ≤ (call.val q).toNat) :
    ∃ list w', componentDataList mem (wasmMemoryCast mem (call.val p)) n i w =
      .ok list w' ∧ call.Confined finds w w' ∧ ∀ ptr ∈ list, call.Hands finds w'.accesses ptr := by
  induction n generalizing i w
  case zero => exact ⟨[], w, rfl, refl_of _ w, nofun⟩
  case succ n hi =>
    let e := entryAccess w mem (call.val p) 4 i
    have he : call.Confined finds w (w.accessed e) :=
      @entry _ _ _ _ ⟨p, q, 4, none⟩ _ hm ha <| by simp only; omega
    obtain ⟨list, w', hc, hw, hp⟩ := @hi (w.accessed e) (i + 1) <| by omega
    have hv : loadWord 32 ((wasmMemoryCast mem (call.val p)).add (4 * i)) w =
        .ok (BitVec.ofNat 32 (leVal e.data)) (w.accessed e) :=
      rfl
    refine ⟨voidPtr (BitVec.ofNat 32 (leVal e.data)) mem :: list, w', ?_, he.trans hw, ?_⟩
    · rw [Ecsact.componentDataList, bind_ok hv, getConstVoidPtr, getVoidPtr_eq, pure_bind]
      rw [bind_ok hc]
      rfl
    · refine List.forall_mem_cons.mpr ⟨hands_voidPtr hm ?_, hp⟩
      refine .word ha ?_ (entry_entryAccess (by simp only; omega))
      obtain ⟨log, _, hw⟩ := hw
      rw [hw.accesses]
      exact List.mem_append_left _ <| by simp [World.accessed, e]

end

theorem finds_of_wasi (hn : nativeApi.lookup call.name = none) {mem : MemPtr}
    (h : callMemRead 0 .memory w.callMem = .ok mem w.callMem) : call.Finds w mem := by
  simpa [Finds, hn] using h

theorem mem_of_lookup {name : String} {n : Native} (h : nativeApi.lookup name = some n) :
    (name, n) ∈ nativeApi := by
  have ⟨l₁, l₂, h, _⟩ := List.lookup_eq_some_iff.mp h
  simp [h]

theorem finds_of_binding {n : Native} (hn : nativeApi.lookup call.name = some n) {mem : MemPtr}
    {ctx : CtxPtr} (h : w.callMem.Denotes (call.val 0) ctx mem) : call.Finds w mem := by
  simpa [Finds, hn] using h.memory

theorem setErrno {errno : BitVec 32} :
    Within (call.Confined finds) (setErrno errno >>= fun _ => pure (none : Option Trap)) :=
  setResult.bind fun _ => .pure

theorem procExit {args : List WasmVal} : Within (call.Confined finds) (ecsactSiWasiProcExit args) :=
  onCallMem.bind fun _ => .pure

theorem fdSeek {args : List WasmVal} : Within (call.Confined finds) (ecsactSiWasiFdSeek args) :=
  onCallMem.bind fun _ => setErrno

theorem fdClose {fd : BitVec 32} : Within (call.Confined finds) (ecsactSiWasiFdClose [.i32 fd]) := by
  rw [fdClose_eq]
  exact onCallMem.bind fun _ => .ite (onFiles.bind fun _ => setErrno) setErrno

section

variable {mem : MemPtr} {i n : Nat}

theorem storeWord {v : BitVec 64} (hm : finds mem) (ho : (i, 8) ∈ call.ranges.out) :
    Within (call.Confined finds) (storeWord (wasmMemoryCast mem (call.val i)) v) :=
  storeBytes hm ho <| by simp

end

theorem environSizesGet (hn : call.name = "environ_sizes_get") :
    call.Confined (call.Finds w) (call.enter w) (call.run w).state := by
  have ho : call.ranges.out = [(0, 8), (1, 8)] := by rw [ranges, hn]; rfl
  have hr := call.run_eq hn rfl (k := 2) rfl w
  rw [hr]
  refine withMemory fun mem hm => ?_
  replace hm : call.Finds w mem := finds_of_wasi (hn ▸ rfl) hm
  exact (storeWord hm (by simp [ho])).bind fun _ => (storeWord hm (by simp [ho])).bind fun _ =>
    setErrno

theorem environGet (hn : call.name = "environ_get") :
    call.Confined (call.Finds w) (call.enter w) (call.run w).state := by
  have ho : call.ranges.out = [(0, 1), (1, 1)] := by rw [ranges, hn]; rfl
  have hr := call.run_eq hn rfl (k := 2) rfl w
  rw [hr]
  refine withMemory fun mem hm => ?_
  replace hm : call.Finds w mem := finds_of_wasi (hn ▸ rfl) hm
  exact (storeBytes hm (i := 0) (n := 1) (by simp [ho]) (by simp)).bind fun _ =>
    (storeBytes hm (i := 1) (n := 1) (by simp [ho]) (by simp)).bind fun _ => setErrno

theorem fdFdstatGet (hn : call.name = "fd_fdstat_get") :
    call.Confined (call.Finds w) (call.enter w) (call.run w).state := by
  have ho : call.ranges.out = [(1, 24)] := by rw [ranges, hn]; rfl
  have hr := (call.run_eq hn rfl (k := 2) rfl w).trans <| congrFun fdFdstatGet_eq _
  rw [hr]
  refine withMemory fun mem hm => ?_
  replace hm : call.Finds w mem := finds_of_wasi (hn ▸ rfl) hm
  have hs (stat : Fdstat) : Within (call.Confined (call.Finds w))
      (World.storeBytes (wasmMemoryCast mem (call.val 1)) stat.encode) :=
    storeBytes (n := 24) hm (by simp [ho]) (by simp [Fdstat.encode])
  have hl : Within (call.Confined (call.Finds w)) (fdstatErrno (wasmMemoryCast mem (call.val 1))) :=
    (loadBytes (n := 24) hm (by simp [ho]) (by decide)).bind fun _ => .ite setErrno setErrno
  cases hd : defaultFdstats (call.val 0)
  case some stat => exact (hs stat).bind fun _ => hl
  case none      => exact .bind .get fun _ => (hs _).bind fun _ => hl

theorem fdWrite (hn : call.name = "fd_write") :
    call.Confined (call.Finds w) (call.enter w) (call.run w).state := by
  have ho : call.ranges = {
      out := [(3, 8)], array := some { address := 1, length := 2, size := 8, fills := false }
    } := by
    rw [ranges, hn]
    rfl
  have hr := (call.run_eq hn rfl (k := 4) rfl w).trans <| congrFun fdWrite_eq _
  rw [hr]
  refine withMemory fun mem hm => ?_
  replace hm : call.Finds w mem := finds_of_wasi (hn ▸ rfl) hm
  refine .ite ?_ setErrno
  refine (writeLoop hm (congrArg GuestRanges.array ho) ?_).bind fun _ =>
    (storeWord hm (by simp [ho])).bind fun _ => setErrno
  rw [Nat.zero_add]
  exact toInt_toNat_le _

theorem fdRead (hn : call.name = "fd_read") :
    call.Confined (call.Finds w) (call.enter w) (call.run w).state := by
  have ho : call.ranges = {
      out := [(3, 8)], array := some { address := 1, length := 2, size := 8, fills := true }
    } := by
    rw [ranges, hn]
    rfl
  have hr := (call.run_eq hn rfl (k := 4) rfl w).trans <| congrFun fdRead_eq _
  rw [hr]
  refine withMemory fun mem hm => ?_
  replace hm : call.Finds w mem := finds_of_wasi (hn ▸ rfl) hm
  refine onFiles.bind fun file => ?_
  refine (readLoop hm (congrArg GuestRanges.array ho) ?_).bind fun _ =>
    (storeWord hm (by simp [ho])).bind fun _ => setErrno
  rw [Nat.zero_add]
  exact toInt_toNat_le _

section

variable {n : Native} {handle : BitVec 32} {vs : List (BitVec 32)} {k : Nat}

-- The bindings that pass their arguments on one by one.
theorem forward {name : String} {fn : EcsactFn} {passed : List (Nat × Pass)}
    {answer : Runtime → HostView → α} (hn : nativeApi.lookup call.name = some n)
    (hv : call.vals = handle :: vs) (hl : ∀ e ∈ passed, e.1 < vs.length + 1)
    (hp : fn ≠ .streamToggle → ∀ e ∈ passed, e.2.role = .ptr → n.roles[e.1]? = some .ptr) :
    call.Confined (call.Finds w) (call.enter w)
      (forward name fn passed answer ((handle :: vs).map .i32) (call.enter w)).state := by
  rw [forward_eq hl]
  refine withContext fun ctx mem hd => hostCall (by rw [hn]; rfl) fun log hf ptr hm => ?_
  have hx : handle = call.val 0 := by simp [val, hv]
  have hm' : call.Finds w mem := finds_of_binding hn (hx ▸ hd)
  simp only [List.flatMap_cons, HostArg.toPtrs, List.nil_append, List.mem_flatMap, List.mem_map,
    exists_exists_and_eq_and] at hm
  obtain ⟨e, he, hm⟩ := hm
  have hi : (handle :: vs).getD e.1 0 = call.val e.1 := by rw [val, hv]
  rw [hi] at hm
  have hr := hp hf e he
  cases hq : e.2 <;> simp only [hq, Pass.value, List.not_mem_nil, List.mem_singleton] at hm
  all_goals
    rw [hm]
    exact hands_voidPtr hm' <| .arg (mem_of_lookup hn) <| hr <| by rw [hq]; rfl

theorem forwardVoid {name : String} {type : FuncType} {passed : List (Nat × Pass)}
    (hc : call.name = name) (hn : nativeApi.lookup name = some n)
    (hf : importTables.lookup name = some ⟨type, forwardVoid name n.fn passed⟩)
    (hk : type.params = .replicate (k + 1) .i32) (hl : ∀ e ∈ passed, e.1 < k + 1)
    (hp : n.fn ≠ .streamToggle → ∀ e ∈ passed, e.2.role = .ptr → n.roles[e.1]? = some .ptr) :
    call.Confined (call.Finds w) (call.enter w) (call.run w).state := by
  obtain ⟨vs, hv, hr⟩ := exists_runs hc hf hk
  match vs, hv with
  | handle :: vs, hv =>
    replace hv : vs.length = k := Nat.succ.inj hv
    have h := @forward call w _ n handle vs name n.fn passed (fun _ _ => ()) (hc ▸ hn) hr.vals
      (hv ▸ hl) hp
    rw [hr.run]
    exact Within.bind_state h fun _ => .pure

theorem has (hc : call.name = "ecsact_system_execution_context_has") :
    call.Confined (call.Finds w) (call.enter w) (call.run w).state := by
  obtain ⟨vs, hv, hr⟩ := exists_runs hc rfl (k := 3) rfl
  match vs, hv with
  | [handle, _, _], _ =>
    have h := @forward call w _ { fn := .has, roles := [.context, .id, .ptr] } handle _
      "ecsact_system_execution_context_has" .has [(1, .id), (2, .ptr)] (·.has) (hc ▸ rfl) hr.vals
      (by simp) fun _ => by decide
    rw [hr.run]
    exact Within.bind_state h fun _ => setResult.bind fun _ => .pure

theorem generate (hn : call.name = "ecsact_system_execution_context_generate") :
    call.Confined (call.Finds w) (call.enter w) (call.run w).state := by
  have ho : call.ranges = { array := some { address := 3, length := 1, size := 4 } } := by
    rw [ranges, hn]
    rfl
  have hn' : nativeApi.lookup call.name =
      some { fn := .generate, roles := [.context, .count, .ptr, .ptrs] } := by
    rw [hn]
    rfl
  rw [call.run_eq hn rfl (k := 4) rfl w]
  change call.Confined _ _ (wasmEcsactSystemExecutionContextGenerate
    [.i32 (call.val 0), .i32 (call.val 1), .i32 (call.val 2), .i32 (call.val 3)] (call.enter w)).state
  rw [generate_eq]
  refine withContext fun ctx mem hd => ?_
  have hm : call.Finds w mem := finds_of_binding hn' hd
  refine .ite .throw ?_
  simp only [getVoidPtr_eq, pure_bind]
  have hq (ptrs : List HostPtr) (w₁ : World)
      (hp : ∀ ptr ∈ ptrs, call.Hands (call.Finds w) w₁.accesses ptr) :
      call.Passes (call.Finds w) w₁.accesses ⟨.generate,
        [.ctx ctx, .i32 (call.val 1), .ptr (voidPtr (call.val 2) mem), .ptrs ptrs]⟩ := by
    have h₂ : call.Hands (call.Finds w) w₁.accesses (voidPtr (call.val 2) mem) :=
      hands_voidPtr hm <| .arg (mem_of_lookup hn') rfl
    intro _ ptr hptr
    simp only [List.flatMap_cons, HostArg.toPtrs, List.flatMap_nil, List.nil_append,
      List.append_nil, List.mem_append, List.mem_singleton] at hptr
    cases hptr
    case inl h => exact h ▸ h₂
    case inr h => exact hp ptr h
  have hi : (nativeApi.lookup call.name).isSome := by rw [hn']; rfl
  intro w₁
  by_cases hz : call.val 3 = 0
  case pos =>
    rw [voidPtr, if_pos hz]
    cases (call.val 1).toInt.toNat
    case zero => exact called hi <| hq [] w₁ (List.forall_mem_nil _)
    case succ => exact refl_of _ w₁
  case neg =>
    obtain ⟨ptrs, w₂, hc, hw, hp⟩ := @componentDataList call (call.Finds w) w₁ mem 3 1 0
      (call.val 1).toInt.toNat hm (by rw [ho]) (by rw [Nat.zero_add]; exact toInt_toNat_le _)
    rw [voidPtr, if_neg hz]
    exact (congrArg (call.Confined _ _) (congrArg Result.state (bind_ok hc))).mpr <|
      hw.trans <| called hi <| hq ptrs w₂ hp

theorem parent (hc : call.name = "ecsact_system_execution_context_parent") :
    call.Confined (call.Finds w) (call.enter w) (call.run w).state := by
  have hn : (nativeApi.lookup call.name).isSome := by rw [hc]; rfl
  have hr := (call.run_eq hc rfl (k := 1) rfl w).trans <| congrFun parent_eq _
  rw [hr]
  refine withContext fun ctx mem _ => ?_
  exact (hostCall_of_eq_nil hn rfl).bind fun _ => onCallMem.bind fun _ =>
    (hostCall_of_eq_nil hn rfl).bind fun _ => onCallMem.bind fun _ => setResult.bind fun _ => .pure

theorem other (hc : call.name = "ecsact_system_execution_context_other") :
    call.Confined (call.Finds w) (call.enter w) (call.run w).state := by
  have hn : (nativeApi.lookup call.name).isSome := by rw [hc]; rfl
  have hr := (call.run_eq hc rfl (k := 2) rfl w).trans <| congrFun other_eq _
  rw [hr]
  refine withContext fun ctx mem _ => ?_
  exact (hostCall_of_eq_nil hn rfl).bind fun _ => (hostCall_of_eq_nil hn rfl).bind fun _ =>
    onCallMem.bind fun _ => onCallMem.bind fun _ => setResult.bind fun _ => .pure

theorem same (hc : call.name = "ecsact_system_execution_context_same") :
    call.Confined (call.Finds w) (call.enter w) (call.run w).state := by
  have hn : (nativeApi.lookup call.name).isSome := by rw [hc]; rfl
  have hr := (call.run_eq hc rfl (k := 2) rfl w).trans <| congrFun same_eq _
  rw [hr]
  exact (onCallMem.bind fun _ => onCallMem.bind fun _ => onCallMem.bind fun _ =>
    (hostCall_of_eq_nil hn rfl).bind fun _ => setResult.bind fun _ => .pure) _

theorem entity (hc : call.name = "ecsact_system_execution_context_entity") :
    call.Confined (call.Finds w) (call.enter w) (call.run w).state := by
  have hn : (nativeApi.lookup call.name).isSome := by rw [hc]; rfl
  have hr := (call.run_eq hc rfl (k := 1) rfl w).trans <| congrFun entity_eq _
  rw [hr]
  exact (onCallMem.bind fun _ => onCallMem.bind fun _ =>
    (hostCall_of_eq_nil hn rfl).bind fun _ => setResult.bind fun _ => .pure) _

end

end Confined

-- Whatever a guest calls, and whatever it passes.
theorem confined (call : ImportCall) (w : World) :
    call.Confined (call.Finds w) (call.enter w) (call.run w).state := by
  cases List.mem_append.mp call.mem
  case inl hm =>
    have ⟨_, hm⟩ := fst_mem_nativeApi hm
    apply nativeApi_cases hm
    case action =>
      intro hn _
      exact .forwardVoid (n := { fn := .action, roles := [.context, .ptr] })
        (k := 1) hn rfl rfl rfl (by decide) (by decide)
    case parent =>
      intro hn _
      exact .parent hn
    case same =>
      intro hn _
      exact .same hn
    case get =>
      intro hn _
      exact .forwardVoid (n := { fn := .get, roles := [.context, .id, .ptr, .ptr] })
        (k := 3) hn rfl rfl rfl (by decide) (by decide)
    case update =>
      intro hn _
      exact .forwardVoid (n := { fn := .update, roles := [.context, .id, .ptr, .ptr] })
        (k := 3) hn rfl rfl rfl (by decide) (by decide)
    case has =>
      intro hn _
      exact .has hn
    case generate =>
      intro hn _
      exact .generate hn
    case add =>
      intro hn _
      exact .forwardVoid (n := { fn := .add, roles := [.context, .id, .ptr] })
        (k := 2) hn rfl rfl rfl (by decide) (by decide)
    case remove =>
      intro hn _
      exact .forwardVoid (n := { fn := .remove, roles := [.context, .id, .ptr] })
        (k := 2) hn rfl rfl rfl (by decide) (by decide)
    case other =>
      intro hn _
      exact .other hn
    case entity =>
      intro hn _
      exact .entity hn
    case streamToggle =>
      intro hn _
      exact .forwardVoid (n := { fn := .streamToggle, roles := [.context, .id, .flag, .ptr] })
        (k := 3) hn rfl rfl rfl (by decide) (by decide)
  case inr hm =>
    apply wasi_cases hm
    case procExit =>
      intro hn hf
      rw [run, hf]
      exact @Confined.procExit call _ call.args _
    case fdSeek =>
      intro hn hf
      rw [run, hf]
      exact @Confined.fdSeek call _ call.args _
    case fdWrite =>
      intro hn hf
      exact .fdWrite hn
    case fdRead =>
      intro hn hf
      exact .fdRead hn
    case fdClose =>
      intro hn hf
      rw [call.run_eq hn rfl (k := 1) rfl w]
      exact Confined.fdClose _
    case environSizesGet =>
      intro hn hf
      exact .environSizesGet hn
    case environGet =>
      intro hn hf
      exact .environGet hn
    case fdFdstatGet =>
      intro hn hf
      exact .fdFdstatGet hn

-- Each access is to what the guest has named, and so inside of its memory if all of that is.
theorem sandboxed (call : ImportCall) (w : World) : call.Sandboxed w (call.run w).state := by
  have ⟨log, made, h⟩ := call.confined w
  have hl : (call.run w).state.accesses = log := h.accesses
  rw [← hl] at h
  refine ⟨fun a ha => ?_, fun size hs a ha => ?_, ⟨made, h.hostCalls, h.passes⟩, fun trap hr => ?_⟩
  · have ⟨hm, v, k, n, hn, hd, ho⟩ := h.reaches a ha
    exact ⟨hm, v, k, n, hn, hd, fun hv => by rw [ho, toInt_eq_toNat hv]⟩
  · have ⟨_, v, k, n, hn, hd, ho⟩ := h.reaches a ha
    have ⟨hv, hs⟩ := hs _ _ _ _ hn
    rw [ho, toInt_eq_toNat hv]
    omega
  · exact trap_eq_none call.mem call.typed hr

theorem environSizesGet_mem : ("environ_sizes_get", ⟨wasmFunctypeNew21 .i32 .i32 .i32,
    ecsactSiWasiEnvironSizesGet⟩) ∈ importTables := by
  simp [importTables, guestWasiModuleImports]

theorem typed_pair (v₀ v₁ : BitVec 32) : [WasmVal.i32 v₀, .i32 v₁].map WasmVal.kind = [.i32, .i32] :=
  rfl

def environSizesGet (retptr₀ retptr₁ : BitVec 32) : ImportCall where
  name  := "environ_sizes_get"
  func  := ⟨wasmFunctypeNew21 .i32 .i32 .i32, ecsactSiWasiEnvironSizesGet⟩
  mem   := environSizesGet_mem
  args  := [.i32 retptr₀, .i32 retptr₁]
  typed := typed_pair retptr₀ retptr₁

theorem environSizesGet_run (ptr : BitVec 32) : ∃ w',
    (environSizesGet ptr 0).run (systemWorld true) = .ok none w' ∧ w'.results = [some (.i32 0)] ∧
    ∃ a ∈ w'.accesses, a.write = true ∧ a.mem = 1 ∧ a.offset = ptr.toInt :=
  ⟨_, rfl, rfl, _, .head _, rfl, rfl, rfl⟩

-- A result pointer at the end of memory and one which is sign-extended are written through, and the
-- call returns as if nothing was wrong.
theorem environSizesGet_escapes :
    (∃ w', (environSizesGet 65536 0).run (systemWorld true) = .ok none w' ∧
      w'.results = [some (.i32 0)] ∧ ∃ a ∈ w'.accesses, a.write = true ∧ a.mem = 1 ∧
      ((systemWorld true).memories 1).size ≤ a.offset) ∧
    ∃ w', (environSizesGet 4294967288 0).run (systemWorld true) = .ok none w' ∧
      w'.results = [some (.i32 0)] ∧ ∃ a ∈ w'.accesses, a.write = true ∧ a.mem = 1 ∧
      a.offset < 0 := by
  have ⟨w₁, hr₁, he₁, a₁, ha₁, hw₁, hm₁, ho₁⟩ := environSizesGet_run 65536
  have ⟨w₂, hr₂, he₂, a₂, ha₂, hw₂, hm₂, ho₂⟩ := environSizesGet_run 4294967288
  refine ⟨⟨w₁, hr₁, he₁, a₁, ha₁, hw₁, hm₁, ?_⟩, w₂, hr₂, he₂, a₂, ha₂, hw₂, hm₂, ?_⟩
  · simp [ho₁, systemWorld, World.idle]
  · simp [ho₂]

end ImportCall
end Ecsact
