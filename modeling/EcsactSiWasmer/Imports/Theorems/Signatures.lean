import EcsactSiWasmer.Imports.Theorems.Frames
import Mathlib.Data.List.Nodup

open EStateM Ecsact.World

namespace Ecsact

namespace Settles

variable {γ : Type} {p : CallMem → γ} {args : List WasmVal} {params kinds : List ValKind}

theorem argData_bind {f : WasmVal → CallbackM (Option Trap)} {i : Nat}
    (ha : args.map WasmVal.kind = params) (hi : params[i]? = some .i32)
    (hf : ∀ v, Settles p kinds (f (.i32 v))) : Settles p kinds (argData args i >>= f) := by
  have ⟨v, hv⟩ := exists_argData_eq ha hi
  rw [hv, pure_bind]
  exact hf v

theorem forwardVoid {name : String} {fn : EcsactFn} {passed : List (Nat × Pass)}
    (ha : args.map WasmVal.kind = params) (h₀ : params[0]? = some .i32)
    (hp : ∀ e ∈ passed, params[e.1]? = some .i32) :
    Settles CallMem.untraced [] (forwardVoid name fn passed args) :=
  bind (.forward ha h₀ hp) fun _ => void

theorem has (ha : args.map WasmVal.kind = [.i32, .i32, .i32]) :
    Settles CallMem.untraced [.i32] (wasmEcsactSystemExecutionContextHas args) :=
  bind (.forward ha rfl <| by decide) fun _ => i32

theorem generate (ha : args.map WasmVal.kind = [.i32, .i32, .i32, .i32]) :
    Settles CallMem.untraced [] (wasmEcsactSystemExecutionContextGenerate args) := by
  refine bind .debugTraceMethod fun _ => ?_
  refine argData_bind ha rfl fun _ => bind .getExecutionContext fun _ => ?_
  refine argData_bind ha rfl fun _ => bind .getExecutionContextMemory fun _ => ?_
  refine argData_bind ha rfl fun _ => bind .pure fun _ => ?_
  apply ite .exception
  refine argData_bind ha rfl fun _ => bind .getVoidPtr fun _ => bind .componentDataList fun _ => ?_
  exact argData_bind ha rfl fun _ => bind .getVoidPtr fun _ => bind .hostCall fun _ => void

-- The two callbacks which hand out handles change the slots of call memory.
theorem parent (ha : args.map WasmVal.kind = [.i32]) :
    Settles (fun _ => ()) [.i32] (wasmEcsactSystemExecutionContextParent args) := by
  refine bind (.weaken .debugTraceMethod) fun _ => ?_
  refine argData_bind ha rfl fun _ => bind .getExecutionContext fun _ => ?_
  refine argData_bind ha rfl fun _ => bind .getExecutionContextMemory fun _ => ?_
  refine bind .hostCall fun _ => bind .callMemAlloc fun _ => bind .hostCall fun _ => ?_
  exact bind .callMemAlloc fun _ => i32

theorem other (ha : args.map WasmVal.kind = [.i32, .i32]) :
    Settles (fun _ => ()) [.i32] (wasmEcsactSystemExecutionContextOther args) := by
  refine bind (.weaken .debugTraceMethod) fun _ => ?_
  refine argData_bind ha rfl fun _ => bind .getExecutionContext fun _ => ?_
  refine argData_bind ha rfl fun _ => bind .getExecutionContextMemory fun _ => ?_
  refine bind .hostCall fun _ => argData_bind ha rfl fun _ => bind .pure fun _ => ?_
  refine bind .hostCall fun _ => bind .callMemAlloc fun _ => ?_
  exact bind .callMemAlloc fun _ => i32

theorem same (ha : args.map WasmVal.kind = [.i32, .i32]) :
    Settles CallMem.untraced [.i32] (wasmEcsactSystemExecutionContextSame args) := by
  refine bind .debugTraceMethod fun _ => ?_
  refine argData_bind ha rfl fun _ => bind .getExecutionContext fun _ => ?_
  refine argData_bind ha rfl fun _ => bind .getExecutionContext fun _ => ?_
  exact bind .hostCall fun _ => i32

theorem entity (ha : args.map WasmVal.kind = [.i32]) :
    Settles CallMem.untraced [.i32] (wasmEcsactSystemExecutionContextEntity args) := by
  refine bind .debugTraceMethod fun _ => ?_
  refine argData_bind ha rfl fun _ => bind .getExecutionContext fun _ => ?_
  exact bind .hostCall fun _ => i32

theorem procExit (args : List WasmVal) : Settles CallMem.untraced [] (ecsactSiWasiProcExit args) :=
  bind .debugTraceMethod fun _ => void

theorem fdSeek (args : List WasmVal) : Settles CallMem.untraced [.i32] (ecsactSiWasiFdSeek args) :=
  bind .debugTraceMethod fun _ => i32

theorem fdWrite (ha : args.map WasmVal.kind = [.i32, .i32, .i32, .i32]) :
    Settles CallMem.untraced [.i32] (ecsactSiWasiFdWrite args) := by
  refine bind .debugTraceMethod fun _ => bind .callMemory fun _ => ?_
  refine bind (.argI32 ha rfl) fun _ => bind (.argI32 ha rfl) fun _ => ?_
  refine bind (.argI32 ha rfl) fun _ => bind (.argI32 ha rfl) fun _ => ?_
  exact ite (bind .writeLoop fun _ => bind .storeWord fun _ => i32) i32

theorem fdRead (ha : args.map WasmVal.kind = [.i32, .i32, .i32, .i32]) :
    Settles CallMem.untraced [.i32] (ecsactSiWasiFdRead args) := by
  refine bind .debugTraceMethod fun _ => bind .callMemory fun _ => ?_
  refine bind (.argI32 ha rfl) fun _ => bind (.argI32 ha rfl) fun _ => ?_
  refine bind (.argI32 ha rfl) fun _ => bind (.argI32 ha rfl) fun _ => ?_
  exact bind (.onFiles (Files.avoids_ensureOpen Fault.foreign_isBadAccess)) fun _ =>
    bind .readLoop fun _ => bind .storeWord fun _ => i32

theorem fdClose (ha : args.map WasmVal.kind = [.i32]) :
    Settles CallMem.untraced [.i32] (ecsactSiWasiFdClose args) := by
  refine bind .debugTraceMethod fun _ => bind (.argI32 ha rfl) fun _ => ?_
  exact ite (bind (.onFiles (Files.avoids_close Fault.foreign_isBadAccess)) fun _ => i32) i32

theorem environSizesGet (ha : args.map WasmVal.kind = [.i32, .i32]) :
    Settles CallMem.untraced [.i32] (ecsactSiWasiEnvironSizesGet args) := by
  refine bind .debugTraceMethod fun _ => bind .callMemory fun _ => ?_
  refine bind (.argI32 ha rfl) fun _ => bind (.argI32 ha rfl) fun _ => ?_
  exact bind .storeWord fun _ => bind .storeWord fun _ => i32

theorem environGet (ha : args.map WasmVal.kind = [.i32, .i32]) :
    Settles CallMem.untraced [.i32] (ecsactSiWasiEnvironGet args) := by
  refine bind .debugTraceMethod fun _ => bind .callMemory fun _ => ?_
  refine bind (.argI32 ha rfl) fun _ => bind (.argI32 ha rfl) fun _ => ?_
  exact bind .storeBytes fun _ => bind .storeBytes fun _ => i32

theorem fdFdstatGet (ha : args.map WasmVal.kind = [.i32, .i32]) :
    Settles CallMem.untraced [.i32] (ecsactSiWasiFdFdstatGet args) := by
  refine bind .debugTraceMethod fun _ => bind .callMemory fun _ => ?_
  refine bind (.argI32 ha rfl) fun fd => bind (.argI32 ha rfl) fun _ => ?_
  cases h : defaultFdstats fd
  case none =>
    exact bind .get fun _ => bind .storeBytes fun _ => bind .loadBytes fun _ => ite i32 i32
  case some =>
    exact bind .storeBytes fun _ => bind .loadBytes fun _ => ite i32 i32

end Settles

-- What holds of an entry's callback with arguments of the declared kinds.
structure Sound (e : String × ImportResolveFunc) (args : List WasmVal) : Prop where
  settles : ∃ kinds, (e.1 ≠ "ecsact_system_execution_context_has" → kinds = e.2.funcType.results) ∧
    Settles (fun _ => ()) kinds (e.2.funcCallback args)
  callMem : ¬DerivesHandle e.1 →
    Within (Keeps (CallMem.untraced ∘ World.callMem)) (e.2.funcCallback args)

namespace Sound

variable {name : String} {f : ImportResolveFunc} {args : List WasmVal}

theorem of_settles (h : Settles CallMem.untraced f.funcType.results (f.funcCallback args)) :
    Sound (name, f) args where
  settles   := ⟨_, fun _ => rfl, h.weaken⟩
  callMem _ := h.callMem

theorem of_derives (h : Settles (fun _ => ()) f.funcType.results (f.funcCallback args))
    (hd : DerivesHandle name) : Sound (name, f) args where
  settles    := ⟨_, fun _ => rfl, h⟩
  callMem hn := absurd hd hn

theorem of_has {kinds : List ValKind} (h : Settles CallMem.untraced kinds (f.funcCallback args)) :
    Sound ("ecsact_system_execution_context_has", f) args where
  settles   := ⟨kinds, fun hn => absurd rfl hn, h.weaken⟩
  callMem _ := h.callMem

theorem of_mem {e : String × ImportResolveFunc} (he : e ∈ importTables)
    (ha : args.map WasmVal.kind = e.2.funcType.params) : Sound e args := by
  revert e
  simp only [importTables, guestEnvModuleImports, guestWasiModuleImports, List.cons_append,
    List.nil_append, List.forall_mem_cons]
  exact ⟨
    fun ha => of_settles <| .forwardVoid ha rfl <| by decide,
    fun ha => of_derives (.parent ha) <| by decide,
    fun ha => of_settles <| .same ha,
    fun ha => of_settles <| .forwardVoid ha rfl <| by decide,
    fun ha => of_settles <| .forwardVoid ha rfl <| by decide,
    fun ha => of_has <| .has ha,
    fun ha => of_settles <| .generate ha,
    fun ha => of_settles <| .forwardVoid ha rfl <| by decide,
    fun ha => of_settles <| .forwardVoid ha rfl <| by decide,
    fun ha => of_derives (.other ha) <| by decide,
    fun ha => of_settles <| .entity ha,
    fun ha => of_settles <| .forwardVoid ha rfl <| by decide,
    fun _  => of_settles <| .procExit args,
    fun _  => of_settles <| .fdSeek args,
    fun ha => of_settles <| .fdWrite ha,
    fun ha => of_settles <| .fdRead ha,
    fun ha => of_settles <| .fdClose ha,
    fun ha => of_settles <| .environSizesGet ha,
    fun ha => of_settles <| .environGet ha,
    fun ha => of_settles <| .fdFdstatGet ha,
    List.forall_mem_nil _
  ⟩

end Sound

theorem agrees_of_ne {e : String × ImportResolveFunc} (he : e ∈ importTables)
    (hn : e.1 ≠ "ecsact_system_execution_context_has") : e.2.Agrees := by
  intro w args ha hr
  have ⟨kinds, hk, hs⟩ := (Sound.of_mem he ha).settles
  rw [← hk hn] at hr ⊢
  split
  case h_1 w' hw   => exact hs.ok w w' hr hw
  case h_2         => trivial
  case h_3 f w' hw => exact hs.sound w w' f hr hw

-- No callback returns a trap.
theorem trap_eq_none {e : String × ImportResolveFunc} (he : e ∈ importTables) {args : List WasmVal}
    (ha : args.map WasmVal.kind = e.2.funcType.params) {w w' : World} {trap : Option Trap}
    (h : e.2.funcCallback args w = .ok trap w') : trap = none := by
  have ⟨_, _, hs⟩ := (Sound.of_mem he ha).settles
  exact hs.trap w trap w' h

def hasEntry : ImportResolveFunc :=
  ⟨wasmFunctypeNew30 .i32 .i32 .i32, wasmEcsactSystemExecutionContextHas⟩

theorem eq_of_mem_importTables {e e' : String × ImportResolveFunc} (he : e ∈ importTables)
    (he' : e' ∈ importTables) (hn : e.1 = e'.1) : e = e' := by
  have hd : (importTables.map Prod.fst).Nodup := by decide
  exact List.inj_on_of_nodup_map hd he he' hn

theorem parentEntry_mem : ("ecsact_system_execution_context_parent",
    ⟨wasmFunctypeNew11 .i32 .i32, wasmEcsactSystemExecutionContextParent⟩) ∈ importTables := by
  simp [importTables, guestEnvModuleImports]

theorem otherEntry_mem : ("ecsact_system_execution_context_other",
    ⟨wasmFunctypeNew21 .i32 .i32 .i32, wasmEcsactSystemExecutionContextOther⟩) ∈ importTables := by
  simp [importTables, guestEnvModuleImports]

theorem hasEntry_mem : ("ecsact_system_execution_context_has", hasEntry) ∈ importTables := by
  simp [importTables, guestEnvModuleImports, hasEntry]

-- A system which is about to make its first call.
def systemWorld (ndebug : Bool) : World :=
  { World.idle .inert ndebug with callMem := ⟨ndebug, some (CallMem.systemInfo ndebug 1 2)⟩ }

-- The result which the binding sets is not one that its entry declares.
theorem not_agrees_hasEntry : ¬hasEntry.Agrees := by
  intro h
  have hr : ∃ w', hasEntry.funcCallback [.i32 8, .i32 0, .i32 0] (systemWorld false) =
      .error (.badResult 0) w' := ⟨_, rfl⟩
  have ⟨_, hr⟩ := hr
  have hs := h (systemWorld false) [.i32 8, .i32 0, .i32 0] rfl rfl
  rw [hr] at hs
  exact hs trivial

theorem agrees_iff_ne_has {e : String × ImportResolveFunc} (he : e ∈ importTables) :
    e.2.Agrees ↔ e.1 ≠ "ecsact_system_execution_context_has" := by
  constructor
  case mp =>
    intro h hn
    rw [eq_of_mem_importTables he hasEntry_mem hn] at h
    exact not_agrees_hasEntry h
  case mpr => exact agrees_of_ne he

theorem fd_write_agrees : ImportResolveFunc.Agrees
    ⟨wasmFunctypeNew41 .i32 .i32 .i32 .i32 .i32, ecsactSiWasiFdWrite⟩ := by
  have hm : ("fd_write", ⟨wasmFunctypeNew41 .i32 .i32 .i32 .i32 .i32, ecsactSiWasiFdWrite⟩) ∈
      importTables := by
    simp [importTables, guestWasiModuleImports]
  exact (agrees_iff_ne_has hm).mpr <| by decide

theorem not_forall_agrees : ¬∀ e ∈ importTables, e.2.Agrees :=
  fun h => not_agrees_hasEntry <| h _ hasEntry_mem

end Ecsact
