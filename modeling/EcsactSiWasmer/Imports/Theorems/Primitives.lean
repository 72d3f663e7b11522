import EcsactSiWasmer.Imports.Tables
import EcsactSiWasmer.Objects.Theorems.CallMem

open EStateM Ecsact.World

namespace Ecsact

-- A relation between worlds to which the operations keep that reach neither the files nor the logger.
structure Pushless (R : World → World → Prop) : Prop where
  preorder   : IsPreorder World R
  trace      : ∀ {name}, Within R (onCallMem (CallMem.debugTraceMethod name))
  read       : ∀ {offset type}, Within R (onCallMem (CallMem.callMemRead offset type))
  alloc      : ∀ {v type}, Within R (onCallMem (CallMem.callMemAlloc v type))
  loadBytes  : ∀ {ptr n}, Within R (loadBytes ptr n)
  storeBytes : ∀ {ptr bytes}, Within R (storeBytes ptr bytes)
  called     : ∀ {w fn args}, R w (w.called fn args)
  setResult  : ∀ {j val}, Within R (setResult j val)

-- A relation between worlds to which the operations keep that do not reach the files.
structure Fileless (R : World → World → Prop) : Prop where
  preorder   : IsPreorder World R
  trace      : ∀ {name}, Within R (onCallMem (CallMem.debugTraceMethod name))
  read       : ∀ {offset type}, Within R (onCallMem (CallMem.callMemRead offset type))
  alloc      : ∀ {v type}, Within R (onCallMem (CallMem.callMemAlloc v type))
  loadBytes  : ∀ {ptr n}, Within R (loadBytes ptr n)
  storeBytes : ∀ {ptr bytes}, Within R (storeBytes ptr bytes)
  push       : ∀ {level str}, Within R (pushStdioStr level str)
  called     : ∀ {w fn args}, R w (w.called fn args)
  setResult  : ∀ {j val}, Within R (setResult j val)

-- A relation between worlds to which the operations that the callbacks are made of keep.
structure Primitives (R : World → World → Prop) : Prop where
  preorder   : IsPreorder World R
  trace      : ∀ {name}, Within R (onCallMem (CallMem.debugTraceMethod name))
  read       : ∀ {offset type}, Within R (onCallMem (CallMem.callMemRead offset type))
  alloc      : ∀ {v type}, Within R (onCallMem (CallMem.callMemAlloc v type))
  ensureOpen : ∀ {fd}, Within R (onFiles (Files.ensureOpen fd))
  fread      : ∀ {n file}, Within R (onFiles (Files.fread n file))
  close      : ∀ {fd}, Within R (onFiles (Files.close fd))
  loadBytes  : ∀ {ptr n}, Within R (loadBytes ptr n)
  storeBytes : ∀ {ptr bytes}, Within R (storeBytes ptr bytes)
  push       : ∀ {level str}, Within R (pushStdioStr level str)
  called     : ∀ {w fn args}, R w (w.called fn args)
  setResult  : ∀ {j val}, Within R (setResult j val)

namespace Pushless

variable {R : World → World → Prop} {args : List WasmVal} {mem : MemPtr} {ptr : HostPtr} {i n : Nat}

section

variable [IsPreorder World R]

theorem argData : Within R (argData args i) := by
  simp only [World.argData]
  split
  case h_1 => exact .pure
  case h_2 => exact .throw

theorem ofI32 {val : WasmVal} : Within R (ofI32 val) := by
  cases val
  case i32 => exact .pure
  case i64 => exact .throw

theorem argI32 : Within R (argI32 args i) :=
  argData.bind fun _ => ofI32

theorem getVoidPtr {val : WasmVal} : Within R (getVoidPtr val mem) :=
  ofI32.bind fun _ => .ite (.bind .pure fun _ => .pure) .pure

theorem passArg {pass : Pass} {val : WasmVal} : Within R (pass.arg val mem) := by
  cases pass
  case id | bool      => exact ofI32.bind fun _ => .pure
  case ptr | constPtr => exact getVoidPtr.bind fun _ => .pure

theorem passArgs {passed : List (Nat × Pass)} : Within R (passArgs args mem passed) := by
  induction passed
  case nil       => exact .pure
  case cons _ hi => exact argData.bind fun _ => passArg.bind fun _ => hi.bind fun _ => .pure

end

variable (h : Pushless R)

include h

theorem hostCall {α : Type} {fn : EcsactFn} {args : List HostArg}
    {answer : Runtime → HostView → α} : Within R (hostCall fn args answer) :=
  fun _ => h.called

theorem getExecutionContext {val : WasmVal} : Within R (getExecutionContext val) :=
  have := h.preorder
  ofI32.bind fun _ => h.read

theorem getExecutionContextMemory {val : WasmVal} : Within R (getExecutionContextMemory val) :=
  have := h.preorder
  ofI32.bind fun _ => h.read

theorem forward {α : Type} {name : String} {fn : EcsactFn} {passed : List (Nat × Pass)}
    {answer : Runtime → HostView → α} : Within R (forward name fn passed answer args) :=
  have := h.preorder
  h.trace.bind fun _ =>
    argData.bind fun _ => h.getExecutionContext.bind fun _ =>
    argData.bind fun _ => h.getExecutionContextMemory.bind fun _ =>
    passArgs.bind fun _ => h.hostCall

theorem forwardVoid {name : String} {fn : EcsactFn} {passed : List (Nat × Pass)} :
    Within R (forwardVoid name fn passed args) :=
  have := h.preorder
  h.forward.bind fun _ => .pure

theorem result {val : WasmVal} :
    Within R (World.setResult 0 val >>= fun _ => pure (none : Option Trap)) :=
  have := h.preorder
  h.setResult.bind fun _ => .pure

theorem componentDataList : Within R (componentDataList mem ptr n i) := by
  have := h.preorder
  induction n generalizing i
  case zero      => exact .pure
  case succ _ hi =>
    exact (h.loadBytes.bind fun _ => .pure).bind fun _ =>
      getVoidPtr.bind fun _ => hi.bind fun _ => .pure

theorem has : Within R (wasmEcsactSystemExecutionContextHas args) :=
  have := h.preorder
  h.forward.bind fun _ => h.result

theorem generate : Within R (wasmEcsactSystemExecutionContextGenerate args) := by
  have := h.preorder
  refine h.trace.bind fun _ => ?_
  refine argData.bind fun _ => h.getExecutionContext.bind fun _ => ?_
  refine argData.bind fun _ => h.getExecutionContextMemory.bind fun _ => ?_
  refine argData.bind fun _ => ofI32.bind fun _ => ?_
  refine .ite (.bind .throw fun _ => ?_) ?_
  all_goals
    refine argData.bind fun _ => getVoidPtr.bind fun _ => h.componentDataList.bind fun _ => ?_
    exact argData.bind fun _ => getVoidPtr.bind fun _ => h.hostCall.bind fun _ => .pure

theorem parent : Within R (wasmEcsactSystemExecutionContextParent args) := by
  have := h.preorder
  refine h.trace.bind fun _ => ?_
  refine argData.bind fun _ => h.getExecutionContext.bind fun _ => ?_
  refine argData.bind fun _ => h.getExecutionContextMemory.bind fun _ => ?_
  exact h.hostCall.bind fun _ => h.alloc.bind fun _ => h.hostCall.bind fun _ =>
    h.alloc.bind fun _ => h.result

theorem other : Within R (wasmEcsactSystemExecutionContextOther args) := by
  have := h.preorder
  refine h.trace.bind fun _ => ?_
  refine argData.bind fun _ => h.getExecutionContext.bind fun _ => ?_
  refine argData.bind fun _ => h.getExecutionContextMemory.bind fun _ => ?_
  refine h.hostCall.bind fun _ => argData.bind fun _ => ofI32.bind fun _ => ?_
  exact h.hostCall.bind fun _ => h.alloc.bind fun _ => h.alloc.bind fun _ => h.result

theorem same : Within R (wasmEcsactSystemExecutionContextSame args) := by
  have := h.preorder
  refine h.trace.bind fun _ => ?_
  refine argData.bind fun _ => h.getExecutionContext.bind fun _ => ?_
  refine argData.bind fun _ => h.getExecutionContext.bind fun _ => ?_
  exact h.hostCall.bind fun _ => h.result

theorem entity : Within R (wasmEcsactSystemExecutionContextEntity args) := by
  have := h.preorder
  refine h.trace.bind fun _ => argData.bind fun _ => h.getExecutionContext.bind fun _ => ?_
  exact h.hostCall.bind fun _ => h.result

theorem loadCiovec : Within R (loadCiovec ptr i) :=
  have := h.preorder
  h.loadBytes.bind fun _ => .pure

theorem environSizesGet : Within R (ecsactSiWasiEnvironSizesGet args) := by
  have := h.preorder
  refine h.trace.bind fun _ => h.read.bind fun _ => argI32.bind fun _ => argI32.bind fun _ => ?_
  exact h.storeBytes.bind fun _ => h.storeBytes.bind fun _ => h.result

theorem environGet : Within R (ecsactSiWasiEnvironGet args) := by
  have := h.preorder
  refine h.trace.bind fun _ => h.read.bind fun _ => argI32.bind fun _ => argI32.bind fun _ => ?_
  exact h.storeBytes.bind fun _ => h.storeBytes.bind fun _ => h.result

theorem fdFdstatGet : Within R (ecsactSiWasiFdFdstatGet args) := by
  have := h.preorder
  refine h.trace.bind fun _ => h.read.bind fun _ => argI32.bind fun fd => argI32.bind fun _ => ?_
  have he : ∀ ptr, Within R (World.loadBytes ptr 1 >>= fun type =>
      if type ≠ [Filetype.unknown.value] then setErrno 0 >>= fun _ => pure none
      else setErrno 1 >>= fun _ => pure (none : Option Trap)) :=
    fun _ => h.loadBytes.bind fun _ => .ite h.result h.result
  cases defaultFdstats fd
  case none => exact Within.get.bind fun _ => h.storeBytes.bind fun _ => he _
  case some => exact h.storeBytes.bind fun _ => he _

theorem readLoop {file : FilePtr} {amount : BitVec 64}
    (fread : ∀ {n file}, Within R (onFiles (Files.fread n file))) :
    Within R (readLoop mem ptr file n i amount) := by
  have := h.preorder
  induction n generalizing i amount
  case zero      => exact .pure
  case succ _ hi =>
    exact h.loadCiovec.bind fun _ =>
      .ite (fread.bind fun _ => h.storeBytes.bind fun _ => hi) hi

theorem fdRead (ensureOpen : ∀ {fd}, Within R (onFiles (Files.ensureOpen fd)))
    (fread : ∀ {n file}, Within R (onFiles (Files.fread n file))) :
    Within R (ecsactSiWasiFdRead args) := by
  have := h.preorder
  refine h.trace.bind fun _ => h.read.bind fun _ => ?_
  refine argI32.bind fun _ => argI32.bind fun _ => argI32.bind fun _ => argI32.bind fun _ => ?_
  exact ensureOpen.bind fun _ => (h.readLoop fread).bind fun _ => h.storeBytes.bind fun _ => h.result

theorem fdClose (close : ∀ {fd}, Within R (onFiles (Files.close fd))) :
    Within R (ecsactSiWasiFdClose args) := by
  have := h.preorder
  refine h.trace.bind fun _ => argI32.bind fun _ => ?_
  exact .ite (close.bind fun _ => h.result) h.result

-- All callbacks but one are made of these operations and those on the files.
theorem callback {e : String × ImportResolveFunc}
    (ensureOpen : ∀ {fd}, Within R (onFiles (Files.ensureOpen fd)))
    (fread : ∀ {n file}, Within R (onFiles (Files.fread n file)))
    (close : ∀ {fd}, Within R (onFiles (Files.close fd))) (he : e ∈ importTables)
    (hw : e.1 ≠ "fd_write") : Within R (e.2.funcCallback args) := by
  have := h.preorder
  revert e
  simp only [importTables, guestEnvModuleImports, guestWasiModuleImports, List.cons_append,
    List.nil_append, List.forall_mem_cons]
  exact ⟨fun _ => h.forwardVoid, fun _ => h.parent, fun _ => h.same, fun _ => h.forwardVoid,
    fun _ => h.forwardVoid, fun _ => h.has, fun _ => h.generate, fun _ => h.forwardVoid,
    fun _ => h.forwardVoid, fun _ => h.other, fun _ => h.entity, fun _ => h.forwardVoid,
    fun _ => h.trace.bind fun _ => .pure, fun _ => h.trace.bind fun _ => h.result,
    fun hw => absurd rfl hw, fun _ => h.fdRead ensureOpen fread, fun _ => h.fdClose close,
    fun _ => h.environSizesGet, fun _ => h.environGet, fun _ => h.fdFdstatGet, List.forall_mem_nil _⟩

end Pushless

namespace Fileless

variable {R : World → World → Prop} {args : List WasmVal} {mem : MemPtr} {ptr : HostPtr} {i n : Nat}
  (h : Fileless R)

include h

theorem pushless : Pushless R where
  preorder   := h.preorder
  trace      := h.trace
  read       := h.read
  alloc      := h.alloc
  loadBytes  := h.loadBytes
  storeBytes := h.storeBytes
  called     := h.called
  setResult  := h.setResult

theorem writeLoop {level : LogLevel} {amount : BitVec 64} :
    Within R (writeLoop mem ptr level n i amount) := by
  have := h.preorder
  induction n generalizing i amount
  case zero      => exact .pure
  case succ _ hi =>
    exact h.pushless.loadCiovec.bind fun _ =>
      .ite (h.loadBytes.bind fun _ => h.push.bind fun _ => hi) hi

theorem fdWrite : Within R (ecsactSiWasiFdWrite args) := by
  have := h.preorder
  refine h.trace.bind fun _ => h.read.bind fun _ => ?_
  refine Pushless.argI32.bind fun _ => Pushless.argI32.bind fun _ => ?_
  refine Pushless.argI32.bind fun _ => Pushless.argI32.bind fun _ => ?_
  exact .ite (h.writeLoop.bind fun _ => h.storeBytes.bind fun _ => h.pushless.result)
    h.pushless.result

-- All callbacks but two are made of these operations only.
theorem callback {e : String × ImportResolveFunc} (he : e ∈ importTables) (hr : e.1 ≠ "fd_read")
    (hc : e.1 ≠ "fd_close") : Within R (e.2.funcCallback args) := by
  have hp := h.pushless
  have := h.preorder
  revert e
  simp only [importTables, guestEnvModuleImports, guestWasiModuleImports, List.cons_append,
    List.nil_append, List.forall_mem_cons]
  exact ⟨fun _ _ => hp.forwardVoid, fun _ _ => hp.parent, fun _ _ => hp.same,
    fun _ _ => hp.forwardVoid, fun _ _ => hp.forwardVoid, fun _ _ => hp.has, fun _ _ => hp.generate,
    fun _ _ => hp.forwardVoid, fun _ _ => hp.forwardVoid, fun _ _ => hp.other, fun _ _ => hp.entity,
    fun _ _ => hp.forwardVoid, fun _ _ => h.trace.bind fun _ => .pure,
    fun _ _ => h.trace.bind fun _ => hp.result, fun _ _ => h.fdWrite, fun hr => absurd rfl hr,
    fun _ hc => absurd rfl hc, fun _ _ => hp.environSizesGet, fun _ _ => hp.environGet,
    fun _ _ => hp.fdFdstatGet, List.forall_mem_nil _⟩

end Fileless

namespace Primitives

variable {R : World → World → Prop} {args : List WasmVal} (h : Primitives R)

include h

theorem fileless : Fileless R where
  preorder   := h.preorder
  trace      := h.trace
  read       := h.read
  alloc      := h.alloc
  loadBytes  := h.loadBytes
  storeBytes := h.storeBytes
  push       := h.push
  called     := h.called
  setResult  := h.setResult

-- A callback keeps to what its operations keep to.
theorem callback {e : String × ImportResolveFunc} (he : e ∈ importTables) :
    Within R (e.2.funcCallback args) := by
  by_cases hw : e.1 = "fd_write"
  case neg => exact h.fileless.pushless.callback h.ensureOpen h.fread h.close he hw
  case pos => exact h.fileless.callback he (by simp [hw]) (by simp [hw])

end Primitives

theorem fileless_files : Fileless (Keeps World.files) := by
  have hc {α : Type} {x : CallMemM α} : Within (Keeps World.files) (onCallMem x) :=
    Within.zoom (R := fun _ _ => True) (fun _ => trivial) fun _ _ _ => rfl
  exact {
    preorder   := inferInstance
    trace      := hc
    read       := hc
    alloc      := hc
    loadBytes  := fun {ptr _} => by cases ptr <;> exact fun _ => rfl
    storeBytes := fun {ptr _} => by cases ptr <;> exact fun _ => rfl
    push       := fun _ => rfl
    called     := rfl
    setResult  := fun w => by
      simp only [World.setResult]
      rw [bind_ok (get_apply w)]
      split <;> rfl
  }

-- Only three of the operations reach the files.
theorem primitives_of_files {R : Files → Files → Prop} [IsPreorder Files R]
    (ensureOpen : ∀ fd, Within R (Files.ensureOpen fd))
    (fread : ∀ n file, Within R (Files.fread n file)) (close : ∀ fd, Within R (Files.close fd)) :
    Primitives fun w w' => R w.files w'.files := by
  have hk {α : Type} {x : CallbackM α} (h : Within (Keeps World.files) x) :
      Within (fun w w' => R w.files w'.files) x := by
    refine h.mono fun w w' hw => ?_
    rw [show w'.files = w.files from hw]
    exact refl_of R w.files
  exact {
    preorder   := {
      refl w := refl_of R w.files
      trans _ _ _ h₁ h₂ := trans_of R h₁ h₂
    }
    trace      := hk fileless_files.trace
    read       := hk fileless_files.read
    alloc      := hk fileless_files.alloc
    ensureOpen := (ensureOpen _).zoom fun _ _ => id
    fread      := (fread _ _).zoom fun _ _ => id
    close      := (close _).zoom fun _ _ => id
    loadBytes  := hk fileless_files.loadBytes
    storeBytes := hk fileless_files.storeBytes
    push       := hk fileless_files.push
    called     := refl_of R _
    setResult  := hk fileless_files.setResult
  }

-- Only three of the operations reach call memory, and a read leaves it as it is.
theorem primitives_of_callMem {R : CallMem → CallMem → Prop} [IsPreorder CallMem R]
    (trace : ∀ name, Within R (CallMem.debugTraceMethod name))
    (alloc : ∀ v type, Within R (CallMem.callMemAlloc v type)) :
    Primitives fun w w' => R w.callMem w'.callMem := by
  have hk {α : Type} {x : CallbackM α} (h : Within (Keeps World.callMem) x) :
      Within (fun w w' => R w.callMem w'.callMem) x := by
    refine h.mono fun w w' hw => ?_
    rw [show w'.callMem = w.callMem from hw]
    exact refl_of R w.callMem
  have hf {α : Type} {x : FilesM α} : Within (Keeps World.callMem) (onFiles x) :=
    Within.zoom (R := fun _ _ => True) (fun _ => trivial) fun _ _ _ => rfl
  exact {
    preorder   := {
      refl w := refl_of R w.callMem
      trans _ _ _ h₁ h₂ := trans_of R h₁ h₂
    }
    trace      := (trace _).zoom fun _ _ => id
    read       := CallMem.within_callMemRead.zoom fun _ _ => id
    alloc      := (alloc _ _).zoom fun _ _ => id
    ensureOpen := hk hf
    fread      := hk hf
    close      := hk hf
    loadBytes  := fun {ptr _} => by cases ptr <;> exact hk fun _ => rfl
    storeBytes := fun {ptr _} => by cases ptr <;> exact hk fun _ => rfl
    push       := hk fun _ => rfl
    called     := refl_of R _
    setResult  := hk fun w => by
      simp only [World.setResult]
      rw [bind_ok (get_apply w)]
      split <;> rfl
  }

end Ecsact
