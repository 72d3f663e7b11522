import EcsactSiWasmer.Imports.Theorems.Frames

open EStateM Ecsact.World Ecsact.CallMem

namespace Ecsact

theorem CallMem.Denotes.of_untraced {c c' : CallMem} {handle : BitVec 32} {ctx : CtxPtr}
    {mem : MemPtr} (h : c.Denotes handle ctx mem) (hu : c'.untraced = c.untraced) :
    c'.Denotes handle ctx mem where
  context := callMemRead_of_untraced hu h.context
  memory  := callMemRead_of_untraced hu h.memory

def World.traced (w : World) (name : String) : World :=
  { w with callMem := w.callMem.traced name }

section

variable {w : World} {name : String} {offset : BitVec 32} {type : SlotType}

theorem trace_cases : onCallMem (debugTraceMethod name) w = .ok () (w.traced name) ∨
    ∃ e, w.callMem.Refused e ∧ onCallMem (debugTraceMethod name) w = .error e w := by
  cases @debugTraceMethod_cases w.callMem name
  case inl h => exact .inl <| zoom_ok h.2
  case inr h => exact .inr ⟨_, .inl ⟨h.1.1, rfl⟩, zoom_error h.2⟩

theorem trace_ok {handle : BitVec 32} {ctx : CtxPtr} {mem : MemPtr}
    (h : w.callMem.Denotes handle ctx mem) :
    onCallMem (debugTraceMethod name) w = .ok () (w.traced name) := by
  have ⟨info, hi, _⟩ := callMemRead_eq_ok.mp h.context
  exact zoom_ok <| debugTraceMethod_ok fun _ => by simp [hi]

theorem read_ok {v : BitVec 64} (h : callMemRead offset type w.callMem = .ok v w.callMem) :
    onCallMem (callMemRead offset type) w = .ok v w :=
  zoom_ok h

theorem read_cases : (∃ v, callMemRead offset type w.callMem = .ok v w.callMem) ∨
    ∃ e, w.callMem.Refused e ∧ onCallMem (callMemRead offset type) w = .error e w := by
  cases @callMemRead_cases w.callMem offset type
  case inl h => exact .inl h
  case inr h =>
    have ⟨e, hr, he⟩ := h
    exact .inr ⟨e, hr, zoom_error he⟩

variable {handle : BitVec 32}

theorem getExecutionContext_eq :
    getExecutionContext (.i32 handle) = onCallMem (callMemRead handle .context) :=
  rfl

theorem getExecutionContextMemory_eq :
    getExecutionContextMemory (.i32 handle) = onCallMem (callMemRead (handle - 8) .memory) :=
  rfl

end

section

variable {α : Type} {name : String} {handle : BitVec 32} {f : CtxPtr → MemPtr → CallbackM α}
  {w : World}

-- The start of the callbacks which look up the context and the memory of a handle.
def withContext (name : String) (handle : BitVec 32) (f : CtxPtr → MemPtr → CallbackM α) :
    CallbackM α := do
  onCallMem (debugTraceMethod name)
  let ctx ← getExecutionContext (.i32 handle)
  let mem ← getExecutionContextMemory (.i32 handle)
  f ctx mem

theorem withContext_ok {ctx : CtxPtr} {mem : MemPtr} (h : w.callMem.Denotes handle ctx mem) :
    withContext name handle f w = f ctx mem (w.traced name) := by
  have hd := h.of_untraced (@untraced_traced _ name)
  rw [withContext, bind_ok (trace_ok h), getExecutionContext_eq, bind_ok (read_ok hd.context)]
  rw [getExecutionContextMemory_eq, bind_ok (read_ok hd.memory)]

-- Without a context and a memory, nothing but the trace changes.
theorem withContext_cases : (∃ ctx mem, w.callMem.Denotes handle ctx mem) ∨
    ∃ e w', w.callMem.Refused e ∧ withContext name handle f w = .error e w' ∧
      (w' = w ∨ w' = w.traced name) := by
  rw [withContext]
  cases @trace_cases w name
  case inr h =>
    have ⟨e, hr, h⟩ := h
    exact .inr ⟨e, w, hr, bind_error h, .inl rfl⟩
  case inl h =>
    rw [bind_ok h, getExecutionContext_eq]
    cases @read_cases (w.traced name) handle .context
    case inr hc =>
      have ⟨e, hr, hc⟩ := hc
      exact .inr ⟨e, _, refused_traced.mp hr, bind_error hc, .inr rfl⟩
    case inl hc =>
      have ⟨ctx, hc⟩ := hc
      rw [bind_ok (read_ok hc), getExecutionContextMemory_eq]
      cases @read_cases (w.traced name) (handle - 8) .memory
      case inr hm =>
        have ⟨e, hr, hm⟩ := hm
        exact .inr ⟨e, _, refused_traced.mp hr, bind_error hm, .inr rfl⟩
      case inl hm =>
        have ⟨mem, hm⟩ := hm
        have hd : (w.traced name).callMem.Denotes handle ctx mem := ⟨hc, hm⟩
        exact .inl ⟨ctx, mem, hd.of_untraced untraced_traced.symm⟩

end

theorem hostCall_apply {α : Type} (fn : EcsactFn) (args : List HostArg)
    (answer : Runtime → HostView → α) (w : World) :
    hostCall fn args answer w = .ok (answer w.runtime (w.hostView fn args)) (w.called fn args) :=
  rfl

-- What a callback passes on for an argument.

def voidPtr (v : BitVec 32) (mem : MemPtr) : HostPtr :=
  if v = 0 then .null else .data mem v.toInt

def Pass.value (pass : Pass) (v : BitVec 32) (mem : MemPtr) : HostArg :=
  match pass with
  | id             => .i32 v
  | bool           => .bool (v ≠ 0)
  | ptr | constPtr => .ptr (voidPtr v mem)

theorem getVoidPtr_eq (v : BitVec 32) (mem : MemPtr) :
    getVoidPtr (.i32 v) mem = pure (voidPtr v mem) := by
  simp only [getVoidPtr, ofI32, voidPtr, pure_bind]
  split <;> rfl

theorem Pass.arg_eq (pass : Pass) (v : BitVec 32) (mem : MemPtr) :
    pass.arg (.i32 v) mem = pure (pass.value v mem) := by
  cases pass
  case id | bool      => rfl
  case ptr | constPtr => simp [Pass.arg, getConstVoidPtr, getVoidPtr_eq, Pass.value]

theorem passArgs_eq {vs : List (BitVec 32)} {mem : MemPtr} {passed : List (Nat × Pass)}
    (h : ∀ e ∈ passed, e.1 < vs.length) : passArgs (vs.map .i32) mem passed =
      pure (passed.map fun e => e.2.value (vs.getD e.1 0) mem) := by
  induction passed
  case nil => rfl
  case cons e passed hi =>
    have ⟨he, h⟩ := List.forall_mem_cons.mp h
    have ha : argData (vs.map .i32) e.1 = pure (.i32 (vs.getD e.1 0)) :=
      argData_eq <| by simp [he]
    simp [passArgs, ha, hi h, Pass.arg_eq]

theorem forward_eq {α : Type} {name : String} {fn : EcsactFn} {passed : List (Nat × Pass)}
    {answer : Runtime → HostView → α} {handle : BitVec 32} {vs : List (BitVec 32)}
    (h : ∀ e ∈ passed, e.1 < vs.length + 1) :
    forward name fn passed answer ((handle :: vs).map .i32) = withContext name handle fun ctx mem =>
      hostCall fn (.ctx ctx :: passed.map fun e => e.2.value ((handle :: vs).getD e.1 0) mem)
        answer := by
  have ha : argData ((handle :: vs).map .i32) 0 = pure (.i32 handle) := argData_eq rfl
  have hp mem := @passArgs_eq (handle :: vs) mem passed h
  simp only [forward, ha, hp, pure_bind]
  rfl

section

variable {handle : BitVec 32} {w : World} {ctx : CtxPtr} {mem : MemPtr} {info : CallMemInfo}

theorem alloc_ok {v : BitVec 64} {type : SlotType} (hi : w.callMem.info = some info)
    (hf : info.Fresh) (hl : info.dataOffset < 2 ^ 31) : onCallMem (callMemAlloc v type) w =
      .ok (BitVec.ofNat 32 info.dataOffset)
        { w with callMem := { w.callMem with info := some (info.alloc w.callMem.ndebug v type) } } :=
  zoom_ok <| callMemAlloc_ok hi hf hl

-- The slots of the new handle are the next two.
def CallMemInfo.derive (info : CallMemInfo) (ndebug : Bool) (mem : MemPtr) (ctx : CtxPtr) :
    CallMemInfo :=
  (info.alloc ndebug mem .memory).alloc ndebug ctx .context

-- The state after a call which has handed out a handle.
def World.derived (w : World) (info : CallMemInfo) (mem : MemPtr) (ctx : CtxPtr) : World :=
  { w with
    callMem := { w.callMem with info := some (info.derive w.callMem.ndebug mem ctx) }
    results := w.results.set 0 (some (.i32 (BitVec.ofNat 32 (info.dataOffset + 8))))
  }

theorem parent_eq : wasmEcsactSystemExecutionContextParent [.i32 handle] =
    withContext "ecsact_system_execution_context_parent" handle fun ctx mem => do
      let _ ← hostCall .id [.ctx ctx] (·.id)
      let _ ← onCallMem (callMemAlloc mem .memory)
      let parent ← hostCall .parent [.ctx ctx] (·.parent)
      setResult 0 (.i32 (← onCallMem (callMemAlloc parent .context)))
      return none :=
  rfl

theorem parent_ok (h : w.callMem.Denotes handle ctx mem) (hi : w.callMem.info = some info)
    (hf : info.Fresh) (hl : info.dataOffset + 8 < 2 ^ 31) (hr : 0 < w.results.length) :
    let w₁ := w.called .id [.ctx ctx]
    let parent := w.runtime.parent (w₁.hostView .parent [.ctx ctx])
    ∃ trace, wasmEcsactSystemExecutionContextParent [.i32 handle] w =
      .ok none
        ((w₁.called .parent [.ctx ctx]).derived { info with methodTrace := trace } mem parent) := by
  intro w₁ parent
  have ⟨trace, ht⟩ := traced_eq hi "ecsact_system_execution_context_parent"
  let info₀ := { info with methodTrace := trace }
  have h₀ : info₀.Fresh ∧ info₀.dataOffset < 2 ^ 31 := ⟨hf, by simp only [info₀]; omega⟩
  let info₁ := info₀.alloc w.callMem.ndebug mem .memory
  have h₁ : info₁.Fresh ∧ info₁.dataOffset < 2 ^ 31 := ⟨h₀.1.alloc, hl⟩
  refine ⟨trace, ?_⟩
  rw [parent_eq, withContext_ok h, World.traced, ht]
  rw [bind_ok (hostCall_apply ..), bind_ok (@alloc_ok _ info₀ _ _ rfl h₀.1 h₀.2)]
  rw [bind_ok (hostCall_apply ..), bind_ok (@alloc_ok _ info₁ _ _ rfl h₁.1 h₁.2)]
  exact bind_ok <| setResult_ok <| by exact hr

theorem other_eq {assocId : BitVec 32} :
    wasmEcsactSystemExecutionContextOther [.i32 handle, .i32 assocId] =
      withContext "ecsact_system_execution_context_other" handle fun ctx mem => do
        let _ ← hostCall .id [.ctx ctx] (·.id)
        let other ← hostCall .other [.ctx ctx, .i32 assocId] (·.other)
        let _ ← onCallMem (callMemAlloc mem .memory)
        setResult 0 (.i32 (← onCallMem (callMemAlloc other .context)))
        return none :=
  rfl

theorem other_ok {assocId : BitVec 32} (h : w.callMem.Denotes handle ctx mem)
    (hi : w.callMem.info = some info) (hf : info.Fresh) (hl : info.dataOffset + 8 < 2 ^ 31)
    (hr : 0 < w.results.length) :
    let w₁ := w.called .id [.ctx ctx]
    let other := w.runtime.other (w₁.hostView .other [.ctx ctx, .i32 assocId])
    ∃ trace, wasmEcsactSystemExecutionContextOther [.i32 handle, .i32 assocId] w =
      .ok none ((w₁.called .other [.ctx ctx, .i32 assocId]).derived
        { info with methodTrace := trace } mem other) := by
  intro w₁ other
  have ⟨trace, ht⟩ := traced_eq hi "ecsact_system_execution_context_other"
  let info₀ := { info with methodTrace := trace }
  have h₀ : info₀.Fresh ∧ info₀.dataOffset < 2 ^ 31 := ⟨hf, by simp only [info₀]; omega⟩
  let info₁ := info₀.alloc w.callMem.ndebug mem .memory
  have h₁ : info₁.Fresh ∧ info₁.dataOffset < 2 ^ 31 := ⟨h₀.1.alloc, hl⟩
  refine ⟨trace, ?_⟩
  rw [other_eq, withContext_ok h, World.traced, ht]
  rw [bind_ok (hostCall_apply ..), bind_ok (hostCall_apply ..)]
  rw [bind_ok (@alloc_ok _ info₀ _ _ rfl h₀.1 h₀.2), bind_ok (@alloc_ok _ info₁ _ _ rfl h₁.1 h₁.2)]
  exact bind_ok <| setResult_ok <| by exact hr

theorem same_eq {a b : BitVec 32} : wasmEcsactSystemExecutionContextSame [.i32 a, .i32 b] = (do
    onCallMem (debugTraceMethod "ecsact_system_execution_context_same")
    let a ← getExecutionContext (.i32 a)
    let b ← getExecutionContext (.i32 b)
    let same ← hostCall .same [.ctx a, .ctx b] (·.same)
    setResult 0 (boolVal same)
    return none) :=
  rfl

theorem same_ok {a b : BitVec 32} {ctx₁ ctx₂ : CtxPtr} (ha : w.callMem.Denotes a ctx₁ mem)
    (hb : w.callMem.Denotes b ctx₂ mem) (hr : 0 < w.results.length) :
    let name := "ecsact_system_execution_context_same"
    let args : List HostArg := [.ctx ctx₁, .ctx ctx₂]
    wasmEcsactSystemExecutionContextSame [.i32 a, .i32 b] w =
      .ok none { (w.traced name).called .same args with
        results := w.results.set 0 (some (boolVal (w.runtime.same (w.hostView .same args))))
      } := by
  intro name args
  have hu : (w.traced name).callMem.untraced = w.callMem.untraced := untraced_traced
  have h₁ : getExecutionContext (.i32 a) (w.traced name) = .ok ctx₁ (w.traced name) :=
    read_ok (ha.of_untraced hu).context
  have h₂ : getExecutionContext (.i32 b) (w.traced name) = .ok ctx₂ (w.traced name) :=
    read_ok (hb.of_untraced hu).context
  rw [same_eq, bind_ok (trace_ok ha), bind_ok h₁, bind_ok h₂, bind_ok (hostCall_apply ..)]
  exact bind_ok <| setResult_ok <| by exact hr

theorem entity_eq : wasmEcsactSystemExecutionContextEntity [.i32 handle] = (do
    onCallMem (debugTraceMethod "ecsact_system_execution_context_entity")
    let ctx ← getExecutionContext (.i32 handle)
    let entity ← hostCall .entity [.ctx ctx] (·.entity)
    setResult 0 (.i32 entity)
    return none) :=
  rfl

theorem entity_ok (h : w.callMem.Denotes handle ctx mem) (hr : 0 < w.results.length) :
    let name := "ecsact_system_execution_context_entity"
    wasmEcsactSystemExecutionContextEntity [.i32 handle] w =
      .ok none { (w.traced name).called .entity [.ctx ctx] with
        results := w.results.set 0 (some (.i32 (w.runtime.entity (w.hostView .entity [.ctx ctx]))))
      } := by
  intro name
  have hu : (w.traced name).callMem.untraced = w.callMem.untraced := untraced_traced
  have h₁ : getExecutionContext (.i32 handle) (w.traced name) = .ok ctx (w.traced name) :=
    read_ok (h.of_untraced hu).context
  rw [entity_eq, bind_ok (trace_ok h), bind_ok h₁, bind_ok (hostCall_apply ..)]
  exact bind_ok <| setResult_ok <| by exact hr

-- The pointers which the loop finds in the guest's array.
theorem componentDataList_ok {offset : Int} {n i : Nat} : ∃ accesses,
    componentDataList mem (.data mem offset) n i w =
      .ok ((List.range' i n).map fun j : Nat =>
          voidPtr ((w.memories mem).bytes.readWord 32 (offset + 4 * j)) mem)
        { w with accesses := accesses } := by
  induction n generalizing i w
  case zero => exact ⟨w.accesses, rfl⟩
  case succ n hi =>
    let access : Access := {
      mem    := mem
      offset := offset + 4 * i
      data   := (w.memories mem).bytes.read (offset + 4 * i) 4
      write  := false
    }
    have hl : loadWord 32 (.data mem (offset + 4 * i)) w =
        .ok ((w.memories mem).bytes.readWord 32 (offset + 4 * i)) (w.accessed access) := rfl
    have ⟨accesses, h⟩ := @hi (w.accessed access) (i + 1)
    refine ⟨accesses, ?_⟩
    rw [componentDataList, HostPtr.add_data, bind_ok hl, getConstVoidPtr, getVoidPtr_eq, pure_bind]
    rw [bind_ok h, List.range'_succ]
    rfl

theorem generate_eq {count ids list : BitVec 32} :
    wasmEcsactSystemExecutionContextGenerate [.i32 handle, .i32 count, .i32 ids, .i32 list] =
      withContext "ecsact_system_execution_context_generate" handle fun ctx mem =>
        let rest : CallbackM (Option Trap) := do
          let listWasm ← getVoidPtr (.i32 list) mem
          let list ← componentDataList mem listWasm count.toInt.toNat 0
          let ids ← getVoidPtr (.i32 ids) mem
          hostCall .generate [.ctx ctx, .i32 count, .ptr ids, .ptrs list] fun _ _ => ()
          return none
        if count.toInt < 0 then throw (.exception "std::length_error") >>= fun _ : Unit => rest
        else rest :=
  rfl

theorem generate_ok {count ids list : BitVec 32} (h : w.callMem.Denotes handle ctx mem)
    (hc : count.toNat < 2 ^ 31) (hl : list ≠ 0 ∨ count = 0) :
    let args : List HostArg := [.ctx ctx, .i32 count, .ptr (voidPtr ids mem), .ptrs <|
      (List.range count.toNat).map fun i : Nat =>
        voidPtr ((w.memories mem).bytes.readWord 32 (list.toInt + 4 * i)) mem]
    ∃ accesses,
      wasmEcsactSystemExecutionContextGenerate [.i32 handle, .i32 count, .i32 ids, .i32 list] w =
        .ok none { (w.traced "ecsact_system_execution_context_generate").called .generate args with
          accesses := accesses
        } := by
  intro args
  have hi : count.toInt = count.toNat := toInt_eq_toNat hc
  have hn : ¬(count.toNat : Int) < 0 := by omega
  have hd : ∃ accesses, componentDataList mem (voidPtr list mem) count.toNat 0
      (w.traced "ecsact_system_execution_context_generate") =
        .ok ((List.range count.toNat).map fun i : Nat =>
          voidPtr ((w.memories mem).bytes.readWord 32 (list.toInt + 4 * i)) mem)
        { w.traced "ecsact_system_execution_context_generate" with accesses := accesses } := by
    cases hl
    case inl hl =>
      rw [voidPtr, if_neg hl, List.range_eq_range']
      exact componentDataList_ok
    case inr hl =>
      subst hl
      exact ⟨w.accesses, rfl⟩
  have ⟨accesses, hd⟩ := hd
  refine ⟨accesses, ?_⟩
  rw [generate_eq, withContext_ok h]
  simp only [hi, if_neg hn, getVoidPtr_eq, pure_bind, Int.toNat_natCast]
  rw [bind_ok hd]
  rfl

end
end Ecsact
