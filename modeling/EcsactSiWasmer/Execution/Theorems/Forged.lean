import EcsactSiWasmer.Execution.Handles
import EcsactSiWasmer.Execution.Theorems.Calls
import EcsactSiWasmer.Imports.Theorems.Context
import EcsactSiWasmer.Imports.Theorems.Primitives
import EcsactSiWasmer.Imports.Theorems.Signatures

open EStateM Ecsact.World Ecsact.CallMem

namespace Ecsact

-- The calls of the runtime between two worlds are all in `P`.
def CallsOnly (P : HostCall → Prop) (w w' : World) : Prop :=
  ∃ made, w'.hostCalls = w.hostCalls ++ made ∧ ∀ c ∈ made, P c

instance {P : HostCall → Prop} : IsPreorder World (CallsOnly P) where
  refl w := ⟨[], by simp, nofun⟩
  trans _ _ _ h₁ h₂ := by
    obtain ⟨made₁, he₁, h₁⟩ := h₁
    obtain ⟨made₂, he₂, h₂⟩ := h₂
    exact ⟨made₁ ++ made₂, by simp [he₂, he₁], List.forall_mem_append.mpr ⟨h₁, h₂⟩⟩

-- A part of a callback calls the runtime only by calls in `P`, and at least once if it returns.
def Asks {α : Type} (P : HostCall → Prop) (x : CallbackM α) : Prop :=
  ∀ w, ∃ made, (x w).state.hostCalls = w.hostCalls ++ made ∧ (∀ c ∈ made, P c) ∧
    ∀ a w', x w = .ok a w' → made ≠ []

section

variable {α : Type} {P : HostCall → Prop} {x : CallbackM α}

theorem callsOnly_of_keeps (h : Within (Keeps World.hostCalls) x) : Within (CallsOnly P) x :=
  h.mono fun _ _ hw => ⟨[], hw.trans (List.append_nil _).symm, nofun⟩

theorem callsOnly_onCallMem {x : CallMemM α} : Within (CallsOnly P) (onCallMem x) :=
  callsOnly_of_keeps <|
    Within.zoom (R := fun _ _ => True) (fun _ => trivial) fun _ _ _ => rfl

theorem callsOnly_setResult {j : Nat} {val : WasmVal} : Within (CallsOnly P) (setResult j val) := by
  refine callsOnly_of_keeps fun w => ?_
  by_cases h : j < w.results.length
  case pos => rw [setResult_ok h]; rfl
  case neg => rw [setResult_error h]; rfl

theorem callsOnly_result {val : WasmVal} :
    Within (CallsOnly P) (do setResult 0 val; return (none : Option Trap)) :=
  callsOnly_setResult.bind fun _ => .pure

theorem callsOnly_hostCall {fn : EcsactFn} {args : List HostArg} {answer : Runtime → HostView → α}
    (h : P ⟨fn, args⟩) : Within (CallsOnly P) (hostCall fn args answer) :=
  fun _ => ⟨[⟨fn, args⟩], rfl, by simpa using h⟩

theorem callsOnly_componentDataList {mem : MemPtr} {ptr : HostPtr} {n i : Nat} :
    Within (CallsOnly P) (componentDataList mem ptr n i) := by
  have hl {ptr} : Within (CallsOnly P) (loadWord 32 ptr) := by
    refine .bind (callsOnly_of_keeps ?_) fun _ => .pure
    cases ptr <;> exact fun _ => rfl
  induction n generalizing i
  case zero      => exact .pure
  case succ _ hi =>
    exact hl.bind fun _ => Pushless.getVoidPtr.bind fun _ => hi.bind fun _ => .pure

namespace Asks

theorem hostCall_bind {β : Type} {fn : EcsactFn} {args : List HostArg}
    {answer : Runtime → HostView → β} {f : β → CallbackM α} (h : P ⟨fn, args⟩)
    (hf : ∀ b, Within (CallsOnly P) (f b)) : Asks P (hostCall fn args answer >>= f) := by
  intro w
  have ⟨made, he, hm⟩ := hf (answer w.runtime (w.hostView fn args)) (w.called fn args)
  refine ⟨⟨fn, args⟩ :: made, ?_, List.forall_mem_cons.mpr ⟨h, hm⟩, nofun⟩
  rw [bind_ok (hostCall_apply ..), he]
  exact List.append_assoc ..

theorem bind {β : Type} {y : CallbackM β} {f : β → CallbackM α} (hy : Within (CallsOnly P) y)
    (hf : ∀ b, Asks P (f b)) : Asks P (y >>= f) := by
  intro w
  have ⟨made₁, he₁, h₁⟩ := hy w
  cases h : y w
  case error e w₁ =>
    rw [h] at he₁
    rw [bind_error h]
    exact ⟨made₁, he₁, h₁, nofun⟩
  case ok b w₁ =>
    rw [h] at he₁
    replace he₁ : w₁.hostCalls = w.hostCalls ++ made₁ := he₁
    rw [bind_ok h]
    have ⟨made₂, he₂, h₂, hn⟩ := hf b w₁
    refine ⟨made₁ ++ made₂, ?_, List.forall_mem_append.mpr ⟨h₁, h₂⟩, fun a w' hx => ?_⟩
    · rw [he₂, he₁, List.append_assoc]
    · exact List.append_ne_nil_of_right_ne_nil _ <| hn a w' hx

theorem mono {Q : HostCall → Prop} (hx : Asks P x) (h : ∀ c, P c → Q c) : Asks Q x := by
  intro w
  have ⟨made, he, hm, hn⟩ := hx w
  exact ⟨made, he, fun c hc => h c <| hm c hc, hn⟩

theorem throw_bind {β : Type} {e : Fault} {f : β → CallbackM α} : Asks P (throw e >>= f) :=
  fun _ => ⟨[], (List.append_nil _).symm, nofun, nofun⟩

theorem ite {c : Prop} [Decidable c] {y : CallbackM α} (hx : Asks P x) (hy : Asks P y) :
    Asks P (if c then x else y) := by
  split <;> assumption

end Asks
end

-- The start of every binding.
def withHandle {α : Type} (name : String) (handle : BitVec 32) (f : CtxPtr → CallbackM α) :
    CallbackM α := do
  onCallMem (debugTraceMethod name)
  let ctx ← getExecutionContext (.i32 handle)
  f ctx

-- A binding with one handle, the context of which goes to all calls of the runtime.
def ImportCall.Starts (call : ImportCall) : Prop :=
  ∃ name f, (∀ w, call.run w = withHandle name (call.val 0) f (call.enter w)) ∧
    ∀ ctx, Asks (fun c => c.args.head? = some (.ctx ctx)) (f ctx)

section

variable {call : ImportCall} {callback : Callback} {handle : BitVec 32} {vs : List (BitVec 32)}
  {k : Nat}

theorem Runs.starts_withHandle {name : String} {f : CtxPtr → CallbackM (Option Trap)}
    (hc : Runs call callback (handle :: vs) k)
    (h : callback ((handle :: vs).map .i32) = withHandle name handle f)
    (hf : ∀ ctx, Asks (fun c => c.args.head? = some (.ctx ctx)) (f ctx)) : call.Starts := by
  refine ⟨name, f, fun w => ?_, hf⟩
  rw [hc.run, h, ImportCall.val, hc.vals]
  rfl

theorem Runs.starts {name : String} {f : CtxPtr → MemPtr → CallbackM (Option Trap)}
    (hc : Runs call callback (handle :: vs) k)
    (h : callback ((handle :: vs).map .i32) = withContext name handle f)
    (hf : ∀ ctx mem, Asks (fun c => c.args.head? = some (.ctx ctx)) (f ctx mem)) : call.Starts :=
  hc.starts_withHandle h fun ctx => .bind callsOnly_onCallMem (hf ctx)

theorem Runs.starts_forward {α : Type} {name : String} {fn : EcsactFn} {passed : List (Nat × Pass)}
    {answer : Runtime → HostView → α} {f : α → CallbackM (Option Trap)}
    (hc : Runs call callback (handle :: vs) k)
    (h : ∀ args, callback args = forward name fn passed answer args >>= f)
    (hl : ∀ e ∈ passed, e.1 < vs.length + 1) (hf : ∀ a P, Within (CallsOnly P) (f a)) :
    call.Starts := by
  have hw : callback ((handle :: vs).map .i32) = withContext name handle fun ctx mem =>
      hostCall fn (.ctx ctx :: passed.map fun e => e.2.value ((handle :: vs).getD e.1 0) mem)
        answer >>= f := by
    simp only [h, forward_eq hl, withContext, bind_assoc]
  exact hc.starts hw fun ctx mem => .hostCall_bind rfl fun a => hf a _

theorem Runs.starts_forwardVoid {name : String} {fn : EcsactFn} {passed : List (Nat × Pass)}
    (hc : Runs call (forwardVoid name fn passed) (handle :: vs) k)
    (hl : ∀ e ∈ passed, e.1 < vs.length + 1) : call.Starts :=
  hc.starts_forward (fun _ => rfl) hl fun _ _ => .pure

end

theorem ImportCall.starts {call : ImportCall} {n : Native} (hn : (call.name, n) ∈ nativeApi)
    (hs : n.fn ≠ .same) : call.Starts := by
  apply nativeApi_cases hn
  case action =>
    intro hn _
    have ⟨[handle, a], _, hc⟩ := exists_runs hn rfl (k := 2) rfl
    exact hc.starts_forwardVoid (by simp)
  case parent =>
    intro hn _
    have ⟨[handle], _, hc⟩ := exists_runs hn rfl (k := 1) rfl
    refine hc.starts parent_eq fun ctx mem => .hostCall_bind rfl fun _ => ?_
    exact callsOnly_onCallMem.bind fun _ => (callsOnly_hostCall <| by rfl).bind fun _ =>
      callsOnly_onCallMem.bind fun _ => callsOnly_result
  case same =>
    intro _ he
    exact absurd (congrArg Native.fn he) hs
  case get =>
    intro hn _
    have ⟨[handle, a, b, c], _, hc⟩ := exists_runs hn rfl (k := 4) rfl
    exact hc.starts_forwardVoid (by simp)
  case update =>
    intro hn _
    have ⟨[handle, a, b, c], _, hc⟩ := exists_runs hn rfl (k := 4) rfl
    exact hc.starts_forwardVoid (by simp)
  case has =>
    intro hn _
    have ⟨[handle, a, b], _, hc⟩ := exists_runs hn rfl (k := 3) rfl
    exact hc.starts_forward (fun _ => rfl) (by simp) fun _ _ => callsOnly_result
  case generate =>
    intro hn _
    have ⟨[handle, count, ids, list], _, hc⟩ := exists_runs hn rfl (k := 4) rfl
    refine hc.starts generate_eq fun ctx mem => .ite .throw_bind ?_
    rw [getVoidPtr_eq, pure_bind]
    refine .bind callsOnly_componentDataList fun _ => ?_
    rw [getVoidPtr_eq, pure_bind]
    exact .hostCall_bind rfl fun _ => .pure
  case add =>
    intro hn _
    have ⟨[handle, a, b], _, hc⟩ := exists_runs hn rfl (k := 3) rfl
    exact hc.starts_forwardVoid (by simp)
  case remove =>
    intro hn _
    have ⟨[handle, a, b], _, hc⟩ := exists_runs hn rfl (k := 3) rfl
    exact hc.starts_forwardVoid (by simp)
  case other =>
    intro hn _
    have ⟨[handle, assocId], _, hc⟩ := exists_runs hn rfl (k := 2) rfl
    refine hc.starts other_eq fun ctx mem => .hostCall_bind rfl fun _ => ?_
    exact (callsOnly_hostCall <| by rfl).bind fun _ => callsOnly_onCallMem.bind fun _ =>
      callsOnly_onCallMem.bind fun _ => callsOnly_result
  case entity =>
    intro hn _
    have ⟨[handle], _, hc⟩ := exists_runs hn rfl (k := 1) rfl
    exact hc.starts_withHandle entity_eq fun _ => .hostCall_bind rfl fun _ => callsOnly_result
  case streamToggle =>
    intro hn _
    have ⟨[handle, a, b, c], _, hc⟩ := exists_runs hn rfl (k := 4) rfl
    exact hc.starts_forwardVoid (by simp)

theorem withContext_eq_ok {α : Type} {name : String} {handle : BitVec 32}
    {f : CtxPtr → MemPtr → CallbackM α} {w w' : World} {a : α}
    (h : withContext name handle f w = .ok a w') :
    ∃ ctx mem, f ctx mem (w.traced name) = .ok a w' := by
  cases @withContext_cases _ name handle f w
  case inl hd =>
    have ⟨ctx, mem, hd⟩ := hd
    exact ⟨ctx, mem, (withContext_ok hd).symm.trans h⟩
  case inr he =>
    have ⟨_, _, _, he, _⟩ := he
    cases he.symm.trans h

theorem context_roles {name : String} {n : Native} (hn : (name, n) ∈ nativeApi) (hs : n.fn ≠ .same)
    {i : Nat} (hi : n.roles[i]? = some .context) : i = 0 := by
  have ht : ∀ e ∈ nativeApi, e.2.fn ≠ .same → .context ∉ e.2.roles.tail := by decide
  cases i
  case zero   => rfl
  case succ i =>
    rw [← List.getElem?_tail] at hi
    exact absurd (List.mem_of_getElem? hi) <| ht _ hn hs

theorem eq_same {name : String} {n : Native} (hn : (name, n) ∈ nativeApi) (hs : n.fn = .same) :
    name = "ecsact_system_execution_context_same" ∧ n.roles = [.context, .context] := by
  have ht : ∀ e ∈ nativeApi, e.2.fn = .same →
      e.1 = "ecsact_system_execution_context_same" ∧ e.2.roles = [.context, .context] := by
    decide
  exact ht _ hn hs

-- What follows when both contexts have been looked up.
def sameRest (b : BitVec 32) (ctx : CtxPtr) : CallbackM (Option Trap) := do
  let ctx' ← getExecutionContext (.i32 b)
  let same ← hostCall .same [.ctx ctx, .ctx ctx'] (·.same)
  setResult 0 (boolVal same)
  return none

theorem ImportCall.run_same {call : ImportCall}
    (hn : call.name = "ecsact_system_execution_context_same") (w : World) :
    call.run w = withHandle "ecsact_system_execution_context_same" (call.val 0)
      (sameRest (call.val 1)) (call.enter w) := by
  have ⟨[a, b], _, hc⟩ := exists_runs hn rfl (k := 2) rfl
  rw [hc.run, val, val, hc.vals]
  exact congrFun same_eq _

-- In a release build.

section

variable {w : World} {info : CallMemInfo} {call : ImportCall} {n : Native}

theorem getExecutionContext_ok (hd : w.callMem.ndebug = true) (hi : w.callMem.info = some info)
    (handle : BitVec 32) : getExecutionContext (.i32 handle) w = .ok (info.wordAt handle) w :=
  read_ok <| callMemRead_of_ndebug hd hi

theorem withHandle_ok {α : Type} {name : String} {handle : BitVec 32} {f : CtxPtr → CallbackM α}
    (hd : w.callMem.ndebug = true) (hi : w.callMem.info = some info) :
    withHandle name handle f w = f (info.wordAt handle) w := by
  have ht : onCallMem (debugTraceMethod name) w = .ok () w := by
    refine zoom_ok (s := w.callMem) <| (debugTraceMethod_ok fun h => ?_).trans ?_
    · simp [hd] at h
    · simp [CallMem.traced, hd]
  rw [withHandle, bind_ok ht, bind_ok (getExecutionContext_ok hd hi handle)]

theorem passesWords_head {c : HostCall} (hr : ∀ i : Nat, n.roles[i]? = some .context → i = 0)
    (hc : c.args.head? = some (.ctx (info.wordAt (call.val 0)))) : call.PassesWords n info c := by
  rw [List.head?_eq_getElem?] at hc
  refine ⟨fun hn => by simp [hn] at hc, fun i arg hi ha => ?_⟩
  cases hr i hi
  exact Option.some.inj <| ha.symm.trans hc

theorem passesWords_pair {c : HostCall}
    (hc : c.args = [.ctx (info.wordAt (call.val 0)), .ctx (info.wordAt (call.val 1))]) :
    call.PassesWords n info c := by
  rw [ImportCall.PassesWords, hc]
  refine ⟨List.cons_ne_nil _ _, fun i arg _ ha => ?_⟩
  rcases i with _ | _ | i
  · exact (Option.some.inj ha).symm
  · exact (Option.some.inj ha).symm
  · cases ha

-- Nothing is checked.
theorem unchecked (hd : w.callMem.ndebug = true) (hi : w.callMem.info = some info)
    (hs : info.maxSize = 4096) (hn : (call.name, n) ∈ nativeApi) : call.Unchecked n w := by
  have hx : ∃ x : CallbackM (Option Trap),
      call.run w = x (call.enter w) ∧ Asks (call.PassesWords n info) x := by
    by_cases hs : n.fn = .same
    case pos =>
      refine ⟨do
        let same ← hostCall .same [.ctx (info.wordAt (call.val 0)), .ctx (info.wordAt (call.val 1))]
          (·.same)
        setResult 0 (boolVal same)
        return none, ?_, ?_⟩
      · rw [ImportCall.run_same (eq_same hn hs).1, withHandle_ok (w := call.enter w) hd hi, sameRest]
        exact bind_ok <| getExecutionContext_ok (w := call.enter w) hd hi _
      · exact .hostCall_bind (passesWords_pair rfl) fun _ => callsOnly_result
    case neg =>
      have ⟨name, f, hr, hf⟩ := ImportCall.starts hn hs
      refine ⟨f (info.wordAt (call.val 0)), (hr w).trans <| withHandle_ok (w := call.enter w) hd hi, ?_⟩
      exact (hf _).mono fun c => passesWords_head fun i => context_roles hn hs
  have ⟨x, hx, ha⟩ := hx
  have ⟨made, he, hm, hr⟩ := ha (call.enter w)
  refine ⟨info, hi, hs, fun handle _ => getExecutionContext_ok hd hi handle, fun _ =>
    ⟨made, hx ▸ he, hm, fun trap w' h => ?_⟩⟩
  exact ⟨trap_eq_none call.mem call.typed h, hr trap w' <| hx.symm.trans h⟩

end

-- In a debug build, the contexts that are recorded are those of the handles.
def Marked (handles : List (BitVec 32)) (c : CallMem) : Prop :=
  ∃ info, c.info = some info ∧ info.maxSize = 4096 ∧ (c.ndebug = false → info.dataOffset < 2 ^ 32 ∧
    ∀ k, info.dataOffsetTypes k = some .context → ∃ handle ∈ handles, offsetKey handle = k)

theorem lt_of_toInt_nonneg {k : Nat} (h : 0 ≤ (BitVec.ofNat 32 k).toInt) (hk : k < 2 ^ 32) :
    k < 2 ^ 31 := by
  rw [BitVec.toInt_eq_toNat_cond, BitVec.toNat_ofNat, Nat.mod_eq_of_lt hk] at h
  split at h <;> omega

theorem offsetKey_inj {a b : BitVec 32} (h : offsetKey a = offsetKey b) : a = b := by
  have hs : (a.signExtend 64).toInt = (b.signExtend 64).toInt :=
    congrArg BitVec.toInt <| BitVec.eq_of_toNat_eq h
  rw [BitVec.toInt_signExtend_of_le (by decide), BitVec.toInt_signExtend_of_le (by decide)] at hs
  exact BitVec.eq_of_toInt_eq hs

namespace Marked

variable {handles : List (BitVec 32)} {c c' : CallMem} {w w' : World} {handle offset : BitVec 32}

theorem of_untraced (h : Marked handles c) (hu : c'.untraced = c.untraced) : Marked handles c' := by
  have ⟨info, hi, hs, hm⟩ := h
  have ⟨trace, hi'⟩ := info_of_untraced hi hu
  have hn : c'.untraced.ndebug = c.untraced.ndebug := congrArg CallMem.ndebug hu
  exact ⟨_, hi', hs, fun hd => hm <| hn.symm.trans hd⟩

theorem alloc {handles' : List (BitVec 32)} {v : BitVec 64} {type : SlotType} (h : Marked handles c)
    (ha : callMemAlloc v type c = .ok offset c') (hs : handles ⊆ handles')
    (ht : type = .context → offset ∈ handles') : Marked handles' c' := by
  have ⟨info, hi, hm, hk⟩ := h
  obtain ⟨_, hi', hf, rfl, rfl⟩ := callMemAlloc_eq_ok.mp ha
  cases hi.symm.trans hi'
  refine ⟨_, rfl, hm, fun hn => ?_⟩
  replace hn : c.ndebug = false := hn
  have ⟨hl, hk⟩ := hk hn
  have hl := lt_of_toInt_nonneg (hf hn).2.1 hl
  refine ⟨show info.dataOffset + 8 < 2 ^ 32 by omega, fun k h => ?_⟩
  by_cases he : k = info.dataOffset
  case pos =>
    subst he
    refine ⟨_, ht ?_, offsetKey_ofNat hl⟩
    simpa [CallMemInfo.alloc, assignOffsetType, hn] using h
  case neg =>
    obtain ⟨handle, hh, hk⟩ := hk k <| by
      simpa [CallMemInfo.alloc, assignOffsetType, hn, he] using h
    exact ⟨handle, hs hh, hk⟩

-- A handle is read as a context only if it has been given to the guest.
theorem mem_of_read {ctx : CtxPtr} (h : Marked handles c) (hn : c.ndebug = false)
    (hr : callMemRead handle .context c = .ok ctx c) : handle ∈ handles := by
  have ⟨info, hi, _, hm⟩ := h
  have ⟨_, hi', hh, _⟩ := callMemRead_eq_ok.mp hr
  cases hi.symm.trans hi'
  have ⟨handle', hh', hk⟩ := (hm hn).2 _ (hh hn).2
  exact offsetKey_inj hk ▸ hh'

theorem read_error (h : Marked handles w.callMem) (hn : w.callMem.ndebug = false)
    (hv : handle ∉ handles) : getExecutionContext (.i32 handle) w = .error .assertFailed w := by
  cases @read_cases w handle .context
  case inl hr =>
    have ⟨ctx, hr⟩ := hr
    exact absurd (h.mem_of_read hn hr) hv
  case inr hr =>
    have ⟨e, hr, he⟩ := hr
    cases hr
    case inl hr => exact hr.2 ▸ he
    case inr hr => cases hn.symm.trans hr.1

theorem trace_ok {name : String} (h : Marked handles w.callMem) :
    onCallMem (debugTraceMethod name) w = .ok () (w.traced name) := by
  have ⟨info, hi, _⟩ := h
  exact zoom_ok <| debugTraceMethod_ok fun _ => by simp [hi]

theorem withHandle_error {α : Type} {name : String} {f : CtxPtr → CallbackM α}
    (h : Marked handles w.callMem) (hn : w.callMem.ndebug = false) (hv : handle ∉ handles) :
    withHandle name handle f w = .error .assertFailed (w.traced name) := by
  have ht : Marked handles (w.traced name).callMem := h.of_untraced untraced_traced
  rw [withHandle, bind_ok h.trace_ok]
  exact bind_error <| ht.read_error (traced_ndebug.trans hn) hv

theorem withHandle_cases {α : Type} {f : CtxPtr → CallbackM α} (name : String)
    (h : Marked handles w.callMem) (hn : w.callMem.ndebug = false) :
    withHandle name handle f w = .error .assertFailed (w.traced name) ∨
      ∃ ctx, withHandle name handle f w = f ctx (w.traced name) := by
  rw [withHandle, bind_ok h.trace_ok]
  cases @read_cases (w.traced name) handle .context
  case inl hr =>
    have ⟨ctx, hr⟩ := hr
    exact .inr ⟨ctx, bind_ok <| read_ok hr⟩
  case inr hr =>
    have ⟨e, hr, he⟩ := hr
    cases refused_traced.mp hr
    case inl hr => exact .inl <| bind_error <| hr.2 ▸ he
    case inr hr => cases hn.symm.trans hr.1

-- The second of two handles is looked up before the runtime is called.
theorem withHandle_pair_error {name : String} {a : BitVec 32} (h : Marked handles w.callMem)
    (hn : w.callMem.ndebug = false) (hv : handle ∉ handles) :
    withHandle name a (sameRest handle) w = .error .assertFailed (w.traced name) := by
  have ht : Marked handles (w.traced name).callMem := h.of_untraced untraced_traced
  cases h.withHandle_cases name hn
  case inl he => exact he
  case inr he =>
    have ⟨ctx, he⟩ := he
    exact he.trans <| bind_error <| ht.read_error (traced_ndebug.trans hn) hv

-- The last steps of the two bindings which hand out a handle.
theorem result {ctx : CtxPtr}
    (hr : (do
      setResult 0 (.i32 (← onCallMem (callMemAlloc ctx .context)))
      return (none : Option Trap)) w = .ok none w')
    (h : Marked handles w.callMem) (hl : w.results.length = 1)
    (hv : w'.results = [some (.i32 handle)]) : Marked (handles ++ [handle]) w'.callMem := by
  have ⟨offset, w₁, hz, hs⟩ := bind_eq_ok.mp hr
  obtain ⟨c, ha, rfl⟩ := zoom_eq_ok.mp hz
  rw [bind_ok (setResult_ok (by simp [hl]))] at hs
  cases hs
  have ⟨r, hr⟩ := List.length_eq_one_iff.mp hl
  have he : offset = handle := by simpa [hr] using hv
  subst he
  exact h.alloc ha (List.subset_append_left ..) fun _ => List.mem_append_right _ List.mem_cons_self

theorem enter {mem : MemPtr} {ctx : CtxPtr} (h : enterSystem mem ctx c = .ok handle c') :
    Marked [handle] c' := by
  have ⟨_, c₁, h₁, h⟩ := bind_eq_ok.mp h
  obtain ⟨_, rfl⟩ := setCallMemData_eq_ok.mp h₁
  have ⟨_, c₂, h₂, h₃⟩ := bind_eq_ok.mp h
  have hb : Marked [] { c with info := some blank } := ⟨blank, rfl, rfl, fun _ => ⟨by decide, nofun⟩⟩
  have hm : Marked [] c₂ := hb.alloc h₂ (List.Subset.refl _) nofun
  exact hm.alloc h₃ (List.nil_subset _) fun _ => List.mem_cons_self

theorem derive {call : ImportCall} (h : Marked handles w.callMem) (hd : DerivesHandle call.name)
    (hr : call.run w = .ok none w') (hv : w'.results = [some (.i32 handle)]) :
    Marked (handles ++ [handle]) w'.callMem := by
  have ht name : Marked handles ((call.enter w).traced name).callMem :=
    h.of_untraced untraced_traced
  have hl : (call.enter w).results.length = call.func.funcType.results.length :=
    List.length_replicate
  cases hd
  case inl hn =>
    have ⟨[v], _, hc⟩ := exists_runs hn rfl (k := 1) rfl
    have hp : wasmEcsactSystemExecutionContextParent [.i32 v] (call.enter w) = .ok none w' :=
      hc.run.symm.trans hr
    rw [parent_eq] at hp
    have ⟨ctx, mem, hx⟩ := withContext_eq_ok hp
    rw [bind_ok (hostCall_apply ..)] at hx
    have ⟨_, _, hz, hx⟩ := bind_eq_ok.mp hx
    obtain ⟨c, ha, rfl⟩ := zoom_eq_ok.mp hz
    rw [bind_ok (hostCall_apply ..)] at hx
    have hm : Marked handles c := (ht _).alloc ha (List.Subset.refl _) nofun
    exact result hx hm (hl.trans hc.results) hv
  case inr hn =>
    have ⟨[v, assocId], _, hc⟩ := exists_runs hn rfl (k := 2) rfl
    have hp : wasmEcsactSystemExecutionContextOther [.i32 v, .i32 assocId] (call.enter w) =
        .ok none w' :=
      hc.run.symm.trans hr
    rw [other_eq] at hp
    have ⟨ctx, mem, hx⟩ := withContext_eq_ok hp
    rw [bind_ok (hostCall_apply ..), bind_ok (hostCall_apply ..)] at hx
    have ⟨_, _, hz, hx⟩ := bind_eq_ok.mp hx
    obtain ⟨c, ha, rfl⟩ := zoom_eq_ok.mp hz
    have hm : Marked handles c := (ht _).alloc ha (List.Subset.refl _) nofun
    exact result hx hm (hl.trans hc.results) hv

end Marked

-- With a forged handle, a binding stops before anything else is done.
theorem Marked.asserts {handles : List (BitVec 32)} {w : World} {call : ImportCall} {n : Native}
    (h : Marked handles w.callMem) (hd : w.callMem.ndebug = false)
    (hn : (call.name, n) ∈ nativeApi) (hf : call.PassesForged n handles) : call.Asserts w := by
  have ht {name} (hr : call.run w = .error .assertFailed ((call.enter w).traced name)) :
      call.Asserts w :=
    ⟨_, hr, rfl, rfl, rfl⟩
  have ⟨i, hi, hv⟩ := hf
  by_cases hs : n.fn = .same
  case neg =>
    cases context_roles hn hs hi
    have ⟨name, f, hr, _⟩ := ImportCall.starts hn hs
    exact ht <| (hr w).trans <| withHandle_error (w := call.enter w) h hd hv
  case pos =>
    have ⟨hc, hr⟩ := eq_same hn hs
    have hx := ImportCall.run_same hc w
    rw [hr] at hi
    rcases i with _ | _ | i
    · exact ht <| hx.trans <| withHandle_error (w := call.enter w) h hd hv
    · exact ht <| hx.trans <| withHandle_pair_error (w := call.enter w) h hd hv
    · cases hi

namespace AnyExecution

variable {mem : MemPtr} {handles : List (BitVec 32)} {w : World} {call : ImportCall} {n : Native}

theorem marked (h : AnyExecution mem w handles) : Marked handles w.callMem := by
  induction h
  case enter h                => exact .enter h
  case derive _ hd hr hv hi   => exact hi.derive hd hr hv
  case elsewhere he hi        => exact he ▸ hi
  case other w w' _ call _ hd hr hi =>
    have hu := (Sound.of_mem call.mem call.typed).callMem hd
    exact hi.of_untraced <| hu.of_ok (s := call.enter w) hr

-- Whether a handle is checked is a matter of the build.
theorem handles_checked (h : AnyExecution mem w handles) (hn : (call.name, n) ∈ nativeApi) :
    (w.callMem.ndebug = false →
      (∀ handle, handle ∉ handles →
        getExecutionContext (.i32 handle) w = .error .assertFailed w) ∧
      (call.PassesForged n handles → call.Asserts w)) ∧
    (w.callMem.ndebug = true → call.Unchecked n w) := by
  constructor
  case left =>
    exact fun hd => ⟨fun _ => h.marked.read_error hd, h.marked.asserts hd hn⟩
  case right =>
    intro hd
    have ⟨info, hi, hs, _⟩ := h.marked
    exact unchecked hd hi hs hn

theorem systemWorld_anyExecution (ndebug : Bool) : AnyExecution 1 (systemWorld ndebug) [8] :=
  @enter 1 (World.idle .inert ndebug) 2 8 _ <| enterSystem_eq_ok.mpr ⟨fun _ => rfl, rfl, rfl⟩

def entity : Native :=
  { fn := .entity, roles := [.context] }

theorem entity_mem : ("ecsact_system_execution_context_entity", entity) ∈ nativeApi := by
  simp [nativeApi, entity]

theorem entityEntry_mem : ("ecsact_system_execution_context_entity",
    ⟨wasmFunctypeNew11 .i32 .i32, wasmEcsactSystemExecutionContextEntity⟩) ∈ importTables := by
  simp [importTables, guestEnvModuleImports]

theorem entity_typed (handle : BitVec 32) :
    [WasmVal.i32 handle].map WasmVal.kind = (wasmFunctypeNew11 .i32 .i32).params :=
  rfl

def entityCall (handle : BitVec 32) : ImportCall where
  name  := "ecsact_system_execution_context_entity"
  func  := ⟨wasmFunctypeNew11 .i32 .i32, wasmEcsactSystemExecutionContextEntity⟩
  mem   := entityEntry_mem
  args  := [.i32 handle]
  typed := entity_typed handle

theorem entityCall_inBuffer : (entityCall 0).InBuffer entity (systemWorld true)
    (systemInfo true 1 2) where
  contexts i hi := by
    cases context_roles entity_mem (by decide) hi
    exact ⟨by decide, by decide⟩
  memory _ h   := absurd rfl h
  room h       := absurd h <| by decide

theorem entityCall_checked : (entityCall 0).Asserts (systemWorld false) ∧
    (entityCall 0).Unchecked entity (systemWorld true) ∧
    ∃ info, (systemWorld true).callMem.info = some info ∧
      (entityCall 0).InBuffer entity (systemWorld true) info :=
  ⟨((handles_checked (systemWorld_anyExecution false) entity_mem).1 rfl).2 ⟨0, rfl, by decide⟩,
    (handles_checked (systemWorld_anyExecution true) entity_mem).2 rfl, _, rfl, entityCall_inBuffer⟩

-- Without the asserts, the slot of the memory is taken for a context.
theorem entityCall_unchecked : AnyExecution 1 (systemWorld true) [8] ∧
    (entityCall 0).PassesForged entity [8] ∧
    ∃ w', (entityCall 0).run (systemWorld true) = .ok none w' ∧
      w'.hostCalls = [⟨.entity, [.ctx 1]⟩] :=
  ⟨systemWorld_anyExecution true, ⟨0, rfl, by decide⟩, _, rfl, by decide⟩

end AnyExecution
end Ecsact
