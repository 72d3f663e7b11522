import EcsactSiWasmer.Execution.Theorems.Forged
import EcsactSiWasmer.Execution.Theorems.Handles
import EcsactSiWasmer.Execution.Theorems.Sandbox

open EStateM Ecsact.World Ecsact.CallMem

namespace Ecsact

-- A call of the runtime with contexts that the guest was given. A pointer is made of a flag where that
-- is what the binding does.
structure HostCall.Uses (issued : IssuedHandles) (mem : MemPtr) (call : ImportCall) (c : HostCall) :
    Prop where
  contexts : ∀ ctx, .ctx ctx ∈ c.args → ∃ handle, (handle, ctx) ∈ issued
  flag     : c.fn = .streamToggle → call.name = "ecsact_system_execution_context_stream_toggle" ∧
    ∀ ptr ∈ c.args.flatMap HostArg.toPtrs, ptr = voidPtr (call.val 2) mem

section

variable {issued : IssuedHandles} {mem : MemPtr} {ctx : CtxPtr} {fn : EcsactFn} {call : ImportCall}

-- The calls of the runtime by their arguments: contexts come first.

theorem uses_contexts {l : List CtxPtr} (h : ∀ ctx ∈ l, ∃ handle, (handle, ctx) ∈ issued)
    (hf : fn ≠ .streamToggle) : HostCall.Uses issued mem call ⟨fn, l.map .ctx⟩ where
  contexts ctx hc := by
    have ⟨ctx', hm, he⟩ := List.mem_map.mp hc
    cases he
    exact h _ hm
  flag he := absurd he hf

theorem uses_cons {args : List HostArg} (h : ∃ handle, (handle, ctx) ∈ issued)
    (hc : ∀ ctx, .ctx ctx ∉ args) (hf : fn = .streamToggle →
      call.name = "ecsact_system_execution_context_stream_toggle" ∧
        ∀ ptr ∈ args.flatMap HostArg.toPtrs, ptr = voidPtr (call.val 2) mem) :
    HostCall.Uses issued mem call ⟨fn, .ctx ctx :: args⟩ where
  contexts ctx' hm := by
    cases List.mem_cons.mp hm
    case inl he => cases he; exact h
    case inr hm => exact absurd hm <| hc ctx'
  flag := by simpa [HostArg.toPtrs] using hf

-- A binding which passes its arguments on does so with no pointer that it makes of another argument,
-- but for the one that makes it of its flag.
theorem uses_passed {passed : List (Nat × Pass)} (h : ∃ handle, (handle, ctx) ∈ issued)
    (hf : fn = .streamToggle → call.name = "ecsact_system_execution_context_stream_toggle" ∧
      ∀ e ∈ passed, e.2.role = .ptr → e.1 = 2) : HostCall.Uses issued mem call
        ⟨fn, .ctx ctx :: passed.map fun e => e.2.value (call.val e.1) mem⟩ := by
  refine uses_cons h (fun ctx' hm => ?contexts) fun he => ?flag
  case contexts =>
    obtain ⟨e, _, he⟩ := List.mem_map.mp hm
    cases hq : e.2 <;> simp [hq, Pass.value] at he
  case flag =>
    obtain ⟨hn, hf⟩ := hf he
    refine ⟨hn, fun ptr hp => ?_⟩
    simp only [List.mem_flatMap, List.mem_map, exists_exists_and_eq_and] at hp
    obtain ⟨e, hm, hp⟩ := hp
    have hr := hf e hm
    cases hq : e.2 <;> simp only [hq, Pass.value, HostArg.toPtrs, List.not_mem_nil,
      List.mem_singleton] at hp
    all_goals rw [hp, hr <| by rw [hq]; rfl]

end

section

variable {issued : IssuedHandles} {mem : MemPtr} {ctx : CtxPtr} {w : World} {call : ImportCall}
  {callback : Callback} {handle : BitVec 32} {vs : List (BitVec 32)} {k : Nat} {name : String}
  {P : HostCall → Prop} {passed : List (Nat × Pass)} {fn : EcsactFn}

theorem Runs.val_zero (hc : Runs call callback (handle :: vs) k) : call.val 0 = handle := by
  rw [ImportCall.val, hc.vals]
  rfl

-- A binding makes its calls with what it has looked up for the handle.
theorem Runs.callsOnly {f : CtxPtr → MemPtr → CallbackM (Option Trap)}
    (hc : Runs call callback (handle :: vs) k)
    (h : callback ((handle :: vs).map .i32) = withContext name handle f)
    (hd : w.callMem.Denotes (call.val 0) ctx mem) (hf : Within (CallsOnly P) (f ctx mem)) :
    CallsOnly P (call.enter w) (call.run w).state := by
  rw [hc.val_zero] at hd
  rw [hc.run, h, withContext_ok (w := call.enter w) hd]
  exact hf _

theorem Runs.uses_forward {α : Type} {answer : Runtime → HostView → α}
    {f : α → CallbackM (Option Trap)} (hc : Runs call callback vs k) (hv : vs ≠ [])
    (h : ∀ args, callback args = forward name fn passed answer args >>= f)
    (hl : ∀ e ∈ passed, e.1 < vs.length) (hf : ∀ a P, Within (CallsOnly P) (f a))
    (hs : fn = .streamToggle → call.name = "ecsact_system_execution_context_stream_toggle" ∧
      ∀ e ∈ passed, e.2.role = .ptr → e.1 = 2)
    (hi : (call.val 0, ctx) ∈ issued) (hd : w.callMem.Denotes (call.val 0) ctx mem) :
    CallsOnly (HostCall.Uses issued mem call) (call.enter w) (call.run w).state := by
  obtain ⟨handle, vs, rfl⟩ := List.exists_cons_of_ne_nil hv
  have hw : callback ((handle :: vs).map .i32) = withContext name handle fun ctx mem =>
      hostCall fn (.ctx ctx :: passed.map fun e => e.2.value (call.val e.1) mem) answer >>= f := by
    simp only [h, forward_eq hl, withContext, bind_assoc, ImportCall.val, hc.vals]
  refine hc.callsOnly hw hd ?_
  exact (callsOnly_hostCall <| uses_passed ⟨_, hi⟩ hs).bind fun a => hf a _

theorem Runs.uses_forwardVoid {l : Nat} (hc : Runs call (forwardVoid name fn passed) vs k)
    (hv : vs.length = l + 1) (hl : ∀ e ∈ passed, e.1 < l + 1)
    (hs : fn = .streamToggle → call.name = "ecsact_system_execution_context_stream_toggle" ∧
      ∀ e ∈ passed, e.2.role = .ptr → e.1 = 2)
    (hi : (call.val 0, ctx) ∈ issued) (hd : w.callMem.Denotes (call.val 0) ctx mem) :
    CallsOnly (HostCall.Uses issued mem call) (call.enter w) (call.run w).state :=
  hc.uses_forward (List.ne_nil_of_length_eq_add_one hv) (fun _ => rfl) (hv ▸ hl) (fun _ _ => .pure) hs
    hi hd

-- For handles which the guest was given, a binding uses no other contexts.
theorem ImportCall.uses {n : Native} (h : (call.name, n) ∈ nativeApi)
    (hd : ∀ i : Nat, n.roles[i]? = some .context →
      ∃ ctx, (call.val i, ctx) ∈ issued ∧ w.callMem.Denotes (call.val i) ctx mem) :
    CallsOnly (HostCall.Uses issued mem call) (call.enter w) (call.run w).state := by
  obtain ⟨ctx, hi, hx⟩ : ∃ ctx, (call.val 0, ctx) ∈ issued ∧ w.callMem.Denotes (call.val 0) ctx mem := by
    have hr : ∀ e ∈ nativeApi, e.2.roles[0]? = some .context := by decide
    exact hd 0 <| hr _ h
  have hu {fn : EcsactFn} {args : List HostArg} (hc : ∀ ctx, .ctx ctx ∉ args)
      (hf : fn ≠ .streamToggle) : HostCall.Uses issued mem call ⟨fn, .ctx ctx :: args⟩ :=
    uses_cons ⟨_, hi⟩ hc fun he => absurd he hf
  apply nativeApi_cases h
  case action =>
    rintro hn rfl
    obtain ⟨vs, hl, hc⟩ := exists_runs hn rfl (k := 2) rfl
    exact hc.uses_forwardVoid hl (by simp) nofun hi hx
  case get | update =>
    rintro hn rfl
    obtain ⟨vs, hl, hc⟩ := exists_runs hn rfl (k := 4) rfl
    exact hc.uses_forwardVoid hl (by simp) nofun hi hx
  case add | remove =>
    rintro hn rfl
    obtain ⟨vs, hl, hc⟩ := exists_runs hn rfl (k := 3) rfl
    exact hc.uses_forwardVoid hl (by simp) nofun hi hx
  case streamToggle =>
    rintro hn rfl
    obtain ⟨vs, hl, hc⟩ := exists_runs hn rfl (k := 4) rfl
    exact hc.uses_forwardVoid hl (by simp) (fun _ => ⟨hn, by decide⟩) hi hx
  case has =>
    rintro hn rfl
    obtain ⟨vs, hl, hc⟩ := exists_runs hn rfl (k := 3) rfl
    exact hc.uses_forward (List.ne_nil_of_length_eq_add_one hl) (fun _ => rfl) (by simp [hl])
      (fun _ _ => callsOnly_result) nofun hi hx
  case parent =>
    rintro hn rfl
    obtain ⟨vs, hl, hc⟩ := exists_runs hn rfl (k := 1) rfl
    obtain ⟨handle, rfl⟩ := List.length_eq_one_iff.mp hl
    refine hc.callsOnly parent_eq hx ?_
    exact (callsOnly_hostCall <| hu (by simp) (by simp)).bind fun _ =>
      callsOnly_onCallMem.bind fun _ => (callsOnly_hostCall <| hu (by simp) (by simp)).bind fun _ =>
        callsOnly_onCallMem.bind fun _ => callsOnly_result
  case other =>
    rintro hn rfl
    obtain ⟨vs, hl, hc⟩ := exists_runs hn rfl (k := 2) rfl
    obtain ⟨handle, assocId, rfl⟩ := List.length_eq_two.mp hl
    refine hc.callsOnly other_eq hx ?_
    exact (callsOnly_hostCall <| hu (by simp) (by simp)).bind fun _ =>
      (callsOnly_hostCall <| hu (by simp) (by simp)).bind fun _ => callsOnly_onCallMem.bind fun _ =>
        callsOnly_onCallMem.bind fun _ => callsOnly_result
  case same =>
    rintro hn rfl
    obtain ⟨ctx', hi', hx'⟩ := hd 1 rfl
    have hp : HostCall.Uses issued mem call ⟨.same, [.ctx ctx, .ctx ctx']⟩ :=
      uses_contexts (l := [ctx, ctx']) (by simpa using ⟨⟨_, hi⟩, ⟨_, hi'⟩⟩) nofun
    have hs := same_ok (w := call.enter w) hx hx' (by rw [call.enter_length hn rfl]; decide)
    have hr := (call.run_eq hn rfl (k := 2) rfl w).trans hs
    exact ⟨_, congrArg (fun r => r.state.hostCalls) hr, by simpa using hp⟩
  case entity =>
    rintro hn rfl
    have hs := entity_ok (w := call.enter w) hx (by rw [call.enter_length hn rfl]; decide)
    have hr := (call.run_eq hn rfl (k := 1) rfl w).trans hs
    exact ⟨_, congrArg (fun r => r.state.hostCalls) hr, by simpa using hu (by simp) (by simp)⟩
  case generate =>
    rintro hn rfl
    obtain ⟨vs, hl, hc⟩ := exists_runs hn rfl (k := 4) rfl
    obtain ⟨handle, count, ids, list, rfl⟩ := List.length_eq_four.mp hl
    refine hc.callsOnly generate_eq hx <| .ite .throw ?_
    rw [getVoidPtr_eq, pure_bind]
    refine callsOnly_componentDataList.bind fun _ => ?_
    rw [getVoidPtr_eq, pure_bind]
    exact (callsOnly_hostCall <| hu (by simp) (by simp)).bind fun _ => .pure

end

-- The guest's values are those which the native function has parameters for.
theorem ImportCall.vals_length {call : ImportCall} {n : Native} (hn : (call.name, n) ∈ nativeApi) :
    call.vals.length = n.roles.length := by
  have ht : ∀ e ∈ nativeApi, (importTables.lookup e.1).map (·.funcType.params) =
      some (.replicate e.2.roles.length .i32) := by
    decide
  have hl := lookup_importTables call.mem
  have hk : call.func.funcType.params = .replicate n.roles.length .i32 := by
    simpa [hl] using ht _ hn
  have ⟨vs, hv, hc⟩ := exists_runs rfl hl hk
  rw [hc.vals, hv]

namespace Execution

variable {mem : MemPtr} {issued : IssuedHandles} {w w' : World} {call : ImportCall} {n : Native}

-- The contexts of a call are among those which its guest was given.
theorem denotes (h : Execution mem w issued) (hp : call.PassesIssued issued)
    (hn : (call.name, n) ∈ nativeApi) {i : Nat} (hi : n.roles[i]? = some .context) :
    ∃ ctx, (call.val i, ctx) ∈ issued ∧ w.callMem.Denotes (call.val i) ctx mem := by
  obtain ⟨_, hh⟩ := h.holds
  have hl := ImportCall.vals_length hn
  obtain ⟨hi, he⟩ := List.getElem?_eq_some_iff.mp hi
  have hm : (call.val i, Role.context) ∈ call.vals.zip n.roles := by
    refine List.mem_iff_getElem.mpr ⟨i, by simp [hl, hi], ?_⟩
    simp [ImportCall.val, he, List.getD_eq_getElem?_getD, hl, hi]
  obtain ⟨ctx, hc⟩ := hp n hn _ hm rfl
  exact ⟨ctx, hc, hh.denotes hc⟩

-- The call finds the memory of the instance.
theorem found (h : Execution mem w issued) (hp : call.PassesIssued issued) : call.Finds w mem := by
  obtain ⟨_, hh⟩ := h.holds
  rw [ImportCall.Finds]
  cases hn : nativeApi.lookup call.name
  case none =>
    obtain ⟨ctx, hi⟩ := h.first
    simpa [hn] using (hh.denotes hi).memory
  case some n =>
    have hn' := ImportCall.Confined.mem_of_lookup hn
    have hr : ∀ e ∈ nativeApi, e.2.roles[0]? = some .context := by decide
    obtain ⟨ctx, _, hd⟩ := h.denotes hp hn' <| hr _ hn'
    simpa [hn] using hd.memory

theorem finds (h : Execution mem w issued) (hp : call.PassesIssued issued) {mem' : MemPtr}
    (hf : call.Finds w mem') : mem' = mem := by
  have hx := h.found hp
  rw [ImportCall.Finds] at hf hx
  cases hf.symm.trans hx
  rfl

theorem callsOnly (h : Execution mem w issued) (hp : call.PassesIssued issued) :
    CallsOnly (HostCall.Uses issued mem call) (call.enter w) (call.run w).state := by
  cases hn : nativeApi.lookup call.name
  case some n =>
    have hn := ImportCall.Confined.mem_of_lookup hn
    exact ImportCall.uses hn fun i => h.denotes hp hn
  case none =>
    obtain ⟨log, made, hm⟩ := call.confined w
    exact ⟨[], by rw [hm.hostCalls, hm.native hn], by simp⟩

end Execution
end Ecsact
