import EcsactSiWasmer.Execution.Capacity
import EcsactSiWasmer.Imports.Theorems.Context
import EcsactSiWasmer.Imports.Theorems.Signatures

open EStateM Ecsact.World

namespace Ecsact

-- The slots take up the first `k` of the 4096 bytes which both callers of the guest pass.
structure CallMemInfo.Grown (k : Nat) (info : CallMemInfo) : Prop where
  fresh   : info.Fresh
  maxSize : info.maxSize = 4096
  offset  : info.dataOffset = k
  le      : ∀ s ∈ info.slots, s.offset + s.size ≤ k
  last    : ∃ s ∈ info.slots, s.offset + s.size = k

namespace CallMemInfo

variable {info : CallMemInfo} {k : Nat} {ndebug : Bool} {v : BitVec 64} {type : SlotType}

theorem Grown.roomy_iff (h : info.Grown k) : info.Roomy ↔ k ≤ 4096 := by
  constructor
  case mp =>
    intro hr
    have ⟨s, hs, hk⟩ := h.last
    exact hk ▸ h.maxSize ▸ hr s hs
  case mpr =>
    intro hk s hs
    exact h.maxSize ▸ (h.le s hs).trans hk

theorem Grown.alloc (h : info.Grown k) : (info.alloc ndebug v type).Grown (k + 8) where
  fresh   := h.fresh.alloc
  maxSize := h.maxSize
  offset  := congrArg (· + 8) h.offset
  le s hs := by
    cases List.mem_append.mp hs
    case inl hs => exact (h.le s hs).trans <| by omega
    case inr hs => simp_all [h.offset]
  last    := ⟨⟨info.dataOffset, 8⟩, by simp [CallMemInfo.alloc], by simp [h.offset]⟩

theorem grown_initializeInfo {mem : MemPtr} : (CallMem.initializeInfo ndebug mem).Grown 8 where
  fresh   := CallMem.fresh_blank.alloc
  maxSize := rfl
  offset  := rfl
  le s hs := by simp_all [CallMem.initializeInfo, CallMemInfo.alloc, CallMem.blank]
  last    := ⟨⟨0, 8⟩, by simp [CallMem.initializeInfo, CallMemInfo.alloc, CallMem.blank]⟩

theorem grown_systemInfo {mem : MemPtr} {ctx : CtxPtr} :
    (CallMem.systemInfo ndebug mem ctx).Grown 16 :=
  grown_initializeInfo.alloc

end CallMemInfo

namespace CallMem

variable {c c' : CallMem} {k : Nat} {v : BitVec 64} {type : SlotType}

def Grown (k : Nat) (c : CallMem) : Prop :=
  ∃ info, c.info = some info ∧ info.Grown k

-- An allocation which is reached with `k` bytes taken can fail only past the range of an `int32_t`.
def Overrun (k : Nat) (c : CallMem) : Prop :=
  2 ^ 31 ≤ k ∧ ∃ info, c.info = some info ∧ ¬info.Roomy

theorem Grown.roomy_iff (h : Grown k c) : c.Roomy ↔ k ≤ 4096 := by
  have ⟨info, hi, h⟩ := h
  simp [Roomy, hi, h.roomy_iff]

theorem Overrun.not_roomy (h : Overrun k c) : ¬c.Roomy := by
  have ⟨_, info, hi, h⟩ := h
  exact fun hr => h <| hr info hi

theorem Overrun.mono (h : Overrun k c) {k' : Nat} (hk : k ≤ k') : Overrun k' c :=
  ⟨h.1.trans hk, h.2⟩

theorem grown_of_untraced (h : Grown k c) (hu : c'.untraced = c.untraced) : Grown k c' := by
  have ⟨info, hi, h⟩ := h
  have ⟨_, hi'⟩ := info_of_untraced hi hu
  exact ⟨_, hi', h.fresh, h.maxSize, h.offset, h.le, h.last⟩

theorem Grown.alloc_ok (h : Grown k c) {offset : BitVec 32}
    (ha : callMemAlloc v type c = .ok offset c') : Grown (k + 8) c' := by
  have ⟨info, hi, h⟩ := h
  obtain ⟨info', hi', _, _, rfl⟩ := callMemAlloc_eq_ok.mp ha
  cases hi.symm.trans hi'
  exact ⟨_, rfl, h.alloc⟩

theorem Grown.alloc_error (h : Grown k c) {e : Fault}
    (ha : callMemAlloc v type c = .error e c') : Overrun k c' := by
  have ⟨info, hi, h⟩ := h
  have hk : 2 ^ 31 ≤ k := by
    by_contra hk
    have ho := @callMemAlloc_ok _ _ type v hi h.fresh (h.offset ▸ lt_of_not_ge hk)
    rw [ho] at ha
    cases ha
  have hr : ¬info.Roomy := by
    rw [h.roomy_iff]
    omega
  refine ⟨hk, ?_⟩
  cases callMemAlloc_error hi ha
  case inl hc => exact ⟨info, hc ▸ hi, hr⟩
  case inr hc =>
    refine ⟨_, congrArg CallMem.info hc, fun h => hr fun s hs => ?_⟩
    exact h s <| List.mem_append_left _ hs

end CallMem

open CallMem

-- The state of a callback with a result to set, and with `k` bytes of call memory taken.
structure World.Taken (k : Nat) (w : World) : Prop where
  grown   : Grown k w.callMem
  results : 0 < w.results.length

-- A part of a callback which takes `n` bytes, and which fails only past the range of an `int32_t`.
structure Allots {α : Type} (n : Nat) (x : CallbackM α) : Prop where
  ok    : ∀ {k w w' a}, w.Taken k → x w = .ok a w' → w'.Taken (k + n)
  error : ∀ {k w w' e}, w.Taken k → x w = .error e w' → Overrun (k + n) w'.callMem

namespace Allots

variable {α β : Type} {n m : Nat} {x : CallbackM α} {f : α → CallbackM β}

theorem pure {a : α} : Allots 0 (pure a : CallbackM α) where
  ok ht h := by
    cases h
    exact ht
  error _ h := by cases h

theorem bind (hx : Allots n x) (hf : ∀ a, Allots m (f a)) : Allots (n + m) (x >>= f) where
  ok {k _ _ _} ht h := by
    have ⟨a, _, h₁, h₂⟩ := bind_eq_ok.mp h
    exact Nat.add_assoc k n m ▸ (hf a).ok (hx.ok ht h₁) h₂
  error {k _ _ _} ht h := by
    cases bind_eq_error.mp h
    case inl h => exact (hx.error ht h).mono <| by omega
    case inr h =>
      have ⟨a, _, h₁, h₂⟩ := h
      exact Nat.add_assoc k n m ▸ (hf a).error (hx.ok ht h₁) h₂

theorem hostCall {fn : EcsactFn} {args : List HostArg} {answer : Runtime → HostView → α} :
    Allots 0 (hostCall fn args answer) where
  ok ht h := by
    cases h
    exact ⟨ht.grown, ht.results⟩
  error _ h := by cases h

theorem setResult {val : WasmVal} : Allots 0 (setResult 0 val) where
  ok ht h := by
    rw [setResult_ok ht.results] at h
    cases h
    exact ⟨ht.grown, by simpa using ht.results⟩
  error ht h := by
    rw [setResult_ok ht.results] at h
    cases h

theorem callMemAlloc {v : BitVec 64} {type : SlotType} :
    Allots 8 (onCallMem (CallMem.callMemAlloc v type)) where
  ok ht h := by
    obtain ⟨c, hc, rfl⟩ := zoom_eq_ok.mp h
    exact ⟨ht.grown.alloc_ok hc, ht.results⟩
  error ht h := by
    obtain ⟨c, hc, rfl⟩ := zoom_eq_error.mp h
    exact (ht.grown.alloc_error hc).mono <| by omega

end Allots

-- A callback which takes `n` bytes if it returns, and which may fail before it takes any.
structure Spends {α : Type} (n : Nat) (x : CallbackM α) : Prop where
  ok    : ∀ {k w w' a}, w.Taken k → x w = .ok a w' → w'.Taken (k + n)
  error : ∀ {k w w' e}, w.Taken k → x w = .error e w' →
    Grown k w'.callMem ∨ Overrun (k + n) w'.callMem

theorem Allots.spends {α : Type} {n : Nat} {x : CallbackM α} (h : Allots n x) : Spends n x where
  ok          := h.ok
  error ht hx := .inr <| h.error ht hx

namespace Spends

variable {α β : Type} {n : Nat} {x : CallbackM α} {f : α → CallbackM β} {args : List WasmVal}
  {params : List ValKind} {i : Nat}

theorem bind (hx : Quiet untraced x) (hf : ∀ a, Spends n (f a)) : Spends n (x >>= f) where
  ok ht h := by
    have ⟨a, _, h₁, h₂⟩ := bind_eq_ok.mp h
    have hg := grown_of_untraced ht.grown <| hx.callMem.of_ok h₁
    exact (hf a).ok ⟨hg, hx.results.of_ok h₁ ▸ ht.results⟩ h₂
  error ht h := by
    cases bind_eq_error.mp h
    case inl h => exact .inl <| grown_of_untraced ht.grown <| hx.callMem.of_error h
    case inr h =>
      have ⟨a, _, h₁, h₂⟩ := h
      have hg := grown_of_untraced ht.grown <| hx.callMem.of_ok h₁
      exact (hf a).error ⟨hg, hx.results.of_ok h₁ ▸ ht.results⟩ h₂

theorem argData_bind {f : WasmVal → CallbackM α} (ha : args.map WasmVal.kind = params)
    (hi : params[i]? = some .i32) (hf : ∀ v, Spends n (f (.i32 v))) :
    Spends n (argData args i >>= f) := by
  have ⟨v, hv⟩ := exists_argData_eq ha hi
  rw [hv, pure_bind]
  exact hf v

theorem parent (ha : args.map WasmVal.kind = [.i32]) :
    Spends 16 (wasmEcsactSystemExecutionContextParent args) := by
  refine bind .debugTraceMethod fun _ => ?_
  refine argData_bind ha rfl fun _ => bind .getExecutionContext fun _ => ?_
  refine argData_bind ha rfl fun _ => bind .getExecutionContextMemory fun _ => ?_
  refine bind .hostCall fun _ => Allots.spends ?_
  exact .bind .callMemAlloc fun _ => .bind .hostCall fun _ => .bind .callMemAlloc fun _ =>
    .bind .setResult fun _ => .pure

theorem other (ha : args.map WasmVal.kind = [.i32, .i32]) :
    Spends 16 (wasmEcsactSystemExecutionContextOther args) := by
  refine bind .debugTraceMethod fun _ => ?_
  refine argData_bind ha rfl fun _ => bind .getExecutionContext fun _ => ?_
  refine argData_bind ha rfl fun _ => bind .getExecutionContextMemory fun _ => ?_
  refine bind .hostCall fun _ => argData_bind ha rfl fun _ => bind .pure fun _ => Allots.spends ?_
  exact .bind .hostCall fun _ => .bind .callMemAlloc fun _ => .bind .callMemAlloc fun _ =>
    .bind .setResult fun _ => .pure

end Spends
namespace ImportCall

variable {call : ImportCall} {calls : List ImportCall} {w w' : World} {k : Nat}

theorem spends_of_derives (h : call.Derives) :
    call.func.funcType.results = [.i32] ∧ Spends 16 (call.func.funcCallback call.args) := by
  obtain ⟨name, func, hm, args, ht, _⟩ := call
  cases h
  case inl h =>
    cases eq_of_mem_importTables hm parentEntry_mem h
    exact ⟨rfl, .parent ht⟩
  case inr h =>
    cases eq_of_mem_importTables hm otherEntry_mem h
    exact ⟨rfl, .other ht⟩

theorem taken_enter (hd : call.Derives) (h : Grown k w.callMem) : (call.enter w).Taken k where
  grown   := h
  results := by simp [enter, (spends_of_derives hd).1]

theorem within_untraced (hd : ¬call.Derives) :
    Within (Keeps (untraced ∘ World.callMem)) (call.func.funcCallback call.args) :=
  (Sound.of_mem call.mem call.typed).callMem hd

theorem grown_of_ok (h : Grown k w.callMem) {trap : Option Trap} (hr : call.run w = .ok trap w') :
    Grown (k + if call.Derives then 16 else 0) w'.callMem := by
  split
  case isTrue hd  => exact ((spends_of_derives hd).2.ok (taken_enter hd h) hr).grown
  case isFalse hd => exact grown_of_untraced h <| (within_untraced hd).of_ok (s := call.enter w) hr

theorem grown_of_error (h : Grown k w.callMem) {e : Fault} (hr : call.run w = .error e w') :
    Grown k w'.callMem ∨ Overrun (k + 16) w'.callMem := by
  by_cases hd : call.Derives
  case pos => exact (spends_of_derives hd).2.error (taken_enter hd h) hr
  case neg =>
    exact .inl <| grown_of_untraced h <| (within_untraced hd).of_error (s := call.enter w) hr

theorem runAll_grown (h : Grown k w.callMem) :
    Grown (k + 16 * derivations calls w) (runAll calls w).2.callMem ∨
      Overrun (k + 16 * derivations calls w + 16) (runAll calls w).2.callMem := by
  induction calls generalizing w k
  case nil => exact .inl h
  case cons call calls hi =>
    cases hr : call.run w
    case error e w' =>
      simpa [derivations, runAll, hr] using grown_of_error h hr
    case ok trap w' =>
      cases trap_eq_none call.mem call.typed hr
      have hg := grown_of_ok h hr
      have hs : derivations (call :: calls) w =
          derivations calls w' + if call.Derives then 1 else 0 := by
        simp [derivations, runAll, hr, List.countP_cons]
      have he : k + 16 * derivations (call :: calls) w =
          (k + if call.Derives then 16 else 0) + 16 * derivations calls w' := by
        rw [hs]
        split <;> omega
      have hw : (runAll (call :: calls) w).2 = (runAll calls w').2 := by
        simp [runAll, hr]
      rw [he, hw]
      exact hi hg

theorem Entered.grown {c c' : CallMem} (h : Entered c c') : ∃ k, (k = 8 ∨ k = 16) ∧ Grown k c' := by
  cases h
  case system h =>
    have ⟨_, _, hc⟩ := enterSystem_eq_ok.mp h
    exact ⟨16, .inr rfl, _, congrArg CallMem.info hc, CallMemInfo.grown_systemInfo⟩
  case init h =>
    have ⟨_, hc⟩ := enterInitialize_eq_ok.mp h
    exact ⟨8, .inl rfl, _, congrArg CallMem.info hc, CallMemInfo.grown_initializeInfo⟩

-- All slots of a guest's run lie inside of the 4096 bytes exactly if it derives at most 255 handles.
theorem roomy_iff_derivations_le {c : CallMem} (h : Entered c w.callMem) (calls : List ImportCall) :
    (runAll calls w).2.callMem.Roomy ↔ derivations calls w ≤ 255 := by
  have ⟨k, hk, hg⟩ := h.grown
  cases @runAll_grown calls _ _ hg
  case inl h =>
    rw [h.roomy_iff]
    omega
  case inr h =>
    have hd := h.1
    simp only [h.not_roomy, false_iff]
    omega

def parent (handle : BitVec 32) : ImportCall where
  name  := "ecsact_system_execution_context_parent"
  func  := ⟨wasmFunctypeNew11 .i32 .i32, wasmEcsactSystemExecutionContextParent⟩
  mem   := parentEntry_mem
  args  := [.i32 handle]
  typed := rfl

theorem systemWorld_entered : Entered ⟨true, none⟩ (systemWorld true).callMem :=
  .system <| enterSystem_eq_ok.mpr ⟨nofun, rfl, rfl⟩

section

variable {handle : BitVec 32}

theorem parent_returns (hn : w.callMem.ndebug = true) (h : Grown k w.callMem)
    (hk : k + 8 < 2 ^ 31) : ∃ w', (parent handle).run w = .ok none w' ∧
      w'.callMem.ndebug = true := by
  have ⟨info, hi, hg⟩ := h
  have hd : ((parent handle).enter w).callMem.Denotes handle _ _ :=
    ⟨callMemRead_of_ndebug hn hi, callMemRead_of_ndebug hn hi⟩
  have ⟨_, hr⟩ := parent_ok hd hi hg.fresh (hg.offset ▸ hk) (show 0 < 1 by decide)
  exact ⟨_, hr, hn⟩

-- In a release build, each of the calls returns.
theorem derivations_replicate {n : Nat} (hn : w.callMem.ndebug = true) (h : Grown k w.callMem)
    (hk : k + 16 * n < 2 ^ 31) : derivations (.replicate n (parent handle)) w = n := by
  induction n generalizing w k
  case zero => rfl
  case succ n hi =>
    have ⟨w', hr, hn'⟩ := @parent_returns _ _ handle hn h (by omega)
    have hd : (parent handle).Derives := .inl rfl
    have hg := grown_of_ok h hr
    rw [if_pos hd] at hg
    have hi := hi hn' hg <| by omega
    simp_all [derivations, runAll, List.replicate_succ]

theorem systemWorld_grown : Grown 16 (systemWorld true).callMem :=
  ⟨_, rfl, CallMemInfo.grown_systemInfo⟩

-- A guest has space for 255 parents of its context, and not for another.
theorem roomy_iff_derivations_le_parent :
    (runAll (.replicate 255 (parent 8)) (systemWorld true)).2.callMem.Roomy ∧
      ¬(runAll (.replicate 256 (parent 8)) (systemWorld true)).2.callMem.Roomy := by
  rw [roomy_iff_derivations_le systemWorld_entered, roomy_iff_derivations_le systemWorld_entered,
    derivations_replicate rfl systemWorld_grown (by decide),
    derivations_replicate rfl systemWorld_grown (by decide)]
  decide

theorem not_roomy_replicate {n : Nat} (hn : w.callMem.ndebug = true) (h : Grown k w.callMem)
    (hk : k + 16 * n < 2 ^ 31) (hl : 4096 < k + 16 * n) :
    ¬(runAll (.replicate n (parent handle)) w).2.callMem.Roomy := by
  have hr := @runAll_grown (.replicate n (parent handle)) _ _ h
  rw [derivations_replicate hn h hk] at hr
  cases hr
  case inl hr =>
    rw [hr.roomy_iff]
    omega
  case inr hr => exact hr.not_roomy

end

-- A guest which asks for its context's parent 256 times.
theorem parents_overflow :
    ¬(runAll (.replicate 256 (parent 8)) (systemWorld true)).2.callMem.Roomy :=
  not_roomy_replicate rfl systemWorld_grown (by decide) (by decide)

end ImportCall
end Ecsact
