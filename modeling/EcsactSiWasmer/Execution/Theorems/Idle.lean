import EcsactSiWasmer.Execution.Theorems.Steps
import EcsactSiWasmer.Imports.Theorems.Primitives

open EStateM Ecsact.World Ecsact.CallMem

namespace Ecsact

-- What the callbacks keep to in call memory, a guest's functions keep to.

section

variable {R : CallMem → CallMem → Prop} (h : Primitives fun w w' => R w.callMem w'.callMem)

include h

theorem within_callImports {calls : List ImportCall} :
    Within (fun w w' => R w.callMem w'.callMem) (GuestRun.callImports calls) := by
  have := h.preorder
  induction calls
  case nil => exact .pure
  case cons call calls hi =>
    have hr : Within (fun w w' => R w.callMem w'.callMem) call.run :=
      fun w => h.callback call.mem (call.enter w)
    refine hr.bind fun trap => ?_
    cases trap
    case none => exact hi
    case some => exact .pure

theorem within_call {guest : GuestRun} :
    Within (fun w w' => R w.callMem w'.callMem) guest.call := by
  have := h.preorder
  refine (within_callImports h).bind fun trap => ?_
  cases trap <;> exact .pure

theorem within_funcCall {exp : MinstExport} {guest : GuestRun} :
    Within (fun w w' => R w.callMem w'.callMem) (exp.funcCall guest) := by
  have := h.preorder
  have ha {b : Bool} : Within (Keeps id) (CallMem.assert b) := within_assert
  refine .bind (ha.zoom fun w c hc => ?_) fun _ => .ite (within_call h) .throw
  rw [show c = w.callMem from hc]
  exact refl_of (fun w w' : World => R w.callMem w'.callMem) w

theorem within_callInitialize {inst : Minst} {guest : GuestRun} :
    Within (fun w w' => R w.callMem w'.callMem) (inst.callInitialize guest) := by
  have := h.preorder
  rw [Minst.callInitialize]
  cases inst.findExport "_initialize"
  case none => exact .pure
  case some => exact within_funcCall h

theorem within_create {build : Build} :
    Within (fun w w' => R w.callMem w'.callMem) (Minst.create build) := by
  have := h.preorder
  have hn : Within (fun w w' => R w.callMem w'.callMem) (Minst.instanceNew build) := by
    rw [Minst.instanceNew]
    cases build.externs
    case error => exact .pure
    case ok =>
      refine (within_call h).bind fun trap => ?_
      cases trap <;> exact .pure
  rw [Minst.create]
  cases build.module
  case error => exact .pure
  case ok module =>
    simp only
    cases module.imports.find? fun imp => (importResolver imp).isNone
    case some => exact .pure
    case none =>
      refine hn.bind fun result => ?_
      cases result <;> exact .pure

end

-- Without call memory, a callback sets none.
def CallMem.StaysUnset (c c' : CallMem) : Prop :=
  c.info = none → c'.info = none

instance : IsPreorder CallMem CallMem.StaysUnset where
  refl _            := id
  trans _ _ _ h₁ h₂ := h₂ ∘ h₁

theorem CallMem.callMemAlloc_unset {c : CallMem} {v : BitVec 64} {type : SlotType}
    (hi : c.info = none) : ∃ e, callMemAlloc v type c = .error e c := by
  cases hn : c.ndebug
  case false =>
    have ha : assertHasValue c = .error .assertFailed c := assert_error hn <| by simp [hi]
    exact ⟨_, bind_error <| bind_error ha⟩
  case true =>
    have ha : assertHasValue c = .ok () c := assert_ok <| by simp [hn]
    have hb : assert (decide (0 < 8)) c = .ok () c := assert_ok fun _ => rfl
    have hr : callMemAllocRaw 8 type c = .error (.undefined "call_mem_info") c := by
      rw [callMemAllocRaw, bind_ok ha, bind_ok hb, bind_error (value_error hi)]
    exact ⟨_, bind_error hr⟩

theorem CallMem.staysUnset_callMemAlloc (v : BitVec 64) (type : SlotType) :
    Within StaysUnset (callMemAlloc v type) := by
  intro c hi
  have ⟨e, hr⟩ := @callMemAlloc_unset c v type hi
  rw [hr]
  exact hi

theorem primitives_staysUnset : Primitives fun w w' => StaysUnset w.callMem w'.callMem := by
  refine primitives_of_callMem (fun name => ?_) staysUnset_callMemAlloc
  refine within_debugTraceMethod.mono fun c c' hu hi => ?_
  have hu : c'.info.map _ = c.info.map _ := congrArg CallMem.info hu
  simpa [hi] using hu

-- Nothing changes whether the asserts are compiled out.

section

variable {mem : MemPtr} {ctx : CtxPtr}

theorem CallMem.ndebug_callMemAlloc (v : BitVec 64) (type : SlotType) :
    Within (Keeps ndebug) (callMemAlloc v type) := by
  intro c
  cases ha : callMemAlloc v type c
  case ok =>
    have ⟨_, _, _, _, hc⟩ := callMemAlloc_eq_ok.mp ha
    exact hc ▸ rfl
  case error e c' =>
    cases hi : c.info
    case none =>
      have ⟨e, hr⟩ := @callMemAlloc_unset c v type hi
      cases hr.symm.trans ha
      rfl
    case some => exact (callMemAlloc_error hi ha).elim (fun hc => hc ▸ rfl) fun hc => hc ▸ rfl

theorem primitives_ndebug : Primitives fun w w' => Keeps ndebug w.callMem w'.callMem :=
  primitives_of_callMem
    (fun _ => within_debugTraceMethod.mono fun c c' hu =>
      show c'.untraced.ndebug = c.untraced.ndebug from congrArg CallMem.ndebug hu)
    ndebug_callMemAlloc

theorem CallMem.ndebug_setCallMemData {data : Option ByteStore} {maxSize : Nat} :
    Within (Keeps ndebug) (setCallMemData data maxSize) := by
  cases data
  case none => exact .modify fun _ => rfl
  case some => exact .bind .get fun _ => within_assert.bind fun _ => .modify fun _ => rfl

theorem CallMem.ndebug_enterInitialize : Within (Keeps ndebug) (enterInitialize mem) :=
  ndebug_setCallMemData.bind fun _ => (ndebug_callMemAlloc _ _).bind fun _ => .pure

theorem CallMem.ndebug_enterSystem : Within (Keeps ndebug) (enterSystem mem ctx) :=
  ndebug_setCallMemData.bind fun _ => (ndebug_callMemAlloc _ _).bind fun _ => ndebug_callMemAlloc _ _

end

namespace Program

-- The call memories of the other threads are as before.
structure Elsewhere (thread : ThreadId) (p p' : Program) : Prop where
  info   : ∀ thread', thread' ≠ thread → p'.callMemInfo thread' = p.callMemInfo thread'
  ndebug : p'.world.callMem.ndebug = p.world.callMem.ndebug

instance {thread : ThreadId} : IsPreorder Program (Elsewhere thread) where
  refl _             := ⟨fun _ _ => rfl, rfl⟩
  trans _ _ _ h₁ h₂  :=
    ⟨fun t ht => (h₂.info t ht).trans (h₁.info t ht), h₂.ndebug.trans h₁.ndebug⟩

variable {p p' : Program} {thread : ThreadId} {event : Event} {systems : List (SystemId × String)}
  {build : Build} {builds : Nat → Build}

section

variable {α : Type}

theorem elsewhere_onThread {x : CallbackM α}
    (h : Within (fun w w' => Keeps CallMem.ndebug w.callMem w'.callMem) x) :
    Within (Elsewhere thread) (onThread thread x) :=
  h.zoom fun _ _ hn => ⟨fun _ ht => Function.update_of_ne ht .., hn⟩

theorem elsewhere_onCallMem {x : CallMemM α} (h : Within (Keeps CallMem.ndebug) x) :
    Within (Elsewhere thread) (onThread thread (onCallMem x)) :=
  elsewhere_onThread <| h.zoom fun _ _ => id

theorem elsewhere_assert {c : Bool} : Within (Elsewhere thread) (assert c) :=
  .bind .get fun _ => .ite .throw .pure

theorem elsewhere_createError {code : MinstErrorCode} :
    Within (Elsewhere thread) (createError code) := by
  cases code
  case ok => exact elsewhere_assert.bind fun _ => .pure
  all_goals exact .pure

theorem elsewhere_modify {f : Program → Program}
    (h : ∀ p, (f p).callMemInfo = p.callMemInfo ∧ (f p).world = p.world := by
      exact fun _ => ⟨rfl, rfl⟩) :
    Within (Elsewhere thread) (modify f : ProgramM Unit) :=
  .modify fun p => ⟨fun t _ => congrFun (h p).1 t, by rw [(h p).2]⟩

theorem elsewhere_loadMinst : Within (Elsewhere thread) (loadMinst thread systems build) := by
  refine (elsewhere_onThread <| within_create primitives_ndebug).bind fun result => ?_
  cases result
  case error err =>
    exact .bind elsewhere_modify fun _ => elsewhere_createError.bind fun _ => .pure
  case ok inst =>
    simp only
    cases getSystemImplExports inst systems fun _ => none
    case error => exact .pure
    case ok exports =>
      refine elsewhere_assert.bind fun _ => ?_
      cases inst.exports.find? (·.kind = .memory)
      case none => exact .throw
      case some memory =>
        refine (elsewhere_onCallMem ndebug_enterInitialize).bind fun _ => ?_
        refine (elsewhere_onThread <| within_callInitialize primitives_ndebug).bind fun trap => ?_
        refine (elsewhere_onCallMem ndebug_setCallMemData).bind fun _ => ?_
        cases trap
        case some => exact .pure
        case none => exact .bind elsewhere_modify fun _ => .pure

theorem elsewhere_loadLoop {n i : Nat} :
    Within (Elsewhere thread) (loadLoop thread systems builds n i) := by
  induction n generalizing i
  case zero => exact .pure
  case succ n hi =>
    refine elsewhere_loadMinst.bind fun result => ?_
    cases result
    case none => exact hi
    case some => exact .pure

theorem elsewhere_load : Within (Elsewhere thread) (ecsactSiWasmLoad thread systems builds) := by
  refine .bind .get fun p => .ite .pure ?_
  refine .bind elsewhere_modify fun _ => elsewhere_loadLoop.bind fun result => ?_
  cases result
  case some => exact .pure
  case none => exact .bind elsewhere_modify fun _ => .pure

theorem elsewhere_ensureMinst : Within (Elsewhere thread) (ensureMinst thread) := by
  refine .bind .get fun p => ?_
  cases p.lock thread
  case some => exact .pure
  case none =>
    refine .bind elsewhere_modify fun _ => .bind .get fun p => ?_
    refine .ite (.bind .throw fun _ => ?_) ?_
    all_goals
      cases p.allMinsts[p.nextAvailableIndex.toNat % p.allMinsts.length]?
      case none => exact .throw
      case some => exact .bind elsewhere_modify fun _ => .pure

theorem elsewhere_enterSystemImpl {ctx : CtxPtr} :
    Within (Elsewhere thread) (enterSystemImpl thread ctx) := by
  have hi : Within (fun w w' => Keeps CallMem.ndebug w.callMem w'.callMem)
      (hostCall .id [.ctx ctx] (·.id)) :=
    fun _ => rfl
  refine elsewhere_ensureMinst.bind fun minst => ?_
  refine (elsewhere_onThread hi).bind fun systemId => elsewhere_assert.bind fun _ => ?_
  cases minst.sysImplExports systemId
  case none => exact .throw
  case some =>
    refine (elsewhere_onCallMem ndebug_enterSystem).bind fun _ => ?_
    exact .bind elsewhere_modify fun _ => .pure

end

theorem elsewhere_exit (p : Program) (thread : ThreadId) : Elsewhere thread p { p with
      threads     := p.threads.filter (· ≠ thread)
      threadMinst := Function.update p.threadMinst thread none
      callMemInfo := Function.update p.callMemInfo thread none
    } :=
  ⟨fun _ ht => Function.update_of_ne ht .., rfl⟩

theorem elsewhere_guest {call : ImportCall} : Within (Elsewhere thread) (onThread thread call.run) :=
  elsewhere_onThread fun w => primitives_ndebug.callback call.mem (call.enter w)

theorem onThread_info {α : Type} {x : CallbackM α} {a : α} (h : onThread thread x p = .ok a p') :
    ∃ w, x (p.view thread) = .ok a w ∧ p'.callMemInfo thread = w.callMem.info := by
  obtain ⟨w, hx, rfl⟩ := zoom_eq_ok.mp h
  exact ⟨w, hx, Function.update_self ..⟩

theorem clear_info (h : onThread thread (onCallMem (setCallMemData none 0)) p = .ok () p') :
    p'.callMemInfo thread = none := by
  have ⟨w, hx, hi⟩ := onThread_info h
  cases hx
  exact hi

theorem createError_state {code : MinstErrorCode} {err : SiError}
    (h : createError code p = .ok err p') : p' = p := by
  cases code
  case ok =>
    have ⟨_, _, ha, h⟩ := bind_eq_ok.mp h
    cases assert_eq_ok ha
    cases h
    rfl
  all_goals
    cases h
    rfl

-- A load leaves no call memory behind, however it ends.

theorem loadMinst_info {result : Option SiError} (hn : p.callMemInfo thread = none)
    (h : loadMinst thread systems build p = .ok result p') : p'.callMemInfo thread = none := by
  have hc {r : Except MinstError Minst} {p₁ : Program}
      (h : onThread thread (Minst.create build) p = .ok r p₁) : p₁.callMemInfo thread = none := by
    have ⟨_, hc, hi⟩ := onThread_info h
    exact hi ▸ (within_create primitives_staysUnset).of_ok hc hn
  cases loadMinst_cases h
  case create h₁ h₂ =>
    cases createError_state h₂
    exact (hc h₁ :)
  case exports h₁ => exact hc h₁
  case traps h₄   => exact clear_info h₄
  case done h₄ h₅ =>
    cases h₅
    exact (clear_info h₄ :)

theorem loadLoop_info {n i : Nat} {result : Option SiError} (hn : p.callMemInfo thread = none)
    (h : loadLoop thread systems builds n i p = .ok result p') : p'.callMemInfo thread = none := by
  induction n generalizing i p
  case zero =>
    cases h
    exact hn
  case succ n hi =>
    have ⟨r, p₁, h₁, h⟩ := bind_eq_ok.mp h
    have hn := loadMinst_info hn h₁
    cases r
    case none => exact hi hn h
    case some =>
      cases h
      exact hn

theorem load_info {err : SiError} (hn : p.callMemInfo thread = none)
    (h : ecsactSiWasmLoad thread systems builds p = .ok err p') : p'.callMemInfo thread = none := by
  cases ecsactSiWasmLoad_cases h
  case inl h => exact h.2.2 ▸ hn
  case inr h =>
    have ⟨_, r, p₁, h₁, h⟩ := h
    have hn : p₁.callMemInfo thread = none := loadLoop_info (by exact hn) h₁
    cases h
    case inl h => exact h.2.2 ▸ hn
    case inr h => exact h.2 ▸ hn

-- A thread which is in no execution has no call memory.
def Idle (p : Program) : Prop :=
  ∀ thread, ¬p.busy thread → p.callMemInfo thread = none

theorem Idle.of_elsewhere (h : Idle p) (hr : p'.running = p.running) (he : Elsewhere thread p p')
    (hn : ¬p.busy thread → p'.callMemInfo thread = none) : Idle p' := by
  intro t hb
  have hb : ¬p.busy t := by rwa [busy, ← hr]
  by_cases ht : t = thread
  case pos => exact ht ▸ hn (ht ▸ hb)
  case neg => exact (he.info t ht).trans (h t hb)

theorem Loads.keeps {err : SiError} (h : Loads systems builds p err p') :
    p'.running = p.running ∧ p'.threadMinst = p.threadMinst := by
  cases h
  case unset                => exact ⟨rfl, rfl⟩
  case done he | failed he  =>
    obtain ⟨_, _, _, rfl⟩ := he
    exact ⟨rfl, rfl⟩

theorem Idle.step (h : Idle p) (hs : Step p event p') : Idle p' := by
  have ⟨he, hx⟩ := hs
  cases event
  case start          => cases hx; exact h
  case reset          => cases hx; exact h
  case setTrapHandler => cases hx; exact h
  case exit thread =>
    cases hx
    exact h.of_elsewhere rfl (elsewhere_exit ..) fun _ => Function.update_self ..
  case load thread systems builds =>
    have ⟨_, _, hl, hp⟩ := bind_eq_ok.mp hx
    cases hp
    have hr := (ecsactSiWasmLoad_ok hl).keeps.1
    exact h.of_elsewhere hr (elsewhere_load.of_ok hl) fun hb => load_info (h thread hb) hl
  case guest thread call =>
    have ⟨_, _, hg, hp⟩ := bind_eq_ok.mp hx
    cases hp
    have hr : p'.running = p.running := (touched_onThread.of_ok hg).running
    exact h.of_elsewhere hr (elsewhere_guest.of_ok hg) fun hb => absurd he hb
  case enter thread ctx =>
    have ⟨r, _, hr, hp⟩ := bind_eq_ok.mp hx
    cases hp
    have ⟨_, minst, p₁, p₂, h₁, ht, _, hp⟩ := enterSystemImpl_ok hr
    have hq : p'.running = (thread, minst) :: p.running := by
      rw [hp, ← ensureMinst_running h₁, ← ht.running]
    intro t hb
    simp only [busy, hq, List.any_cons, Bool.or_eq_true, beq_iff_eq, not_or] at hb
    exact ((elsewhere_enterSystemImpl.of_ok hr).info t <| Ne.symm hb.1).trans <| h t hb.2
  case leave thread =>
    have ⟨_, p₁, h₁, hp⟩ := bind_eq_ok.mp hx
    cases hp
    intro t hb
    by_cases ht : t = thread
    case pos =>
      subst ht
      exact (clear_info h₁ :)
    case neg =>
      have he := (elsewhere_onCallMem ndebug_setCallMemData).of_ok h₁
      refine (he.info t ht).trans <| h t fun hc => hb ?_
      have hr : p₁.running = p.running := (touched_onThread.of_ok h₁).running
      have ⟨r, hr', ht'⟩ := List.any_eq_true.mp hc
      refine List.any_eq_true.mpr ⟨r, List.mem_filter.mpr ⟨hr ▸ hr', ?_⟩, ht'⟩
      simpa [beq_iff_eq.mp ht'] using ht

end Program
end Ecsact
