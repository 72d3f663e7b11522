import EcsactSiWasmer.Execution.Account
import EcsactSiWasmer.Execution.Theorems.Load
import EcsactSiWasmer.Imports.Theorems.Primitives

open EStateM Ecsact.World Ecsact.CallMem

namespace Ecsact

namespace Account

variable {R : World → List (ImportCall × World) → World → Prop} (h : Account R) {w : World}
  {guest : GuestRun} {build : Build} {inst : Minst}

include h

theorem onCallMem {α : Type} {x : CallMemM α} : R w [] (onCallMem x w).state := by
  rw [World.onCallMem, EStateM.zoom]
  split <;> exact h.callMem w _

theorem callImports {calls : List ImportCall} :
    R w (ImportCall.begun calls w) (GuestRun.callImports calls w).state := by
  have := h.recounts
  induction calls generalizing w
  case nil => exact Recounts.nil w
  case cons call calls hi =>
    refine Recounts.bind (l := [(call, w)]) (h.call call w) fun trap w' _ => ?_
    cases trap
    case none   => exact hi
    case some _ => exact Recounts.nil w'

theorem guestCall : R w (ImportCall.begun guest.calls w) (guest.call w).state := by
  have := h.recounts
  refine Recounts.nil_bind h.callImports fun trap w' _ => ?_
  cases trap <;> exact Recounts.nil w'

theorem callInitialize :
    R w (inst.initializeBegun guest w) (inst.callInitialize guest w).state := by
  have := h.recounts
  rw [Minst.callInitialize, Minst.initializeBegun]
  cases inst.findExport "_initialize"
  case none => exact Recounts.nil w
  case some exp =>
    simp only
    by_cases hk : exp.kind = .func
    case neg =>
      rw [if_neg hk]
      refine Recounts.nil_bind h.onCallMem fun _ w' _ => ?_
      rw [if_neg hk]
      exact Recounts.nil w'
    case pos =>
      have hx : exp.funcCall guest w = guest.call w := by
        have ha : World.onCallMem (CallMem.assert (exp.kind = .func)) w = .ok () w :=
          zoom_ok <| by simp [CallMem.assert, hk, pure_apply]
        rw [MinstExport.funcCall, bind_ok ha, if_pos hk]
      rw [if_pos hk]
      exact hx ▸ h.guestCall

theorem create : R w (Minst.createBegun build w) (Minst.create build w).state := by
  have := h.recounts
  rw [Minst.create, Minst.createBegun]
  cases build.module
  case error => exact Recounts.nil w
  case ok module =>
    simp only
    cases module.imports.find? fun imp => (importResolver imp).isNone
    case some => exact Recounts.nil w
    case none =>
      refine Recounts.nil_bind ?created fun result w' _ => ?result
      case result => cases result <;> exact Recounts.nil w'
      case created =>
        rw [Minst.instanceNew]
        cases build.externs
        case error => exact Recounts.nil w
        case ok ptrs =>
          refine Recounts.nil_bind h.guestCall fun trap w' _ => ?_
          cases trap <;> exact Recounts.nil w'

end Account

namespace Program

theorem keeps_ensureMinst {thread : ThreadId} :
    Within (Keeps Program.world) (ensureMinst thread) := by
  have hm {f : Program → Program} (hf : ∀ p, (f p).world = p.world) :
      Within (Keeps Program.world) (modify f : ProgramM Unit) :=
    .modify hf
  refine .bind .get fun p => ?_
  cases p.lock thread
  case some => exact .pure
  case none =>
    refine .bind (hm fun _ => rfl) fun _ => .bind .get fun p => ?_
    refine .ite (.bind .throw fun _ => ?_) ?_
    all_goals
      cases p.allMinsts[p.nextAvailableIndex.toNat % p.allMinsts.length]?
      case none => exact .throw
      case some => exact .bind (hm fun _ => rfl) fun _ => .pure

-- An account of the worlds is one of the programs.
def WorldAccount (R : World → List (ImportCall × World) → World → Prop) (p : Program)
    (begun : List (ImportCall × World)) (p' : Program) : Prop :=
  R p.world begun p'.world

theorem recounts_worldAccount {R : World → List (ImportCall × World) → World → Prop}
    (h : Recounts R) : Recounts (WorldAccount R) where
  nil p    := Recounts.nil p.world
  append   := Recounts.append (R := R)

variable {R : World → List (ImportCall × World) → World → Prop} (h : Account R) {p : Program}
  {thread : ThreadId} {systems : List (SystemId × String)} {build : Build} {builds : Nat → Build}
  {event : Event}

include h

theorem account_onThread {α : Type} {x : CallbackM α} {begun : List (ImportCall × World)}
    (hx : R (p.view thread) begun (x (p.view thread)).state) :
    WorldAccount R p begun (onThread thread x p).state := by
  have := h.recounts
  have hv : R p.world [] (p.view thread) := h.callMem p.world _
  rw [onThread, EStateM.zoom]
  split
  all_goals
    rename_i hr
    rw [hr] at hx
    exact Recounts.append hv hx

theorem account_of_world_eq {p' : Program} (hw : p'.world = p.world) : WorldAccount R p [] p' := by
  have := h.recounts
  rw [WorldAccount, hw]
  exact Recounts.nil p.world

theorem account_assert {c : Bool} : WorldAccount R p [] (assert c p).state := by
  refine account_of_world_eq h ?_
  rw [assert, bind_ok (get_apply p)]
  split <;> rfl

theorem account_createError {code : MinstErrorCode} :
    WorldAccount R p [] (createError code p).state := by
  have := recounts_worldAccount h.recounts
  cases code
  case ok => exact Recounts.nil_bind (account_assert h) fun _ p' _ => Recounts.nil p'
  all_goals exact Recounts.nil p

theorem account_loadMinst : WorldAccount R p (loadMinstBegun thread systems build p)
    (loadMinst thread systems build p).state := by
  have := recounts_worldAccount h.recounts
  refine Recounts.bind (account_onThread h h.create) fun result p₁ _ => ?_
  cases result
  case error err _ =>
    refine Recounts.nil_bind (account_of_world_eq h rfl) fun _ p₂ _ => ?_
    exact Recounts.nil_bind (account_createError h) fun _ p₃ _ => Recounts.nil p₃
  case ok inst _ =>
    simp only
    cases getSystemImplExports inst systems fun _ => none
    case error => exact Recounts.nil p₁
    case ok exports =>
      simp only
      cases inst.exports.find? (·.kind = .memory)
      case none => exact Recounts.nil_bind (account_assert h) fun _ p₂ _ => Recounts.nil p₂
      case some memory =>
        have ha : assert (some memory).isSome p₁ = .ok () p₁ := by
          rw [assert, bind_ok (get_apply p₁)]
          simp [pure_apply]
        rw [bind_ok ha]
        refine Recounts.bind_nil (account_onThread h h.onCallMem) fun _ p₂ _ => ?_
        refine Recounts.nil_bind (account_onThread h h.callInitialize) fun trap p₃ _ => ?_
        refine Recounts.nil_bind (account_onThread h h.onCallMem) fun _ p₄ _ => ?_
        cases trap
        case none   => exact account_of_world_eq h rfl
        case some _ => exact Recounts.nil p₄

theorem account_loadLoop {n i : Nat} :
    WorldAccount R p (loadLoopBegun thread systems builds n i p)
      (loadLoop thread systems builds n i p).state := by
  have := recounts_worldAccount h.recounts
  induction n generalizing i p
  case zero => exact Recounts.nil p
  case succ n hi =>
    refine Recounts.bind (account_loadMinst h) fun err p' _ => ?_
    cases err
    case none   => exact hi
    case some _ => exact Recounts.nil p'

theorem account_load : WorldAccount R p ((Event.load thread systems builds).begun p)
    (ecsactSiWasmLoad thread systems builds p).state := by
  have := recounts_worldAccount h.recounts
  rw [ecsactSiWasmLoad, bind_ok (get_apply p), Event.begun]
  by_cases hs : p.setSystemExecutionImpl = true
  case neg =>
    rw [if_neg hs, if_pos (by simp [hs])]
    exact Recounts.nil p
  case pos =>
    rw [if_pos hs, if_neg (by simp [hs]), bind_ok (modify_apply _ p)]
    refine Recounts.nil_bind (R := WorldAccount R) (s := { p with allMinsts := [] })
      (account_loadLoop h) fun err p' _ => ?_
    cases err
    case none   => exact account_of_world_eq h rfl
    case some _ => exact Recounts.nil p'

theorem account_enterSystemImpl {ctx : CtxPtr} :
    WorldAccount R p [] (enterSystemImpl thread ctx p).state := by
  have := recounts_worldAccount h.recounts
  refine Recounts.nil_bind (account_of_world_eq h <| keeps_ensureMinst p) fun minst p₁ _ => ?_
  refine Recounts.nil_bind (account_onThread h <| h.called ..) fun systemId p₂ _ => ?_
  refine Recounts.nil_bind (account_assert h) fun _ p₃ _ => ?_
  cases minst.sysImplExports systemId
  case none => exact Recounts.nil p₃
  case some =>
    refine Recounts.nil_bind (account_onThread h h.onCallMem) fun _ p₄ _ => ?_
    exact account_of_world_eq h rfl

-- What a step does to the worlds is what the calls do that are made in it, also if it ends in a
-- fault.
theorem Event.account : R p.world (event.begun p) (event.run p).state.world := by
  have := recounts_worldAccount h.recounts
  change WorldAccount R p _ _
  cases event
  case load => exact Recounts.nil_bind (account_load h) fun _ p' _ => Recounts.nil p'
  case enter => exact Recounts.nil_bind (account_enterSystemImpl h) fun _ p' _ => Recounts.nil p'
  case guest =>
    exact Recounts.nil_bind (account_onThread h <| h.call ..) fun _ p' _ => Recounts.nil p'
  case leave =>
    refine Recounts.nil_bind (account_onThread h h.onCallMem) fun _ p' _ => ?_
    exact account_of_world_eq h rfl
  all_goals exact account_of_world_eq h rfl

end Program

-- A relation between worlds which no callback leaves, wherever a guest stores something before, and
-- whatever happens to call memory.
structure Footprint (R : World → World → Prop) : Prop where
  primitives : Primitives R
  enter      : ∀ (call : ImportCall) w, R w (call.enter w)
  callMem    : ∀ (w : World) c, R w { w with callMem := c }

variable {R : World → World → Prop}

-- All worlds which calls are made in are within it.
theorem Footprint.account (h : Footprint R) :
    Account fun w begun w' => R w w' ∧ ∀ b ∈ begun, R w b.2 where
  recounts := by
    have := h.primitives.preorder
    constructor
    case nil => exact fun w => ⟨refl_of R w, nofun⟩
    case append =>
      intro w w' w'' l l' ⟨h₁, hl⟩ ⟨h₂, hl'⟩
      refine ⟨trans_of R h₁ h₂, fun b hb => ?_⟩
      cases List.mem_append.mp hb
      case inl hb => exact hl b hb
      case inr hb => exact trans_of R h₁ <| hl' b hb
  call call w := by
    have := h.primitives.preorder
    refine ⟨trans_of R (h.enter call w) ?call, fun b hb => ?begun⟩
    case call => exact h.primitives.callback call.mem (call.enter w)
    case begun => exact List.mem_singleton.mp hb ▸ refl_of R w
  called _ _ _ := ⟨h.primitives.called, nofun⟩
  callMem w c  := ⟨h.callMem w c, nofun⟩

namespace Program

variable {p p' : Program} {event : Event}

theorem Step.account {R : World → List (ImportCall × World) → World → Prop} (hs : Step p event p')
    (h : Account R) : R p.world (event.begun p) p'.world := by
  have ha : R p.world (event.begun p) (event.run p).state.world := Event.account h
  rwa [hs.run] at ha

theorem Step.world (hs : Step p event p') (h : Footprint R) : R p.world p'.world :=
  (hs.account h.account).1

end Program

-- A call which was begun has come to its end.
def Returned (b : ImportCall × World) : Prop :=
  ∃ w', b.1.run b.2 = .ok none w'

section

variable {w w' : World} {trap : Option Trap} {build : Build} {inst : Minst} {guest : GuestRun}

theorem returned_callImports {calls : List ImportCall}
    (h : GuestRun.callImports calls w = .ok trap w') : ∀ b ∈ ImportCall.begun calls w, Returned b := by
  induction calls generalizing w
  case nil => nofun
  case cons call calls hi =>
    obtain ⟨trap', w₁, hr, h⟩ := bind_eq_ok.mp h
    cases trap_eq_none call.mem call.typed hr
    rw [ImportCall.begun, after_ok hr, if_pos rfl]
    exact List.forall_mem_cons.mpr ⟨⟨w₁, hr⟩, hi h⟩

theorem returned_guestCall (h : guest.call w = .ok trap w') :
    ∀ b ∈ ImportCall.begun guest.calls w, Returned b := by
  obtain ⟨_, _, hc, _⟩ := bind_eq_ok.mp h
  exact returned_callImports hc

-- The calls of a start function, if the engine gets to it.
theorem createBegun_cases : Minst.createBegun build w = [] ∨ ∃ module ptrs,
    build.module = .ok module ∧
    module.imports.find? (fun imp => (importResolver imp).isNone) = none ∧
    build.externs = .ok ptrs ∧
    Minst.createBegun build w = ImportCall.begun build.startRun.calls w := by
  rw [Minst.createBegun]
  cases build.module
  case error => exact .inl rfl
  case ok module =>
    simp only
    cases hf : module.imports.find? fun imp => (importResolver imp).isNone
    case some => exact .inl rfl
    case none =>
      cases build.externs
      case error   => exact .inl rfl
      case ok ptrs => exact .inr ⟨module, ptrs, rfl, hf, rfl, rfl⟩

-- The calls of `_initialize`, if it is a function of the instance.
theorem initializeBegun_cases : inst.initializeBegun guest w = [] ∨ ∃ exp,
    inst.findExport "_initialize" = some exp ∧ exp.kind = .func ∧
    inst.initializeBegun guest w = ImportCall.begun guest.calls w := by
  rw [Minst.initializeBegun]
  cases inst.findExport "_initialize"
  case none => exact .inl rfl
  case some exp =>
    by_cases hk : exp.kind = .func
    case pos => exact .inr ⟨exp, rfl, hk, if_pos hk⟩
    case neg => exact .inl <| if_neg hk

theorem returned_create {r : Except MinstError Minst} (h : Minst.create build w = .ok r w') :
    ∀ b ∈ Minst.createBegun build w, Returned b := by
  cases @createBegun_cases w build
  case inl hb =>
    rw [hb]
    exact List.forall_mem_nil _
  case inr hb =>
    obtain ⟨module, ptrs, hm, hf, he, hb⟩ := hb
    simp only [Minst.create, hm, hf, Minst.instanceNew, he] at h
    obtain ⟨_, _, hn, _⟩ := bind_eq_ok.mp h
    obtain ⟨_, _, hc, _⟩ := bind_eq_ok.mp hn
    exact hb ▸ returned_guestCall hc

theorem returned_callInitialize (h : inst.callInitialize guest w = .ok trap w') :
    ∀ b ∈ inst.initializeBegun guest w, Returned b := by
  cases @initializeBegun_cases w inst guest
  case inl hb =>
    rw [hb]
    exact List.forall_mem_nil _
  case inr hb =>
    obtain ⟨exp, hf, hk, hb⟩ := hb
    simp only [Minst.callInitialize, hf] at h
    obtain ⟨_, _, ha, hc⟩ := bind_eq_ok.mp h
    obtain ⟨_, hx, rfl⟩ := zoom_eq_ok.mp ha
    cases CallMem.assert_eq_ok hx
    rw [if_pos hk] at hc
    exact hb ▸ returned_guestCall hc

end

namespace Program

variable {p p' : Program} {thread : ThreadId} {systems : List (SystemId × String)} {build : Build}
  {builds : Nat → Build} {event : Event}

-- The calls of an iteration are those of the start function, and those of `_initialize` if the
-- iteration comes to it.
theorem loadMinstBegun_cases :
    loadMinstBegun thread systems build p = Minst.createBegun build (p.view thread) ∨
    ∃ inst p₁ exports memory p₂, onThread thread (Minst.create build) p = .ok (.ok inst) p₁ ∧
      getSystemImplExports inst systems (fun _ => none) = .ok exports ∧
      inst.exports.find? (·.kind = .memory) = some memory ∧
      onThread thread (onCallMem (enterInitialize memory.ptr)) p₁ = .ok () p₂ ∧
      loadMinstBegun thread systems build p = Minst.createBegun build (p.view thread) ++
        inst.initializeBegun build.initRun (p₂.view thread) := by
  rw [loadMinstBegun]
  cases h₁ : onThread thread (Minst.create build) p
  case error => exact .inl <| by rw [after_error h₁, List.append_nil]
  case ok result p₁ =>
    rw [after_ok h₁]
    cases result
    case error => exact .inl <| List.append_nil _
    case ok inst =>
      simp only
      cases he : getSystemImplExports inst systems fun _ => none
      case error => exact .inl <| List.append_nil _
      case ok exports =>
        simp only
        cases hm : inst.exports.find? (·.kind = .memory)
        case none => exact .inl <| List.append_nil _
        case some memory =>
          simp only
          cases h₂ : onThread thread (onCallMem (enterInitialize memory.ptr)) p₁
          case error => exact .inl <| by rw [after_error h₂, List.append_nil]
          case ok p₂ =>
            exact .inr ⟨inst, p₁, exports, memory, p₂, rfl, he, hm, h₂, by rw [after_ok h₂]⟩

theorem returned_loadMinst {r : Option SiError} (h : loadMinst thread systems build p = .ok r p') :
    ∀ b ∈ loadMinstBegun thread systems build p, Returned b := by
  obtain ⟨result, p₁, hc, h⟩ := bind_eq_ok.mp h
  obtain ⟨_, hw, _⟩ := zoom_eq_ok.mp hc
  have hr := returned_create hw
  cases @loadMinstBegun_cases p thread systems build
  case inl hb => exact hb ▸ hr
  case inr hb =>
    obtain ⟨inst, _, exports, memory, p₂, hc', hs, hm, he, hb⟩ := hb
    cases hc.symm.trans hc'
    simp only [hs, hm] at h
    obtain ⟨_, _, ha, h⟩ := bind_eq_ok.mp h
    cases assert_eq_ok ha
    obtain ⟨_, _, he', h⟩ := bind_eq_ok.mp h
    cases he.symm.trans he'
    obtain ⟨_, _, hi, _⟩ := bind_eq_ok.mp h
    obtain ⟨_, hi, _⟩ := zoom_eq_ok.mp hi
    rw [hb]
    exact List.forall_mem_append.mpr ⟨hr, returned_callInitialize hi⟩

theorem returned_loadLoop {n i : Nat} {r : Option SiError}
    (h : loadLoop thread systems builds n i p = .ok r p') :
    ∀ b ∈ loadLoopBegun thread systems builds n i p, Returned b := by
  induction n generalizing i p
  case zero => nofun
  case succ n hi =>
    obtain ⟨err, p₁, hl, h⟩ := bind_eq_ok.mp h
    rw [loadLoopBegun, after_ok hl]
    refine List.forall_mem_append.mpr ⟨returned_loadMinst hl, ?_⟩
    cases err
    case none   => exact hi h
    case some _ => nofun

-- In a step which comes to its end, all calls have returned.
theorem Step.returned (hs : Step p event p') : ∀ b ∈ event.begun p, Returned b := by
  have hr := hs.run
  clear hs
  cases event
  case load thread systems builds =>
    obtain ⟨_, _, hl, _⟩ := bind_eq_ok.mp hr
    rw [Event.begun]
    split
    case isFalse => nofun
    case isTrue hi =>
      rw [ecsactSiWasmLoad, bind_ok (get_apply p), if_neg (by simp [hi]),
        bind_ok (modify_apply _ p)] at hl
      obtain ⟨_, _, hl, _⟩ := bind_eq_ok.mp hl
      exact returned_loadLoop hl
  case guest thread call =>
    obtain ⟨_, _, hg, _⟩ := bind_eq_ok.mp hr
    obtain ⟨w, hw, _⟩ := zoom_eq_ok.mp hg
    cases trap_eq_none call.mem call.typed hw
    exact fun b hb => List.mem_singleton.mp hb ▸ ⟨w, hw⟩
  all_goals nofun

-- A module whose functions call no imports.

theorem loadMinstBegun_eq_nil (hs : build.startRun.calls = []) (hi : build.initRun.calls = []) :
    loadMinstBegun thread systems build p = [] := by
  have hc : Minst.createBegun build (p.view thread) = [] := by
    cases @createBegun_cases (p.view thread) build
    case inl hb => exact hb
    case inr hb =>
      obtain ⟨_, _, _, _, _, hb⟩ := hb
      rw [hb, hs, ImportCall.begun]
  cases @loadMinstBegun_cases p thread systems build
  case inl hb => rw [hb, hc]
  case inr hb =>
    obtain ⟨inst, _, _, _, p₂, _, _, _, _, hb⟩ := hb
    rw [hb, hc, List.nil_append]
    cases @initializeBegun_cases (p₂.view thread) inst build.initRun
    case inl hb => exact hb
    case inr hb =>
      obtain ⟨_, _, _, hb⟩ := hb
      rw [hb, hi, ImportCall.begun]

theorem loadLoopBegun_eq_nil {n i : Nat} (hs : ∀ k, (builds k).startRun.calls = [])
    (hi : ∀ k, (builds k).initRun.calls = []) : loadLoopBegun thread systems builds n i p = [] := by
  induction n generalizing i p
  case zero => rfl
  case succ n hn =>
    rw [loadLoopBegun, loadMinstBegun_eq_nil (hs i) (hi i), List.nil_append]
    refine after_eq_nil fun err p' => ?_
    split
    case isTrue  => exact hn
    case isFalse => rfl

theorem Event.begun_load (hs : ∀ k, (builds k).startRun.calls = [])
    (hi : ∀ k, (builds k).initRun.calls = []) : (load thread systems builds).begun p = [] := by
  rw [begun, loadLoopBegun_eq_nil hs hi, ite_self]

end Program
end Ecsact
