import EcsactSiWasmer.Execution.Theorems.FailedLoad
import EcsactSiWasmer.Execution.Traps

open EStateM Ecsact.World Ecsact.CallMem

namespace Ecsact

namespace ImportCall

theorem made_eq {calls : List ImportCall} {w w' : World} {trap : Option Trap}
    (h : GuestRun.callImports calls w = .ok trap w') : made calls w = calls := by
  induction calls generalizing w
  case nil => rfl
  case cons call calls hi =>
    have ⟨trap₁, w₁, h₁, h⟩ := bind_eq_ok.mp h
    cases trap_eq_none call.mem call.typed h₁
    simp only [made, h₁]
    exact congrArg (call :: ·) (hi h)

theorem made_eq_of_funcCall {exp : MinstExport} {guest : GuestRun} {w w' : World}
    {trap : Option Trap} (h : exp.funcCall guest w = .ok trap w') :
    made guest.calls w = guest.calls := by
  have ⟨_, _, ha, h⟩ := bind_eq_ok.mp h
  have ⟨_, ha, hw⟩ := zoom_eq_ok.mp ha
  cases assert_eq_ok ha
  cases hw
  split at h
  case isFalse => cases h
  case isTrue =>
    have ⟨_, _, h, _⟩ := bind_eq_ok.mp h
    exact made_eq h

end ImportCall

open ImportCall

namespace Program

variable {p p' : Program} {thread : ThreadId} {ctx : CtxPtr} {guest : BitVec 32 → GuestRun}
  {id : SystemId} {calls : List ImportCall} {trap : Option Trap}

theorem report_eq_nil {message : String} : p.report id message = [] ↔ p.trapHandler = none := by
  simp [report]

theorem reports_iff (h : p'.reports = p.reports) : p.Reports p' id calls trap ↔
    p.trapHandler = none ∨ trap = none ∧ ¬Exits calls := by
  cases trap
  case some trap => simp [Reports, h, report_eq_nil]
  case none      => by_cases hx : Exits calls <;> simp [Reports, h, hx, report_eq_nil]

-- An execution by its parts, none of which calls the handler.
theorem ecsactSiWasmSystemImpl_ok (h : ecsactSiWasmSystemImpl thread ctx guest p = .ok () p') :
    (∃ exp p₁ w, enterSystemImpl thread ctx p = .ok (exp, 8) p₁ ∧
      exp.funcCall (guest 8) (p₁.view thread) = .ok ((guest 8).trap.map Trap.mk) w ∧
      made (guest 8).calls (p₁.view thread) = (guest 8).calls) ∧
    p'.reports = p.reports ∧ p'.trapHandler = p.trapHandler := by
  have ⟨(exp, handle), p₁, h₁, hg⟩ := bind_eq_ok.mp h
  have ⟨trap, p₂, h₂, hl⟩ := bind_eq_ok.mp hg
  have ⟨hh, minst, p₃, p₄, he, ht, _, hp⟩ := enterSystemImpl_ok h₁
  cases hh
  have ⟨w, hf, _⟩ := zoom_eq_ok.mp h₂
  have ⟨_, ht', hp'⟩ := leaveSystemImpl_ok hl
  refine ⟨⟨exp, p₁, w, h₁, MinstExport.funcCall_eq hf ▸ hf, made_eq_of_funcCall hf⟩, ?_⟩
  obtain ⟨_, _, rfl⟩ := ensureMinst_with he
  obtain ⟨_, _, _, rfl⟩ := ht
  subst hp
  obtain ⟨_, _, _, rfl⟩ := trans_of Touched (touched_onThread.of_ok h₂) ht'
  exact hp' ▸ ⟨rfl, rfl⟩

theorem tells_iff (h : (Call.systemImpl thread ctx guest).run p = .ok () p') :
    (Call.systemImpl thread ctx guest).Tells p p' ↔ Stops (guest 8).calls ∧
      (p.trapHandler = none ∨ (guest 8).trap = none ∧ ¬Exits (guest 8).calls) := by
  have ⟨⟨exp, p₁, w, he, hf, hm⟩, hr, _⟩ := ecsactSiWasmSystemImpl_ok h
  have hx {id : SystemId} : p.Reports p' id (guest 8).calls ((guest 8).trap.map Trap.mk) ↔
      p.trapHandler = none ∨ (guest 8).trap = none ∧ ¬Exits (guest 8).calls := by
    rw [reports_iff hr, Option.map_eq_none_iff]
  constructor
  case mp =>
    intro ⟨_, _, _, _, _, he', hf', hs, ht⟩
    cases he.symm.trans he'
    cases hf.symm.trans hf'
    rw [hm] at hs ht
    exact ⟨hs, hx.mp ht⟩
  case mpr =>
    intro ⟨hs, ht⟩
    refine ⟨exp, 8, p₁, _, w, he, hf, ?_⟩
    rw [hm]
    exact ⟨hs, hx.mpr ht⟩

-- The ends of the guests' functions are told exactly if there is nothing to tell.
theorem tell_iff {calls : List Call} (h : runCalls calls p = .ok () p') :
    Tell calls p ↔ Uneventful p.trapHandler calls := by
  induction calls generalizing p
  case nil => exact iff_of_true trivial trivial
  case cons call calls hi =>
    have ⟨_, p₁, h₁, h⟩ := bind_eq_ok.mp h
    have hq : Tell (call :: calls) p ↔ call.Tells p p₁ ∧ Uneventful p₁.trapHandler calls := by
      simp [Tell, h₁, hi h]
    cases call
    case setTrapHandler handler =>
      cases h₁
      exact hq.trans <| and_iff_right rfl
    case systemImpl thread ctx guest =>
      rw [(ecsactSiWasmSystemImpl_ok h₁).2.2] at hq
      rw [hq, tells_iff h₁, Uneventful]

-- An execution in the first thread, after a handler has been installed.
def plainCalls (handler : Option TrapHandler) (guest : GuestRun) : List Call :=
  [.setTrapHandler handler, .systemImpl 0 0 fun _ => guest]

theorem tell_iff_plainCalls : ∃ p', runCalls (plainCalls (some 64) {}) loaded = .ok () p' ∧
    (Tell (plainCalls (some 64) {}) loaded ↔ Uneventful none (plainCalls (some 64) {})) :=
  have ⟨p', h⟩ : ∃ p', runCalls (plainCalls (some 64) {}) loaded = .ok () p' := ⟨_, rfl⟩
  ⟨p', h, tell_iff h⟩

theorem procExit_mem : ("proc_exit", ⟨wasmFunctypeNew10 .i32, ecsactSiWasiProcExit⟩) ∈
    importTables := by
  simp [importTables, guestWasiModuleImports]

def procExit : ImportCall where
  name  := "proc_exit"
  func  := ⟨wasmFunctypeNew10 .i32, ecsactSiWasiProcExit⟩
  mem   := procExit_mem
  args  := [.i32 1]
  typed := rfl

-- A trap is lost, and a guest goes on after `proc_exit`.
theorem plainCalls_not_tell : Reachable loaded ∧
    (∃ p', runCalls (plainCalls (some 64) { trap := some "unreachable" }) loaded = .ok () p' ∧
      ¬Tell (plainCalls (some 64) { trap := some "unreachable" }) loaded) ∧
    ∃ p', runCalls (plainCalls none { calls := [procExit, procExit] }) loaded = .ok () p' ∧
      ¬Tell (plainCalls none { calls := [procExit, procExit] }) loaded := by
  refine ⟨loaded_reachable, ⟨_, rfl, fun h => ?_⟩, _, rfl, fun h => ?_⟩
  · have ⟨_, h₁, _, _, h₂, h, _⟩ := h
    cases h₁
    cases ((tells_iff h₂).mp h).2
    case inl h => cases h
    case inr h => cases h.1
  · have ⟨_, h₁, _, _, h₂, h, _⟩ := h
    cases h₁
    have hs : Stops [procExit, procExit] := ((tells_iff h₂).mp h).1
    simp [Stops, procExit] at hs

end Program
end Ecsact
