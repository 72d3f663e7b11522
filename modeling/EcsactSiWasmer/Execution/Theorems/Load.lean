import EcsactSiWasmer.Execution.Outcome
import EcsactSiWasmer.Imports.Theorems.Signatures

open EStateM Ecsact.World Ecsact.CallMem

namespace Ecsact

section

variable {w w' : World} {trap : Option Trap}

theorem GuestRun.callImports_eq_none {calls : List ImportCall}
    (h : callImports calls w = .ok trap w') : trap = none := by
  induction calls generalizing w
  case nil =>
    cases h
    rfl
  case cons call calls hi =>
    have ⟨trap₁, w₁, h₁, h⟩ := bind_eq_ok.mp h
    cases trap_eq_none call.mem call.typed h₁
    exact hi h

-- No import returns a trap, so that a guest's function returns its own or none.
theorem GuestRun.call_eq {guest : GuestRun} (h : guest.call w = .ok trap w') :
    trap = guest.trap.map Trap.mk := by
  have ⟨trap₁, w₁, h₁, h⟩ := bind_eq_ok.mp h
  cases callImports_eq_none h₁
  cases h
  rfl

theorem MinstExport.funcCall_eq {exp : MinstExport} {guest : GuestRun}
    (h : exp.funcCall guest w = .ok trap w') : trap = guest.trap.map Trap.mk := by
  have ⟨_, _, _, h⟩ := bind_eq_ok.mp h
  split at h
  case isTrue  => exact GuestRun.call_eq h
  case isFalse => cases h

end

namespace Build

variable {build : Build} {w w' : World}

theorem create_eq {result : Except MinstError Minst} (h : Minst.create build w = .ok result w') :
    result = build.minst := by
  simp only [Minst.create, minst] at h ⊢
  cases hm : build.module
  case error => rw [hm] at h; cases h; rfl
  case ok module =>
    simp only [hm] at h ⊢
    cases hf : module.imports.find? fun imp => (importResolver imp).isNone
    case some => rw [hf] at h; cases h; rfl
    case none =>
      simp only [hf] at h ⊢
      obtain ⟨r, w₁, h₁, h⟩ := bind_eq_ok.mp h
      simp only [Minst.instanceNew] at h₁
      cases he : build.externs
      case error => rw [he] at h₁; cases h₁; cases h; rfl
      case ok ptrs =>
        simp only [he] at h₁ ⊢
        obtain ⟨trap, w₂, h₂, h₁⟩ := bind_eq_ok.mp h₁
        cases GuestRun.call_eq h₂
        cases ht : build.startRun.trap
        all_goals
          rw [ht] at h₁
          cases h₁
          cases h
          rfl

theorem code_ne_ok {err : MinstError} (h : build.minst = .error err) : err.code ≠ .ok := by
  simp only [minst] at h
  split at h
  case h_1 => cases h; nofun
  case h_2 =>
    split at h
    case h_1 => cases h; nofun
    case h_2 => split at h <;> cases h <;> nofun

theorem callInitialize_eq {inst : Minst} {guest : GuestRun} {trap : Option Trap}
    (h : inst.callInitialize guest w = .ok trap w') :
    trap.isSome ↔ (inst.findExport "_initialize").isSome ∧ guest.trap.isSome := by
  simp only [Minst.callInitialize] at h
  cases hf : inst.findExport "_initialize"
  case none     => rw [hf] at h; cases h; simp
  case some exp =>
    rw [hf] at h
    cases MinstExport.funcCall_eq h
    simp

end Build

-- The systems for which the loop has found a function.
theorem getSystemImplExports_isSome {inst : Minst} {systems : List (SystemId × String)}
    {exports exports' : SystemId → Option MinstExport}
    (h : getSystemImplExports inst systems exports = .ok exports') (id : SystemId) :
    (exports' id).isSome ↔ (exports id).isSome ∨ id ∈ systems.map Prod.fst := by
  induction systems generalizing exports
  case nil =>
    cases h
    simp
  case cons e systems hi =>
    simp only [getSystemImplExports] at h
    split at h
    case h_1 => cases h
    case h_2 =>
      split at h
      case isTrue => cases h
      case isFalse =>
        rw [hi h, List.map_cons, List.mem_cons]
        by_cases he : id = e.1
        case pos => simp [he]
        case neg => simp [he]

theorem getSystemImplExports_ne_ok {inst : Minst} {systems : List (SystemId × String)}
    {exports : SystemId → Option MinstExport} :
    getSystemImplExports inst systems exports ≠ .error .ok := by
  induction systems generalizing exports
  case nil => nofun
  case cons e systems hi =>
    simp only [getSystemImplExports]
    split
    case h_1 => nofun
    case h_2 =>
      split
      case isTrue  => nofun
      case isFalse => exact hi

theorem Build.error_ne_ok (build : Build) (systems : List (SystemId × String)) :
    build.error systems ≠ some .ok := by
  simp only [error]
  split
  case h_1 err _ => cases err.code <;> nofun
  case h_2 inst _ =>
    split
    case h_1 err h =>
      intro he
      cases he
      exact getSystemImplExports_ne_ok h
    case h_2 => split <;> nofun

namespace Program

-- Steps which leave everything but guests, call memories and the last error message alone.
def Touched (p p' : Program) : Prop :=
  ∃ w c message, p' = { p with world := w, callMemInfo := c, lastErrorMessage := message }

-- The same after some instances have been added to the pool.
def Extended (made : List SystemImpls) (p p' : Program) : Prop :=
  ∃ w c message, p' = { p with
    world            := w
    callMemInfo      := c
    lastErrorMessage := message
    allMinsts        := p.allMinsts ++ made
    created          := p.created + made.length
  }

instance : IsPreorder Program Touched where
  refl p := ⟨p.world, p.callMemInfo, p.lastErrorMessage, rfl⟩
  trans := by
    rintro p _ _ ⟨_, _, _, rfl⟩ ⟨w, c, message, rfl⟩
    exact ⟨w, c, message, rfl⟩

section

variable {α : Type} {p p' p'' : Program} {thread : ThreadId} {made made' : List SystemImpls}

theorem touched_onThread {x : CallbackM α} : Within Touched (onThread thread x) := by
  intro p
  simp only [onThread, EStateM.zoom]
  split <;> exact ⟨_, _, p.lastErrorMessage, rfl⟩

theorem view_put_callMem {w : World} : ((p.put thread w).view thread).callMem = w.callMem :=
  congrArg (CallMem.mk w.callMem.ndebug) <| Function.update_self ..

theorem onThread_callMem {x : CallMemM α} {a : α}
    (h : onThread thread (onCallMem x) p = .ok a p') :
    x (p.view thread).callMem = .ok a (p'.view thread).callMem := by
  have ⟨w, hw, hp⟩ := zoom_eq_ok.mp h
  have ⟨c, hc, hw⟩ := zoom_eq_ok.mp hw
  rw [hc, hp, view_put_callMem, hw]

theorem touched_assert {c : Bool} : Within Touched (assert c) :=
  .bind .get fun _ => .ite .throw .pure

theorem touched_createError {code : MinstErrorCode} : Within Touched (createError code) := by
  cases code
  case ok => exact touched_assert.bind fun _ => .pure
  all_goals exact .pure

theorem Touched.allMinsts (h : Touched p p') : p'.allMinsts = p.allMinsts := by
  obtain ⟨_, _, _, rfl⟩ := h
  rfl

theorem Touched.threadMinst (h : Touched p p') : p'.threadMinst = p.threadMinst := by
  obtain ⟨_, _, _, rfl⟩ := h
  rfl

theorem Touched.running (h : Touched p p') : p'.running = p.running := by
  obtain ⟨_, _, _, rfl⟩ := h
  rfl

theorem Touched.extended (h : Touched p p') : Extended [] p p' := by
  obtain ⟨w, c, message, rfl⟩ := h
  exact ⟨w, c, message, by simp⟩

theorem Extended.touched (h : Extended made p p') (ht : Touched p' p'') : Extended made p p'' := by
  obtain ⟨_, _, _, rfl⟩ := h
  obtain ⟨w, c, message, rfl⟩ := ht
  exact ⟨w, c, message, rfl⟩

theorem Extended.trans (h : Extended made p p') (h' : Extended made' p' p'') :
    Extended (made ++ made') p p'' := by
  obtain ⟨_, _, _, rfl⟩ := h
  obtain ⟨w, c, message, rfl⟩ := h'
  exact ⟨w, c, message, by simp [Nat.add_assoc]⟩

theorem createError_ok {code : MinstErrorCode} {err : SiError}
    (h : createError code p = .ok err p') (hc : code ≠ .ok) : err = Build.toSiError code := by
  cases code
  case ok => exact absurd rfl hc
  all_goals
    cases h
    rfl

theorem assert_eq_ok {c : Bool} (h : assert c p = .ok () p') : p' = p := by
  have ⟨_, _, hg, h⟩ := bind_eq_ok.mp h
  cases hg
  split at h <;> cases h
  rfl

end

-- Instances which are made for the given systems, numbered from a number on.
def Made (systems : List (SystemId × String)) (start : Nat) (made : List SystemImpls) : Prop :=
  ∀ k (h : k < made.length), made[k].id = start + k ∧
    ∀ id, (made[k].sysImplExports id).isSome ↔ id ∈ systems.map Prod.fst

variable {systems : List (SystemId × String)} {build : Build} {builds : Nat → Build}
  {p p' : Program} {thread : ThreadId} {result : Option SiError}

theorem Built.made {m : SystemImpls} (h : Built systems build m) : Made systems m.id [m] := by
  intro k hk
  have hk : k = 0 := by simpa using hk
  subst hk
  refine ⟨rfl, fun id => ?_⟩
  simpa using getSystemImplExports_isSome h.exports id

-- How an iteration of the load ends, with the states between its steps.
inductive LoadsMinst (thread : ThreadId) (systems : List (SystemId × String)) (build : Build)
    (p : Program) : Option SiError → Program → Prop
  | create {err : MinstError} {code : SiError} {p₁ p' : Program} :
      onThread thread (Minst.create build) p = .ok (.error err) p₁ →
      createError err.code { p₁ with lastErrorMessage := err.message } = .ok code p' →
      LoadsMinst thread systems build p (some code) p'
  | exports {inst : Minst} {err : SiError} {p' : Program} :
      onThread thread (Minst.create build) p = .ok (.ok inst) p' →
      getSystemImplExports inst systems (fun _ => none) = .error err →
      LoadsMinst thread systems build p (some err) p'
  | traps {inst : Minst} {exports : SystemId → Option MinstExport} {memory : MinstExport}
      {trap : Trap} {p₁ p₂ p₃ p' : Program} :
      onThread thread (Minst.create build) p = .ok (.ok inst) p₁ →
      getSystemImplExports inst systems (fun _ => none) = .ok exports →
      inst.exports.find? (·.kind = .memory) = some memory →
      onThread thread (onCallMem (enterInitialize memory.ptr)) p₁ = .ok () p₂ →
      onThread thread (inst.callInitialize build.initRun) p₂ = .ok (some trap) p₃ →
      onThread thread (onCallMem (setCallMemData none 0)) p₃ = .ok () p' →
      LoadsMinst thread systems build p (some .initializeFail) p'
  | done {inst : Minst} {exports : SystemId → Option MinstExport} {memory : MinstExport}
      {p₁ p₂ p₃ p₄ p' : Program} :
      onThread thread (Minst.create build) p = .ok (.ok inst) p₁ →
      getSystemImplExports inst systems (fun _ => none) = .ok exports →
      inst.exports.find? (·.kind = .memory) = some memory →
      onThread thread (onCallMem (enterInitialize memory.ptr)) p₁ = .ok () p₂ →
      onThread thread (inst.callInitialize build.initRun) p₂ = .ok none p₃ →
      onThread thread (onCallMem (setCallMemData none 0)) p₃ = .ok () p₄ →
      emplaceBack inst exports memory p₄ = .ok () p' → LoadsMinst thread systems build p none p'

theorem loadMinst_cases (h : loadMinst thread systems build p = .ok result p') :
    LoadsMinst thread systems build p result p' := by
  have ⟨r, p₁, h₁, h⟩ := bind_eq_ok.mp h
  cases r
  case error err =>
    have ⟨_, _, h₂, h⟩ := bind_eq_ok.mp h
    cases h₂
    have ⟨_, _, h₃, h⟩ := bind_eq_ok.mp h
    cases h
    exact .create h₁ h₃
  case ok inst =>
    simp only at h
    cases he : getSystemImplExports inst systems fun _ => none
    case error =>
      simp only [he] at h
      cases h
      exact .exports h₁ he
    case ok exports =>
      simp only [he] at h
      have ⟨_, _, h₂, h⟩ := bind_eq_ok.mp h
      cases assert_eq_ok h₂
      cases hf : inst.exports.find? (·.kind = .memory)
      case none => rw [hf] at h; cases h
      case some memory =>
        simp only [hf] at h
        have ⟨_, _, h₃, h⟩ := bind_eq_ok.mp h
        have ⟨trap, _, h₄, h⟩ := bind_eq_ok.mp h
        have ⟨_, _, h₅, h⟩ := bind_eq_ok.mp h
        cases trap
        case some =>
          cases h
          exact .traps h₁ he hf h₃ h₄ h₅
        case none =>
          have ⟨_, _, h₆, h⟩ := bind_eq_ok.mp h
          cases h
          exact .done h₁ he hf h₃ h₄ h₅ h₆

-- What the instantiation and `_initialize` return is told by the module.
theorem create_eq {r : Except MinstError Minst}
    (h : onThread thread (Minst.create build) p = .ok r p') : build.minst = r :=
  have ⟨_, hc, _⟩ := zoom_eq_ok.mp h
  (Build.create_eq hc).symm

theorem callInitialize_eq {inst : Minst} {guest : GuestRun} {trap : Option Trap}
    (h : onThread thread (inst.callInitialize guest) p = .ok trap p') :
    trap.isSome ↔ (inst.findExport "_initialize").isSome ∧ guest.trap.isSome :=
  have ⟨_, hi, _⟩ := zoom_eq_ok.mp h
  Build.callInitialize_eq hi

-- What an iteration of the load does when it goes on, and when it fails.
theorem loadMinst_ok (h : loadMinst thread systems build p = .ok result p') :
    result = build.error systems ∧
      ∃ made, Extended made p p' ∧ Made systems p.created made ∧
        made.length = (if result = none then 1 else 0) ∧ ∀ m ∈ made, Built systems build m := by
  have touched {α : Type} {x : CallbackM α} {a : α} {p p' : Program}
      (h : onThread thread x p = .ok a p') : Touched p p' := touched_onThread.of_ok h
  cases loadMinst_cases h
  case create err code p₁ h₁ h₂ =>
    have hm := create_eq h₁
    have hcode : code = Build.toSiError err.code := createError_ok h₂ <| Build.code_ne_ok hm
    refine ⟨by simp [Build.error, hm, hcode], [], ?_, nofun, rfl, nofun⟩
    exact ((touched h₁).extended.touched ⟨_, _, _, rfl⟩).touched (touched_createError.of_ok h₂)
  case exports inst err he h₁ =>
    have hm := create_eq h₁
    exact ⟨by simp [Build.error, hm, he], [], (touched h₁).extended, nofun, rfl, nofun⟩
  case traps inst exports memory trap p₁ p₂ p₃ h₁ he hf h₂ h₃ h₄ =>
    have hm := create_eq h₁
    have hx : (inst.findExport "_initialize").isSome ∧ build.initRun.trap.isSome := by
      simpa using callInitialize_eq h₃
    refine ⟨by simp [Build.error, hm, he, hx], [], ?_, nofun, rfl, nofun⟩
    exact ((touched h₁).extended.touched (touched h₂)).touched (touched h₃) |>.touched (touched h₄)
  case done inst exports memory p₁ p₂ p₃ p₄ h₁ he hf h₂ h₃ h₄ h₅ =>
    have hm := create_eq h₁
    have hx : ¬((inst.findExport "_initialize").isSome ∧ build.initRun.trap.isSome) := by
      simpa using callInitialize_eq h₃
    have ht : Touched p p₄ := trans_of Touched (touched h₁) <| trans_of Touched (touched h₂) <|
      trans_of Touched (touched h₃) (touched h₄)
    cases h₅
    obtain ⟨w, c, message, rfl⟩ := ht
    have hb : Built systems build ⟨p.created, inst, exports, memory⟩ := ⟨hm, he, hf⟩
    exact ⟨by simp only [Build.error, hm, he, if_neg hx], [⟨p.created, inst, exports, memory⟩],
      ⟨w, c, message, rfl⟩, hb.made, rfl, List.forall_mem_singleton.mpr hb⟩

theorem Made.append {start : Nat} {made made' : List SystemImpls} (h : Made systems start made)
    (h' : Made systems (start + made.length) made') : Made systems start (made ++ made') := by
  intro k hk
  rw [List.length_append] at hk
  by_cases hl : k < made.length
  case pos =>
    rw [List.getElem_append_left hl]
    exact h k hl
  case neg =>
    have ⟨hi, he⟩ := h' (k - made.length) (by omega)
    rw [List.getElem_append_right (by omega)]
    exact ⟨by omega, he⟩

-- The loop stops at the first error.
theorem loadLoop_ok {n i : Nat} (h : loadLoop thread systems builds n i p = .ok result p') :
    ∃ made, Extended made p p' ∧ Made systems p.created made ∧ made.length ≤ n ∧
      (∀ k < made.length, (builds (i + k)).error systems = none) ∧
      (made.length < n → (builds (i + made.length)).error systems = result ∧ result ≠ none) ∧
      (made.length = n → result = none) ∧
      ∀ k (h : k < made.length), Built systems (builds (i + k)) made[k] := by
  induction n generalizing i p
  case zero =>
    cases h
    exact ⟨[], (refl_of Touched _).extended, nofun, le_rfl, nofun, nofun, fun _ => rfl, nofun⟩
  case succ n hi =>
    have ⟨r, p₁, h₁, h⟩ := bind_eq_ok.mp h
    have ⟨hr, made, he, hm, hl, hb⟩ := loadMinst_ok h₁
    cases r
    case some err =>
      cases h
      have hl : made = [] := List.eq_nil_of_length_eq_zero hl
      subst hl
      exact ⟨[], he, hm, Nat.zero_le _, nofun, fun _ => ⟨hr.symm, nofun⟩, nofun, nofun⟩
    case none =>
      have hl : made.length = 1 := hl
      have ⟨made', he', hm', hl', hn, hs, hd, hb'⟩ := hi h
      have hc : p₁.created = p.created + made.length := by
        obtain ⟨_, _, _, rfl⟩ := he
        rfl
      rw [hc] at hm'
      refine ⟨made ++ made', he.trans he', hm.append hm', ?_, fun k hk => ?_, fun hk => ?_,
        fun hk => hd ?_, fun k hk => ?_⟩
      · rw [List.length_append]
        omega
      · rw [List.length_append] at hk
        cases k
        case zero   => exact hr.symm
        case succ k => simpa [Nat.add_assoc, Nat.add_comm 1] using hn k <| by omega
      · rw [List.length_append] at hk ⊢
        have hs := hs <| by omega
        rwa [hl, ← Nat.add_assoc]
      · rw [List.length_append] at hk
        omega
      · cases k
        case zero =>
          rw [List.getElem_append_left (by omega)]
          exact hb _ <| List.getElem_mem _
        case succ k =>
          rw [List.length_append] at hk
          have hx := hb' k <| by omega
          rw [List.getElem_append_right (by omega)]
          simpa [hl, Nat.add_assoc, Nat.add_comm 1] using hx

-- What a load leaves, by its error and the instances that it has made.
inductive Loads (systems : List (SystemId × String)) (builds : Nat → Build) (p : Program) :
    SiError → Program → Prop
  | unset : p.setSystemExecutionImpl = false → Loads systems builds p .noSetSystemExecution p
  | done {made p'} : p.setSystemExecutionImpl = true → made.length = 100 →
      Made systems p.created made → (∀ k < 100, (builds k).error systems = none) →
      Extended made
        { p with allMinsts := [], registered := p.registered ++ systems.map Prod.fst } p' →
      Loads systems builds p .ok p'
  | failed {made err p'} : p.setSystemExecutionImpl = true → made.length < 100 →
      Made systems p.created made → (∀ k < made.length, (builds k).error systems = none) →
      (builds made.length).error systems = some err → Extended made { p with allMinsts := [] } p' →
      Loads systems builds p err p'

-- The load is its loop, which starts with an empty pool.
theorem ecsactSiWasmLoad_cases {err : SiError}
    (h : ecsactSiWasmLoad thread systems builds p = .ok err p') :
    (p.setSystemExecutionImpl = false ∧ err = .noSetSystemExecution ∧ p' = p) ∨
    p.setSystemExecutionImpl = true ∧ ∃ r p₁,
      loadLoop thread systems builds 100 0 { p with allMinsts := [] } = .ok r p₁ ∧
      (r = none ∧ err = .ok ∧ p' = { p₁ with registered := p₁.registered ++ systems.map Prod.fst } ∨
        r = some err ∧ p' = p₁) := by
  have ⟨_, _, hg, h⟩ := bind_eq_ok.mp h
  cases hg
  by_cases hs : p.setSystemExecutionImpl = true
  case neg =>
    simp only [hs] at h
    cases h
    exact .inl ⟨by simpa using hs, rfl, rfl⟩
  case pos =>
    simp only [hs] at h
    have ⟨_, _, hc, h⟩ := bind_eq_ok.mp h
    cases hc
    have ⟨r, p₁, h₁, h⟩ := bind_eq_ok.mp h
    refine .inr ⟨hs, r, p₁, h₁, ?_⟩
    cases r
    case none =>
      cases h
      exact .inl ⟨rfl, rfl, rfl⟩
    case some =>
      cases h
      exact .inr ⟨rfl, rfl⟩

theorem ecsactSiWasmLoad_ok {err : SiError}
    (h : ecsactSiWasmLoad thread systems builds p = .ok err p') : Loads systems builds p err p' := by
  cases ecsactSiWasmLoad_cases h
  case inl h =>
    obtain ⟨hs, rfl, rfl⟩ := h
    exact .unset hs
  case inr h =>
    have ⟨hs, r, p₁, h₁, h⟩ := h
    have ⟨made, he, hm, hl, hn, hf, hd, _⟩ := loadLoop_ok h₁
    simp only [Nat.zero_add] at hn hf
    cases h
    case inl h =>
      obtain ⟨rfl, rfl, rfl⟩ := h
      have hl : made.length = 100 := by
        by_contra hc
        exact (hf <| by omega).2 rfl
      refine .done hs hl hm (hl ▸ hn) ?_
      obtain ⟨w, c, message, rfl⟩ := he
      exact ⟨w, c, message, rfl⟩
    case inr h =>
      obtain ⟨rfl, rfl⟩ := h
      have hl : made.length < 100 := by
        by_contra hc
        cases hd <| by omega
      exact .failed hs hl hm hn (hf hl).1 he

-- The pool after a load, unless the load has not got to it.
theorem ecsactSiWasmLoad_built {err : SiError}
    (h : ecsactSiWasmLoad thread systems builds p = .ok err p') :
    (p.setSystemExecutionImpl = false ∧ p' = p ∧ err = .noSetSystemExecution) ∨
      ∀ k (h : k < p'.allMinsts.length), Built systems (builds k) p'.allMinsts[k] := by
  refine (ecsactSiWasmLoad_cases h).imp (fun h => ⟨h.1, h.2.2, h.2.1⟩) fun h => ?_
  have ⟨_, r, p₁, h₁, h⟩ := h
  have ⟨made, he, _, _, _, _, _, hb⟩ := loadLoop_ok h₁
  simp only [Nat.zero_add] at hb
  have ha : p₁.allMinsts = made := by
    obtain ⟨_, _, _, rfl⟩ := he
    exact List.nil_append made
  have hp : p'.allMinsts = made := by
    cases h
    case inl h => exact h.2.2 ▸ ha
    case inr h => exact h.2 ▸ ha
  exact hp ▸ hb

end Program
end Ecsact
