import EcsactSiWasmer.Execution.LastError
import EcsactSiWasmer.Execution.Theorems.FailedLoad
import EcsactSiWasmer.Execution.Theorems.Idle
import EcsactSiWasmer.Lib.Along

open EStateM Ecsact.World Ecsact.CallMem

namespace Ecsact

namespace Program

variable {p p' : Program} {thread : ThreadId} {systems : List (SystemId × String)} {build : Build}
  {builds : Nat → Build} {n i : Nat} {message : String}

def withMessage (message : String) (p : Program) : Program :=
  { p with lastErrorMessage := message }

-- The last error message is only ever written.
section

variable {α : Type}

theorem carries_onThread {x : CallbackM α} : Carries (withMessage message) (onThread thread x) :=
  .zoom (fun _ => rfl) fun _ _ => rfl

theorem carries_assert {c : Bool} : Carries (withMessage message) (assert c) :=
  .get_bind (fun _ => rfl) fun _ => .ite .throw .pure

theorem carries_createError {code : MinstErrorCode} :
    Carries (withMessage message) (createError code) := by
  cases code
  case ok => exact carries_assert.bind fun _ => .pure
  all_goals exact .pure

theorem carries_loadMinst : Carries (withMessage message) (loadMinst thread systems build) := by
  refine carries_onThread.bind fun result => ?_
  cases result
  case error err =>
    refine .bind (.modify fun _ => .inr rfl) fun _ => carries_createError.bind fun _ => .pure
  case ok inst =>
    simp only
    cases getSystemImplExports inst systems fun _ => none
    case error => exact .pure
    case ok exports =>
      refine carries_assert.bind fun _ => ?_
      cases inst.exports.find? (·.kind = .memory)
      case none => exact .throw
      case some memory =>
        refine carries_onThread.bind fun _ => carries_onThread.bind fun trap => ?_
        refine carries_onThread.bind fun _ => ?_
        cases trap
        case some => exact .pure
        case none => exact .bind (.modify fun _ => .inl rfl) fun _ => .pure

theorem carries_loadLoop : Carries (withMessage message) (loadLoop thread systems builds n i) := by
  induction n generalizing i
  case zero => exact .pure
  case succ n hi =>
    refine carries_loadMinst.bind fun result => ?_
    cases result
    case some => exact .pure
    case none => exact hi

theorem carries_load : Carries (withMessage message) (ecsactSiWasmLoad thread systems builds) := by
  refine .get_bind (fun _ => rfl) fun _ => .ite .pure ?_
  refine .bind (.modify fun _ => .inl rfl) fun _ => carries_loadLoop.bind fun r => ?_
  cases r
  case some => exact .pure
  case none => exact .bind (.modify fun _ => .inl rfl) fun _ => .pure

theorem onThread_message {x : CallbackM α} {a : α} (h : onThread thread x p = .ok a p') :
    p'.lastErrorMessage = p.lastErrorMessage := by
  have ⟨_, _, hp⟩ := zoom_eq_ok.mp h
  exact hp ▸ rfl

end

-- It is written where no instance is created, and nowhere else.

theorem loadMinst_message {r : Option SiError} (h : loadMinst thread systems build p = .ok r p') :
    match build.minst with
    | .error err => p'.lastErrorMessage = err.message
    | .ok _      => p'.lastErrorMessage = p.lastErrorMessage := by
  cases loadMinst_cases h
  case create h₁ h₂ =>
    rw [create_eq h₁]
    cases createError_state h₂
    rfl
  case exports _ h₁ =>
    rw [create_eq h₁]
    exact onThread_message h₁
  case traps h₁ _ _ h₂ h₃ h₄ =>
    rw [create_eq h₁]
    exact (onThread_message h₄).trans <| (onThread_message h₃).trans <|
      (onThread_message h₂).trans <| onThread_message h₁
  case done h₁ _ _ h₂ h₃ h₄ h₅ =>
    rw [create_eq h₁]
    cases h₅
    exact (onThread_message h₄).trans <| (onThread_message h₃).trans <|
      (onThread_message h₂).trans <| onThread_message h₁

theorem isSome_createMessage : (createMessage systems builds n i).isSome ↔
    ∃ k < n, (∀ j < k, (builds (i + j)).error systems = none) ∧
      ∃ err, (builds (i + k)).minst = .error err := by
  induction n generalizing i
  case zero => exact iff_of_false nofun nofun
  case succ n hi =>
    simp only [createMessage]
    cases hm : (builds i).minst
    case error err => exact iff_of_true rfl ⟨0, n.succ_pos, nofun, err, hm⟩
    case ok inst =>
      simp only
      split
      case isTrue he =>
        have hs j : i + (j + 1) = i + 1 + j := by omega
        rw [hi]
        constructor
        case mp =>
          intro ⟨k, hk, hj, herr⟩
          refine ⟨k + 1, Nat.succ_lt_succ hk, fun j hl => ?_, hs k ▸ herr⟩
          cases j
          case zero   => exact he
          case succ j => exact hs j ▸ hj j (Nat.lt_of_succ_lt_succ hl)
        case mpr =>
          intro ⟨k, hk, hj, err, hm'⟩
          cases k
          case zero   => cases hm.symm.trans hm'
          case succ k =>
            refine ⟨k, Nat.lt_of_succ_lt_succ hk, fun j hl => ?_, err, hs k ▸ hm'⟩
            exact hs j ▸ hj (j + 1) (Nat.succ_lt_succ hl)
      case isFalse he =>
        refine iff_of_false nofun fun hc => ?_
        have ⟨k, _, hj, err, hm'⟩ := hc
        cases k
        case zero   => cases hm.symm.trans hm'
        case succ => exact he <| hj 0 (Nat.succ_pos _)

theorem loadLoop_message {r : Option SiError}
    (h : loadLoop thread systems builds n i p = .ok r p') :
    p'.lastErrorMessage = (createMessage systems builds n i).getD p.lastErrorMessage := by
  induction n generalizing i p
  case zero =>
    cases h
    rfl
  case succ n hi =>
    have ⟨r₁, p₁, h₁, h⟩ := bind_eq_ok.mp h
    have hr := (loadMinst_ok h₁).1
    have hm := loadMinst_message h₁
    simp only [createMessage]
    cases hb : (builds i).minst
    case error err =>
      rw [hb] at hm
      cases r₁
      case none => simp [Build.error, hb] at hr
      case some =>
        cases h
        exact hm
    case ok inst =>
      rw [hb] at hm
      simp only [← hr]
      cases r₁
      case none => exact (hi h).trans <| hm ▸ rfl
      case some =>
        cases h
        exact hm

theorem load_message {err : SiError} (h : ecsactSiWasmLoad thread systems builds p = .ok err p') :
    p'.lastErrorMessage = (if p.setSystemExecutionImpl then
      createMessage systems builds 100 0 else none).getD p.lastErrorMessage := by
  cases ecsactSiWasmLoad_cases h
  case inl h =>
    obtain ⟨hs, _, rfl⟩ := h
    rw [hs]
    rfl
  case inr h =>
    obtain ⟨hs, r, p₁, h₁, h⟩ := h
    have hm := loadLoop_message h₁
    rw [if_pos hs]
    cases h
    case inl h => exact h.2.2 ▸ hm
    case inr h => exact h.2 ▸ hm

end Program

namespace LoadCall

open Program

variable {p p' : Program} {c : LoadCall} {message : String}

theorem isSome_stored : (c.stored p).isSome ↔ c.Stores p := by
  have hf {systems : List (SystemId × String)} {builds : Nat → Build} :
      (if p.setSystemExecutionImpl then createMessage systems builds 100 0 else none).isSome ↔
        p.setSystemExecutionImpl = true ∧ FailsInCreate systems builds := by
    cases p.setSystemExecutionImpl
    case false => simp
    case true  => simp [isSome_createMessage, FailsInCreate]
  cases c
  case load => exact hf
  case loadFile thread file systems engine =>
    cases file
    case missing => simp [stored, Stores]
    case unread  => simp [stored, Stores]
    case content bytes =>
      cases bytes
      case cons => simpa [stored, Stores] using hf
      case nil =>
        refine iff_of_false nofun fun hc => ?_
        obtain ⟨_, _, hn, he, _⟩ := hc
        cases he
        exact hn rfl

theorem carries_run : Carries (withMessage message) c.run := by
  cases c
  case load => exact carries_load
  case loadFile thread file systems engine =>
    simp only [run, ecsactSiWasmLoadFile]
    split
    case h_4 => exact carries_load
    all_goals exact .pure

theorem run_message {err : SiError} (h : c.run p = .ok err p') :
    p'.lastErrorMessage = (c.stored p).getD p.lastErrorMessage := by
  cases c
  case load => exact load_message h
  case loadFile thread file systems engine =>
    cases file
    case missing => cases h; rfl
    case unread  => cases h; rfl
    case content bytes =>
      cases bytes
      case nil  => cases h; rfl
      case cons => exact load_message h

-- The text after a call is that of the message which it has stored, or else of the one before.
theorem message_of_run {err : SiError} (h : c.run p = .ok err p') :
    c.message p = .ok (textOf <| (c.stored p).getD p.lastErrorMessage) p' := by
  have ht : (do ecsactSiWasmLastErrorMessage (← ecsactSiWasmLastErrorMessageLength)) p' =
      .ok (textOf p'.lastErrorMessage) p' := by
    have hl : ecsactSiWasmLastErrorMessageLength p' =
        .ok (BitVec.ofNat 32 p'.messageBytes.length) p' := rfl
    refine (bind_ok hl).trans <| (bind_ok (get_apply p')).trans ?_
    simp only [ite_self]
    rfl
  rw [← run_message h]
  exact (bind_ok h).trans ht

theorem owns_iff (h : c.Errs p) : c.Owns p ↔ c.Stores p := by
  have ⟨err, p', h, _⟩ := h
  have hr message : ∃ p₁, c.message (withMessage message p) =
      .ok (textOf <| (c.stored p).getD message) p₁ := by
    have ⟨p₁, hr⟩ := (@carries_run c message).ok h
    exact ⟨p₁, message_of_run hr⟩
  rw [← isSome_stored]
  constructor
  case mp =>
    intro ⟨text, ht⟩
    by_contra hn
    rw [Option.not_isSome_iff_eq_none] at hn
    have hx message : text = textOf message := by
      have ⟨_, ht⟩ := ht message
      have ⟨_, hr⟩ := hr message
      rw [hn] at hr
      cases ht.symm.trans hr
      rfl
    exact absurd ((hx "").symm.trans (hx "x")) (by decide)
  case mpr =>
    intro hs
    have ⟨stored, hs⟩ := Option.isSome_iff_exists.mp hs
    rw [hs] at hr
    exact ⟨textOf stored, hr⟩

theorem along_owns_iff {cs : List LoadCall} :
    cs.Along next (fun p c => c.Errs p → c.Owns p) p ↔
      cs.Along next (fun p c => c.Errs p → c.Stores p) p := by
  refine List.Along.iff_of_invariant (I := fun _ => True) (A := fun _ => True) trivial
    (fun _ _ => trivial) (fun _ _ _ _ _ => trivial) fun p c _ _ => ?_
  constructor
  case mp  => exact fun h he => (owns_iff he).mp <| h he
  case mpr => exact fun h he => (owns_iff he).mpr <| h he

-- A broken module, and then a name that a module does not export.
def brokenThenMissing : List LoadCall :=
  [.load 0 [] fun _ => brokenBuild, .load 0 [(0, "missing")] plainBuild]

theorem not_along_owns_brokenThenMissing :
    ¬brokenThenMissing.Along next (fun p c => c.Errs p → c.Owns p) (plain 0) := by
  intro h
  have he : Errs (next (plain 0) (.load 0 [] fun _ => brokenBuild))
      (.load 0 [(0, "missing")] plainBuild) := ⟨.exportNotFound, _, rfl, by decide⟩
  obtain ⟨_, _, _, _, _, hm⟩ := (owns_iff he).mp <| h.2.1 he
  cases hm

end LoadCall
end Ecsact
