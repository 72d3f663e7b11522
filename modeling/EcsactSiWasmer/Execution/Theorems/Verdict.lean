import EcsactSiWasmer.Execution.Verdict
import EcsactSiWasmer.Execution.Theorems.FailedLoad
import EcsactSiWasmer.Execution.Theorems.Idle

open EStateM Ecsact.World Ecsact.CallMem Ecsact.Program

namespace Ecsact

variable {m : ModuleType} {ptrs : List (BitVec 64)} {name : String} {a : Attempt}
  {systems : List (SystemId × String)} {thread : ThreadId} {p p' : Program}

namespace ModuleType

section

variable (h : ptrs.length = m.exports.length)
include h

-- An instance has the names and kinds of its module.
theorem map_instExports : (m.instExports ptrs).map (fun e => (e.name, e.kind)) =
    m.exports.map fun e => (e.1, e.2.kind) := by
  refine List.ext_getElem (by simp [instExports, h]) fun k _ _ => ?_
  simp [instExports]

theorem kind_findExport {imports : List MinstImport} :
    ((Minst.mk imports (m.instExports ptrs)).findExport name).map (·.kind) =
      (m.typeOf name).map ExternType.kind := by
  have hf := congrArg (List.find? (·.1 = name)) (map_instExports h)
  simp only [List.find?_map, Function.comp_def] at hf
  have hf := congrArg (Option.map Prod.snd) hf
  simpa [Minst.findExport, typeOf, Option.map_map, Function.comp_def] using hf

theorem isSome_memory :
    ((m.instExports ptrs).find? (·.kind = .memory)).isSome = m.hasMemory := by
  have ha := congrArg (List.any · (·.2 = .memory)) (map_instExports h)
  simp only [List.any_map, Function.comp_def] at ha
  rw [List.isSome_find?, ha, hasMemory]
  refine congrArg (List.any m.exports) <| funext fun e => ?_
  cases e.2 <;> rfl

end

theorem firstError_cons {error : String → Option SiError} {e : SystemId × String} :
    firstError error (e :: systems) = (error e.2).or (firstError error systems) := by
  rw [firstError, List.findSome?_cons]
  cases error e.2 <;> rfl

-- The loop over the systems finds what a look at the kinds does.
theorem getSystemImplExports_eq {inst : Minst} {exports : SystemId → Option MinstExport}
    (h : ∀ name, (inst.findExport name).map (·.kind) = (m.typeOf name).map ExternType.kind) :
    match firstError m.kindError systems with
    | some err => getSystemImplExports inst systems exports = .error err
    | none     => ∃ exports', getSystemImplExports inst systems exports = .ok exports' := by
  induction systems generalizing exports
  case nil => exact ⟨exports, rfl⟩
  case cons e systems hi =>
    have hk := h e.2
    rw [firstError_cons]
    simp only [kindError, getSystemImplExports]
    cases hf : inst.findExport e.2
    case none =>
      cases ht : m.typeOf e.2
      case none => rfl
      case some => simp [hf, ht] at hk
    case some exp =>
      cases ht : m.typeOf e.2
      case none => simp [hf, ht] at hk
      case some type =>
        have hk : exp.kind = type.kind := by simpa [hf, ht] using hk
        simp only [hk]
        by_cases hc : type.kind = .func
        case neg => simp [hc]
        case pos => simpa [hc] using hi

theorem requestError_of_kindError {err : SiError} (h : m.kindError name = some err) :
    m.requestError name = some err := by
  simp only [kindError, requestError] at h ⊢
  split at h
  case h_1 => exact h
  case h_2 type _ =>
    split at h
    case isTrue => cases h
    case isFalse hk =>
      have ht : type ≠ systemType := fun e => hk <| e ▸ rfl
      rw [if_neg ht, h]

theorem requestError_of_none (h : m.kindError name = none) :
    m.requestError name = none ∨ m.requestError name = some .exportInvalid := by
  simp only [kindError, requestError] at h ⊢
  split at h
  case h_1 => cases h
  case h_2 => split <;> simp

theorem requestError_eq_of_none {err : SiError} (hk : firstError m.kindError systems = none)
    (hr : firstError m.requestError systems = some err) : err = .exportInvalid := by
  have ⟨e, he, hr⟩ := List.exists_of_findSome?_eq_some hr
  cases requestError_of_none <| List.findSome?_eq_none_iff.mp hk e he
  case inl hn => cases hn.symm.trans hr
  case inr hn => exact Option.some.inj <| hr.symm.trans hn

theorem requestError_ne_none {err : SiError} (hk : firstError m.kindError systems = some err) :
    firstError m.requestError systems ≠ none := by
  intro hr
  have ⟨e, he, hk⟩ := List.exists_of_findSome?_eq_some hk
  cases (requestError_of_kindError hk).symm.trans <| List.findSome?_eq_none_iff.mp hr e he

-- The types only matter as long as the kinds do not give the error away.
theorem firstError_eq_iff :
    firstError m.requestError systems = firstError m.kindError systems ↔
      ∀ e ∈ systems.takeWhile (m.kindError ·.2 = none), m.requestError e.2 = none ∨
        firstError m.kindError systems = some .exportInvalid := by
  induction systems
  case nil => simp [firstError]
  case cons e systems hi =>
    rw [firstError_cons, firstError_cons, List.takeWhile_cons]
    cases hk : m.kindError e.2
    case some => simp [requestError_of_kindError hk]
    case none =>
      simp only [decide_true, if_true, List.forall_mem_cons]
      cases requestError_of_none hk
      case inl hr => simp [hr, hi]
      case inr hr =>
        simp only [hr, reduceCtorEq, false_or]
        constructor
        case mp  => exact fun h => ⟨h.symm, fun _ _ => .inr h.symm⟩
        case mpr => exact fun h => h.1.symm

end ModuleType

namespace Program

variable {build : Build} {inst : Minst} {memory : MinstExport} {p₁ p₂ : Program}
  {exports : SystemId → Option MinstExport}

-- The ways of an iteration of the load, from what it has made of the module on.

theorem loadMinst_of_error {err : MinstError} (hc : err.code ≠ .ok)
    (h : onThread thread (Minst.create build) p = .ok (.error err) p₁) :
    loadMinst thread systems build p =
      .ok (some (Build.toSiError err.code)) { p₁ with lastErrorMessage := err.message } := by
  rw [loadMinst, bind_ok h]
  cases hd : err.code
  case ok => exact absurd hd hc
  all_goals
    simp only [hd]
    rfl

theorem loadMinst_of_exports {err : SiError}
    (h : onThread thread (Minst.create build) p = .ok (.ok inst) p₁)
    (he : getSystemImplExports inst systems (fun _ => none) = .error err) :
    loadMinst thread systems build p = .ok (some err) p₁ := by
  simp only [loadMinst, bind_ok h, he]
  rfl

theorem loadMinst_of_memory (h : onThread thread (Minst.create build) p = .ok (.ok inst) p₁)
    (he : getSystemImplExports inst systems (fun _ => none) = .ok exports)
    (hm : inst.exports.find? (·.kind = .memory) = none) :
    ∃ fault p', loadMinst thread systems build p = .error fault p' := by
  simp only [loadMinst, bind_ok h, he, hm]
  cases ha : assert (Option.isSome (none : Option MinstExport)) p₁
  case ok u p'      => exact ⟨_, _, bind_ok ha⟩
  case error e p'   => exact ⟨_, _, bind_error ha⟩

theorem assert_true (p : Program) : assert true p = .ok () p := by
  rw [assert, bind_ok (get_apply p)]
  simp [pure_apply]

theorem enterInitialize_returns {mem : MemPtr} (h : p.callMemInfo thread = none) :
    ∃ p', onThread thread (onCallMem (enterInitialize mem)) p = .ok () p' :=
  ⟨_, zoom_ok <| zoom_ok <| enterInitialize_eq_ok.mpr ⟨fun _ => h, rfl⟩⟩

theorem funcCall_of_func {exp : MinstExport} {guest : GuestRun} (h : exp.kind = .func) :
    exp.funcCall guest = guest.call := by
  funext w
  have ha : onCallMem (CallMem.assert (exp.kind = .func)) w = .ok () w :=
    zoom_ok <| assert_ok fun _ => by simp [h]
  rw [MinstExport.funcCall, bind_ok ha, if_pos h]

theorem funcCall_of_ne {exp : MinstExport} {guest : GuestRun} (h : exp.kind ≠ .func) :
    ∃ fault p', onThread thread (exp.funcCall guest) p = .error fault p' := by
  have hw : ∃ fault w, exp.funcCall guest (p.view thread) = .error fault w := by
    rw [MinstExport.funcCall, if_neg h]
    cases ha : onCallMem (CallMem.assert (exp.kind = .func)) (p.view thread)
    case ok    => exact ⟨_, _, bind_ok ha⟩
    case error => exact ⟨_, _, bind_error ha⟩
  have ⟨_, _, hw⟩ := hw
  exact ⟨_, _, zoom_error hw⟩

-- Behind the start of `_initialize`, the result is told by how that ends.
section

variable (h : onThread thread (Minst.create build) p = .ok (.ok inst) p₁)
  (he : getSystemImplExports inst systems (fun _ => none) = .ok exports)
  (hm : inst.exports.find? (·.kind = .memory) = some memory)
  (hn : onThread thread (onCallMem (enterInitialize memory.ptr)) p₁ = .ok () p₂)
include h he hm hn

theorem loadMinst_of_init {trap : Option Trap}
    (hx : onThread thread (inst.callInitialize build.initRun) p₂ = .ok trap p') :
    ∃ p', loadMinst thread systems build p = .ok (trap.map fun _ => .initializeFail) p' := by
  have ha : assert (some memory).isSome p₁ = .ok () p₁ := assert_true p₁
  have hc : ∃ p₃, onThread thread (onCallMem (setCallMemData none 0)) p' = .ok () p₃ := ⟨_, rfl⟩
  have ⟨p₃, hc⟩ := hc
  simp only [loadMinst, bind_ok h, he, hm, bind_ok ha, bind_ok hn, bind_ok hx, bind_ok hc]
  cases trap
  case some => exact ⟨_, rfl⟩
  case none => exact ⟨_, rfl⟩

theorem loadMinst_of_fault {fault : Fault}
    (hx : onThread thread (inst.callInitialize build.initRun) p₂ = .error fault p') :
    loadMinst thread systems build p = .error fault p' := by
  have ha : assert (some memory).isSome p₁ = .ok () p₁ := assert_true p₁
  simp only [loadMinst, bind_ok h, he, hm, bind_ok ha, bind_ok hn, bind_error hx]

end

end Program

namespace Attempt

theorem eq_of_linked (h : a.linked = some (m, ptrs)) :
    a.module = .ok m ∧ a.externs = .ok ptrs ∧ m.resolved = true := by
  simp only [linked] at h
  split at h
  case h_2 => cases h
  case h_1 hm he =>
    split at h
    case isFalse => cases h
    case isTrue hr =>
      cases h
      exact ⟨hm, he, hr⟩

theorem find_unresolved : m.module.imports.find? (fun imp => (importResolver imp).isNone) = none ↔
    m.resolved = true := by
  simp [ModuleType.module, ModuleType.resolved, List.find?_eq_none, Option.isSome_iff_ne_none]

theorem exists_unresolved (h : m.resolved = false) :
    ∃ imp, m.module.imports.find? (fun imp => (importResolver imp).isNone) = some imp := by
  apply Option.ne_none_iff_exists'.mp
  exact fun hf => Bool.false_ne_true <| h.symm.trans <| find_unresolved.mp hf

-- Where the engine does not get to make an instance, the load returns before it calls the guest.
theorem create_of_not_linked {w : World} (h : a.linked = none) : ∃ err stage,
    Minst.create a.build w = .ok (.error err) w ∧ err.code ≠ .ok ∧
    a.failure systems = some stage ∧ stage.Reports (Build.toSiError err.code) := by
  cases hm : a.module
  case error message =>
    exact ⟨⟨.compileFail, message⟩, .compile, by simp only [Minst.create, build, hm]; rfl, by simp,
      by simp only [failure, hm], rfl⟩
  case ok m =>
    cases hr : m.resolved
    case false =>
      obtain ⟨imp, hf⟩ := exists_unresolved hr
      exact ⟨⟨.unresolvedGuestImport, unresolvedMessage imp⟩, .imports,
        by simp only [Minst.create, build, hm, Except.map, hf]; rfl, by simp,
        by simp [failure, hm, hr], rfl⟩
    case true =>
      cases he : a.externs
      case ok => simp [linked, hm, he, hr] at h
      case error message =>
        have hf := find_unresolved.mpr hr
        exact ⟨⟨.instantiateFail, message⟩, .instantiate,
          by simp only [Minst.create, Minst.instanceNew, build, hm, Except.map, hf, he]; rfl, by simp,
          by simp [failure, hm, hr, he], rfl⟩

section

variable (h : a.linked = some (m, ptrs))
include h

theorem failure_of_linked : a.failure systems =
    if a.startRun.trap.isSome then some .instantiate else a.failureOf m systems := by
  have ⟨hm, he, hr⟩ := eq_of_linked h
  simp [failure, hm, he, hr]

-- Where it does, the rest is up to the start function.
theorem create_of_linked : Minst.create a.build = a.startRun.call >>= fun trap => match trap with
    | some trap => pure (.error ⟨.instantiateFail, trap.message⟩)
    | none      => pure (.ok ⟨m.imports, m.instExports ptrs⟩) := by
  have ⟨hm, he, hr⟩ := eq_of_linked h
  have hf := find_unresolved.mpr hr
  have hx : List.zipWith (fun e ptr => MinstExport.mk e.name e.kind ptr) m.module.exports ptrs =
      m.instExports ptrs := List.zipWith_map_left
  simp only [Minst.create, Minst.instanceNew, build, hm, Except.map, hf, he, bind_assoc]
  refine congrArg (a.startRun.call >>= ·) <| funext fun trap => ?_
  cases trap
  case some => rfl
  case none =>
    simp only [pure_bind, hx]
    rfl

end

-- What `_initialize` does, by its type.
section

variable (imports : List MinstImport) {guest : GuestRun} (hl : ptrs.length = m.exports.length)
include hl

theorem callInitialize_of_none (h : m.typeOf "_initialize" = none) :
    onThread thread (Minst.callInitialize ⟨imports, m.instExports ptrs⟩ guest) p =
      .ok none (p.put thread (p.view thread)) := by
  have hk := @ModuleType.kind_findExport _ _ "_initialize" hl imports
  rw [h, Option.map_none, Option.map_eq_none_iff] at hk
  simp only [Minst.callInitialize, hk]
  rfl

theorem callInitialize_of_ne {type : ExternType} (h : m.typeOf "_initialize" = some type)
    (ht : type.kind ≠ .func) : ∃ fault p',
      onThread thread (Minst.callInitialize ⟨imports, m.instExports ptrs⟩ guest) p =
        .error fault p' := by
  have hk := @ModuleType.kind_findExport _ _ "_initialize" hl imports
  rw [h, Option.map_some, Option.map_eq_some_iff] at hk
  have ⟨exp, hf, hk⟩ := hk
  simp only [Minst.callInitialize, hf]
  exact funcCall_of_ne <| hk ▸ ht

theorem callInitialize_of_func {type : ExternType} (h : m.typeOf "_initialize" = some type)
    (ht : type.kind = .func) :
    Minst.callInitialize ⟨imports, m.instExports ptrs⟩ guest = guest.call := by
  have hk := @ModuleType.kind_findExport _ _ "_initialize" hl imports
  rw [h, Option.map_some, Option.map_eq_some_iff] at hk
  have ⟨exp, hf, hk⟩ := hk
  simp only [Minst.callInitialize, hf]
  exact funcCall_of_func <| hk.trans ht

end

-- An iteration which has made an instance tells the truth about the rest exactly if the module is of
-- a shape that it can deal with.
section

variable {imports : List MinstImport} {p₁ p₂ : Program} {memory : MinstExport}
  {exports : SystemId → Option MinstExport}

theorem failureOf_of_none (hy : m.hasMemory)
    (hr : ModuleType.firstError m.requestError systems = none) :
    a.failureOf m systems = if m.initializable && !((m.typeOf "_initialize").isSome &&
      a.initRun.trap.isSome) then none else some .init := by
  simp only [failureOf, hr, hy]
  cases m.initializable <;> cases (m.typeOf "_initialize").isSome && a.initRun.trap.isSome <;> rfl

section

variable (hw : a.Specified) (hm : a.module = .ok m) (hl : ptrs.length = m.exports.length)
  (h : onThread thread (Minst.create a.build) p = .ok (.ok ⟨imports, m.instExports ptrs⟩) p₁)
  (he : getSystemImplExports ⟨imports, m.instExports ptrs⟩ systems (fun _ => none) = .ok exports)
  (hf : (m.instExports ptrs).find? (·.kind = .memory) = some memory)
  (hn : onThread thread (onCallMem (enterInitialize memory.ptr)) p₁ = .ok () p₂)
include hw hm hl h he hf hn

theorem tells_iff_of_init (hr : ModuleType.firstError m.requestError systems = none) :
    (∃ r p', loadMinst thread systems a.build p = .ok r p' ∧
      Stage.Tells (a.failureOf m systems) (r.getD .ok)) ↔
    ∀ type, m.typeOf "_initialize" = some type → type.kind = .func ∧ a.initRun.Returns thread p₂ := by
  have hy : m.hasMemory = true := ModuleType.isSome_memory hl ▸ Option.isSome_iff_exists.mpr ⟨_, hf⟩
  rw [failureOf_of_none hy hr]
  cases ht : m.typeOf "_initialize"
  case none =>
    have ⟨p', hx⟩ := loadMinst_of_init h he hf hn <| callInitialize_of_none imports hl ht
    rw [exists_ok_iff hx]
    simp [ModuleType.initializable, ht, Stage.Tells]
  case some type =>
    simp only [Option.some.injEq, forall_eq']
    by_cases hk : type.kind = .func
    case neg =>
      have ⟨_, _, hx⟩ := @callInitialize_of_ne _ _ thread p₂ imports a.initRun hl _ ht hk
      exact iff_of_false (not_exists_ok <| loadMinst_of_fault h he hf hn hx) fun hc => hk hc.1
    case pos =>
      have hi := @callInitialize_of_func _ _ imports a.initRun hl _ ht hk
      cases hx : onThread thread a.initRun.call p₂
      case error =>
        refine iff_of_false (not_exists_ok <| loadMinst_of_fault h he hf hn <| hi ▸ hx) fun hc => ?_
        have ⟨_, _, hc⟩ := hc.2
        cases hc.symm.trans hx
      case ok trap p₃ =>
        have ⟨p', hx'⟩ := loadMinst_of_init h he hf hn <| hi ▸ hx
        rw [exists_ok_iff hx']
        refine iff_of_true ?_ ⟨hk, _, _, hx⟩
        have ⟨_, hg, _⟩ := zoom_eq_ok.mp hx
        cases GuestRun.call_eq hg
        cases type <;> cases hk
        case refl sig =>
          have ha := hw.arity m sig hm ht
          by_cases hp : sig.params = []
          case pos =>
            cases ht' : a.initRun.trap <;>
              simp [ModuleType.initializable, ht, hp, Stage.Tells, Stage.Reports]
          case neg =>
            have ⟨_, ha⟩ := Option.isSome_iff_exists.mp (ha hp).2
            simp [ModuleType.initializable, ht, hp, ha, Stage.Tells, Stage.Reports]

end

-- The load does not see that a function has another type than the call of it.
theorem not_tells_of_types {err : SiError}
    (h : onThread thread (Minst.create a.build) p = .ok (.ok ⟨imports, m.instExports ptrs⟩) p₁)
    (he : getSystemImplExports ⟨imports, m.instExports ptrs⟩ systems (fun _ => none) = .ok exports)
    (hk : ModuleType.firstError m.kindError systems = none)
    (hr : ModuleType.firstError m.requestError systems = some err) :
    ¬∃ r p', loadMinst thread systems a.build p = .ok r p' ∧
      Stage.Tells (a.failureOf m systems) (r.getD .ok) := by
  intro ⟨r, p', hx, ht⟩
  have hi := ModuleType.requestError_eq_of_none hk hr
  have hf : a.failureOf m systems = some (.exports err) := by rw [failureOf, hr]
  have ht : r.getD .ok = err := by rwa [hf] at ht
  rw [(loadMinst_ok hx).1, Build.error, create_eq h] at ht
  simp only [he, hi] at ht
  split at ht <;> cases ht

section

variable (hb : a.startRun.Returns thread p) (hs : a.startRun.trap = none)
  (h : onThread thread (Minst.create a.build) p = .ok (.ok ⟨imports, m.instExports ptrs⟩) p₁)
include hb hs h

-- Where the kinds of the exports give the error, it is the right one if no type was wrong before.
theorem tells_iff_of_kindError {err : SiError}
    (hk : ModuleType.firstError m.kindError systems = some err)
    (he : getSystemImplExports ⟨imports, m.instExports ptrs⟩ systems (fun _ => none) = .error err) :
    (∃ r p', loadMinst thread systems a.build p = .ok r p' ∧
      Stage.Tells (a.failureOf m systems) (r.getD .ok)) ↔ a.Suits thread systems p m ptrs := by
  have ht := @ModuleType.firstError_eq_iff m systems
  have hn : some err ≠ none := nofun
  rw [exists_ok_iff (loadMinst_of_exports h he)]
  constructor
  case mp =>
    intro hr
    refine ⟨hb, fun _ => ht.mp ?types, fun _ hc => ?memory, fun _ hc => ?function, fun _ hc => ?init⟩
    case types =>
      cases hq : ModuleType.firstError m.requestError systems
      case none       => exact absurd hq <| ModuleType.requestError_ne_none hk
      case some err'  =>
        have hr : err = err' := by simpa [failureOf, hq, Stage.Tells, Stage.Reports] using hr
        rw [hk, hr]
    all_goals exact absurd (hk.symm.trans hc) hn
  case mpr =>
    intro hc
    simp [failureOf, (ht.mpr <| hc.types hs).trans hk, Stage.Tells, Stage.Reports]

-- Where they do not, the types, the memory and `_initialize` decide.
theorem tells_iff_of_kinds (hw : a.Specified) (hl : a.linked = some (m, ptrs))
    (hi : p₁.callMemInfo thread = none) (hc : onThread thread a.startRun.call p = .ok none p₁)
    (hk : ModuleType.firstError m.kindError systems = none)
    (he : getSystemImplExports ⟨imports, m.instExports ptrs⟩ systems (fun _ => none) = .ok exports) :
    (∃ r p', loadMinst thread systems a.build p = .ok r p' ∧
      Stage.Tells (a.failureOf m systems) (r.getD .ok)) ↔ a.Suits thread systems p m ptrs := by
  obtain ⟨hm, hx, _⟩ := eq_of_linked hl
  have hlen := hw.externs m ptrs hm hx
  have ht := @ModuleType.firstError_eq_iff m systems
  cases hr : ModuleType.firstError m.requestError systems
  case some err =>
    refine iff_of_false (not_tells_of_types h he hk hr) fun hc => ?_
    cases hr.symm.trans <| (ht.mpr <| hc.types hs).trans hk
  case none =>
    have hy := ModuleType.isSome_memory hlen
    cases hq : (m.instExports ptrs).find? (·.kind = .memory)
    case none =>
      have ⟨_, _, hx⟩ := loadMinst_of_memory h he hq
      refine iff_of_false (not_exists_ok hx) fun hc => ?_
      rw [hq, hc.memory hs hk] at hy
      cases hy
    case some memory =>
      have ⟨p₂, hn⟩ := @enterInitialize_returns thread p₁ memory.ptr hi
      rw [tells_iff_of_init hw hm hlen h he hq hn hr]
      constructor
      case mp =>
        intro hx
        refine ⟨hb, fun _ => ht.mp <| hr.trans hk.symm, fun _ _ => ?memory,
          fun _ _ type hd => (hx type hd).1, ?init⟩
        case memory => rw [← hy, hq]; rfl
        case init =>
          intro _ _ hd memory' trap p₁' p₂' hq' hc' hn'
          cases hq.symm.trans hq'
          cases hc.symm.trans hc'
          cases hn.symm.trans hn'
          have ⟨type, hd⟩ := Option.isSome_iff_exists.mp hd
          exact (hx type hd).2
      case mpr =>
        intro hx type hd
        have hd' := Option.isSome_iff_exists.mpr ⟨_, hd⟩
        exact ⟨hx.function hs hk type hd, hx.init hs hk hd' memory none p₁ p₂ hq hc hn⟩

end

end

-- What an instance of the module gives to the loop over the systems.
theorem getSystemImplExports_of_linked {imports : List MinstImport} (hw : a.Specified)
    (hl : a.linked = some (m, ptrs)) {exports : SystemId → Option MinstExport} :
    match ModuleType.firstError m.kindError systems with
    | some err => getSystemImplExports ⟨imports, m.instExports ptrs⟩ systems exports = .error err
    | none     => ∃ exports',
      getSystemImplExports ⟨imports, m.instExports ptrs⟩ systems exports = .ok exports' := by
  obtain ⟨hm, he, _⟩ := eq_of_linked hl
  exact ModuleType.getSystemImplExports_eq fun name =>
    ModuleType.kind_findExport <| hw.externs m ptrs hm he

theorem startRun_info {trap : Option Trap} (hi : p.callMemInfo thread = none)
    (h : onThread thread a.startRun.call p = .ok trap p') : p'.callMemInfo thread = none := by
  have ⟨_, hs, hc⟩ := onThread_info h
  exact hc ▸ (within_call primitives_staysUnset).of_ok hs hi

theorem tells_iff (hw : a.Specified) (hi : p.callMemInfo thread = none) :
    (∃ r p', loadMinst thread systems a.build p = .ok r p' ∧
      Stage.Tells (a.failure systems) (r.getD .ok)) ↔
    ∀ m ptrs, a.linked = some (m, ptrs) → a.Suits thread systems p m ptrs := by
  cases hl : a.linked
  case none =>
    have ⟨err, stage, hc, hn, hf, hr⟩ := @create_of_not_linked a systems (p.view thread) hl
    rw [exists_ok_iff (loadMinst_of_error hn <| zoom_ok hc), hf]
    exact iff_of_true hr nofun
  case some mp =>
    obtain ⟨m, ptrs⟩ := mp
    have hu : (∀ m' ptrs', some (m, ptrs) = some (m', ptrs') → a.Suits thread systems p m' ptrs') ↔
        a.Suits thread systems p m ptrs := by
      constructor
      case mp  => exact fun h => h m ptrs rfl
      case mpr => intro h _ _ he; cases he; exact h
    rw [hu, failure_of_linked hl]
    have hb := create_of_linked hl
    cases hs : onThread thread a.startRun.call p
    case error fault p₁ =>
      have ⟨_, hs', _⟩ := zoom_eq_error.mp hs
      have hx : loadMinst thread systems a.build p = .error fault _ :=
        bind_error <| zoom_error <| hb ▸ bind_error hs'
      refine iff_of_false (not_exists_ok hx) fun hc => ?_
      have ⟨_, _, hc⟩ := hc.start
      cases hc.symm.trans hs
    case ok trap p₁ =>
      obtain ⟨w, hs', hp⟩ := zoom_eq_ok.mp hs
      have ht := GuestRun.call_eq hs'
      cases hm : a.startRun.trap
      case some message =>
        rw [hm] at ht
        cases ht
        have hc : onThread thread (Minst.create a.build) p =
            .ok (.error ⟨.instantiateFail, message⟩) p₁ := hp ▸ zoom_ok (hb ▸ bind_ok hs')
        have hn : a.startRun.trap ≠ none := by simp [hm]
        have hne : MinstErrorCode.instantiateFail ≠ .ok := by decide
        rw [exists_ok_iff (loadMinst_of_error hne hc)]
        exact iff_of_true rfl ⟨⟨_, _, hs⟩, fun h => absurd h hn, fun h => absurd h hn,
          fun h => absurd h hn, fun h => absurd h hn⟩
      case none =>
        rw [hm] at ht
        cases ht
        have hc : onThread thread (Minst.create a.build) p =
            .ok (.ok ⟨m.imports, m.instExports ptrs⟩) p₁ := hp ▸ zoom_ok (hb ▸ bind_ok hs')
        have hk := @getSystemImplExports_of_linked _ _ _ systems m.imports hw hl (fun _ => none)
        cases hq : ModuleType.firstError m.kindError systems
        case some err =>
          rw [hq] at hk
          exact tells_iff_of_kindError ⟨_, _, hs⟩ hm hc hq hk
        case none =>
          rw [hq] at hk
          obtain ⟨exports, hk⟩ := hk
          exact tells_iff_of_kinds ⟨_, _, hs⟩ hm hc hw hl (startRun_info hi hs) hs hq hk

-- What an iteration returns is told by the module as well.

theorem minst_of_ok {inst : Minst} (h : a.build.minst = .ok inst) : ∃ m ptrs,
    a.linked = some (m, ptrs) ∧ a.startRun.trap = none ∧ inst = ⟨m.imports, m.instExports ptrs⟩ := by
  cases hm : a.module
  case error => simp [Build.minst, build, hm, Except.map] at h
  case ok m =>
    cases hr : m.resolved
    case false =>
      obtain ⟨imp, hf⟩ := exists_unresolved hr
      simp [Build.minst, build, hm, Except.map, hf] at h
    case true =>
      have hf := find_unresolved.mpr hr
      simp only [Build.minst, build, hm, Except.map, hf] at h
      split at h
      case h_1 => cases h
      case h_2 => cases h
      case h_3 ptrs he ht =>
        cases h
        refine ⟨m, ptrs, by simp [linked, hm, he, hr], ht, ?_⟩
        exact congrArg (Minst.mk m.imports) List.zipWith_map_left

theorem minst_of_linked (h : a.linked = some (m, ptrs)) (ht : a.startRun.trap = none) :
    a.build.minst = .ok ⟨m.imports, m.instExports ptrs⟩ := by
  have ⟨hm, he, hr⟩ := eq_of_linked h
  have hf := find_unresolved.mpr hr
  simp only [Build.minst, build, hm, Except.map, hf, he, ht]
  exact congrArg (Except.ok ∘ Minst.mk m.imports) List.zipWith_map_left

-- The load goes on if nothing is wrong with the module.
theorem error_of_failure (hw : a.Specified) (h : a.failure systems = none) :
    a.build.error systems = none := by
  cases hl : a.linked
  case none =>
    obtain ⟨_, _, _, _, hf, _⟩ := @create_of_not_linked a systems (.idle .inert true) hl
    cases h.symm.trans hf
  case some mp =>
    obtain ⟨m, ptrs⟩ := mp
    have ⟨hm, he, _⟩ := eq_of_linked hl
    have hk := @getSystemImplExports_of_linked _ _ _ systems m.imports hw hl (fun _ => none)
    have hd := @ModuleType.kind_findExport _ _ "_initialize" (hw.externs m ptrs hm he) m.imports
    have hd := congrArg Option.isSome hd
    rw [Option.isSome_map, Option.isSome_map] at hd
    rw [failure_of_linked hl] at h
    cases ht : a.startRun.trap
    case some => simp [ht] at h
    case none =>
      cases hr : ModuleType.firstError m.requestError systems
      case some => simp [ht, failureOf, hr] at h
      case none =>
        cases hq : ModuleType.firstError m.kindError systems
        case some => exact absurd hr <| ModuleType.requestError_ne_none hq
        case none =>
          rw [hq] at hk
          obtain ⟨exports, hk⟩ := hk
          have hx : ¬((m.typeOf "_initialize").isSome ∧ a.initRun.trap.isSome) := by
            intro hx
            simp [ht, failureOf, hr, hx] at h
            split at h <;> cases h
          simp only [Build.error, minst_of_linked hl ht, hk, hd]
          exact if_neg hx

theorem failure_of_none (hw : a.Specified) (h : loadMinst thread systems a.build p = .ok none p') :
    a.failure systems = none ∨ a.failure systems = some (.exports .exportInvalid) ∧
      ∃ m, a.module = .ok m ∧ ModuleType.firstError m.kindError systems = none := by
  cases loadMinst_cases h
  case done inst exports memory p₁ p₂ p₃ p₄ h₁ he hf h₂ h₃ h₄ h₅ =>
    obtain ⟨m, ptrs, hl, ht, rfl⟩ := minst_of_ok <| create_eq h₁
    obtain ⟨hm, hx, _⟩ := eq_of_linked hl
    have hlen := hw.externs m ptrs hm hx
    have hk := @getSystemImplExports_of_linked _ _ _ systems m.imports hw hl (fun _ => none)
    rw [failure_of_linked hl, ht]
    cases hq : ModuleType.firstError m.kindError systems
    case some err =>
      rw [hq] at hk
      cases hk.symm.trans he
    case none =>
      cases hr : ModuleType.firstError m.requestError systems
      case some err =>
        cases ModuleType.requestError_eq_of_none hq hr
        exact .inr ⟨by simp [failureOf, hr], m, hm, hq⟩
      case none =>
        have ⟨r, _, hx, hi⟩ := (tells_iff_of_init hw hm hlen h₁ he hf h₂ hr).mpr fun type hd => by
          by_cases hc : type.kind = .func
          case neg =>
            have ⟨_, _, hx⟩ := @callInitialize_of_ne _ _ thread p₂ m.imports a.initRun hlen _ hd hc
            cases hx.symm.trans h₃
          case pos =>
            rw [callInitialize_of_func m.imports hlen hd hc] at h₃
            exact ⟨hc, _, _, h₃⟩
        cases h.symm.trans hx
        have hy : m.hasMemory := by rw [← ModuleType.isSome_memory hlen, hf]; rfl
        rw [failureOf_of_none hy hr] at hi ⊢
        refine .inl ?_
        split at hi
        case isTrue hc  => exact if_pos hc
        case isFalse    => cases hi

-- And the load does not find out about a type, whatever it does after that.
theorem error_ne_of_kinds (hw : a.Specified) (hm : a.module = .ok m)
    (hk : ModuleType.firstError m.kindError systems = none) :
    a.build.error systems ≠ some .exportInvalid := by
  simp only [Build.error]
  cases hi : a.build.minst
  case error err => cases hc : err.code <;> simp [hc, Build.toSiError]
  case ok inst =>
    obtain ⟨m', ptrs, hl, _, rfl⟩ := minst_of_ok hi
    cases (eq_of_linked hl).1.symm.trans hm
    have he := @getSystemImplExports_of_linked _ _ _ systems m.imports hw hl (fun _ => none)
    rw [hk] at he
    obtain ⟨exports, he⟩ := he
    simp only [he]
    split <;> simp

end Attempt

theorem Stage.not_tells_ok {stage : Stage} (h : stage ≠ .exports .ok) :
    ¬Stage.Tells (some stage) .ok := by
  cases stage <;> simp_all [Tells, Reports, eq_comm]

namespace Program

variable {attempts : Nat → Attempt} {n i : Nat}

-- The first check which fails in some iterations.
def failures (systems : List (SystemId × String)) (attempts : Nat → Attempt) (i n : Nat) :
    Option Stage :=
  (List.range' i n).findSome? fun i => (attempts i).failure systems

theorem loadLoop_succ_iff : loadLoop thread systems (builds attempts) (n + 1) i p = .ok none p' ↔
    ∃ p₁, loadMinst thread systems (attempts i).build p = .ok none p₁ ∧
      loadLoop thread systems (builds attempts) n (i + 1) p₁ = .ok none p' := by
  constructor
  case mp =>
    intro h
    have ⟨r, p₁, h₁, h⟩ := bind_eq_ok.mp h
    cases r
    case some => cases h
    case none => exact ⟨p₁, h₁, h⟩
  case mpr =>
    intro ⟨p₁, h₁, h⟩
    exact (bind_ok h₁).trans h

theorem failures_succ : failures systems attempts i (n + 1) =
    ((attempts i).failure systems).or (failures systems attempts (i + 1) n) := by
  rw [failures, List.range'_succ, List.findSome?_cons]
  cases (attempts i).failure systems <;> rfl

-- The iterations of a loop are its first and those of the rest.
theorem forall_iterations_iff {P : Nat → Program → Prop} :
    (∀ k < n + 1, ∀ p', loadLoop thread systems (builds attempts) k i p = .ok none p' →
      P (i + k) p') ↔
    P i p ∧ ∀ p₁, loadMinst thread systems (attempts i).build p = .ok none p₁ → ∀ k < n, ∀ p',
      loadLoop thread systems (builds attempts) k (i + 1) p₁ = .ok none p' → P (i + 1 + k) p' := by
  constructor
  case mp =>
    intro h
    refine ⟨h 0 n.succ_pos p rfl, fun p₁ h₁ k hk p' hp => ?_⟩
    have hq := h (k + 1) (Nat.succ_lt_succ hk) p' <| loadLoop_succ_iff.mpr ⟨p₁, h₁, hp⟩
    rwa [Nat.add_right_comm]
  case mpr =>
    intro ⟨h₀, h⟩ k hk p' hp
    cases k
    case zero =>
      cases hp
      exact h₀
    case succ k =>
      have ⟨p₁, h₁, hp⟩ := loadLoop_succ_iff.mp hp
      have hq := h p₁ h₁ k (Nat.lt_of_succ_lt_succ hk) p' hp
      rwa [Nat.add_right_comm] at hq

-- The error for a function of another type is not one that the load returns if it has gone on.
theorem loadLoop_ne_of_kinds {m : ModuleType} {r : Option SiError}
    (hw : ∀ i, (attempts i).Specified) (hm : ∀ i, (attempts i).module = .ok m)
    (hk : ModuleType.firstError m.kindError systems = none)
    (h : loadLoop thread systems (builds attempts) n i p = .ok r p') :
    r.getD .ok ≠ .exportInvalid := by
  have ⟨made, _, _, hl, _, hr, hn, _⟩ := loadLoop_ok h
  cases Nat.lt_or_eq_of_le hl
  case inr hl => simp [hn hl]
  case inl hl =>
    have ⟨hr, _⟩ := hr hl
    have he := (attempts (i + made.length)).error_ne_of_kinds (hw _) (hm _) hk
    rw [show (attempts (i + made.length)).build.error systems = r from hr] at he
    cases r
    case none     => nofun
    case some err => exact fun hc => he <| congrArg some hc

-- What an iteration and those behind it tell, and when.
theorem loadLoop_tells_iff (hw : ∀ i, (attempts i).Specified)
    (hm : ∀ i, (attempts i).module = (attempts 0).module) (hi : p.callMemInfo thread = none) :
    (∃ r p', loadLoop thread systems (builds attempts) n i p = .ok r p' ∧
      Stage.Tells (failures systems attempts i n) (r.getD .ok)) ↔
    ∀ k < n, ∀ p', loadLoop thread systems (builds attempts) k i p = .ok none p' →
      ∀ m ptrs, (attempts (i + k)).linked = some (m, ptrs) →
        (attempts (i + k)).Suits thread systems p' m ptrs := by
  induction n generalizing i p
  case zero => exact iff_of_true ⟨none, p, rfl, rfl⟩ nofun
  case succ n ih =>
    have ht := @Attempt.tells_iff (attempts i) systems thread p (hw i) hi
    cases hx : loadMinst thread systems (attempts i).build p
    all_goals rw [forall_iterations_iff (P := fun i p' => ∀ m ptrs,
      (attempts i).linked = some (m, ptrs) → (attempts i).Suits thread systems p' m ptrs),
      ← ht, failures_succ]
    case error fault p₁ =>
      have hl : loadLoop thread systems (builds attempts) (n + 1) i p = .error fault p₁ :=
        bind_error hx
      exact iff_of_false (not_exists_ok hl) fun hc => not_exists_ok hx hc.1
    case ok r p₁ =>
      have hr := (loadMinst_ok hx).1
      rw [exists_ok_iff hx]
      cases r
      case some err =>
        have hl : loadLoop thread systems (builds attempts) (n + 1) i p = .ok (some err) p₁ :=
          bind_ok hx
        rw [exists_ok_iff hl]
        cases hf : (attempts i).failure systems
        case none => cases hr.trans <| (attempts i).error_of_failure (hw i) hf
        case some =>
          refine (and_iff_left fun _ hc => ?_).symm
          cases hx.symm.trans hc
      case none =>
        have hl : loadLoop thread systems (builds attempts) (n + 1) i p =
            loadLoop thread systems (builds attempts) n (i + 1) p₁ := bind_ok hx
        have hp : ∀ p₂, loadMinst thread systems (attempts i).build p = .ok none p₂ ↔ p₂ = p₁ := by
          intro p₂
          rw [hx]
          simp [eq_comm]
        simp only [hl, hp, forall_eq, ← ih (loadMinst_info hi hx)]
        cases (attempts i).failure_of_none (hw i) hx
        case inl hf => simp [hf, Stage.Tells]
        case inr hf =>
          have ⟨hf, m, hm', hk⟩ := hf
          have hm : ∀ j, (attempts j).module = .ok m := fun j => (hm j).trans <| hm i ▸ hm'
          rw [hf]
          refine iff_of_false ?_ fun hc => Stage.not_tells_ok (by simp) hc.1
          intro ⟨r, p', hx, hc⟩
          exact loadLoop_ne_of_kinds hw hm hk hx hc

-- The error of a load is that of its loop.
theorem load_iff {P : SiError → Prop} (hs : p.setSystemExecutionImpl = true) :
    (∃ err p', ecsactSiWasmLoad thread systems (builds attempts) p = .ok err p' ∧ P err) ↔
      ∃ r p', loadLoop thread systems (builds attempts) 100 0 { p with allMinsts := [] } = .ok r p' ∧
        P (r.getD .ok) := by
  have hc : ecsactSiWasmLoad thread systems (builds attempts) p =
      (loadLoop thread systems (builds attempts) 100 0 >>= fun r => match r with
        | some err => return err
        | none     => do
          modify fun p => { p with registered := p.registered ++ systems.map Prod.fst }
          return .ok) { p with allMinsts := [] } := by
    rw [ecsactSiWasmLoad, bind_ok (get_apply p), if_neg (by simp [hs])]
    exact bind_ok rfl
  cases hx : loadLoop thread systems (builds attempts) 100 0 { p with allMinsts := [] }
  case error => exact iff_of_false (not_exists_ok <| hc.trans <| bind_error hx) <| by simp
  case ok r p₁ =>
    rw [bind_ok hx] at hc
    cases r
    case some err => rw [exists_ok_iff hc]; simp
    case none     => rw [exists_ok_iff hc]; simp

theorem loadReports_iff (hi : p.callMemInfo thread = none) (hw : ∀ i, (attempts i).Specified)
    (hm : ∀ i, (attempts i).module = (attempts 0).module) :
    LoadReports thread systems attempts p ↔ ∀ i p', Iterates thread systems attempts p i p' →
      ∀ m ptrs, (attempts i).linked = some (m, ptrs) →
        (attempts i).Suits thread systems p' m ptrs := by
  cases hs : p.setSystemExecutionImpl
  case false =>
    have hl : ecsactSiWasmLoad thread systems (builds attempts) p = .ok .noSetSystemExecution p := by
      rw [ecsactSiWasmLoad, bind_ok (get_apply p)]
      simp [hs, pure_apply]
    have hf : firstFailure systems attempts p = some .setSystemExecution := by
      simp [firstFailure, hs]
    refine iff_of_true ⟨_, _, hl, hf ▸ rfl⟩ fun i p' h => ?_
    cases hs.symm.trans h.2.1
  case true =>
    have hf : firstFailure systems attempts p = failures systems attempts 0 100 := by
      rw [firstFailure, hs, failures, ← List.range_eq_range']
      rfl
    have hl := @loadLoop_tells_iff systems thread { p with allMinsts := [] } attempts 100 0 hw hm hi
    rw [LoadReports, hf, load_iff hs, hl]
    simp only [Nat.zero_add, Iterates, hs, true_and, and_imp]
    constructor
    case mp  => exact fun h k p' hk hp => h k hk p' hp
    case mpr => exact fun h k hk p' hp => h k p' hk hp

-- A module which exports no memory.
def bareAttempt : Attempt where
  module  := .ok ⟨[], []⟩
  externs := .ok []

theorem not_loadReports_bare : (plain 0).callMemInfo 0 = none ∧ bareAttempt.Specified ∧
    ¬LoadReports 0 [] (fun _ => bareAttempt) (plain 0) := by
  refine ⟨rfl, ⟨?externs, ?types⟩, ?reports⟩
  case externs =>
    intro m ptrs hm he
    cases hm
    cases he
    rfl
  case types =>
    intro m type hm ht
    cases hm
    cases ht
  case reports =>
    intro h
    obtain ⟨_, _, h, _⟩ := h
    cases h

-- The module which has been used before, with the type of its function.
def plainAttempt : Attempt where
  module  := .ok ⟨[], [("memory", .memory), ("run", ModuleType.systemType)]⟩
  externs := .ok [1, 2]

theorem plainAttempt_specified : plainAttempt.Specified where
  externs m ptrs hm he := by cases hm; cases he; rfl
  arity m type hm ht   := by cases hm; cases ht

theorem loadReports_plain : LoadReports 0 plainSystems (fun _ => plainAttempt) (plain 0) ↔
    ∀ i p', Iterates 0 plainSystems (fun _ => plainAttempt) (plain 0) i p' →
      ∀ m ptrs, plainAttempt.linked = some (m, ptrs) →
        plainAttempt.Suits 0 plainSystems p' m ptrs := by
  exact loadReports_iff rfl (fun _ => plainAttempt_specified) fun _ => rfl

end Program
end Ecsact
