import EcsactSiWasmer.Execution.Translation
import EcsactSiWasmer.Execution.Theorems.Bindings
import EcsactSiWasmer.Execution.Theorems.Entries
import EcsactSiWasmer.Execution.Theorems.Hosting
import EcsactSiWasmer.Execution.Theorems.Provenance
import EcsactSiWasmer.Execution.Theorems.Verdict
import Mathlib.Data.List.Zip

open EStateM Ecsact.World Ecsact.CallMem

namespace Ecsact

-- No callback changes the runtime.
theorem primitives_runtime : Primitives (Keeps World.runtime) := by
  have hc {α : Type} {x : CallMemM α} : Within (Keeps World.runtime) (onCallMem x) :=
    Within.zoom (R := fun _ _ => True) (fun _ => trivial) fun _ _ _ => rfl
  have hf {α : Type} {x : FilesM α} : Within (Keeps World.runtime) (onFiles x) :=
    Within.zoom (R := fun _ _ => True) (fun _ => trivial) fun _ _ _ => rfl
  exact {
    preorder   := inferInstance
    trace      := hc
    read       := hc
    alloc      := hc
    ensureOpen := hf
    fread      := hf
    close      := hf
    loadBytes  := fun {ptr _} => by cases ptr <;> exact fun _ => rfl
    storeBytes := fun {ptr _} => by cases ptr <;> exact fun _ => rfl
    push       := .modify fun _ => rfl
    called     := rfl
    setResult  := fun w => by
      simp only [World.setResult, bind_ok (get_apply _)]
      split <;> rfl
  }

-- Every function of the API takes a context first, and its second argument is an array's length.
theorem roles_count : ∀ e ∈ nativeApi, .ptrs ∈ e.2.roles → e.2.roles[1]? = some .count := by
  decide

theorem fn_ne_id : ∀ e ∈ nativeApi, e.2.fn ≠ .id := by
  decide

section

variable {runtime : Runtime} {view view' : HostView} {fn : EcsactFn}

theorem Runtime.IgnoresIds.answer_eq (h : runtime.IgnoresIds)
    (hv : view.withoutIds = view'.withoutIds) :
    Answer.of runtime view fn = Answer.of runtime view' fn := by
  rw [h.answers view, h.answers view', hv]

theorem Runtime.IgnoresIds.memories_eq {args : List HostArg} {w v : World} (h : runtime.IgnoresIds)
    (hn : fn ≠ .id) (hv : (w.hostView fn args).withoutIds = (v.hostView fn args).withoutIds) :
    runtime.memories (w.hostView fn args) = runtime.memories (v.hostView fn args) :=
  (h.memories _ ⟨fn, args⟩ _ hn).trans <|
    (congrArg runtime.memories hv).trans (h.memories _ ⟨fn, args⟩ _ hn).symm

end

variable {c : ApiCall} {mem : MemPtr} {ctxs : List CtxPtr} {handles : List (BitVec 32)}
  {issued : Handles} {w w' v : World}

-- The handles that a guest has stand for the contexts that the system has.
def Held (issued : Handles) : List (BitVec 32) → List CtxPtr → Prop :=
  List.Forall₂ fun handle ctx => issued handle = some ctx

theorem Held.getD (h : Held issued handles ctxs) {k : Nat} (hk : k < ctxs.length) :
    issued (handles.getD k 0) = some (ctxs.getD k 0) := by
  have hl : k < handles.length := h.length_eq ▸ hk
  have hg := List.Forall₂.get h hl hk
  simpa [List.getD_eq_getElem?_getD, hl, hk] using hg

namespace ApiCall

theorem vals_toImport : (c.toImport handles).vals = c.operands.map (value handles) := by
  simp [ImportCall.vals, toImport, List.filterMap_map]

-- An operand which is no context is the guest's word.
theorem val_toImport {i : Nat} {role : Role} (hi : c.native.roles[i]? = some role)
    (hr : role ≠ .context) : (c.toImport handles).val i = c.word i := by
  have ⟨hl, he⟩ := List.getElem?_eq_some_iff.mp hi
  have hl' : i < c.operands.length := c.typed.length_eq ▸ hl
  have hf := List.Forall₂.get c.typed hl' hl
  simp only [List.get_eq_getElem, he] at hf
  simp only [ImportCall.val, vals_toImport, word, List.getD_eq_getElem?_getD, List.getElem?_map,
    List.getElem?_eq_getElem hl', Option.map_some, Option.getD_some]
  cases ho : c.operands[i]
  case word => rfl
  case context =>
    rw [ho] at hf
    exact absurd hf hr

theorem zip_toImport : (c.toImport handles).vals.zip c.native.roles =
    (c.operands.zip c.native.roles).map (Prod.map (value handles) id) := by
  rw [vals_toImport, List.zip_map_left]

-- What the runtime gets from the guest is what it would get from the system.

theorem bytes_toImport (hm : w.memories = v.memories) :
    Native.bytes mem (c.toImport handles) w = ((c.before v).memories mem).bytes := by
  rw [before, ← hm]
  rfl

theorem hostArgs_toImport (hh : Held issued handles ctxs)
    (hc : ∀ k, .context k ∈ c.operands → k < ctxs.length) (hm : w.memories = v.memories) :
    c.native.hostArgs mem issued (c.toImport handles) w = c.hostArgs mem ctxs v := by
  rw [Native.hostArgs, hostArgs, vals_toImport, List.zipWith_map_left]
  refine List.zipWith_congr _ _ _ _ ?_
  obtain ⟨hl, ht⟩ := List.forall₂_iff_zip.mp c.typed
  refine List.forall₂_iff_zip.mpr ⟨hl, fun {operand role} hz => ?_⟩
  obtain ⟨ho, hr⟩ := List.of_mem_zip hz
  have hf := ht hz
  cases operand
  case context k =>
    cases hf
    simp only [Native.hostArg, hostArg, value, hh.getD (hc k ho), Option.getD_some]
  case word u =>
    cases role
    case context => exact absurd rfl hf
    case ptrs =>
      have hv : (c.toImport handles).val 1 = c.word 1 :=
        val_toImport (roles_count _ c.mem hr) (by simp)
      simp only [Native.hostArg, hostArg, value, hv, bytes_toImport hm]
    all_goals rfl

theorem admissible_toImport (hh : Held issued handles ctxs) (hr : c.Regular mem ctxs v)
    (hm : w.memories = v.memories) :
    c.native.Admissible mem issued (c.toImport handles) w := by
  rw [Native.Admissible, zip_toImport, List.forall_mem_map]
  rintro ⟨operand, role⟩ hz
  obtain ⟨ho, hr'⟩ := List.of_mem_zip hz
  have hf := (List.forall₂_iff_zip.mp c.typed).2 hz
  cases operand
  case context k =>
    cases hf
    have hi := hh.getD (hr.contexts k ho)
    exact Option.isSome_iff_exists.mpr ⟨_, hi⟩
  case word u =>
    cases role
    case context => exact absurd rfl hf
    case ptr => exact hr.ptr u hz
    case ptrs =>
      have hv : (c.toImport handles).val 1 = c.word 1 :=
        val_toImport (roles_count _ c.mem hr') (by simp)
      have hp := hr.ptrs u hz
      simp only [before, ← hm] at hp
      simp only [Native.Admits, Prod.map, value, id, hv, Native.bytes]
      exact hp
    all_goals trivial

theorem regular_toImport (hr : c.Regular mem ctxs v)
    (ha : c.native.answer mem issued (c.toImport handles) w = c.answer mem ctxs v)
    (hf : c.native.asksId → ∀ info, w.callMem.info = some info → info.dataOffset + 16 ≤ info.maxSize) :
    c.native.Regular mem issued (c.toImport handles) w where
  has          := hr.has
  streamToggle := fun hs => by
    have h : ∀ e ∈ nativeApi, e.2.fn = .streamToggle →
        e.2.roles[2]? = some .flag ∧ e.2.roles[3]? = some .ptr := by decide
    have ⟨h₂, h₃⟩ := h _ c.mem hs
    rw [val_toImport h₂ nofun, val_toImport h₃ nofun]
    exact hr.streamToggle hs
  generate     := fun hs => by
    have h : ∀ e ∈ nativeApi, e.2.fn = .generate →
        e.2.roles[1]? = some .count ∧ e.2.roles[3]? = some .ptrs := by decide
    have ⟨h₁, h₃⟩ := h _ c.mem hs
    rw [val_toImport h₁ nofun, val_toImport h₃ nofun]
    exact hr.generate hs
  nonNull      := fun ctx hc => hr.nonNull ctx <| ha.symm.trans hc
  fits         := hf

-- The world in which the binding calls the function, but for the calls of `id`.
theorem before_toImport (hi : w.runtime.IgnoresIds) :
    (c.native.before issued (c.toImport handles) w).memories = c.stores w.memories ∧
    (c.native.before issued (c.toImport handles) w).calls = w.calls ∧
    (c.native.before issued (c.toImport handles) w).runtime = w.runtime := by
  rw [Native.before]
  split
  case isFalse => exact ⟨rfl, rfl, rfl⟩
  case isTrue =>
    refine ⟨hi.ids .., ?_, rfl⟩
    simp [World.calls, World.called, ImportCall.enter]

theorem view_toImport {args : List HostArg} (hi : w.runtime.IgnoresIds) (ha : w.Agrees v) :
    ((c.native.before issued (c.toImport handles) w).hostView c.native.fn args).withoutIds =
      ((c.before v).hostView c.native.fn args).withoutIds := by
  have ⟨hm, hc, _⟩ := @before_toImport c handles issued w hi
  have hc : (c.native.before issued (c.toImport handles) w).calls = (c.before v).calls :=
    hc.trans ha.calls
  simp only [World.calls] at hc
  simp only [HostView.withoutIds, World.hostView, hm, ha.memories, List.filter_append, hc, before]

theorem answer_toImport (hi : w.runtime.IgnoresIds) (ha : w.Agrees v) (hh : Held issued handles ctxs)
    (hc : ∀ k, .context k ∈ c.operands → k < ctxs.length) :
    c.native.answer mem issued (c.toImport handles) w = c.answer mem ctxs v := by
  rw [Native.answer, answer, hostArgs_toImport hh hc ha.memories, ← ha.runtime]
  exact hi.answer_eq <| view_toImport hi ha

-- The call in the guest leaves what the system's own call leaves.
theorem agrees_toImport (hi : w.runtime.IgnoresIds) (ha : w.Agrees v) (hh : Held issued handles ctxs)
    (hr : c.Regular mem ctxs v) (hx : (c.toImport handles).run w = .ok none w')
    (hs : c.native.Simulates mem issued (c.toImport handles) w) :
    w'.Agrees (c.after mem ctxs v) ∧
      (c.answer mem ctxs v).Reaches w'.results issued := by
  have ⟨w'', hx', hc, hm, hv⟩ := hs
  cases hx.symm.trans hx'
  have hn : c.native.fn ≠ .id := fn_ne_id _ c.mem
  have ⟨_, hb, hr'⟩ := @before_toImport c handles issued w hi
  rw [hostArgs_toImport hh hr.contexts ha.memories] at hc hm
  rw [answer_toImport hi ha hh hr.contexts] at hv
  refine ⟨⟨?runtime, ?memories, ?calls⟩, hv⟩
  case runtime =>
    have hk : w'.runtime = w.runtime :=
      (primitives_runtime.callback (c.toImport handles).mem).of_ok (s := (c.toImport handles).enter w) hx
    exact hk.trans ha.runtime
  case memories =>
    rw [hm, World.called, after, World.called, hr', hi.memories_eq hn <| view_toImport hi ha]
    exact congrArg (Runtime.memories · _) ha.runtime
  case calls =>
    have hb' : (c.native.before issued (c.toImport handles) w).hostCalls.filter (·.fn ≠ .id) =
        v.hostCalls.filter (·.fn ≠ .id) := hb.trans ha.calls
    simp only [World.calls, hc, after, World.called, List.filter_append, before] at hb' ⊢
    rw [hb']

-- The results say what the answer is.
theorem reply_toImport {results : List (Option WasmVal)} (hr : c.Regular mem ctxs v)
    (hv : (c.answer mem ctxs v).Reaches results issued) :
    c.reply results = (c.answer mem ctxs v).reply := by
  have hn := fn_ne_id _ c.mem
  have hh := hr.has
  simp only [answer] at hv
  simp only [reply, answer]
  cases hf : c.native.fn
  case id => exact absurd hf hn
  case has => exact absurd hf hh
  case same =>
    simp only [hf, Answer.of, Answer.Reaches] at hv
    simp only [hv, boolVal, Answer.of, Answer.reply]
    split <;> simp_all
  case entity =>
    simp only [hf, Answer.of, Answer.Reaches] at hv
    simp only [hv, Answer.of, Answer.reply]
  all_goals rfl

-- A new context gets a handle which stands for no other.
theorem held_toImport {results : List (Option WasmVal)} (hh : Held issued handles ctxs)
    (hv : (c.answer mem ctxs v).Reaches results issued) :
    Held ((c.answer mem ctxs v).issue results issued) (handles ++ c.handles results)
      (ctxs ++ (c.answer mem ctxs v).contexts) := by
  simp only [answer] at hv
  simp only [ApiCall.handles, answer]
  cases hf : c.native.fn
  case parent | other =>
    simp only [hf, Answer.of, Answer.Reaches] at hv
    obtain ⟨handle, rfl, _, hn⟩ := hv
    refine List.rel_append (hh.imp fun h ctx hi => ?_) <| .cons (Function.update_self ..) .nil
    have hne : h ≠ handle := by
      rintro rfl
      cases hn.symm.trans hi
    exact (Function.update_of_ne hne ..).trans hi
  all_goals simpa [Answer.of, Answer.contexts, Answer.issue] using hh

theorem length_toImport {results : List (Option WasmVal)}
    (hv : (c.answer mem ctxs v).Reaches results issued) :
    16 * (handles ++ c.handles results).length =
      16 * handles.length + if (c.toImport handles).Derives then 16 else 0 := by
  have hd : c.native.asksId = true ↔ (c.toImport handles).Derives := asksId_iff _ c.mem
  have hq : ∀ e ∈ nativeApi, e.2.asksId = true ↔ e.2.fn = .parent ∨ e.2.fn = .other := by decide
  have hq := hq _ c.mem
  simp only [answer] at hv
  simp only [← hd, hq, ApiCall.handles]
  cases hf : c.native.fn
  case parent | other =>
    simp only [hf, Answer.of, Answer.Reaches] at hv
    obtain ⟨handle, rfl, _⟩ := hv
    simp [Nat.mul_add]
  all_goals simp

end ApiCall

-- What the call memory has of a guest for what the system has.
structure Equipped (mem : MemPtr) (handles : List (BitVec 32)) (ctxs : List CtxPtr) (c : CallMem) :
    Prop where
  held  : ∃ issued info, Holding mem issued c info ∧ Held issued handles ctxs
  grown : Grown (16 * handles.length) c

theorem equipped_enter {ctx : CtxPtr} {handle : BitVec 32} {c c' : CallMem}
    (h : enterSystem mem ctx c = .ok handle c') : Equipped mem [handle] [ctx] c' :=
  have ⟨info, hh⟩ := holding_enter h
  ⟨⟨_, info, hh, .cons (Function.update_self ..) .nil⟩, grown_enterSystem h⟩

-- A guest which has come as far as the system.
structure Follows (mem : MemPtr) (handles : List (BitVec 32)) (ctxs : List CtxPtr) (w v : World) :
    Prop where
  equipped : Equipped mem handles ctxs w.callMem
  agrees   : w.Agrees v
  ids      : w.runtime.IgnoresIds

-- A call keeps the guest level with the system.
theorem Follows.call (h : Follows mem handles ctxs w v) (hr : c.Regular mem ctxs v) :
    ∃ w', (c.toImport handles).run w = .ok none w' ∧
      Follows mem (handles ++ c.handles w'.results) (ctxs ++ (c.answer mem ctxs v).contexts) w'
        (c.after mem ctxs v) ∧
      c.reply w'.results = (c.answer mem ctxs v).reply := by
  have ⟨issued, info, hd, hh⟩ := h.equipped.held
  have ha : c.native.answer mem issued (c.toImport handles) w = c.answer mem ctxs v :=
    ApiCall.answer_toImport h.ids h.agrees hh hr.contexts
  have hp : c.native.Admissible mem issued (c.toImport handles) w :=
    ApiCall.admissible_toImport hh hr h.agrees.memories
  have hf : c.native.Regular mem issued (c.toImport handles) w := by
    refine ApiCall.regular_toImport hr ha fun hq info hi => ?_
    have ⟨info', hi', hg⟩ := h.equipped.grown
    cases hi.symm.trans hi'
    have hl := hr.fits hq
    rw [← hh.length_eq] at hl
    rw [hg.maxSize, hg.offset]
    omega
  have hx := simulates_of_holding hd c.mem hp hf
  have ⟨w', hw, _⟩ := hx
  have ⟨hw', hv⟩ := ApiCall.agrees_toImport h.ids h.agrees hh hr hw hx
  have ⟨info', hd'⟩ := hd.binding c.mem hp hf hw
  refine ⟨w', hw, ⟨⟨⟨_, info', hd', ?_⟩, ?_⟩, hw', ?_⟩, ApiCall.reply_toImport hr hv⟩
  · exact ha ▸ ApiCall.held_toImport hh hv
  · exact ApiCall.length_toImport hv ▸ ImportCall.grown_of_ok h.equipped.grown hw
  · have hk : w'.runtime = w.runtime :=
      (primitives_runtime.callback (c.toImport handles).mem).of_ok (s := (c.toImport handles).enter w) hw
    exact hk ▸ h.ids

-- The guest's run ends as the system's does, by induction on the system.
theorem SystemCode.follows (code : SystemCode) (h : Follows mem handles ctxs w v)
    (hr : code.Regular mem ctxs v) : ∃ w' handles' ctxs',
      GuestRun.callImports (code.guestCalls mem handles w) w = .ok none w' ∧
      Follows mem handles' ctxs' w' (code.runNative mem ctxs v) := by
  induction code generalizing handles ctxs w v
  case done => exact ⟨w, handles, ctxs, rfl, h⟩
  case call c next hi =>
    have ⟨hc, hn⟩ := hr
    have ⟨w₁, hw, h₁, hp⟩ := h.call hc
    rw [← hp, ← h₁.agrees.memories] at hn
    have ⟨w', handles', ctxs', hx, h'⟩ := hi _ _ h₁ hn
    refine ⟨w', handles', ctxs', ?_, ?_⟩
    · simp only [guestCalls, hw, GuestRun.callImports]
      rw [bind_ok hw]
      exact hx
    · simp only [runNative, ← hp, ← h₁.agrees.memories]
      exact h'

namespace Program

variable {p p₁ : Program} {thread : ThreadId} {ctx : CtxPtr} {exp : MinstExport}
  {handle : BitVec 32} {minst : SystemImpls} {code : SystemCode}

-- The guest starts level with the system.
theorem follows_enter {c : CallMem} (hi : p.world.runtime.IgnoresIds)
    (h : enterSystem mem ctx (p.view thread).callMem = .ok handle c)
    (hv : p₁.view thread = { (p.view thread).called .id [.ctx ctx] with callMem := c }) :
    Follows mem [handle] [ctx] (p₁.view thread) (p.view thread) := by
  rw [hv]
  exact ⟨equipped_enter h, ⟨rfl, hi.ids .., by simp [World.calls, World.called]⟩, hi⟩

-- The end of an execution takes nothing but its call memory away.
theorem leaveSystemImpl_eq : leaveSystemImpl thread p = .ok () {
      p.put thread
        { p.view thread with callMem := { (p.view thread).callMem with info := none } }
      with running := p.running.filter (·.1 ≠ thread)
    } :=
  rfl

theorem leaveSystemImpl_agrees {v : World} (h : (p.view thread).Agrees v) :
    ∃ p', leaveSystemImpl thread p = .ok () p' ∧ (p'.view thread).Agrees v :=
  ⟨_, leaveSystemImpl_eq, h.runtime, h.memories, h.calls⟩

-- To run the guest of a system by `ecsact_si_wasm_system_impl` is to run the system natively.
theorem ecsactSiWasmSystemImpl_translates (hp : Reachable p) (hi : p.world.runtime.IgnoresIds)
    (he : enterSystemImpl thread ctx p = .ok (exp, handle) p₁)
    (hm : p₁.running = (thread, minst) :: p.running)
    (hr : code.Regular minst.memory.ptr [ctx] (p.view thread)) : ∃ p',
      ecsactSiWasmSystemImpl thread ctx
        (fun handle => { calls := code.guestCalls minst.memory.ptr [handle] (p₁.view thread) }) p =
          .ok () p' ∧
      (p'.view thread).Agrees (code.runNative minst.memory.ptr [ctx] (p.view thread)) := by
  have ⟨calls, hl⟩ := hp.loading
  have ⟨_, _, _, _, _, _, _, _, hk⟩ := hl.calls_export he
  have ⟨minst', _, c, _, _, hc, hq, hv⟩ := enterSystemImpl_eq_ok he
  have hm' : minst' = minst := by
    rw [hq] at hm
    simpa using hm
  subst hm'
  have hf := follows_enter hi hc hv
  have ⟨w, _, _, hx, hf⟩ := code.follows hf hr
  have hg : onThread thread (exp.funcCall
      { calls := code.guestCalls minst'.memory.ptr [handle] (p₁.view thread) }) p₁ =
        .ok none (p₁.put thread w) := by
    rw [funcCall_of_func hk]
    exact zoom_ok <| bind_ok hx
  have hw : ((p₁.put thread w).view thread).Agrees
      (code.runNative minst'.memory.ptr [ctx] (p.view thread)) :=
    view_put.symm ▸ hf.agrees
  have ⟨p', hl, ha⟩ := leaveSystemImpl_agrees hw
  exact ⟨p', (bind_ok he).trans <| (bind_ok hg).trans hl, ha⟩

-- A runtime in which every context has a parent.
def parentRuntime : Runtime :=
  { Runtime.inert with parent := fun _ => 5 }

theorem parentRuntime_ignoresIds : parentRuntime.IgnoresIds where
  answers _ fn   := by cases fn <;> rfl
  memories _ _ _ := fun _ => rfl
  ids _ _ _      := rfl

def parentCall : ApiCall where
  name     := "ecsact_system_execution_context_parent"
  native   := Execution.parentNative
  mem      := Execution.parentNative_mem
  operands := [.context 0]
  typed    := .cons rfl .nil

def actionCall : ApiCall where
  name     := "ecsact_system_execution_context_action"
  native   := { fn := .action, roles := [.context, .ptr] }
  mem      := by simp [nativeApi]
  operands := [.context 1, .word 16]
  typed    := .cons rfl <| .cons nofun .nil

-- A system which gets the action of its parent.
def parentAction : SystemCode :=
  .call parentCall fun _ _ => .call actionCall fun _ _ => .done

section

variable {w w' : World} (h : w.runtime = parentRuntime)
include h

theorem parentCall_answer : parentCall.answer mem [ctx] w = .context 5 := by
  simp [ApiCall.answer, parentCall, Execution.parentNative, Answer.of, h, parentRuntime]

theorem parentCall_regular : parentCall.Regular mem [ctx] w where
  contexts k hk := by simp_all [parentCall]
  ptr           := by simp [parentCall, Execution.parentNative]
  ptrs          := by simp [parentCall, Execution.parentNative]
  has           := nofun
  streamToggle  := nofun
  generate      := nofun
  nonNull       := by simp [parentCall_answer h]
  fits _        := by simp

theorem actionCall_regular :
    actionCall.Regular mem ([ctx] ++ (parentCall.answer mem [ctx] w).contexts) w' where
  contexts      := by simp [actionCall, parentCall_answer h, Answer.contexts]
  ptr           := by simp [actionCall]
  ptrs          := by simp [actionCall]
  has           := nofun
  streamToggle  := nofun
  generate      := nofun
  nonNull       := by simp [ApiCall.answer, actionCall, Answer.of]
  fits          := nofun

theorem parentAction_regular : parentAction.Regular mem [ctx] w :=
  ⟨parentCall_regular h, actionCall_regular h, trivial⟩

end

theorem enter_parents : ∃ p p₁ r,
    Step { initial parentRuntime false with threads := [0] }
      (.load 0 plainSystems plainBuild) p ∧
    enterSystemImpl 0 2 p = .ok r p₁ ∧ p₁.running = (0, plainImpls 1) :: p.running ∧
    p.world.runtime = parentRuntime :=
  ⟨_, _, _, ⟨⟨List.mem_singleton_self 0, by decide⟩, bind_ok <| load_filled rfl rfl rfl rfl⟩, rfl, rfl,
    rfl⟩

theorem parentAction_translates : ∃ p p₁ p' r, enterSystemImpl 0 2 p = .ok r p₁ ∧
    ecsactSiWasmSystemImpl 0 2
      (fun handle => {
        calls := parentAction.guestCalls (plainMemory 1).ptr [handle] (p₁.view 0)
      }) p = .ok () p' ∧
    (p'.view 0).Agrees (parentAction.runNative (plainMemory 1).ptr [2] (p.view 0)) := by
  have ⟨p, p₁, ⟨exp, handle⟩, hl, he, hm, hr⟩ := enter_parents
  have hp : Reachable p := ⟨_, ⟨rfl, rfl, rfl, rfl⟩, .single ⟨_, trivial, hl⟩⟩
  have ⟨p', h⟩ := ecsactSiWasmSystemImpl_translates hp (hr ▸ parentRuntime_ignoresIds) he hm <|
    parentAction_regular hr
  exact ⟨p, p₁, p', _, he, h⟩

end Program
end Ecsact
