import EcsactSiWasmer.Execution.Interleaving
import EcsactSiWasmer.Execution.Theorems.Translation

open EStateM Ecsact.World Ecsact.CallMem

namespace Option.Rel

variable {α β γ : Type} {r r' : α → β → Prop} {a : Option α} {b : Option β} {y : β}

theorem imp (h : Rel r a b) (hi : ∀ x y, r x y → r' x y) : Rel r' a b := by
  cases h
  case none   => exact .none
  case some h => exact .some <| hi _ _ h

theorem map_eq {f : α → γ} {f' : β → γ} (h : Rel r a b) (hf : ∀ x y, r x y → f x = f' y) :
    a.map f = b.map f' := by
  cases h
  case none   => rfl
  case some h => exact congrArg Option.some <| hf _ _ h

theorem exists_of_some (h : Rel r a (.some y)) : ∃ x, a = .some x ∧ r x y := by
  cases h
  case some h => exact ⟨_, rfl, h⟩

end Option.Rel

namespace Ecsact

open Program

variable {p p' : Program} {g g' : Guests} {s : Systems} {thread t : ThreadId} {turn : Turn}
  {guest : Task (BitVec 32)} {system : Task CtxPtr}

-- The guest on a thread is where the system is.
structure Level (p : Program) (thread : ThreadId) (guest : Task (BitVec 32))
    (system : Task CtxPtr) : Prop where
  code     : guest.code = system.code
  mem      : guest.mem = system.mem
  equipped : Equipped system.mem guest.given system.given (p.view thread).callMem
  busy     : p.busy thread

structure InStep (g : Guests) (s : Systems) : Prop where
  agrees : g.program.world.Agrees s.world
  ids    : g.program.world.runtime.IgnoresIds
  tasks  : ∀ thread, Option.Rel (Level g.program thread) (g.tasks thread) (s.tasks thread)

theorem Level.elsewhere (h : Level p t guest system) (he : Elsewhere thread p p') (hn : t ≠ thread)
    (hb : p'.busy t) : Level p' t guest system where
  code     := h.code
  mem      := h.mem
  equipped := he.view_callMem hn ▸ h.equipped
  busy     := hb

namespace InStep

theorem start {tasks : ThreadId → Option (Task (BitVec 32))} (ht : tasks = fun _ => none)
    (hi : p.world.runtime.IgnoresIds) : InStep ⟨p, tasks⟩ ⟨p.world, fun _ => none⟩ where
  agrees  := ⟨rfl, rfl, rfl⟩
  ids     := hi
  tasks _ := ht ▸ .none

theorem code_eq (h : InStep g s) (thread : ThreadId) :
    (g.tasks thread).map Task.code = (s.tasks thread).map Task.code :=
  (h.tasks thread).map_eq fun _ _ hl => hl.code

theorem guest_of_system (h : InStep g s) (hs : s.tasks thread = some system) : ∃ handles,
    g.tasks thread = some ⟨system.code, handles, system.mem⟩ ∧
    Level g.program thread ⟨system.code, handles, system.mem⟩ system := by
  obtain ⟨⟨_, handles, _⟩, hg, hl⟩ := Option.Rel.exists_of_some <| hs ▸ h.tasks thread
  cases hl.code
  cases hl.mem
  exact ⟨handles, hg, hl⟩

-- What a thread does leaves the guests on the other threads where they are.
theorem update (h : InStep g s) {a : Option (Task (BitVec 32))} {b : Option (Task CtxPtr)}
    (he : Elsewhere thread g.program p') (hb : ∀ t, t ≠ thread → g.program.busy t → p'.busy t)
    (ht : Option.Rel (Level p' thread) a b) (t : ThreadId) : Option.Rel (Level p' t)
      (Function.update g.tasks thread a t) (Function.update s.tasks thread b t) := by
  by_cases hn : t = thread
  case pos =>
    subst hn
    rwa [Function.update_self, Function.update_self]
  case neg =>
    rw [Function.update_of_ne hn, Function.update_of_ne hn]
    exact (h.tasks t).imp fun _ _ hl => hl.elsewhere he hn <| hb t hn hl.busy

theorem enter {ctx : CtxPtr} {code : SystemCode} {exp : MinstExport} {handle : BitVec 32}
    {minst : SystemImpls} (h : InStep g s)
    (he : enterSystemImpl thread ctx g.program = .ok (exp, handle) p')
    (hr : p'.running = (thread, minst) :: g.program.running) : InStep
      ⟨p', Function.update g.tasks thread (some ⟨code, [handle], minst.memory.ptr⟩)⟩
      (s.step (.enter thread ctx code minst.memory.ptr)) := by
  have ⟨minst', _, c, _, _, hc, hq, hv⟩ := enterSystemImpl_eq_ok he
  have hm : minst' = minst := by
    rw [hq] at hr
    simpa using hr
  subst hm
  have hf : Follows minst'.memory.ptr [handle] [ctx] (p'.view thread) (g.program.view thread) :=
    follows_enter h.ids hc hv
  refine ⟨?agrees, ?ids, h.update (elsewhere_enterSystemImpl.of_ok he) (fun t _ hb => ?busy) <|
    .some ?level⟩
  case agrees =>
    have ha : p'.world.Agrees g.program.world := ⟨hf.agrees.1, hf.agrees.2, hf.agrees.3⟩
    exact ⟨ha.1.trans h.agrees.1, ha.2.trans h.agrees.2, ha.3.trans h.agrees.3⟩
  case ids => exact hf.ids
  case busy => simpa [busy, hq] using .inr <| by simpa [busy] using hb
  case level => exact ⟨rfl, rfl, hf.equipped, by simp [busy, hq]⟩

-- A call which is regular natively returns in the guest, and both have then come equally far.
theorem call (h : InStep g s) (hr : s.Regular (.call thread)) :
    ∃ g', g.Step (.call thread) g' ∧ InStep g' (s.step (.call thread)) := by
  have ⟨c, next, ctxs, mem, hs, hc⟩ := hr
  have ⟨handles, hg, hl⟩ := h.guest_of_system hs
  have ha : (g.program.view thread).Agrees s.world :=
    ⟨h.agrees.runtime, h.agrees.memories, h.agrees.calls⟩
  have hf : Follows mem handles ctxs (g.program.view thread) s.world := ⟨hl.equipped, ha, h.ids⟩
  have ⟨w, hw, hf', hp⟩ := hf.call hc
  have hx : onThread thread (c.toImport handles).run g.program = .ok none (g.program.put thread w) :=
    zoom_ok hw
  have hx' : Program.Step g.program (.guest thread (c.toImport handles)) (g.program.put thread w) :=
    ⟨hl.busy, (bind_ok hx).trans rfl⟩
  refine ⟨_, .call hg hx', ?_⟩
  rw [Systems.step, hs]
  refine ⟨hf'.agrees, hf'.ids, h.update (elsewhere_guest.of_ok hx) (fun _ _ hb => hb) <| .some ?_⟩
  have hm : w.memories = (c.after mem ctxs s.world).memories := hf'.agrees.memories
  exact ⟨congrArg₂ next hp (congrFun hm mem), rfl, view_put.symm ▸ hf'.equipped, hl.busy⟩

theorem leave (h : InStep g s) (hr : s.Regular (.leave thread)) :
    ∃ g', g.Step (.leave thread) g' ∧ InStep g' (s.step (.leave thread)) := by
  have ⟨ctxs, mem, hs⟩ := hr
  have ⟨handles, hg, hl⟩ := h.guest_of_system hs
  refine ⟨_, .leave hg ⟨hl.busy, leaveSystemImpl_eq⟩, ?_⟩
  have he : Elsewhere thread g.program (g.program.put thread { g.program.view thread with
      callMem := { (g.program.view thread).callMem with info := none } }) :=
    ⟨fun _ hn => Function.update_of_ne hn .., rfl⟩
  refine ⟨⟨h.agrees.runtime, h.agrees.memories, h.agrees.calls⟩, h.ids, h.update ⟨he.info, he.ndebug⟩
    (fun t hn hb => ?_) .none⟩
  have ⟨r, hr, ht⟩ := List.any_eq_true.mp hb
  refine List.any_eq_true.mpr ⟨r, List.mem_filter.mpr ⟨hr, ?_⟩, ht⟩
  simpa [beq_iff_eq.mp ht] using hn

theorem aside {event : Event} (h : InStep g s) (ha : event.Aside) (hl : ¬event.IsLoad)
    (hx : Program.Step g.program event p') : InStep ⟨p', g.tasks⟩ s := by
  have ⟨he, hr⟩ := hx
  cases event
  case load => exact absurd trivial hl
  case exit thread =>
    cases hr
    refine ⟨h.agrees, h.ids, fun t => (h.tasks t).imp fun _ _ hv => ?_⟩
    have hn : t ≠ thread := by
      rintro rfl
      exact he.2 hv.busy
    exact hv.elsewhere (elsewhere_exit ..) hn hv.busy
  case start | reset | setTrapHandler =>
    cases hr
    exact ⟨h.agrees, h.ids, fun t => (h.tasks t).imp fun _ _ hl => ⟨hl.1, hl.2, hl.3, hl.4⟩⟩
  all_goals cases ha

-- A step of the guests is the systems'.
theorem step (h : InStep g s) (hr : s.Regular turn) (hx : g.Step turn g') :
    InStep g' (s.step turn) := by
  cases hx
  case enter he hx hm => exact h.enter hx hm
  case aside ha hl hx => exact h.aside ha hl hx
  case call hg hx =>
    obtain ⟨_, hx', hi⟩ := h.call hr
    cases hx'
    case call hx' hg' =>
      cases hg.symm.trans hg'
      cases hx.run.symm.trans hx'.run
      exact hi
  case leave hg hx =>
    obtain ⟨_, hx', hi⟩ := h.leave hr
    cases hx'
    case leave hx' _ =>
      cases hx.run.symm.trans hx'.run
      exact hi

-- What systems do natively by themselves, their guests can do.
theorem traces {turns : List Turn} (h : InStep g s) (ho : ∀ turn ∈ turns, turn.Own)
    (hr : List.Along Systems.step Systems.Regular s turns) :
    ∃ g', List.Traces Guests.Step g turns g' := by
  induction turns generalizing g s
  case nil => exact ⟨g, .nil⟩
  case cons turn turns hi =>
    have ⟨hr, hs⟩ := hr
    have ⟨ht, ho⟩ := List.forall_mem_cons.mp ho
    have ⟨g₁, hx, h₁⟩ : ∃ g', g.Step turn g' ∧ InStep g' (s.step turn) := by
      cases turn
      case call  => exact h.call hr
      case leave => exact h.leave hr
      all_goals cases ht
    have ⟨g', h'⟩ := hi h₁ ho hs
    exact ⟨g', .cons hx h'⟩

end InStep

-- However the systems on the threads are interleaved, their guests do what they would do natively in
-- the same order, and none of them is held up.
theorem Guests.interleaves {turns : List Turn} (h : List.Traces Step g turns g')
    (ht : g.tasks = fun _ => none) (hi : g.program.world.runtime.IgnoresIds)
    (hr : List.Along Systems.step Systems.Regular ⟨g.program.world, fun _ => none⟩ turns) :
    let s := Systems.run ⟨g.program.world, fun _ => none⟩ turns
    g'.program.world.Agrees s.world ∧
    (∀ thread, (g'.tasks thread).map Task.code = (s.tasks thread).map Task.code) ∧
    ∀ turns', (∀ turn ∈ turns', turn.Own) → List.Along Systems.step Systems.Regular s turns' →
      ∃ g'', List.Traces Step g' turns' g'' := by
  have hs : InStep g' (Systems.run ⟨g.program.world, fun _ => none⟩ turns) :=
    h.related (InStep.start ht hi) hr fun _ _ _ _ hs hr hx => hs.step hr hx
  exact ⟨hs.agrees, hs.code_eq, fun _ => hs.traces⟩

section

variable {ctx : CtxPtr} {mem : MemPtr} {w : World}

-- Two threads, each of which gets the action of its system's parent.
def twoParents : List Turn := [
  .enter 0 2 parentAction (plainMemory 1).ptr,
  .enter 1 3 parentAction (plainMemory 2).ptr,
  .call 0,
  .call 1,
  .call 1,
  .call 0,
  .leave 1
]

theorem twoParents_along (h : w.runtime = parentRuntime) :
    List.Along Systems.step Systems.Regular ⟨w, fun _ => none⟩ twoParents := by
  refine ⟨trivial, trivial, ⟨_, _, _, _, rfl, parentCall_regular h⟩, ?_⟩
  have h' : (parentCall.after 1 [2] w).runtime = parentRuntime := h
  refine ⟨⟨_, _, _, _, rfl, parentCall_regular h'⟩, ⟨_, _, _, _, rfl, actionCall_regular h'⟩, ?_⟩
  exact ⟨⟨_, _, _, _, rfl, actionCall_regular h⟩, ⟨_, _, rfl⟩, trivial⟩

end

-- After a load, both threads enter.
theorem enter_twoParents : ∃ p p₁ p₂ r₁ r₂,
    Program.Step { initial parentRuntime false with threads := [0, 1] }
      (.load 0 plainSystems plainBuild) p ∧
    p.world.runtime = parentRuntime ∧
    (Event.enter 0 2).Enabled p ∧ enterSystemImpl 0 2 p = .ok r₁ p₁ ∧
    p₁.running = (0, plainImpls 1) :: p.running ∧
    (Event.enter 1 3).Enabled p₁ ∧ enterSystemImpl 1 3 p₁ = .ok r₂ p₂ ∧
    p₂.running = (1, plainImpls 2) :: p₁.running :=
  ⟨_, _, _, _, _,
    ⟨⟨List.mem_cons_self, by decide⟩, bind_ok <| load_filled rfl rfl rfl rfl⟩, rfl,
    ⟨List.mem_cons_self, by decide⟩, rfl, rfl,
    ⟨List.mem_cons_of_mem _ List.mem_cons_self, by decide⟩, rfl, rfl⟩

theorem twoParents_interleaves : ∃ (p : Program) (g : Guests),
    List.Traces Guests.Step ⟨p, fun _ => none⟩ twoParents g ∧
    g.program.world.Agrees (Systems.run ⟨p.world, fun _ => none⟩ twoParents).world := by
  obtain ⟨p, _, _, ⟨_, _⟩, ⟨_, _⟩, _, hr, he₁, hx₁, hm₁, he₂, hx₂, hm₂⟩ := enter_twoParents
  have hi : p.world.runtime.IgnoresIds := hr ▸ parentRuntime_ignoresIds
  have ha := twoParents_along hr
  have hs := InStep.start (p := p) rfl hi
  have h₁ : InStep _ (Systems.step _ (.enter 0 2 parentAction (plainMemory 1).ptr)) := hs.enter hx₁ hm₁
  have h₂ : InStep _ (Systems.step _ (.enter 1 3 parentAction (plainMemory 2).ptr)) := h₁.enter hx₂ hm₂
  have ho : ∀ turn ∈ twoParents.drop 2, turn.Own := by simp [twoParents, Turn.Own]
  have ⟨g, hg⟩ := h₂.traces ho ha.2.2
  have ht : List.Traces Guests.Step ⟨p, fun _ => none⟩ twoParents g :=
    .cons (.enter he₁ hx₁ hm₁) <| .cons (.enter he₂ hx₂ hm₂) hg
  exact ⟨p, g, ht, (Guests.interleaves ht rfl hi ha).1⟩

end Ecsact
