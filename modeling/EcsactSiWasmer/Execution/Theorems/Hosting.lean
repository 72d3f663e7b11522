import EcsactSiWasmer.Execution.Hosting
import EcsactSiWasmer.Execution.Theorems.Entries
import EcsactSiWasmer.Execution.Theorems.Passes

open EStateM Ecsact.World Ecsact.CallMem

namespace Ecsact

namespace Execution

variable {mem : MemPtr} {issued : IssuedHandles} {w w' : World} {call : ImportCall} {n : Native}

-- What the runtime is asked for does not depend on the memory.
theorem derive_with {mem' : MemPtr} {ctx : CtxPtr} {handle : BitVec 32} (h : Execution mem w issued)
    (hn : (call.name, n) ∈ nativeApi) (hq : n.asksId) (hp : call.PassesIssued issued)
    (hr : w.HasRoom) (hx : call.run w = .ok none w')
    (ha : n.answer mem' (issued.lookup ·) call w = .context ctx)
    (hv : w'.results = [some (.i32 handle)]) : Execution mem w' (issued ++ [(handle, ctx)]) := by
  have he : n.answer mem (issued.lookup ·) call w = n.answer mem' (issued.lookup ·) call w := by
    cases eq_of_asksId _ hn hq
    all_goals
      rename_i h'
      obtain ⟨hc, rfl⟩ := Prod.mk.inj h'
    case inl =>
      obtain ⟨vs, hl, hc⟩ := exists_runs hc rfl (k := 1) rfl
      obtain ⟨v, rfl⟩ := List.length_eq_one_iff.mp hl
      simp only [Native.answer, Native.hostArgs, hc.vals]
      rfl
    case inr =>
      obtain ⟨vs, hl, hc⟩ := exists_runs hc rfl (k := 2) rfl
      obtain ⟨v, assocId, rfl⟩ := List.length_eq_two.mp hl
      simp only [Native.answer, Native.hostArgs, hc.vals]
      rfl
  exact h.derive hn hq hp hr hx (he.trans ha) hv

-- The guest may also pass any values.
theorem any (h : Execution mem w issued) : AnyExecution mem w (issued.map Prod.fst) := by
  induction h
  case enter h => exact .enter h
  case derive hn hq _ _ hx _ hv hi =>
    rw [List.map_append]
    exact hi.derive ((asksId_iff _ hn).mp hq) hx hv
  case other hd _ hx hi  => exact hi.other hd hx
  case elsewhere he hi   => exact hi.elsewhere he

end Execution

-- In bounds, a call stays in the memory that it finds.
theorem ImportCall.inside {call : ImportCall} {w : World} {mem : MemPtr} (hf : call.Finds w mem)
    (hb : call.InBounds w mem) :
    ∀ a ∈ (call.run w).state.accesses, a.Inside mem (call.memory w mem).size := by
  intro a ha
  have hs := call.sandboxed w
  have ⟨hge, hle⟩ := hs.inside _ hb.named a ha
  have hm := (hs.accesses a ha).1
  rw [Finds] at hf hm
  cases hm.symm.trans hf
  exact ⟨rfl, hge, hle⟩

-- A call which names no addresses.
theorem ImportCall.inBounds_of_ranges {call : ImportCall} {w : World} {mem : MemPtr}
    (hr : call.ranges = {}) (hp : ∀ n, (call.name, n) ∈ nativeApi → .ptr ∉ n.roles) :
    call.InBounds w mem where
  named write v k n h := by
    cases h
    case out h          => simp [hr] at h
    case entry h _ _    => simp [hr] at h
    case buffer h _ _ _ => simp [hr] at h
  pointed v h := by
    cases h
    case arg n i hn hi => exact absurd (List.mem_of_getElem? hi) (hp n hn)
    case word h _ _    => simp [hr] at h
  flag h := by
    have hn : ("ecsact_system_execution_context_stream_toggle",
        { fn := .streamToggle, roles := [.context, .id, .flag, .ptr] }) ∈ nativeApi := by
      simp [nativeApi]
    exact absurd (by decide) <| hp _ (h ▸ hn)

namespace Program

variable {p p' : Program} {thread : ThreadId} {event : Event} {minst : SystemImpls}
  {issued issued' : ThreadId → IssuedHandles} {call : ImportCall}

-- A guest's call is one of the thread's execution.
theorem guest_view {trap : Option Trap} (hg : onThread thread call.run p = .ok trap p') : ∃ w,
    call.run (p.view thread) = .ok none w ∧ p' = p.put thread w := by
  have ⟨w, hw, hp⟩ := zoom_eq_ok.mp hg
  cases trap_eq_none call.mem call.typed hw
  exact ⟨w, hw, hp⟩

namespace Event.Abides

theorem passesIssued (h : (guest thread call).Abides issued p) : call.PassesIssued (issued thread) :=
  h.passes _ (List.mem_singleton_self _)

theorem hasRoom (h : (guest thread call).Abides issued p) (hd : DerivesHandle call.name) :
    (p.view thread).HasRoom :=
  h.fits _ (List.mem_singleton_self _) hd

theorem inBounds {mem : MemPtr} (h : (guest thread call).Abides issued p)
    (hf : call.Finds (p.view thread) mem) : call.InBounds (p.view thread) mem :=
  h.bounds _ (List.mem_singleton_self _) mem hf

-- A step in which no guest does anything.
theorem of_begun (h : event.begun p = []) : event.Abides issued p where
  passes := by simp [Event.PassesIssued, h]
  fits   := by simp [Event.Fits, h]
  bounds := by simp [Event.InBounds, h]

end Event.Abides

-- The executions in flight, with the handles that their guests were given.
def Executing (issued : ThreadId → IssuedHandles) (p : Program) : Prop :=
  ∀ r ∈ p.running, Execution r.2.memory.ptr (p.view r.1) (issued r.1)

-- What a thread does leaves the executions on the other threads as they are.
theorem Executing.elsewhere (h : Executing issued p) (he : Elsewhere thread p p')
    {r : ThreadId × SystemImpls} (hr : r ∈ p.running) (hn : r.1 ≠ thread) :
    Execution r.2.memory.ptr (p'.view r.1) (issued r.1) :=
  (h r hr).elsewhere <| he.view_callMem hn

namespace Hosts

-- Such a step is a step.
theorem step (h : Hosts issued p issued' p') : ∃ event, Step p event p' := by
  cases h
  case enter he hr => exact ⟨_, he, bind_ok hr⟩
  case derive hx _ | guest hx | leave hx | aside hx => exact ⟨_, hx⟩

-- The execution on each thread, whatever happens on the others.
theorem executing (h : Hosts issued p issued' p') (hi : Executing issued p) :
    Executing issued' p' := by
  cases h
  case enter thread ctx r he hr =>
    have hx := elsewhere_enterSystemImpl.of_ok hr
    have ⟨_, minst, p₁, p₂, h₁, ht, ⟨c, hc⟩, hp⟩ := enterSystemImpl_ok hr
    have hq : p'.running = (thread, minst) :: p.running := by
      rw [hp, ← ensureMinst_running h₁, ← ht.running]
    rw [Executing, hq]
    refine List.forall_mem_cons.mpr ⟨?_, fun r' hr' => ?_⟩
    · have hv : p'.view thread = p₂.view thread := by
        rw [hp]
        rfl
      rw [Function.update_self, hv]
      exact .enter (w := { p₂.view thread with callMem := c }) hc
    · have hn := ne_of_not_busy he.2 hr'
      rw [Function.update_of_ne hn]
      exact hi.elsewhere hx hr' hn
  case derive thread call n mem ctx handle hn hq hb ha hx hv =>
    have ⟨_, _, hg, he⟩ := bind_eq_ok.mp hx.run
    cases he
    have ht : Touched p p' := touched_onThread.of_ok hg
    intro r hr
    rw [ht.running] at hr
    by_cases hc : r.1 = thread
    case neg => exact Function.update_of_ne hc .. ▸ hi.elsewhere (elsewhere_guest.of_ok hg) hr hc
    case pos =>
      subst hc
      obtain ⟨w, hw, rfl⟩ := guest_view hg
      rw [Function.update_self]
      exact ((hi r hr).derive_with hn hq hb.passesIssued (hb.hasRoom ((asksId_iff _ hn).mp hq)) hw ha
        hv).elsewhere view_put_callMem
  case guest thread call hd hb hx =>
    have ⟨_, _, hg, he⟩ := bind_eq_ok.mp hx.run
    cases he
    have ht : Touched p p' := touched_onThread.of_ok hg
    intro r hr
    rw [ht.running] at hr
    by_cases hc : r.1 = thread
    case neg => exact hi.elsewhere (elsewhere_guest.of_ok hg) hr hc
    case pos =>
      subst hc
      obtain ⟨w, hw, rfl⟩ := guest_view hg
      exact ((hi r hr).other hd hb.passesIssued hw).elsewhere view_put_callMem
  case leave thread hx =>
    have ⟨_, p₁, h₁, hp⟩ := bind_eq_ok.mp hx.run
    cases hp
    have ht : Touched p p₁ := touched_onThread.of_ok h₁
    have he := (elsewhere_onCallMem ndebug_setCallMemData).of_ok h₁
    intro r hr
    have ⟨hr, hn⟩ := List.mem_filter.mp hr
    rw [ht.running] at hr
    have hn := of_decide_eq_true hn
    exact Function.update_of_ne hn .. ▸ hi.elsewhere he hr hn
  case aside event ha _ hx =>
    have ⟨he, hx⟩ := hx
    cases event
    case start          => cases hx; exact hi
    case reset          => cases hx; exact hi
    case setTrapHandler => cases hx; exact hi
    case exit thread =>
      cases hx
      exact fun r hr => hi.elsewhere (elsewhere_exit ..) hr <| ne_of_not_busy he.2 hr
    case load thread systems builds =>
      have ⟨_, _, hl, hp⟩ := bind_eq_ok.mp hx
      cases hp
      intro r hr
      rw [(ecsactSiWasmLoad_ok hl).keeps.1] at hr
      exact hi.elsewhere (elsewhere_load.of_ok hl) hr <| ne_of_not_busy he.2 hr
    all_goals cases ha

end Hosts

theorem Hosting.executing (h : Hosting issued p) : Executing issued p := by
  induction h
  case start hs _  => simp [Executing, hs.running]
  case step hx hi  => exact hx.executing hi

-- What such a guest uses is its own, if it is in bounds.
theorem owned_of_uses {issued : IssuedHandles} {mem : MemPtr} {w : World} {c : HostCall}
    {finds : MemPtr → Prop} (hu : c.Uses issued mem call)
    (hp : call.Passes finds (call.run w).state.accesses c) (hf : ∀ mem', finds mem' → mem' = mem)
    (hb : call.InBounds w mem) : c.Owned issued mem (call.memory w mem).size where
  contexts := hu.contexts
  pointers ptr hm := by
    have hd {v : BitVec 32} (h : v.toNat < 2 ^ 31 ∧ v.toNat < (call.memory w mem).size) :
        (voidPtr v mem).Into mem (call.memory w mem).size := by
      rw [voidPtr]
      split
      case isTrue => trivial
      case isFalse =>
        rw [toInt_eq_toNat h.1]
        exact ⟨rfl, Int.natCast_nonneg _, Int.ofNat_lt.mpr h.2⟩
    by_cases hs : c.fn = .streamToggle
    case pos =>
      obtain ⟨hn, he⟩ := hu.flag hs
      exact he ptr hm ▸ hd (hb.flag hn)
    case neg =>
      cases hp hs ptr hm
      case inl hz => exact hz ▸ trivial
      case inr hh =>
        obtain ⟨mem', offset, v, rfl, hm', hv, ho⟩ := hh
        obtain ⟨h₁, h₂⟩ := hb.pointed v hv
        rw [ho h₁]
        exact ⟨hf _ hm', Int.natCast_nonneg _, Int.ofNat_lt.mpr h₂⟩

-- A guest which keeps to what is its own is kept apart from the others.
theorem isolated_of_execution (h : Execution minst.memory.ptr (p.view thread) (issued thread))
    (ha : (Event.guest thread call).Abides issued p) (hs : Step p (.guest thread call) p') :
    Isolated (issued thread) thread minst call p p' := by
  have ⟨_, _, hg, he⟩ := bind_eq_ok.mp hs.run
  cases he
  have ht := elsewhere_guest.of_ok hg
  obtain ⟨w, hw, rfl⟩ := guest_view hg
  have hn := h.found ha.passesIssued
  have hb := ha.inBounds hn
  have hi := ImportCall.inside hn hb
  have ⟨log, made, hm⟩ := call.confined (p.view thread)
  have ⟨made', hc, ho⟩ := h.callsOnly ha.passesIssued
  have hl : (call.run (p.view thread)).state.accesses = log := hm.accesses
  have hf {mem} : call.Finds (p.view thread) mem → mem = minst.memory.ptr := h.finds ha.passesIssued
  cases List.append_cancel_left <| hm.hostCalls.symm.trans hc
  rw [← hl] at hm
  have hx := hm.passes
  rw [hw] at hi hm hc
  refine ⟨hi, ⟨made, hm.hostCalls, fun c hc => ?owned, fun hn mem hne => ?changes⟩,
    fun t hn => ht.view_callMem hn⟩
  case owned => exact owned_of_uses (w := p.view thread) (ho c hc) (hx c hc) (fun _ => hf) hb
  case changes =>
    refine funext fun x => by_contra fun hb => ?_
    have ⟨a, ha, hc⟩ := hm.changes hn mem x hb
    exact hne <| hc.2.1.symm.trans <| hf (hm.reaches a ha).1

namespace Hosting

-- In any interleaving, a guest reaches nothing of the other guests.
theorem isolated (h : Hosting issued p) (hr : (thread, minst) ∈ p.running)
    (ha : (Event.guest thread call).Abides issued p) (hs : Step p (.guest thread call) p') :
    Isolated (issued thread) thread minst call p p' :=
  isolated_of_execution (h.executing _ hr) ha hs

-- The handles on each thread stay good, whatever the others do.
theorem handles_kept (h : Hosting issued p) :
    ∀ r ∈ p.running, Stable r.2.memory.ptr (p.view r.1) (issued r.1) :=
  fun r hr => (h.executing r hr).stable

end Hosting

-- All steps of guests which keep to what is theirs are such steps.
theorem Hosts.of_step (h : Executing issued p) (ha : event.Abides issued p)
    (hs : Step p event p') : ∃ issued', Hosts issued p issued' p' := by
  cases event
  case enter thread ctx =>
    have ⟨r, _, hr, hq⟩ := bind_eq_ok.mp hs.run
    cases hq
    exact ⟨_, .enter hs.enabled hr⟩
  case leave thread => exact ⟨_, .leave hs⟩
  case guest thread call =>
    have ⟨_, _, hg, hq⟩ := bind_eq_ok.mp hs.run
    cases hq
    have ⟨w, hw, hq⟩ := guest_view hg
    have ⟨r, hr, ht⟩ := List.any_eq_true.mp hs.enabled
    cases beq_iff_eq.mp ht
    have hx := h r hr
    by_cases hc : DerivesHandle call.name
    case neg => exact ⟨_, .guest hc ha hs⟩
    case pos =>
      obtain ⟨⟨_, n⟩, hn, rfl⟩ := derives_mem_nativeApi hc
      have hk := (asksId_iff _ hn).mpr hc
      have ⟨info, hh⟩ := hx.holds
      have hl := ha.hasRoom hc info hh.eq
      rw [hh.maxSize] at hl
      have ⟨hd, hz⟩ :=
        derived_of_asksId hh.holding hn hk (Execution.admissible hn hk ha.passesIssued) hl
      have ⟨_, ctx, ha', hv, _⟩ := hd.eq hz hw
      subst hq
      exact ⟨_, .derive hn hk ha hs ha' hv⟩
  all_goals exact ⟨_, .aside (by trivial) ha hs⟩

-- In a build with asserts, a guest that has come to the end of a step has passed only what it was
-- given.
theorem Executing.passesIssued (h : Executing issued p) (hi : Idle p)
    (hd : p.world.callMem.ndebug = false) (hs : Step p event p') : event.PassesIssued issued p := by
  cases event
  case load => exact load_passesIssued hi hd hs
  case guest thread call =>
    have ⟨_, _, hg, hq⟩ := bind_eq_ok.mp hs.run
    have ⟨w, hw, _⟩ := guest_view hg
    have ⟨r, hr, ht⟩ := List.any_eq_true.mp hs.enabled
    cases beq_iff_eq.mp ht
    exact fun b hb => List.mem_singleton.mp hb ▸ (h r hr).any.marked.passesIssued hd hw
  all_goals nofun

-- Whether there are asserts is a matter of the build.
theorem Step.ndebug (h : Step p event p') :
    p'.world.callMem.ndebug = p.world.callMem.ndebug := by
  have ⟨_, hx⟩ := h
  cases event
  case load =>
    have ⟨_, _, hl, hp⟩ := bind_eq_ok.mp hx
    cases hp
    exact (elsewhere_load.of_ok hl).ndebug
  case enter =>
    have ⟨_, _, hr, hp⟩ := bind_eq_ok.mp hx
    cases hp
    exact (elsewhere_enterSystemImpl.of_ok hr).ndebug
  case guest =>
    have ⟨_, _, hg, hp⟩ := bind_eq_ok.mp hx
    cases hp
    exact (elsewhere_guest.of_ok hg).ndebug
  case leave =>
    have ⟨_, _, h₁, hp⟩ := bind_eq_ok.mp hx
    cases hp
    exact ((elsewhere_onCallMem ndebug_setCallMemData).of_ok h₁).ndebug
  all_goals
    cases hx
    rfl

-- What the assertions of a build keep the guests from is part of what `Hosting` asks for.
theorem Hosting.next (h : Hosting issued p) (hi : Idle p) (hd : p.world.callMem.ndebug = false)
    (hf : event.Fits p) (hb : event.InBounds p) (hs : Step p event p') : ∃ issued, Hosting issued p' :=
  have ⟨issued', hx⟩ := Hosts.of_step h.executing ⟨h.executing.passesIssued hi hd hs, hf, hb⟩ hs
  ⟨issued', h.step hx⟩

-- With asserts, guests are kept apart whatever they pass as handles.
theorem Runs.hosting {p₀ : Program} (h : Runs (fun p event => event.Fits p ∧ event.InBounds p) p₀ p)
    (hs : Starts p₀) (hc : p₀.callMemInfo = fun _ => none) (hd : p₀.world.callMem.ndebug = false) :
    ∃ issued, Hosting issued p ∧ ∀ thread call p', Step p (.guest thread call) p' →
      call.PassesIssued (issued thread) ∧ ((Event.guest thread call).Fits p →
        (Event.guest thread call).InBounds p → ∀ minst, (thread, minst) ∈ p.running →
          Isolated (issued thread) thread minst call p p') := by
  have ⟨⟨issued, hh⟩, hi, hd⟩ :
      (∃ issued, Hosting issued p) ∧ Idle p ∧ p.world.callMem.ndebug = false :=
    h.invariant (i := fun p => (∃ issued, Hosting issued p) ∧ Idle p ∧ p.world.callMem.ndebug = false)
      (fun _ _ _ ⟨⟨_, hh⟩, hi, hd⟩ hb hp =>
        ⟨hh.next hi hd hb.1 hb.2 hp, hi.step hp, hp.ndebug.trans hd⟩)
      ⟨⟨_, .start hs hc⟩, fun t _ => congrFun hc t, hd⟩
  refine ⟨issued, hh, fun thread call p' hp => ?_⟩
  have ha := hh.executing.passesIssued hi hd hp
  exact ⟨ha _ (List.mem_singleton_self _), fun hf hb minst hr => hh.isolated hr ⟨ha, hf, hb⟩ hp⟩

-- A build with asserts.
def checked : Program :=
  { initial .inert false with threads := [0] }

def checkedLoaded : Program :=
  { checked.filled 100 with registered := [0] }

theorem checked_starts : Starts checked :=
  ⟨rfl, rfl, rfl, rfl⟩

theorem plainBuild_abides {thread : ThreadId} :
    (Event.load thread plainSystems plainBuild).Abides issued p :=
  .of_begun <| Event.begun_load (fun _ => rfl) fun _ => rfl

theorem load_checked : Step checked (.load 0 plainSystems plainBuild) checkedLoaded :=
  ⟨⟨List.mem_singleton_self 0, by decide⟩, bind_ok <| load_filled rfl rfl rfl rfl⟩

theorem enter_checked : ∃ p p' r, (Event.enter 0 2).Enabled checkedLoaded ∧
    enterSystemImpl 0 2 checkedLoaded = .ok r p ∧ r.2 = 8 ∧ p.running = [(0, plainImpls 1)] ∧
    Step p (.guest 0 (AnyExecution.entityCall 8)) p' :=
  ⟨_, _, _, ⟨List.mem_singleton_self 0, by decide⟩, rfl, rfl, rfl, rfl, rfl⟩

-- The execution of a system whose guest asks for the entity.
theorem exists_checked : ∃ p p', Runs (fun p event => event.Fits p ∧ event.InBounds p) checked p ∧
    Hosting (Function.update (fun _ => []) 0 [(8, 2)]) p ∧ p.running = [(0, plainImpls 1)] ∧
    Step p (.guest 0 (AnyExecution.entityCall 8)) p' := by
  have ⟨p, p', ⟨exp, handle⟩, he, hr, h₈, hm, hs⟩ := enter_checked
  cases h₈
  have ha : (Event.load 0 plainSystems plainBuild).Abides (fun _ => []) checked :=
    plainBuild_abides
  have hx : (Event.load 0 plainSystems plainBuild).Aside := trivial
  have he' : (Event.enter 0 2).Abides (fun _ => []) checkedLoaded := .of_begun rfl
  exact ⟨p, p', .tail (.single ⟨_, ⟨ha.fits, ha.bounds⟩, load_checked⟩)
    ⟨_, ⟨he'.fits, he'.bounds⟩, he, bind_ok hr⟩,
    .step (.step (.start checked_starts rfl) <| .aside hx ha load_checked) <| .enter he hr, hm, hs⟩

theorem entityCall_passesIssued : (AnyExecution.entityCall 8).PassesIssued [(8, 2)] := by
  intro n hn e he _
  have hr : n = AnyExecution.entity := by
    simpa [AnyExecution.entityCall, nativeApi, AnyExecution.entity] using hn
  subst hr
  have hv : e = (8, .context) := List.mem_singleton.mp he
  subst hv
  exact ⟨2, List.mem_cons_self⟩

theorem entityCall_inBounds {handle : BitVec 32} {w : World} {mem : MemPtr} :
    (AnyExecution.entityCall handle).InBounds w mem := by
  refine ImportCall.inBounds_of_ranges rfl fun n hn => ?_
  have he : n = AnyExecution.entity := by
    simpa [AnyExecution.entityCall, nativeApi, AnyExecution.entity] using hn
  subst he
  decide

theorem entityCall_not_derives {handle : BitVec 32} :
    ¬DerivesHandle (AnyExecution.entityCall handle).name :=
  show ¬DerivesHandle "ecsact_system_execution_context_entity" by decide

theorem entityCall_abides (hi : issued 0 = [(8, 2)]) :
    (Event.guest 0 (AnyExecution.entityCall 8)).Abides issued p where
  passes := by simpa [Event.PassesIssued, Event.begun, Event.given, hi] using entityCall_passesIssued
  fits b hb := by
    cases List.mem_singleton.mp hb
    exact fun hd => absurd hd entityCall_not_derives
  bounds b hb _ _ := by
    cases List.mem_singleton.mp hb
    exact entityCall_inBounds

theorem checked_isolated : ∃ p p', Step p (.guest 0 (AnyExecution.entityCall 8)) p' ∧
    Isolated [(8, 2)] 0 (plainImpls 1) (AnyExecution.entityCall 8) p p' := by
  have ⟨p, p', _, hh, hr, hs⟩ := exists_checked
  exact ⟨p, p', hs, hh.isolated (hr ▸ List.mem_singleton_self _) (entityCall_abides rfl) hs⟩

theorem checked_handles : ∃ p : Program, p.running = [(0, plainImpls 1)] ∧
    Stable (plainMemory 1).ptr (p.view 0) [(8, 2)] := by
  have ⟨p, _, _, hh, hr, _⟩ := exists_checked
  exact ⟨p, hr, hh.handles_kept (0, plainImpls 1) (hr ▸ List.mem_singleton_self _)⟩

theorem checked_hosting : ∃ p p' issued, Step p (.guest 0 (AnyExecution.entityCall 8)) p' ∧
    Hosting issued p ∧ Isolated (issued 0) 0 (plainImpls 1) (AnyExecution.entityCall 8) p p' := by
  have ⟨p, p', h, _, hr, hs⟩ := exists_checked
  have ⟨issued, hi, hx⟩ := h.hosting checked_starts rfl rfl
  have ⟨hp, hx⟩ := hx 0 _ p' hs
  have ha : (Event.guest 0 (AnyExecution.entityCall 8)).Abides (fun _ => [(8, 2)]) p :=
    entityCall_abides rfl
  exact ⟨p, p', issued, hs, hi, hx ha.fits ha.bounds _ (hr ▸ List.mem_singleton_self _)⟩

end Program
end Ecsact
