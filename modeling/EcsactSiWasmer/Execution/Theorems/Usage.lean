import EcsactSiWasmer.Execution.Usage
import EcsactSiWasmer.Execution.Theorems.Exclusive
import EcsactSiWasmer.Execution.Theorems.Handles
import EcsactSiWasmer.Execution.Theorems.Idle

open EStateM Ecsact.World Ecsact.CallMem

namespace Ecsact

-- The last pair for a system decides.
theorem getSystemImplExports_lookup {inst : Minst} {systems : List (SystemId × String)}
    {exports exports' : SystemId → Option MinstExport}
    (h : getSystemImplExports inst systems exports = .ok exports') (id : SystemId) :
    (∃ name exp, systems.reverse.lookup id = some name ∧ inst.findExport name = some exp ∧
      exp.kind = .func ∧ exports' id = some exp) ∨
    (systems.reverse.lookup id = none ∧ exports' id = exports id) := by
  induction systems generalizing exports
  case nil =>
    cases h
    exact .inr ⟨rfl, rfl⟩
  case cons e systems hi =>
    simp only [getSystemImplExports] at h
    rw [List.reverse_cons, List.lookup_append]
    cases hf : inst.findExport e.2
    case none => simp [hf] at h
    case some exp =>
      by_cases hk : exp.kind = .func
      case neg => simp [hf, hk] at h
      case pos =>
        simp only [hf, hk, ne_eq, not_true_eq_false, if_false] at h
        cases hi h
        case inl hl =>
          obtain ⟨name, exp, hl, hl'⟩ := hl
          exact .inl ⟨name, exp, by simp [hl], hl'⟩
        case inr hl =>
          obtain ⟨hl, he⟩ := hl
          by_cases hd : id = e.1
          case pos =>
            subst hd
            have hs : [e].lookup e.1 = some e.2 := List.lookup_cons_self
            exact .inl ⟨e.2, exp, by simp [hl, hs], hf, hk, by simpa using he⟩
          case neg =>
            have hs : [e].lookup id = none := List.lookup_eq_none_iff.mpr <| by simp [hd]
            refine .inr ⟨by simp [hl, hs], he.trans ?_⟩
            exact Function.update_of_ne hd ..

namespace Program

variable {p p' p₁ : Program} {thread : ThreadId} {ctx : CtxPtr} {serving : Serving}
  {minst : SystemImpls} {exp : MinstExport}

-- With a function to call and no call memory in the way, an execution starts.
theorem enterSystemImpl_eq (he : ensureMinst thread p = .ok minst p₁)
    (hx : minst.sysImplExports (p.systemId thread ctx) = some exp)
    (hn : p.callMemInfo thread = none) : ∃ p', enterSystemImpl thread ctx p = .ok (exp, 8) p' ∧
      p'.running = (thread, minst) :: p.running ∧
      (p'.view thread).callMem.Denotes 8 ctx minst.memory.ptr := by
  have ⟨index, minsts, hp⟩ := ensureMinst_with he
  let p₂ := p₁.put thread ((p.view thread).called .id [.ctx ctx])
  have h₂ : onThread thread (hostCall .id [.ctx ctx] (·.id)) p₁ =
      .ok (p.systemId thread ctx) p₂ := by
    subst hp
    exact zoom_ok <| hostCall_apply ..
  have ha : assert (minst.sysImplExports (p.systemId thread ctx)).isSome p₂ = .ok () p₂ := by
    rw [hx]
    apply (bind_ok (get_apply _)).trans
    simp only [Option.isSome_some, Bool.not_true, Bool.and_false, Bool.false_eq_true, if_false]
    rfl
  let c : CallMem := ⟨p.world.callMem.ndebug,
    some (systemInfo p.world.callMem.ndebug minst.memory.ptr ctx)⟩
  have hs : enterSystem minst.memory.ptr ctx (p₂.view thread).callMem = .ok 8 c := by
    refine enterSystem_eq_ok.mpr ⟨fun _ => ?_, rfl, rfl⟩
    exact (Function.update_self ..).trans hn
  let p₃ := p₂.put thread { p₂.view thread with callMem := c }
  have h₃ : onThread thread (onCallMem (enterSystem minst.memory.ptr ctx)) p₂ = .ok 8 p₃ :=
    zoom_ok <| zoom_ok hs
  refine ⟨{ p₃ with running := (thread, minst) :: p₃.running }, ?_, ?_, ?_⟩
  · rw [enterSystemImpl, bind_ok he, bind_ok h₂, bind_ok ha]
    simp only [hx]
    exact (bind_ok h₃).trans rfl
  · subst hp
    rfl
  · have hi : p₃.callMemInfo thread = c.info := Function.update_self ..
    have hc : (p₃.view thread).callMem = c := congrArg (CallMem.mk c.ndebug) hi
    obtain ⟨_, info, hh⟩ := holds_enter hs
    exact hc ▸ hh.denotes List.mem_cons_self

theorem Usage.steady {latest : Option Serving} (h : Usage p latest) : Numbered p ∧ Idle p := by
  have hs {p p' : Program} {event : Event} (h : Numbered p ∧ Idle p) (hs : Step p event p') :
      Numbered p' ∧ Idle p' :=
    ⟨h.1.step hs.changes, h.2.step hs⟩
  induction h
  case start h hc             => exact ⟨h.numbered, fun t _ => congrFun hc t⟩
  case load he _ hl hi        => exact hs hi ⟨he, bind_ok hl⟩
  case enter he hr _ hi       => exact hs hi ⟨he, bind_ok hr⟩
  case reset hp hi            => exact hs hi hp
  case exit hp hi             => exact hs hi hp
  case other hp hi            => exact hs hi hp

-- The program after a successful load, and after the executions that follow.
structure Ready (serving : Serving) (p : Program) : Prop where
  length   : p.allMinsts.length = 100
  built    : ∀ k (h : k < p.allMinsts.length), p.allMinsts[k].id = serving.first + k ∧
    Built serving.systems (serving.builds k) p.allMinsts[k]
  lock     : ∀ thread m, p.lock thread = some m → m ∈ p.allMinsts
  executed : ∀ e ∈ serving.executed, p.lock e.1 = some e.2

namespace Ready

theorem of_load {systems : List (SystemId × String)} {builds : Nat → Build} (hn : Numbered p)
    (hr : p.running = []) (hl : ecsactSiWasmLoad thread systems builds p = .ok .ok p') :
    Ready ⟨systems, builds, p.created, []⟩ p' := by
  cases ecsactSiWasmLoad_ok hl
  case failed hf _ => exact (Build.error_ne_ok _ _ hf).elim
  case done made hs hc hm hb he =>
    have hx := (ecsactSiWasmLoad_built hl).resolve_left <| by simp
    have ha : p'.allMinsts = made := by
      obtain ⟨_, _, _, rfl⟩ := he
      exact List.nil_append made
    refine ⟨ha ▸ hc, fun k hk => ⟨?_, hx k hk⟩, fun t m ht => ?_, nofun⟩
    · simp only [ha]
      exact (hm k <| ha ▸ hk).1
    · obtain ⟨_, _, _, rfl⟩ := he
      have ⟨_, r, hr', _⟩ := running_of_extended ht hn hm (List.nil_append made) rfl rfl
      simp [hr] at hr'

-- The steps which leave the pool alone, and the instances to the threads that have executed on them.
theorem of_lock (h : Ready serving p) (ha : p'.allMinsts = p.allMinsts)
    (hl : ∀ thread m, p'.lock thread = some m → m ∈ p.allMinsts)
    (hx : ∀ e ∈ serving.executed, p'.lock e.1 = some e.2) : Ready serving p' where
  length   := ha ▸ h.length
  built    := by simpa only [ha] using h.built
  lock     := by simpa only [ha] using hl
  executed := hx

theorem lock_of_mem {m : SystemImpls} (hm : m ∈ p.allMinsts) (ha : p'.allMinsts = p.allMinsts)
    (ht : p'.threadMinst thread = some m) : p'.lock thread = some m :=
  lock_eq_some.mpr ⟨ht, holds_iff.mpr <| .inl ⟨m, ha ▸ hm, rfl⟩⟩

theorem mem_of_ensureMinst (h : Ready serving p) (he : ensureMinst thread p = .ok minst p₁) :
    minst ∈ p.allMinsts := by
  cases ensureMinst_ok he
  case inl hl => exact h.lock thread minst hl.1
  case inr hl => exact List.mem_of_getElem? hl.2.1

theorem continues {event : Event} (h : Ready serving p) (hc : event.Continues)
    (hs : Changes p event p') : Ready serving p' := by
  cases hs
  case start | setTrapHandler => exact h.of_lock rfl h.lock h.executed
  case guest ht =>
    obtain ⟨_, _, _, rfl⟩ := ht
    exact h.of_lock rfl h.lock h.executed
  case leave ht =>
    obtain ⟨_, _, _, rfl⟩ := ht
    refine h.of_lock rfl (fun t m hl => h.lock t m <| lock_leave hl) fun e he => ?_
    have hl := h.executed e he
    exact lock_of_mem (h.lock _ _ hl) rfl (lock_eq_some.mp hl).1
  all_goals cases hc

theorem exit (h : Ready serving p) (hs : Changes p (.exit thread) p') :
    Ready (serving.forget thread) p' := by
  cases hs
  refine ⟨h.length, h.built, fun t m hl => h.lock t m <| lock_exit hl, fun e he => ?_⟩
  obtain ⟨he, hn⟩ := List.mem_filter.mp he
  have hn : e.1 ≠ thread := of_decide_eq_true hn
  have hl := h.executed e he
  refine lock_of_mem (h.lock _ _ hl) rfl ?_
  exact (Function.update_of_ne hn ..).trans (lock_eq_some.mp hl).1

theorem executes (h : Ready serving p) (hl : p.lock thread = some minst) :
    Ready (serving.executes thread minst) p :=
  ⟨h.length, h.built, h.lock, List.forall_mem_cons.mpr ⟨hl, h.executed⟩⟩

-- An instance which a thread can lock is not replaced.
theorem threadMinst_of_lock {m : SystemImpls} {thread' : ThreadId}
    (he : ensureMinst thread p = .ok minst p₁) (hl : p.lock thread' = some m) :
    p₁.threadMinst thread' = some m := by
  have ht := (lock_eq_some.mp hl).1
  cases ensureMinst_ok he
  case inl hp => exact hp.2 ▸ ht
  case inr hp =>
    obtain ⟨hn, _, rfl⟩ := hp
    by_cases hc : thread' = thread
    case pos =>
      subst hc
      cases hn.symm.trans hl
    case neg => exact (Function.update_of_ne hc ..).trans ht

theorem enter {r : MinstExport × BitVec 32} (h : Ready serving p)
    (he : enterSystemImpl thread ctx p = .ok r p')
    (hr : p'.running = (thread, minst) :: p.running) : Ready (serving.executes thread minst) p' := by
  have ⟨_, minst', p₁, p₂, h₁, ht, _, hp⟩ := enterSystemImpl_ok he
  have ha : p₂.allMinsts = p.allMinsts := ht.allMinsts.trans (ensureMinst_allMinsts h₁)
  have hm : minst' = minst := by
    rw [hp, ht.running, ensureMinst_running h₁] at hr
    exact congrArg Prod.snd (List.cons.inj hr).1
  subst hm hp
  have hm := h.mem_of_ensureMinst h₁
  have hs : Ready serving { p₂ with running := (thread, minst') :: p₂.running } := by
    refine h.of_lock ha (fun t m hl => ?_) fun e he => ?_
    · cases lock_enter h₁ ht hl
      case inl hl => exact h.lock t m hl
      case inr hl => exact hl.2.1 ▸ hm
    · have hl := h.executed e he
      exact lock_of_mem (h.lock _ _ hl) ha <| ht.threadMinst ▸ threadMinst_of_lock h₁ hl
  exact hs.executes <| lock_of_mem hm ha <| ht.threadMinst ▸ threadMinst_of_ensureMinst h₁

end Ready

theorem Usage.ready (h : Usage p (some serving)) : Ready serving p := by
  have hs {p : Program} {latest : Option Serving} (h : Usage p latest) :
      ∀ serving, latest = some serving → Ready serving p := by
    induction h
    case start             => nofun
    case reset             => nofun
    case load hu he hr hl _ =>
      intro serving hs
      split at hs
      case isFalse => cases hs
      case isTrue ho =>
        cases hs
        subst ho
        exact .of_load hu.steady.1 hr hl
    case enter he hr hi =>
      intro serving hs
      cases hs
      exact (hi _ rfl).enter he hr
    case exit hp hi =>
      intro serving hs
      have ⟨serving, hl, hs⟩ := Option.map_eq_some_iff.mp hs
      exact hs ▸ (hi _ hl).exit hp.changes
    case other hc hp hi => exact fun serving hs => (hi serving hs).continues hc hp.changes
  exact hs h serving rfl

-- The execution of a system of the latest load goes to the right function, memory and context.
theorem Usage.dispatched (h : Usage p (some serving)) (he : (Event.enter thread ctx).Enabled p)
    (hi : p.systemId thread ctx ∈ serving.systems.map Prod.fst) :
    ∃ p' minst exp handle, Dispatched serving thread ctx p p' minst exp handle := by
  have hr := h.ready
  have hn : p.callMemInfo thread = none := h.steady.2 thread he.2
  have hm : ∃ minst p₁, ensureMinst thread p = .ok minst p₁ := by
    cases hl : p.lock thread
    case some minst => exact ⟨minst, p, ensureMinst_of_lock hl⟩
    case none =>
      have hp : p.allMinsts ≠ [] := List.length_pos_iff.mp <| hr.length ▸ by decide
      have ⟨minst, _, p', he⟩ := ensureMinst_of_pool hl hp
      exact ⟨minst, p', he⟩
  have ⟨minst, p₁, h₁⟩ := hm
  have ⟨k, hk, hb⟩ := List.getElem_of_mem <| hr.mem_of_ensureMinst h₁
  have ⟨hid, hb'⟩ := hr.built k hk
  rw [hb] at hid hb'
  have ⟨name, exp, hl, hf, hx, hs⟩ : ∃ name exp,
      serving.systems.reverse.lookup (p.systemId thread ctx) = some name ∧
      minst.minst.findExport name = some exp ∧ exp.kind = .func ∧
      minst.sysImplExports (p.systemId thread ctx) = some exp := by
    refine (getSystemImplExports_lookup hb'.exports _).resolve_right fun hc => ?_
    have hs := (getSystemImplExports_isSome hb'.exports (p.systemId thread ctx)).mpr (.inr hi)
    simp [hc.2] at hs
  have ⟨p', hp, hq, hd⟩ := enterSystemImpl_eq h₁ hs hn
  refine ⟨p', minst, exp, 8, hp, hq, ⟨k, hr.length ▸ hk, hid, hb'.minst⟩, ⟨name, hl, hf, hx⟩,
    ⟨minst.memory, hb'.memory, hd.memory⟩, hd.context, fun e hx ht => ?_, hn⟩
  subst ht
  cases (ensureMinst_of_lock <| hr.executed e hx).symm.trans h₁
  rfl

-- The program right after its first load.
def plainServing : Serving where
  systems := plainSystems
  builds  := plainBuild
  first   := 0

theorem loaded_usage : Usage loaded (some plainServing) :=
  .load (.start plain_starts rfl) ⟨List.mem_singleton_self 0, by decide⟩ rfl load_plain

theorem loaded_dispatched : ∃ p' minst exp handle,
    Dispatched plainServing 0 0 loaded p' minst exp handle :=
  loaded_usage.dispatched ⟨List.mem_singleton_self 0, by decide⟩ (by decide)

end Program
end Ecsact
