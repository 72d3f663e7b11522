import EcsactSiWasmer.Execution.Pool
import EcsactSiWasmer.Execution.Theorems.FailedLoad

open EStateM

namespace Ecsact.Program

variable {p p' : Program} {thread : ThreadId} {event : Event} {minst : SystemImpls} {id : SystemId}

-- An instance has the functions of all systems that are registered.
def Serves (p : Program) (minst : SystemImpls) : Prop :=
  ∀ id ∈ p.registered, (minst.sysImplExports id).isSome

theorem lock_eq_some : p.lock thread = some minst ↔
    p.threadMinst thread = some minst ∧ p.holds minst :=
  Option.filter_eq_some_iff

theorem holds_iff : p.holds minst ↔
    (∃ m ∈ p.allMinsts, m.id = minst.id) ∨ ∃ r ∈ p.running, r.2.id = minst.id := by
  simp [holds]

theorem ensureMinst_of_lock (h : p.lock thread = some minst) :
    ensureMinst thread p = .ok minst p := by
  rw [ensureMinst, bind_ok (get_apply p), h]
  rfl

theorem ensureMinst_of_getElem? (h : p.lock thread = none)
    (hm : p.allMinsts[(p.nextAvailableIndex + 1).toNat % p.allMinsts.length]? = some minst) :
    ensureMinst thread p = .ok minst { p with
      nextAvailableIndex := p.nextAvailableIndex + 1
      threadMinst        := Function.update p.threadMinst thread (some minst)
    } := by
  have hp : p.allMinsts ≠ [] := List.ne_nil_of_mem <| List.mem_of_getElem? hm
  have hi : (modify fun p => { p with nextAvailableIndex := p.nextAvailableIndex + 1 } :
      ProgramM Unit) p = .ok () { p with nextAvailableIndex := p.nextAvailableIndex + 1 } := rfl
  rw [ensureMinst, bind_ok (get_apply p), h]
  refine (bind_ok hi).trans <| (bind_ok (get_apply _)).trans ?_
  simp only [if_neg hp, hm]
  rfl

theorem ensureMinst_of_pool (h : p.lock thread = none) (hp : p.allMinsts ≠ []) :
    ∃ minst ∈ p.allMinsts, ∃ p', ensureMinst thread p = .ok minst p' := by
  have hl : (p.nextAvailableIndex + 1).toNat % p.allMinsts.length < p.allMinsts.length :=
    Nat.mod_lt _ <| List.length_pos_of_ne_nil hp
  exact ⟨_, List.getElem_mem hl, _, ensureMinst_of_getElem? h (List.getElem?_eq_getElem hl)⟩

-- The instance of an execution is one that the program already refers to.
theorem holds_of_ensureMinst (h : ensureMinst thread p = .ok minst p') : p.holds minst := by
  cases ensureMinst_ok h
  case inl h => exact (lock_eq_some.mp h.1).2
  case inr h => exact holds_iff.mpr <| .inl ⟨minst, List.mem_of_getElem? h.2.1, rfl⟩

-- What a thread can lock after a step, it could lock before, unless the step gave it the instance.

section

variable {thread' : ThreadId} {m : SystemImpls}

theorem lock_exit (h : { p with
      threads     := p.threads.filter (· ≠ thread)
      threadMinst := Function.update p.threadMinst thread none
      callMemInfo := Function.update p.callMemInfo thread none
    }.lock thread' = some m) : p.lock thread' = some m := by
  have ⟨ht, hh⟩ := lock_eq_some.mp h
  cases update_eq_some.mp ht
  case inl ht => cases ht.2
  case inr ht => exact lock_eq_some.mpr ⟨ht.2, hh⟩

theorem lock_leave (h : { p with running := p.running.filter (·.1 ≠ thread) }.lock thread' = some m) :
    p.lock thread' = some m := by
  have ⟨ht, hh⟩ := lock_eq_some.mp h
  refine lock_eq_some.mpr ⟨ht, holds_iff.mpr ?_⟩
  exact (holds_iff.mp hh).imp_right fun ⟨r, hr, he⟩ => ⟨r, List.mem_of_mem_filter hr, he⟩

theorem lock_enter {p₁ p₂ : Program} (he : ensureMinst thread p = .ok minst p₁)
    (ht : Touched p₁ p₂)
    (h : { p₂ with running := (thread, minst) :: p₂.running }.lock thread' = some m) :
    p.lock thread' = some m ∨ thread' = thread ∧ m = minst ∧ p.lock thread = none := by
  have hm := holds_of_ensureMinst he
  obtain ⟨_, _, _, rfl⟩ := ht
  have ⟨hx, hh⟩ := lock_eq_some.mp h
  -- The reference of the execution is to an instance that was held before.
  have hb (ho : (∃ m' ∈ p.allMinsts, m'.id = m.id) ∨
      ∃ r ∈ (thread, minst) :: p.running, r.2.id = m.id) : p.holds m := by
    apply holds_iff.mpr
    cases ho
    case inl ho => exact .inl ho
    case inr ho =>
      have ⟨r, hr, hi⟩ := ho
      cases hr
      case head      => exact hi ▸ holds_iff.mp hm
      case tail _ hr => exact .inr ⟨r, hr, hi⟩
  cases ensureMinst_ok he
  case inl hl =>
    obtain ⟨_, rfl⟩ := hl
    exact .inl <| lock_eq_some.mpr ⟨hx, hb <| holds_iff.mp hh⟩
  case inr hl =>
    obtain ⟨hn, _, rfl⟩ := hl
    cases update_eq_some.mp hx
    case inl hx => exact .inr ⟨hx.1, (Option.some.inj hx.2).symm, hn⟩
    case inr hx => exact .inl <| lock_eq_some.mpr ⟨hx.2, hb <| holds_iff.mp hh⟩

end

section

variable {systems : List (SystemId × String)} {made : List SystemImpls}

-- After a load, a thread only knows of an instance from before if it is in an execution of it.
theorem running_of_extended (hl : p'.lock thread = some minst) (hn : Numbered p)
    (hm : Made systems p.created made) (hp : p'.allMinsts = made) (hr : p'.running = p.running)
    (ht : p'.threadMinst = p.threadMinst) :
    p.threadMinst thread = some minst ∧ ∃ r ∈ p.running, r.2.id = minst.id := by
  have ⟨hx, hh⟩ := lock_eq_some.mp hl
  rw [ht] at hx
  refine ⟨hx, ?_⟩
  cases holds_iff.mp hh
  case inr hh => exact hr ▸ hh
  case inl hh =>
    have ⟨m, hi, hq⟩ := hh
    have hu := hn.remembered thread minst hx
    have hg := (hm.lt (hp ▸ hi)).1
    omega

theorem Made.isSome {start : Nat} (h : Made systems start made) {m : SystemImpls} (hm : m ∈ made)
    (hi : id ∈ systems.map Prod.fst) : (m.sysImplExports id).isSome := by
  have ⟨k, hk, hm⟩ := List.getElem_of_mem hm
  exact hm ▸ ((h k hk).2 id).mpr hi

end

structure Dispatchable (p : Program) : Prop where
  numbered : Numbered p
  ne_nil   : p.registered ≠ [] → p.allMinsts ≠ []
  pool     : ∀ minst ∈ p.allMinsts, p.Serves minst
  lock     : ∀ thread minst, p.lock thread = some minst → p.Serves minst

namespace Dispatchable

theorem dispatches_of_mem (h : Dispatchable p) (thread : ThreadId) (hi : id ∈ p.registered) :
    p.Dispatches thread id := by
  cases hl : p.lock thread
  case some minst => exact ⟨minst, p, ensureMinst_of_lock hl, h.lock thread minst hl id hi⟩
  case none =>
    have ⟨minst, hm, p', he⟩ := ensureMinst_of_pool hl <| h.ne_nil <| List.ne_nil_of_mem hi
    exact ⟨minst, p', he, h.pool minst hm id hi⟩

-- The steps which leave the pool and the registrations alone, and by which no instance becomes known
-- to a thread.
theorem of_lock (h : Dispatchable p) (hn : Numbered p') (hr : p'.registered = p.registered)
    (hp : p'.allMinsts = p.allMinsts)
    (hl : ∀ thread minst, p'.lock thread = some minst → p.Serves minst) : Dispatchable p' where
  numbered := hn
  ne_nil   := by rw [hr, hp]; exact h.ne_nil
  pool     := by rw [hp]; simpa [Serves, hr] using h.pool
  lock     := by simpa [Serves, hr] using hl

theorem serves_of_ensureMinst (h : Dispatchable p) (he : ensureMinst thread p = .ok minst p') :
    p.Serves minst := by
  cases ensureMinst_ok he
  case inl hl => exact h.lock thread minst hl.1
  case inr hl => exact h.pool minst <| List.mem_of_getElem? hl.2.1

theorem enter {p₁ p₂ : Program} (h : Dispatchable p) (he : ensureMinst thread p = .ok minst p₁)
    (ht : Touched p₁ p₂) (hn : Numbered { p₂ with running := (thread, minst) :: p₂.running }) :
    Dispatchable { p₂ with running := (thread, minst) :: p₂.running } := by
  have ⟨hp, hr⟩ : p₂.allMinsts = p.allMinsts ∧ p₂.registered = p.registered := by
    obtain ⟨_, _, _, rfl⟩ := ht
    obtain ⟨_, _, rfl⟩ := ensureMinst_with he
    exact ⟨rfl, rfl⟩
  refine h.of_lock hn hr hp fun thread' m hl => ?_
  cases lock_enter he ht hl
  case inl hl => exact h.lock thread' m hl
  case inr hl => exact hl.2.1 ▸ h.serves_of_ensureMinst he

theorem load {systems : List (SystemId × String)} {builds : Nat → Build} {err : SiError}
    (h : Dispatchable p) (hc : (Event.load thread systems builds).Preserves p)
    (hl : Loads systems builds p err p') (hn : Numbered p') : Dispatchable p' := by
  cases hl
  case unset => exact h
  case done made hs hl hm hb he =>
    have ⟨hr, _, hx⟩ := hc hs
    obtain ⟨_, _, _, rfl⟩ := he
    have hd {id : SystemId} (hi : id ∈ p.registered ++ systems.map Prod.fst) :
        id ∈ systems.map Prod.fst :=
      (List.mem_append.mp hi).elim (fun hi => hr hi) fun hi => hi
    refine ⟨hn, fun _ hq => ?_, fun m hi id hj => hm.isSome hi (hd hj), fun thread m hl id hj => ?_⟩
    · have hq : made = [] := hq
      simp [hq] at hl
    · have ⟨ht, r, hi, hq⟩ := running_of_extended hl h.numbered hm rfl rfl rfl
      exact hx hb thread m ht (List.any_eq_true.mpr ⟨r, hi, by simp [hq]⟩) id (hd hj)
  case failed made hs hl hm hb hf he =>
    have ⟨hr, hx, _⟩ := hc hs
    obtain ⟨_, _, _, rfl⟩ := he
    refine ⟨hn, fun hr hq => ?_, fun m hi id hd => ?_, fun thread m hl id hd => ?_⟩
    · have hq : made = [] := hq
      subst hq
      have hf : (builds 0).error systems = some err := hf
      have hx := hx.resolve_left hr
      rw [hx] at hf
      cases hf
    · exact hm.isSome hi (hr hd)
    · have ⟨ht, hy⟩ := running_of_extended hl h.numbered hm rfl rfl rfl
      exact h.lock thread m (lock_eq_some.mpr ⟨ht, holds_iff.mpr <| .inr hy⟩) id hd

theorem step (h : Dispatchable p) (hc : event.Preserves p) (hs : Changes p event p') :
    Dispatchable p' := by
  have hn := h.numbered.step hs
  cases hs
  case start => exact h.of_lock hn rfl rfl h.lock
  case setTrapHandler => exact h.of_lock hn rfl rfl h.lock
  case exit => exact h.of_lock hn rfl rfl fun _ _ hl => h.lock _ _ (lock_exit hl)
  case guest ht =>
    obtain ⟨_, _, _, rfl⟩ := ht
    exact h.of_lock hn rfl rfl h.lock
  case leave ht =>
    obtain ⟨_, _, _, rfl⟩ := ht
    exact h.of_lock hn rfl rfl fun _ _ hl => h.lock _ _ (lock_leave hl)
  case reset =>
    have hr : p.registered = [] := hc
    refine ⟨hn, fun hx => absurd hr hx, nofun, fun thread minst _ id hi => ?_⟩
    simp only [hr, List.not_mem_nil] at hi
  case load hl => exact h.load hc hl hn
  case enter he ht => exact h.enter he ht hn

end Dispatchable

theorem Starts.dispatchable (h : Starts p) : Dispatchable p where
  numbered := h.numbered
  ne_nil   := by simp [h.registered]
  pool     := by simp [h.allMinsts]
  lock     := by simp [lock, h.threadMinst]

-- In a run whose steps all meet the condition, each registered system can always be executed.
theorem Runs.dispatches (h : Runs (fun p event => event.Preserves p) p p') (hp : Starts p)
    (thread : ThreadId) (hi : id ∈ p'.registered) : p'.Dispatches thread id := by
  have hd : Dispatchable p' :=
    h.invariant (fun _ _ _ hd hc hs => hd.step hc hs.changes) hp.dispatchable
  exact hd.dispatches_of_mem thread hi

theorem loaded_dispatches : loaded.Dispatches 0 0 := by
  have hc : (Event.load 0 plainSystems plainBuild).Preserves (plain 0) :=
    fun _ => ⟨nofun, .inl rfl, fun _ _ _ h => by cases h⟩
  have h : Runs (fun p event => event.Preserves p) (plain 0) loaded :=
    .single ⟨.load 0 plainSystems plainBuild, hc,
      ⟨List.mem_singleton_self 0, by decide⟩, bind_ok load_plain⟩
  exact h.dispatches plain_starts 0 <| List.mem_singleton_self 0

def afterReset : Program :=
  { loaded with allMinsts := [], nextAvailableIndex := 0 }

-- After a reset, the size of the pool by which the counter is divided is 0.
theorem afterReset_not_dispatches :
    Reachable afterReset ∧ 0 ∈ afterReset.registered ∧ ¬afterReset.Dispatches 0 0 := by
  have ⟨p₀, h₀, h⟩ := loaded_reachable
  refine ⟨⟨p₀, h₀, h.tail ⟨.reset, trivial, trivial, rfl⟩⟩, List.mem_singleton_self 0, ?_⟩
  intro ⟨minst, p', he, _⟩
  have hl : afterReset.lock 0 = none := rfl
  cases ensureMinst_ok he
  case inl h =>
    rw [hl] at h
    cases h.1
  case inr h =>
    have hm := h.2.1
    cases hm

end Ecsact.Program
