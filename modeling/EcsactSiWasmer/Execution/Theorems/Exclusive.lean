import EcsactSiWasmer.Execution.Theorems.Dispatch

open EStateM Ecsact.World Ecsact.CallMem

namespace Ecsact.Program

variable {p p' : Program} {thread : ThreadId} {event : Event} {minst : SystemImpls}

-- No two threads remember one instance, and an execution is on the one that its thread remembers.
structure Separate (p : Program) : Prop where
  ne      : ∀ thread thread' m m', thread ≠ thread' → p.lock thread = some m →
    p.lock thread' = some m' → m.id ≠ m'.id
  running : ∀ r ∈ p.running, p.threadMinst r.1 = some r.2

-- A thread remembers the instance of its execution.
theorem threadMinst_of_ensureMinst (h : ensureMinst thread p = .ok minst p') :
    p'.threadMinst thread = some minst := by
  cases ensureMinst_ok h
  case inl hl =>
    obtain ⟨hl, rfl⟩ := hl
    exact (lock_eq_some.mp hl).1
  case inr hl =>
    obtain ⟨_, _, rfl⟩ := hl
    exact Function.update_self ..

namespace Separate

theorem lock (h : Separate p) {r : ThreadId × SystemImpls} (hr : r ∈ p.running) :
    p.lock r.1 = some r.2 :=
  lock_eq_some.mpr ⟨h.running r hr, holds_iff.mpr <| .inr ⟨r, hr, rfl⟩⟩

theorem running_ne (h : Separate p) : Exclusive p :=
  fun r hr r' hr' hn => h.ne r.1 r'.1 r.2 r'.2 hn (h.lock hr) (h.lock hr')

theorem of_lock (h : Separate p)
    (hl : ∀ thread m, p'.lock thread = some m → p.lock thread = some m)
    (hr : ∀ r ∈ p'.running, p'.threadMinst r.1 = some r.2) : Separate p' where
  ne thread thread' m m' hn h₁ h₂ := h.ne thread thread' m m' hn (hl _ _ h₁) (hl _ _ h₂)
  running := hr

theorem enter {p₁ p₂ : Program} {ctx : CtxPtr} (h : Separate p)
    (hc : (Event.enter thread ctx).Separates p) (hb : ¬p.busy thread)
    (he : ensureMinst thread p = .ok minst p₁) (ht : Touched p₁ p₂) :
    Separate { p₂ with running := (thread, minst) :: p₂.running } := by
  have ht₁ : p₁.threadMinst thread = some minst := threadMinst_of_ensureMinst he
  refine ⟨fun t t' m m' hn h₁ h₂ => ?_, List.forall_mem_cons.mpr ⟨?_, fun r hr => ?_⟩⟩
  · have hx {m m' : SystemImpls} {t : ThreadId} (hn : t ≠ thread) (hm : m' = minst)
        (hl : p.lock thread = none) (ht : p.lock t = some m) : m.id ≠ m'.id := by
      cases ensureMinst_ok he
      case inl hi => simp [hl] at hi
      case inr hi => exact hm ▸ hc hl minst hi.2.1 t m hn ht
    cases lock_enter he ht h₁ <;> cases lock_enter he ht h₂
    case inl.inl h₁ h₂ => exact h.ne t t' m m' hn h₁ h₂
    case inl.inr h₁ h₂ => exact hx (h₂.1 ▸ hn) h₂.2.1 h₂.2.2 h₁
    case inr.inl h₁ h₂ => exact (hx (h₁.1 ▸ hn.symm) h₁.2.1 h₁.2.2 h₂).symm
    case inr.inr h₁ h₂ => exact absurd (h₁.1.trans h₂.1.symm) hn
  · obtain ⟨_, _, _, rfl⟩ := ht
    exact ht₁
  · obtain ⟨_, _, _, rfl⟩ := ht
    cases ensureMinst_ok he
    case inl hl =>
      obtain ⟨_, rfl⟩ := hl
      exact h.running r hr
    case inr hl =>
      obtain ⟨_, _, rfl⟩ := hl
      exact update_eq_some.mpr <| .inr ⟨ne_of_not_busy hb hr, h.running r hr⟩

theorem step (h : Separate p) (hc : event.Separates p) (ho : event.OfThreads p)
    (hs : Changes p event p') : Separate p' := by
  cases hs
  case start => exact h.of_lock (fun _ _ => id) h.running
  case setTrapHandler => exact h.of_lock (fun _ _ => id) h.running
  case exit thread _ hb =>
    refine h.of_lock (fun _ _ => lock_exit) fun r hr => ?_
    exact update_eq_some.mpr <| .inr ⟨ne_of_not_busy hb hr, h.running r hr⟩
  case guest ht =>
    obtain ⟨_, _, _, rfl⟩ := ht
    exact h.of_lock (fun _ _ => id) h.running
  case leave ht =>
    obtain ⟨_, _, _, rfl⟩ := ht
    exact h.of_lock (fun _ _ => lock_leave) fun r hr => h.running r (List.mem_of_mem_filter hr)
  case reset => cases ho
  case load => cases ho
  case enter hb he ht => exact h.enter hc hb he ht

theorem of_load {systems : List (SystemId × String)} {builds : Nat → Build} {err : SiError}
    (hp : Numbered p) (hr : p.running = []) (hs : p.setSystemExecutionImpl = true)
    (hl : Loads systems builds p err p') : Separate p' := by
  have h {made : List SystemImpls} (hm : Made systems p.created made) (ha : p'.allMinsts = made)
      (hx : p'.running = p.running) (ht : p'.threadMinst = p.threadMinst) : Separate p' := by
    have hn {thread : ThreadId} {minst : SystemImpls} : p'.lock thread ≠ some minst := fun hl => by
      have ⟨_, _, hq, _⟩ := running_of_extended hl hp hm ha hx ht
      simp [hr] at hq
    exact ⟨fun _ _ _ _ _ hl => absurd hl hn, by simp [hx, hr]⟩
  cases hl
  case unset hn => simp [hs] at hn
  case done hm _ he =>
    obtain ⟨_, _, _, rfl⟩ := he
    exact h hm rfl rfl rfl
  case failed hm _ _ he =>
    obtain ⟨_, _, _, rfl⟩ := he
    exact h hm rfl rfl rfl

end Separate

-- After a load, executions in flight on different threads are on different instances for as long as
-- no thread's first execution is given an instance which another thread remembers.
theorem Runs.exclusive {p₀ : Program} {systems : List (SystemId × String)} {builds : Nat → Build}
    (hp : Reachable p) (hr : p.running = [])
    (hl : ecsactSiWasmLoad thread systems builds p = .ok .ok p₀)
    (h : Runs (fun p event => event.OfThreads p ∧ event.Separates p) p₀ p') : Exclusive p' := by
  have hx := ecsactSiWasmLoad_ok hl
  have hs : p.setSystemExecutionImpl = true := by
    cases hx
    case done hs _ _ _ _     => exact hs
    case failed hs _ _ _ _ _ => exact hs
  have h₀ : Separate p₀ := .of_load hp.numbered hr hs hx
  have hi : Separate p' :=
    h.invariant (fun _ _ _ hi hc hs => hi.step hc.2 hc.1 hs.changes) h₀
  exact hi.running_ne

section

-- The world of a release build whose runtime only answers with zeros.
structure Quiet (w : World) : Prop where
  ndebug  : w.callMem.ndebug = true
  runtime : w.runtime = .inert

variable {n : Nat} {ctx : CtxPtr}

-- A thread's first execution is given the instance next in the order.
theorem enterSystemImpl_quiet (hw : Quiet p.world) (hl : p.lock thread = none)
    (hm : p.allMinsts[(p.nextAvailableIndex + 1).toNat % p.allMinsts.length]? =
      some (plainImpls n)) :
    ∃ r w c, Quiet w ∧ enterSystemImpl thread ctx p = .ok r { p with
      world              := w
      callMemInfo        := c
      nextAvailableIndex := p.nextAvailableIndex + 1
      threadMinst        := Function.update p.threadMinst thread (some (plainImpls n))
      running            := (thread, plainImpls n) :: p.running
    } := by
  have he := ensureMinst_of_getElem? hl hm
  obtain ⟨⟨runtime, ⟨ndebug, _⟩, _, _, _, _, _, _⟩, _, _, _, _, _, _, _, _, _, _, _, _⟩ := p
  obtain ⟨rfl, rfl⟩ := hw
  rw [enterSystemImpl, bind_ok he]
  exact ⟨_, _, _, ⟨rfl, rfl⟩, rfl⟩

theorem leaveSystemImpl_quiet {k : ThreadId} (hw : Quiet p.world) : ∃ w c, Quiet w ∧
    leaveSystemImpl k p = .ok () { p with
      world       := w
      callMemInfo := c
      running     := p.running.filter (·.1 ≠ k)
    } := by
  refine ⟨_, _, ?quiet, rfl⟩
  case quiet => exact ⟨hw.ndebug, hw.runtime⟩

-- The thread of the load is in an execution, and `n` threads have been given an instance.
structure Crowd (n : Nat) (p : Program) : Prop where
  quiet              : Quiet p.world
  allMinsts          : p.allMinsts = (List.range 100).map plainImpls
  nextAvailableIndex : p.nextAvailableIndex = BitVec.ofNat 64 n
  threadMinst        : p.threadMinst = Function.update (fun _ => none) 0 (some (plainImpls 1))
  running            : p.running = [(0, plainImpls 1)]
  threads            : p.threads = [0]

namespace Crowd

-- Another thread, and the instance of its first execution.
structure Joined (n : Nat) (p : Program) : Prop where
  quiet              : Quiet p.world
  allMinsts          : p.allMinsts = (List.range 100).map plainImpls
  nextAvailableIndex : p.nextAvailableIndex = BitVec.ofNat 64 n
  threadMinst        : Function.update p.threadMinst 1 none =
    Function.update (fun _ => none) 0 (some (plainImpls 1))
  running            : p.running = [(1, plainImpls (n % 100)), (0, plainImpls 1)]
  threads            : p.threads = [1, 0]

theorem getElem?_pool (hn : n < 2 ^ 64) (ha : p.allMinsts = (List.range 100).map plainImpls)
    (hi : p.nextAvailableIndex + 1 = BitVec.ofNat 64 n) :
    p.allMinsts[(p.nextAvailableIndex + 1).toNat % p.allMinsts.length]? =
      some (plainImpls (n % 100)) := by
  have hl : n % 100 < 100 := Nat.mod_lt _ (by decide)
  rw [hi, ha, BitVec.toNat_ofNat, Nat.mod_eq_of_lt hn]
  simp [hl]

-- A thread that starts, before its first execution.
def started (p : Program) : Program :=
  { p with threads := 1 :: p.threads }

theorem start (h : Crowd n p) : Step p (.start 1) (started p) :=
  ⟨by simp [Event.Enabled, h.threads], rfl⟩

theorem ofThreads_start (h : Crowd n p) : (Event.start 1).OfThreads p := by
  simp [Event.OfThreads, h.threads, h.allMinsts]

theorem lock_started (h : Crowd n p) : (started p).lock 1 = none := by
  simp [started, lock, h.threadMinst]

theorem enter (h : Crowd n p) (hn : n + 1 < 2 ^ 64) :
    ∃ p', Step (started p) (.enter 1 0) p' ∧ Joined (n + 1) p' := by
  have hi : (started p).nextAvailableIndex + 1 = BitVec.ofNat 64 (n + 1) := by
    rw [show (started p).nextAvailableIndex = BitVec.ofNat 64 n from h.nextAvailableIndex]
    exact (BitVec.ofNat_add n 1).symm
  obtain ⟨r, w, c, hw, he⟩ : ∃ r w c, Quiet w ∧ enterSystemImpl 1 0 (started p) = .ok r _ :=
    enterSystemImpl_quiet h.quiet h.lock_started (getElem?_pool hn h.allMinsts hi)
  refine ⟨_, ⟨⟨List.mem_cons_self .., ?busy⟩, bind_ok he⟩, ?joined⟩
  case busy => simp [started, busy, h.running]
  case joined =>
    exact {
      quiet              := hw
      allMinsts          := h.allMinsts
      nextAvailableIndex := hi
      threadMinst        := by simp [started, h.threadMinst]
      running            := by simp [started, h.running]
      threads            := by simp [started, h.threads]
    }

theorem join (h : Crowd n p) (hn : n + 1 < 2 ^ 64) :
    ∃ p', Runs (fun p event => event.OfThreads p) p p' ∧ Joined (n + 1) p' := by
  have ⟨p', hs, hj⟩ := h.enter hn
  exact ⟨p', .tail (.single ⟨.start 1, h.ofThreads_start, h.start⟩) ⟨.enter 1 0, trivial, hs⟩, hj⟩

theorem Joined.part (h : Joined n p) :
    ∃ p₁ p', Step p (.leave 1) p₁ ∧ Step p₁ (.exit 1) p' ∧ Crowd n p' := by
  have ⟨w, c, hw, hl⟩ := leaveSystemImpl_quiet (k := 1) h.quiet
  let p₁ := { p with world := w, callMemInfo := c, running := p.running.filter (·.1 ≠ 1) }
  have hs : Step p (.leave 1) p₁ := ⟨by simp [Event.Enabled, busy, h.running], hl⟩
  have hx : Step p₁ (.exit 1) _ := ⟨⟨by simp [p₁, h.threads], by simp [p₁, busy]⟩, rfl⟩
  refine ⟨p₁, _, hs, hx, ?crowd⟩
  case crowd =>
    exact {
      quiet              := hw
      allMinsts          := h.allMinsts
      nextAvailableIndex := h.nextAvailableIndex
      threadMinst        := h.threadMinst
      running            := by simp [p₁, h.running]
      threads            := by simp [p₁, h.threads]
    }

theorem exists_first : ∃ p, Step loaded (.enter 0 0) p ∧ Crowd 1 p := by
  have hm : loaded.allMinsts[1]? = some (plainImpls 1) := rfl
  have ⟨r, w, c, hw, he⟩ : ∃ r w c, Quiet w ∧ enterSystemImpl 0 0 loaded = .ok r _ :=
    enterSystemImpl_quiet ⟨rfl, rfl⟩ rfl hm
  exact ⟨_, ⟨⟨List.mem_singleton_self 0, by decide⟩, bind_ok he⟩, hw, rfl, rfl, rfl, rfl, rfl⟩

-- The first thread stays in its execution while others come and go.
theorem exists_run (hn : n + 1 < 2 ^ 64) :
    ∃ p, Runs (fun p event => event.OfThreads p) loaded p ∧ Crowd (n + 1) p := by
  induction n
  case zero =>
    have ⟨p, hs, h⟩ := exists_first
    exact ⟨p, .single ⟨.enter 0 0, trivial, hs⟩, h⟩
  case succ n hi =>
    have ⟨p, hr, h⟩ := hi (by omega)
    have ⟨p₁, hr₁, h₁⟩ := h.join hn
    have ⟨p₂, p₃, hl, hx, h₂⟩ := h₁.part
    exact ⟨p₃, ((hr.trans hr₁).tail ⟨.leave 1, trivial, hl⟩).tail ⟨.exit 1, trivial, hx⟩, h₂⟩

end Crowd
end

-- Two threads are in executions at the same time, on the first two instances that are given.
theorem loaded_exclusive : ∃ p',
    Runs (fun p event => event.OfThreads p ∧ event.Separates p) loaded p' ∧
    p'.running = [(1, plainImpls 2), (0, plainImpls 1)] ∧ Exclusive p' := by
  have ⟨p, hs, h⟩ := Crowd.exists_first
  have ⟨p', hs', h'⟩ := h.enter (by decide)
  have hc : (Event.enter 0 0).Separates loaded := fun _ _ _ _ _ _ h => by cases h
  have hc' : (Event.enter 1 0).Separates (Crowd.started p) := by
    intro _ minst hm thread' m hn hl
    have ht : Function.update (fun _ => none) 0 (some (plainImpls 1)) thread' = some m :=
      h.threadMinst ▸ (lock_eq_some.mp hl).1
    have hp : (Crowd.started p).allMinsts = (List.range 100).map plainImpls := h.allMinsts
    have hi : (Crowd.started p).nextAvailableIndex = 1 := h.nextAvailableIndex
    rw [hp, hi] at hm
    cases hm
    cases update_eq_some.mp ht
    case inl ht =>
      cases ht.2
      decide
    case inr ht => cases ht.2
  have hr : Runs (fun p event => event.OfThreads p ∧ event.Separates p) loaded p' :=
    ((Relation.ReflTransGen.single ⟨.enter 0 0, ⟨trivial, hc⟩, hs⟩).tail
      ⟨.start 1, ⟨h.ofThreads_start, trivial⟩, h.start⟩).tail ⟨.enter 1 0, ⟨trivial, hc'⟩, hs'⟩
  exact ⟨p', hr, h'.running, hr.exclusive ⟨plain 0, plain_starts, .refl⟩ rfl load_plain⟩

-- The thread that comes after as many as there are instances is given that of the first.
theorem loaded_not_exclusive :
    Reachable (plain 0) ∧ (plain 0).running = [] ∧
    ecsactSiWasmLoad 0 plainSystems plainBuild (plain 0) = .ok .ok loaded ∧
    loaded.threads.length ≤ loaded.allMinsts.length ∧
    ∃ p', Runs (fun p event => event.OfThreads p) loaded p' ∧ ¬Exclusive p' := by
  have ⟨p, hr, h⟩ := Crowd.exists_run (n := 99) (by decide)
  have ⟨p', hj, h'⟩ := h.join (by decide)
  refine ⟨⟨plain 0, plain_starts, .refl⟩, rfl, load_plain, ?_, p', hr.trans hj, fun hx => ?_⟩
  · simp [loaded, plain]
  · have hi : ((1 : ThreadId), plainImpls 1) ∈ p'.running := by simp [h'.running]
    have h₀ : ((0 : ThreadId), plainImpls 1) ∈ p'.running := by simp [h'.running]
    exact hx _ hi _ h₀ (by decide) rfl

end Ecsact.Program
