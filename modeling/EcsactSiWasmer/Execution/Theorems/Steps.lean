import EcsactSiWasmer.Execution.Theorems.Load

open EStateM Ecsact.World Ecsact.CallMem

namespace Ecsact.Program

variable {p p' : Program} {thread : ThreadId} {event : Event}

theorem update_eq_some {α β : Type} [DecidableEq α] {f : α → Option β} {a b : α} {v : Option β}
    {y : β} : Function.update f a v b = some y ↔ b = a ∧ v = some y ∨ b ≠ a ∧ f b = some y := by
  by_cases h : b = a <;> simp [h]

theorem ne_of_not_busy {r : ThreadId × SystemImpls} (hb : ¬p.busy thread) (hr : r ∈ p.running) :
    r.1 ≠ thread :=
  fun hq => hb <| List.any_eq_true.mpr ⟨r, hr, by simp [hq]⟩

theorem ensureMinst_ok {minst : SystemImpls} (h : ensureMinst thread p = .ok minst p') :
    (p.lock thread = some minst ∧ p' = p) ∨
    (p.lock thread = none ∧
      p.allMinsts[(p.nextAvailableIndex + 1).toNat % p.allMinsts.length]? = some minst ∧
      p' = { p with
        nextAvailableIndex := p.nextAvailableIndex + 1
        threadMinst        := Function.update p.threadMinst thread (some minst)
      }) := by
  have ⟨_, _, hg, h⟩ := bind_eq_ok.mp h
  cases hg
  cases hl : p.lock thread
  case some m =>
    rw [hl] at h
    cases h
    exact .inl ⟨rfl, rfl⟩
  case none =>
    rw [hl] at h
    have ⟨_, _, hm, h⟩ := bind_eq_ok.mp h
    cases hm
    have ⟨_, _, hg, h⟩ := bind_eq_ok.mp h
    cases hg
    split at h
    case isTrue => cases h
    case isFalse =>
      split at h
      case h_1 => cases h
      case h_2 m hm =>
        cases h
        exact .inr ⟨rfl, hm, rfl⟩

theorem ensureMinst_with {minst : SystemImpls} (h : ensureMinst thread p = .ok minst p') :
    ∃ index minsts, p' = { p with nextAvailableIndex := index, threadMinst := minsts } := by
  cases ensureMinst_ok h
  case inl h => exact ⟨_, _, h.2⟩
  case inr h => exact ⟨_, _, h.2.2⟩

theorem ensureMinst_allMinsts {minst : SystemImpls} (h : ensureMinst thread p = .ok minst p') :
    p'.allMinsts = p.allMinsts := by
  obtain ⟨_, _, rfl⟩ := ensureMinst_with h
  rfl

theorem ensureMinst_running {minst : SystemImpls} (h : ensureMinst thread p = .ok minst p') :
    p'.running = p.running := by
  obtain ⟨_, _, rfl⟩ := ensureMinst_with h
  rfl

-- What a step changes.
inductive Changes (p : Program) : Event → Program → Prop
  | start {thread : ThreadId} : thread ∉ p.threads →
      Changes p (.start thread) { p with threads := thread :: p.threads }
  | exit {thread : ThreadId} : thread ∈ p.threads → ¬p.busy thread → Changes p (.exit thread) { p with
      threads     := p.threads.filter (· ≠ thread)
      threadMinst := Function.update p.threadMinst thread none
      callMemInfo := Function.update p.callMemInfo thread none
    }
  | load {thread : ThreadId} {systems builds err p'} :
      ¬p.busy thread → Loads systems builds p err p' →
      Changes p (.load thread systems builds) p'
  | reset : Changes p .reset { p with allMinsts := [], nextAvailableIndex := 0 }
  | setTrapHandler {handler} : Changes p (.setTrapHandler handler) { p with trapHandler := handler }
  | enter {thread : ThreadId} {ctx minst p₁ p₂} :
      ¬p.busy thread → ensureMinst thread p = .ok minst p₁ → Touched p₁ p₂ →
      Changes p (.enter thread ctx) { p₂ with running := (thread, minst) :: p₂.running }
  | guest {thread : ThreadId} {call p'} : Touched p p' → Changes p (.guest thread call) p'
  | leave {thread : ThreadId} {p'} : Touched p p' →
      Changes p (.leave thread) { p' with running := p'.running.filter (·.1 ≠ thread) }

theorem enterSystemImpl_ok {ctx : CtxPtr} {r : MinstExport × BitVec 32}
    (h : enterSystemImpl thread ctx p = .ok r p') : r.2 = 8 ∧ ∃ minst p₁ p₂,
      ensureMinst thread p = .ok minst p₁ ∧ Touched p₁ p₂ ∧
      (∃ c, enterSystem minst.memory.ptr ctx c = .ok r.2 (p₂.view thread).callMem) ∧
      p' = { p₂ with running := (thread, minst) :: p₂.running } := by
  have ⟨minst, p₁, h₁, h⟩ := bind_eq_ok.mp h
  have ⟨systemId, p₂, h₂, h⟩ := bind_eq_ok.mp h
  have ⟨_, p₃, h₃, h⟩ := bind_eq_ok.mp h
  have ht : Touched p₁ p₃ :=
    trans_of Touched (touched_onThread.of_ok h₂) (touched_assert.of_ok h₃)
  cases he : minst.sysImplExports systemId
  case none => rw [he] at h; cases h
  case some exp =>
    rw [he] at h
    have ⟨handle, p₄, h₄, h⟩ := bind_eq_ok.mp h
    have ⟨_, p₅, h₅, h⟩ := bind_eq_ok.mp h
    cases h₅
    cases h
    have hc := onThread_callMem h₄
    have ht : Touched p₁ p₄ := trans_of Touched ht (touched_onThread.of_ok h₄)
    exact ⟨(enterSystem_eq_ok.mp hc).2.1, minst, p₁, p₄, h₁, ht, ⟨_, hc⟩, rfl⟩

theorem leaveSystemImpl_ok (h : leaveSystemImpl thread p = .ok () p') : ∃ p₁, Touched p p₁ ∧
    p' = { p₁ with running := p₁.running.filter (·.1 ≠ thread) } := by
  have ⟨_, p₁, h₁, h⟩ := bind_eq_ok.mp h
  cases h
  exact ⟨p₁, touched_onThread.of_ok h₁, rfl⟩

theorem Step.changes (h : Step p event p') : Changes p event p' := by
  have ⟨he, h⟩ := h
  cases event
  case start => cases h; exact .start he
  case exit => cases h; exact .exit he.1 he.2
  case load =>
    have ⟨_, _, hl, h⟩ := bind_eq_ok.mp h
    cases h
    exact .load he.2 <| ecsactSiWasmLoad_ok hl
  case reset => cases h; exact .reset
  case setTrapHandler => cases h; exact .setTrapHandler
  case enter =>
    have ⟨_, _, hx, h⟩ := bind_eq_ok.mp h
    cases h
    have ⟨_, _, _, _, h₁, ht, _, h⟩ := enterSystemImpl_ok hx
    exact h ▸ .enter he.2 h₁ ht
  case guest =>
    have ⟨_, _, hg, h⟩ := bind_eq_ok.mp h
    cases h
    exact .guest <| touched_onThread.of_ok hg
  case leave =>
    have ⟨_, ht, h⟩ := leaveSystemImpl_ok h
    exact h ▸ .leave ht

theorem Runs.invariant {c : Program → Event → Prop} {i : Program → Prop}
    (hs : ∀ p event p', i p → c p event → Step p event p' → i p') (h : Runs c p p') (hi : i p) :
    i p' := by
  induction h
  case refl => exact hi
  case tail hc hi =>
    have ⟨event, hc, hp⟩ := hc
    exact hs _ event _ hi hc hp

-- The numbers of all instances that the program still knows are smaller than that of the next.
structure Numbered (p : Program) : Prop where
  pool       : ∀ m ∈ p.allMinsts, m.id < p.created
  remembered : ∀ thread m, p.threadMinst thread = some m → m.id < p.created
  running    : ∀ r ∈ p.running, r.2.id < p.created

theorem Starts.numbered (h : Starts p) : Numbered p where
  pool       := by simp [h.allMinsts]
  remembered := by simp [h.threadMinst]
  running    := by simp [h.running]

theorem Made.lt {systems : List (SystemId × String)} {start : Nat} {made : List SystemImpls}
    (h : Made systems start made) {m : SystemImpls} (hm : m ∈ made) :
    start ≤ m.id ∧ m.id < start + made.length := by
  have ⟨k, hk, hm⟩ := List.getElem_of_mem hm
  have hi := (h k hk).1
  rw [hm] at hi
  omega

theorem Numbered.extended {systems : List (SystemId × String)} {made : List SystemImpls}
    (h : Numbered p) (hm : Made systems p.created made) (he : Extended made p p') : Numbered p' := by
  obtain ⟨_, _, _, rfl⟩ := he
  refine ⟨fun m hp => ?_, fun thread m ht => ?_, fun r hr => ?_⟩
  · cases List.mem_append.mp hp
    case inl hp => exact Nat.lt_add_right _ <| h.pool m hp
    case inr hp => exact (hm.lt hp).2
  · exact Nat.lt_add_right _ <| h.remembered thread m ht
  · exact Nat.lt_add_right _ <| h.running r hr

theorem Numbered.touched (h : Numbered p) (ht : Touched p p') : Numbered p' := by
  obtain ⟨_, _, _, rfl⟩ := ht
  exact ⟨h.pool, h.remembered, h.running⟩

theorem Numbered.ensureMinst {minst : SystemImpls} (h : Numbered p)
    (he : ensureMinst thread p = .ok minst p') : Numbered p' ∧ minst.id < p'.created := by
  cases ensureMinst_ok he
  case inl hl =>
    obtain ⟨hl, rfl⟩ := hl
    exact ⟨h, h.remembered thread minst (Option.filter_eq_some_iff.mp hl).1⟩
  case inr hl =>
    obtain ⟨_, hl, rfl⟩ := hl
    have hm : minst.id < p.created := h.pool minst <| List.mem_of_getElem? hl
    refine ⟨⟨h.pool, fun thread' m ht => ?_, h.running⟩, hm⟩
    cases update_eq_some.mp ht
    case inl ht => exact Option.some.inj ht.2 ▸ hm
    case inr ht => exact h.remembered thread' m ht.2

theorem Numbered.step (h : Numbered p) (hs : Changes p event p') : Numbered p' := by
  cases hs
  case start          => exact ⟨h.pool, h.remembered, h.running⟩
  case setTrapHandler => exact ⟨h.pool, h.remembered, h.running⟩
  case reset          => exact ⟨nofun, h.remembered, h.running⟩
  case guest ht       => exact h.touched ht
  case exit thread _ _ =>
    refine ⟨h.pool, fun thread' m ht => ?_, h.running⟩
    cases update_eq_some.mp ht
    case inl ht => cases ht.2
    case inr ht => exact h.remembered thread' m ht.2
  case load hl =>
    have h₁ registered : Numbered { p with allMinsts := [], registered := registered } :=
      ⟨nofun, h.remembered, h.running⟩
    cases hl
    case unset            => exact h
    case done hm _ he     => exact (h₁ _).extended hm he
    case failed hm _ _ he => exact (h₁ _).extended hm he
  case enter minst _ _ _ he ht =>
    have ⟨h₁, hm⟩ := h.ensureMinst he
    obtain ⟨_, _, _, rfl⟩ := ht
    refine ⟨h₁.pool, h₁.remembered, List.forall_mem_cons.mpr ⟨hm, h₁.running⟩⟩
  case leave ht =>
    have h₁ := h.touched ht
    exact ⟨h₁.pool, h₁.remembered, fun r hr => h₁.running r (List.mem_of_mem_filter hr)⟩

theorem Reachable.numbered (h : Reachable p) : Numbered p := by
  have ⟨p₀, h₀, h⟩ := h
  exact h.invariant (fun _ _ _ hi _ hs => hi.step hs.changes) h₀.numbered

end Ecsact.Program
