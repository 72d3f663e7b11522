import EcsactSiWasmer.Execution.Balance
import EcsactSiWasmer.Execution.Theorems.Usage
import EcsactSiWasmer.Lib.RoundRobin

open EStateM

namespace Ecsact.Program

variable {p₀ p p' p₁ : Program} {a : Assignments} {thread : ThreadId} {ctx : CtxPtr}
  {minst : SystemImpls} {systems : List (SystemId × String)} {builds : Nat → Build} {err : SiError}

-- What a load with no execution in flight leaves: a pool of new instances, which no thread has.
structure Fresh (p : Program) : Prop where
  pool : ∃ start, ∀ k (h : k < p.allMinsts.length), p.allMinsts[k].id = start + k
  lock : ∀ thread, p.lock thread = none

-- Without the runtime's function, nothing is ever loaded.
theorem Changes.allMinsts_eq_nil {event : Event} (h : Changes p event p')
    (hi : p.setSystemExecutionImpl = false → p.allMinsts = [])
    (hs : p'.setSystemExecutionImpl = false) : p'.allMinsts = [] := by
  cases h
  case start          => exact hi hs
  case exit           => exact hi hs
  case reset          => rfl
  case setTrapHandler => exact hi hs
  case guest ht =>
    obtain ⟨_, _, _, rfl⟩ := ht
    exact hi hs
  case leave ht =>
    obtain ⟨_, _, _, rfl⟩ := ht
    exact hi hs
  case enter he ht =>
    obtain ⟨_, _, _, rfl⟩ := ht
    obtain ⟨_, _, rfl⟩ := ensureMinst_with he
    exact hi hs
  case load hl =>
    cases hl
    case unset => exact hi hs
    case done hp _ _ _ he =>
      obtain ⟨_, _, _, rfl⟩ := he
      cases hp.symm.trans hs
    case failed hp _ _ _ _ he =>
      obtain ⟨_, _, _, rfl⟩ := he
      cases hp.symm.trans hs

theorem Reachable.allMinsts_eq_nil (h : Reachable p) :
    p.setSystemExecutionImpl = false → p.allMinsts = [] := by
  have ⟨_, hq, hr⟩ := h
  exact hr.invariant (fun _ _ _ hi _ hs => hs.changes.allMinsts_eq_nil hi) fun _ => hq.allMinsts

theorem Fresh.of_load (hp : Reachable p) (hr : p.running = [])
    (hl : ecsactSiWasmLoad thread systems builds p = .ok err p') (hn : p'.allMinsts ≠ []) :
    Fresh p' := by
  have h {made : List SystemImpls} (hm : Made systems p.created made) (ha : p'.allMinsts = made)
      (hx : p'.running = p.running) (ht : p'.threadMinst = p.threadMinst) : Fresh p' := by
    refine ⟨⟨p.created, fun k hk => ?pool⟩, fun t => ?lock⟩
    case pool =>
      simp only [ha]
      exact (hm k <| ha ▸ hk).1
    case lock =>
      cases hq : p'.lock t
      case none => rfl
      case some =>
        have ⟨_, r, hr', _⟩ := running_of_extended hq hp.numbered hm ha hx ht
        simp [hr] at hr'
  cases ecsactSiWasmLoad_ok hl
  case unset hs => exact absurd (hp.allMinsts_eq_nil hs) hn
  case done hm _ he =>
    obtain ⟨_, _, _, rfl⟩ := he
    exact h hm rfl rfl rfl
  case failed hm _ _ he =>
    obtain ⟨_, _, _, rfl⟩ := he
    exact h hm rfl rfl rfl

-- The state of the counter and of the threads after some executions.
structure Assigned (p₀ : Program) (a : Assignments) (p : Program) : Prop where
  pool     : p.allMinsts = p₀.allMinsts
  counter  : p.nextAvailableIndex = p₀.nextAvailableIndex + BitVec.ofNat 64 a.firsts.length
  indices  : a.firsts.map (·.index) = (List.range a.firsts.length).map fun i =>
    (p₀.nextAvailableIndex + BitVec.ofNat 64 (i + 1)).toNat % p₀.allMinsts.length
  minst    : ∀ first ∈ a.firsts, p₀.allMinsts[first.index]? = some first.minst
  locked   : ∀ e ∈ a.assigned, e.2 ∈ p.allMinsts ∧ p.threadMinst e.1 = some e.2
  unlocked : ∀ thread, thread ∉ a.assigned.map Prod.fst → p.lock thread = none

namespace Assigned

theorem again (h : Assigned p₀ a p) {e : ThreadId × SystemImpls} (he : e ∈ a.assigned) :
    p.lock e.1 = some e.2 :=
  have ⟨hm, ht⟩ := h.locked e he
  Ready.lock_of_mem hm rfl ht

theorem of_fresh (h : Fresh p) : Assigned p {} p where
  pool         := rfl
  counter      := by simp
  indices      := rfl
  minst        := nofun
  locked       := nofun
  unlocked t _ := h.lock t

-- The steps which keep the counter, and by which no thread gets an instance.
theorem of_lock (h : Assigned p₀ a p) (ha : p'.allMinsts = p.allMinsts)
    (hi : p'.nextAvailableIndex = p.nextAvailableIndex)
    (ht : ∀ e ∈ a.assigned, p'.threadMinst e.1 = p.threadMinst e.1)
    (hl : ∀ thread m, p'.lock thread = some m → p.lock thread = some m) : Assigned p₀ a p' where
  pool     := ha.trans h.pool
  counter  := hi.trans h.counter
  indices  := h.indices
  minst    := h.minst
  locked e he := ha.symm ▸ ⟨(h.locked e he).1, (ht e he).trans (h.locked e he).2⟩
  unlocked t ht := by
    cases hq : p'.lock t
    case none => rfl
    case some m => cases (h.unlocked t ht).symm.trans <| hl t m hq

theorem continues {event : Event} (h : Assigned p₀ a p) (hc : event.Continues)
    (hs : Changes p event p') : Assigned p₀ a p' := by
  cases hs
  case start          => exact h.of_lock rfl rfl (fun _ _ => rfl) fun _ _ => id
  case setTrapHandler => exact h.of_lock rfl rfl (fun _ _ => rfl) fun _ _ => id
  case guest ht =>
    obtain ⟨_, _, _, rfl⟩ := ht
    exact h.of_lock rfl rfl (fun _ _ => rfl) fun _ _ => id
  case leave ht =>
    obtain ⟨_, _, _, rfl⟩ := ht
    exact h.of_lock rfl rfl (fun _ _ => rfl) fun _ _ => lock_leave
  all_goals cases hc

theorem exit (h : Assigned p₀ a p) (hs : Changes p (.exit thread) p') :
    Assigned p₀ (a.forget thread) p' := by
  cases hs
  case exit =>
    refine ⟨h.pool, h.counter, h.indices, h.minst, fun e he => ?locked, fun t ht => ?unlocked⟩
    case locked =>
      have ⟨he, hn⟩ := List.mem_filter.mp he
      have ⟨hm, ht⟩ := h.locked e he
      exact ⟨hm, (Function.update_of_ne (by simpa using hn) ..).trans ht⟩
    case unlocked =>
      cases hq : Program.lock _ t
      case none => rfl
      case some m =>
        have ⟨hu, _⟩ := lock_eq_some.mp hq
        have hu := (update_eq_some.mp hu).resolve_left fun hc => by cases hc.2
        refine ((h.unlocked t fun hc => ht ?_).symm.trans <| lock_exit hq).symm
        have ⟨e, he, hx⟩ := List.mem_map.mp hc
        exact List.mem_map.mpr ⟨e, List.mem_filter.mpr ⟨he, by simp [hx, hu.1]⟩, hx⟩

theorem enter_again (h : Assigned p₀ a p) (ha : thread ∈ a.assigned.map Prod.fst)
    (hs : Changes p (.enter thread ctx) p') : Assigned p₀ a p' := by
  obtain ⟨e, he, rfl⟩ := List.mem_map.mp ha
  cases hs
  case enter ht _ hx =>
    have hl := h.again he
    cases hx.symm.trans <| ensureMinst_of_lock hl
    refine h.of_lock ht.allMinsts ?index (fun e _ => congrFun ht.threadMinst e.1) ?lock
    case index =>
      obtain ⟨_, _, _, rfl⟩ := ht
      rfl
    case lock =>
      intro t m hq
      exact (lock_enter hx ht hq).resolve_right fun hc => by simp [hl] at hc

theorem enter_first (h : Assigned p₀ a p) (ha : thread ∉ a.assigned.map Prod.fst)
    (hs : Changes p (.enter thread ctx) p') (hr : p'.running = (thread, minst) :: p.running) :
    Assigned p₀ (a.assign
      ⟨thread, p'.nextAvailableIndex.toNat % p'.allMinsts.length, minst⟩) p' := by
  cases hs
  case enter ht _ hx =>
    have hl := h.unlocked thread ha
    obtain ⟨hc, _⟩ | ⟨_, hm, hp⟩ := ensureMinst_ok hx
    case inl => cases hl.symm.trans hc
    case inr =>
      have hk {t : ThreadId} {m : SystemImpls} := @lock_enter p thread _ t m _ _ hx ht
      have hi : p.nextAvailableIndex + 1 =
          p₀.nextAvailableIndex + BitVec.ofNat 64 (a.firsts.length + 1) := by
        rw [h.counter, BitVec.ofNat_add, BitVec.add_assoc]
        rfl
      subst hp
      obtain ⟨_, _, _, rfl⟩ := ht
      cases hr
      have hd := h.pool
      refine ⟨hd, ?counter, ?indices, ?minst, ?locked, ?unlocked⟩
      case counter => simpa [Assignments.assign] using hi
      case indices =>
        simp only [Assignments.assign, List.map_append, List.length_append, List.length_singleton,
          List.range_succ, List.map_singleton, h.indices, hi, hd]
      case minst =>
        intro first hf
        cases List.mem_append.mp hf
        case inl hf => exact h.minst first hf
        case inr hf =>
          cases List.mem_singleton.mp hf
          exact hd ▸ hm
      case locked =>
        intro e he
        cases he
        case head => exact ⟨List.mem_of_getElem? hm, Function.update_self ..⟩
        case tail he =>
          have hn : e.1 ≠ thread := fun hc => ha <| hc ▸ List.mem_map_of_mem he
          exact ⟨(h.locked e he).1, (Function.update_of_ne hn ..).trans (h.locked e he).2⟩
      case unlocked =>
        intro t hn
        have hn := not_or.mp <| List.mem_cons.not.mp hn
        cases hq : Program.lock _ t
        case none => rfl
        case some m =>
          cases hk hq
          case inl hk => exact ((h.unlocked t hn.2).symm.trans hk).symm
          case inr hk => exact absurd hk.1 hn.1

end Assigned

theorem Executes.assigned (h : Executes p₀ a p) (hf : Fresh p₀) : Assigned p₀ a p := by
  induction h
  case load               => exact .of_fresh hf
  case first ha hs hr hi  => exact hi.enter_first ha hs.changes hr
  case again ha hs hi     => exact hi.enter_again ha hs.changes
  case exit hs hi         => exact hi.exit hs.changes
  case other hc hs hi     => exact hi.continues hc hs.changes

-- Unless the counter wraps, its values are the turns of a round robin.
section

variable (h : Assigned p₀ a p) (hw : p₀.nextAvailableIndex.toNat + a.firsts.length < 2 ^ 64)
include h hw

theorem Assigned.turns : a.firsts.map (·.index) =
    RoundRobin.turns p₀.allMinsts.length (p₀.nextAvailableIndex.toNat + 1) a.firsts.length := by
  rw [h.indices]
  refine List.map_congr_left fun i hi => ?_
  have hi := List.mem_range.mp hi
  rw [BitVec.toNat_add, BitVec.toNat_ofNat]
  refine congrArg (· % p₀.allMinsts.length) ?_
  omega

theorem Assigned.toNat_counter :
    p.nextAvailableIndex.toNat = p₀.nextAvailableIndex.toNat + a.firsts.length := by
  rw [h.counter, BitVec.toNat_add, BitVec.toNat_ofNat]
  omega

end

-- An instance's threads are those to which its index has been given.
theorem Assigned.count_eq (h : Assigned p₀ a p) (hf : Fresh p₀) {k : Nat}
    (hk : k < p₀.allMinsts.length) :
    a.count p₀.allMinsts[k] = (a.firsts.map (·.index)).count k := by
  have ⟨start, hp⟩ := hf.pool
  rw [Assignments.count, List.count, List.countP_map]
  refine List.countP_congr fun first hm => ?_
  have ⟨hl, he⟩ := List.getElem?_eq_some_iff.mp <| h.minst first hm
  have hid := hp first.index hl
  rw [he] at hid
  simp [hid, hp k hk]

theorem Executes.balanced (hp : Reachable p) (hr : p.running = [])
    (hl : ecsactSiWasmLoad thread systems builds p = .ok err p₀) (hn : p₀.allMinsts ≠ [])
    (h : Executes p₀ a p') (hw : p₀.nextAvailableIndex.toNat + a.firsts.length < 2 ^ 64) :
    Balanced p₀ a p' := by
  have hf := Fresh.of_load hp hr hl hn
  have ha := h.assigned hf
  have ht := ha.turns hw
  have hpos := List.length_pos_iff.mpr hn
  refine ⟨fun first hm => ?index, ?counts, fun i hi => ?windows, ha.toNat_counter hw,
    fun e he => ?again⟩
  case index =>
    have hx := ha.minst first hm
    exact ⟨(List.getElem?_eq_some_iff.mp hx).1, hx⟩
  case counts =>
    intro m hm m' hm'
    obtain ⟨k, hk, rfl⟩ := List.getElem_of_mem hm
    obtain ⟨k', hk', rfl⟩ := List.getElem_of_mem hm'
    rw [ha.count_eq hf hk, ha.count_eq hf hk', ht]
    exact RoundRobin.count_turns_le hpos hk hk'
  case windows =>
    have ⟨start, hs⟩ := hf.pool
    have hd : (((a.firsts.drop i).take p₀.allMinsts.length).map (·.minst.id)) =
        (((a.firsts.map (·.index)).drop i).take p₀.allMinsts.length).map (start + ·) := by
      rw [← List.map_drop, ← List.map_take, List.map_map]
      refine List.map_congr_left fun first hm => ?_
      have hm := List.mem_of_mem_drop <| List.mem_of_mem_take hm
      have ⟨hl, he⟩ := List.getElem?_eq_some_iff.mp <| ha.minst first hm
      have hid := hs first.index hl
      rw [he] at hid
      exact hid
    rw [hd, ht, RoundRobin.take_drop_turns hi]
    exact (RoundRobin.nodup_turns le_rfl).map fun _ _ => Nat.add_left_cancel
  case again => exact ensureMinst_of_lock <| ha.again he

-- After the first load, one thread stays in its execution while others come and go.
theorem Crowd.exists_executes {n : Nat} (hn : n + 1 < 2 ^ 64) : ∃ p a, Executes loaded a p ∧
    Crowd (n + 1) p ∧ a.firsts.length = n + 1 ∧ ∀ e ∈ a.assigned, e.1 = 0 := by
  induction n
  case zero =>
    obtain ⟨p, hs, h⟩ := exists_first
    exact ⟨p, _, .first .load nofun hs h.running, h, rfl, by simp [Assignments.assign]⟩
  case succ n hi =>
    obtain ⟨p, a, hx, h, hl, ha⟩ := hi (by omega)
    obtain ⟨p₁, hs₁, h₁⟩ := h.enter hn
    obtain ⟨p₂, p₃, hs₂, hs₃, h₃⟩ := h₁.part
    have hr : p₁.running = (1, plainImpls ((n + 1 + 1) % 100)) :: (started p).running := by
      simp [h₁.running, started, h.running]
    have hm : (1 : ThreadId) ∉ a.assigned.map Prod.fst := by
      intro hm
      obtain ⟨e, he, ht⟩ := List.mem_map.mp hm
      cases (ha e he).symm.trans ht
    have hc : (Event.start 1).Continues := trivial
    have hc' : (Event.leave 1).Continues := trivial
    refine ⟨p₃, _, .exit (.other (.first (.other hx hc h.start) hm hs₁ hr) hc' hs₂) hs₃, h₃,
      ?length, ?assigned⟩
    case length => simp [Assignments.forget, Assignments.assign, hl]
    case assigned =>
      intro e he
      obtain ⟨he, hn⟩ := List.mem_filter.mp he
      cases List.mem_cons.mp he
      case inl he => simp [he] at hn
      case inr he => exact ha e he

-- The instances of a pool of 100 are given to 250 threads.
theorem loaded_balanced : ∃ p' a, a.firsts.length = 250 ∧ p'.allMinsts.length = 100 ∧
    Balanced loaded a p' := by
  have ⟨p', a, hx, h, hl, _⟩ := Crowd.exists_executes (n := 249) (by decide)
  have hn : loaded.allMinsts ≠ [] := by simp [loaded, plain]
  have hw : loaded.nextAvailableIndex.toNat + a.firsts.length < 2 ^ 64 := by
    rw [hl]
    decide
  refine ⟨p', a, hl, by simp [h.allMinsts], ?_⟩
  exact hx.balanced ⟨plain 0, plain_starts, .refl⟩ rfl load_plain hn hw

end Ecsact.Program
