import EcsactSiWasmer.Execution.Provenance
import EcsactSiWasmer.Execution.Theorems.Balance

open EStateM Ecsact.World Ecsact.CallMem

namespace Ecsact.Program

variable {p p' : Program} {thread : ThreadId} {event : Event} {call : LoadCall}
  {calls : List LoadCall} {m m' : SystemImpls} {systems : List (SystemId × String)}
  {builds : Nat → Build}

-- A module and a list of systems make but one instance of a number.
theorem Built.eq {build : Build} (h : Built systems build m) (h' : Built systems build m')
    (hi : m.id = m'.id) : m = m' := by
  obtain ⟨_, minst, exports, memory⟩ := m
  obtain ⟨_, minst', exports', memory'⟩ := m'
  cases hi
  cases h.minst.symm.trans h'.minst
  cases h.exports.symm.trans h'.exports
  cases h.memory.symm.trans h'.memory
  rfl

theorem LoadCall.Makes.eq (h : call.Makes m) (h' : call.Makes m') (hi : m.id = m'.id) : m = m' := by
  have ⟨k, _, hk, hb⟩ := h
  have ⟨k', _, hk', hb'⟩ := h'
  have he : k = k' := by omega
  subst he
  exact hb.eq hb' hi

-- What a load leaves in the pool.
theorem load_pool {err : SiError} (h : ecsactSiWasmLoad thread systems builds p = .ok err p') :
    (p.setSystemExecutionImpl = false ∧ p' = p) ∨
      p'.created = p.created + p'.allMinsts.length ∧
      ∀ k (h : k < p'.allMinsts.length), p'.allMinsts[k].id = p.created + k ∧
        Built systems (builds k) p'.allMinsts[k] := by
  have hb := (ecsactSiWasmLoad_built h).resolve_left
  have hm {made : List SystemImpls} (hs : p.setSystemExecutionImpl = true)
      (hm : Made systems p.created made) (ha : p'.allMinsts = made)
      (hc : p'.created = p.created + made.length) :
      p'.created = p.created + p'.allMinsts.length ∧
      ∀ k (h : k < p'.allMinsts.length), p'.allMinsts[k].id = p.created + k ∧
        Built systems (builds k) p'.allMinsts[k] := by
    subst ha
    refine ⟨hc, fun k hk => ⟨(hm k hk).1, hb (fun hn => ?_) k hk⟩⟩
    cases hs.symm.trans hn.1
  cases ecsactSiWasmLoad_ok h
  case unset hs => exact .inl ⟨hs, rfl⟩
  case done hs _ hl _ he | failed hs _ hl _ _ he =>
    obtain ⟨_, _, _, rfl⟩ := he
    exact .inr <| hm hs hl rfl rfl

theorem Numbered.lt_of_knows (h : Numbered p) (hm : p.Knows m) : m.id < p.created := by
  rcases hm with hm | ⟨thread, hm⟩ | ⟨r, hr, rfl⟩
  · exact h.pool m hm
  · exact h.remembered thread m hm
  · exact h.running r hr

-- Only a load brings in an instance.
theorem Changes.knows (h : Changes p event p') (hl : ¬event.IsLoad) (hm : p'.Knows m) :
    p.Knows m := by
  cases h
  case start          => exact hm
  case setTrapHandler => exact hm
  case load           => exact absurd trivial hl
  case reset          => exact hm.imp_left nofun
  case exit =>
    refine hm.imp_right <| .imp_left fun ⟨t, ht⟩ => ?_
    cases update_eq_some.mp ht
    case inl ht => cases ht.2
    case inr ht => exact ⟨t, ht.2⟩
  case guest ht =>
    obtain ⟨_, _, _, rfl⟩ := ht
    exact hm
  case leave ht =>
    obtain ⟨_, _, _, rfl⟩ := ht
    exact hm.imp_right <| .imp_right fun ⟨r, hr, hm⟩ => ⟨r, List.mem_of_mem_filter hr, hm⟩
  case enter minst p₁ p₂ _ he ht =>
    have hk : p.Knows minst ∧ ∀ t m, p₁.threadMinst t = some m → p.Knows m := by
      cases ensureMinst_ok he
      case inl hl =>
        obtain ⟨hl, rfl⟩ := hl
        have ht := (lock_eq_some.mp hl).1
        exact ⟨.inr <| .inl ⟨_, ht⟩, fun t m hm => .inr <| .inl ⟨t, hm⟩⟩
      case inr hl =>
        obtain ⟨_, hl, rfl⟩ := hl
        have hp : p.Knows minst := .inl <| List.mem_of_getElem? hl
        refine ⟨hp, fun t m hm => ?_⟩
        cases update_eq_some.mp hm
        case inl hm => exact Option.some.inj hm.2 ▸ hp
        case inr hm => exact .inr <| .inl ⟨t, hm.2⟩
    have ha : p₂.allMinsts = p.allMinsts := ht.allMinsts.trans (ensureMinst_allMinsts he)
    have hr : p₂.running = p.running := ht.running.trans (ensureMinst_running he)
    rcases hm with hm | ⟨t, hm⟩ | ⟨r, hr', rfl⟩
    · exact .inl <| ha ▸ hm
    · exact hk.2 t m <| ht.threadMinst ▸ hm
    · cases hr'
      case head      => exact hk.1
      case tail _ hr' => exact .inr <| .inr ⟨r, hr ▸ hr', rfl⟩

theorem Changes.pool (h : Changes p event p') (hl : ¬event.IsLoad) :
    p'.allMinsts = p.allMinsts ∨ p'.allMinsts = [] := by
  cases h
  case start          => exact .inl rfl
  case setTrapHandler => exact .inl rfl
  case exit           => exact .inl rfl
  case reset          => exact .inr rfl
  case load           => exact absurd trivial hl
  case guest ht       => exact .inl ht.allMinsts
  case leave ht       => exact .inl ht.allMinsts
  case enter he ht    => exact .inl <| ht.allMinsts.trans (ensureMinst_allMinsts he)

namespace Loading

theorem reachable (h : Loading calls p) : Reachable p := by
  induction h
  case start hs => exact ⟨_, hs, .refl⟩
  case load hs hi =>
    have ⟨p₀, h₀, hi⟩ := hi
    exact ⟨p₀, h₀, hi.tail ⟨_, trivial, hs⟩⟩
  case other hs hi =>
    have ⟨p₀, h₀, hi⟩ := hi
    exact ⟨p₀, h₀, hi.tail ⟨_, trivial, hs⟩⟩

theorem provenance (h : Loading calls p) : Provenance calls p := by
  induction h
  case start p hs =>
    have hk {m : SystemImpls} : ¬p.Knows m := by
      rintro (hm | ⟨_, hm⟩ | ⟨_, hm, _⟩)
      · simp [hs.allMinsts] at hm
      · simp [hs.threadMinst] at hm
      · simp [hs.running] at hm
    exact ⟨fun m hm => absurd hm hk, fun m _ hm => absurd hm hk, by simp [hs.allMinsts]⟩
  case other calls p p' event h hl hs hi =>
    have hk {m : SystemImpls} : p'.Knows m → p.Knows m := hs.changes.knows hl
    refine ⟨fun m hm => hi.known m <| hk hm, fun m m' hm hm' => hi.unique m m' (hk hm) (hk hm'), ?_⟩
    cases hs.changes.pool hl
    case inl ha => exact ha ▸ hi.pool
    case inr ha => simp [ha]
  case load calls p p' thread systems builds h hs hi =>
    have ⟨_, _, hl, he⟩ := bind_eq_ok.mp hs.run
    cases he
    have hn := h.reachable.numbered
    have ⟨hr, ht⟩ := (ecsactSiWasmLoad_ok hl).keeps
    cases load_pool hl
    case inl hu =>
      obtain ⟨hu, rfl⟩ := hu
      have ha := h.reachable.allMinsts_eq_nil hu
      refine ⟨fun m hm => ?_, hi.unique, by simp [ha]⟩
      have ⟨call, hc, hm⟩ := hi.known m hm
      exact ⟨call, List.mem_cons_of_mem _ hc, hm⟩
    case inr hu =>
      obtain ⟨hc, hp⟩ := hu
      have hd : p'.created - p.created = p'.allMinsts.length := by omega
      -- What is known after the load is in the new pool, or it was known before.
      have hk {m : SystemImpls} (hm : p'.Knows m) : p.Knows m ∨
          LoadCall.Makes ⟨systems, builds, p.created, p'.created - p.created⟩ m := by
        rcases hm with hm | ⟨t, hm⟩ | ⟨r, hm, rfl⟩
        · obtain ⟨k, hk, rfl⟩ := List.getElem_of_mem hm
          exact .inr ⟨k, hd ▸ hk, hp k hk⟩
        · exact .inl <| .inr <| .inl ⟨t, ht ▸ hm⟩
        · exact .inl <| .inr <| .inr ⟨r, hr ▸ hm, rfl⟩
      have hx {m m' : SystemImpls} (hm : p.Knows m)
          (hm' : LoadCall.Makes ⟨systems, builds, p.created, p'.created - p.created⟩ m') :
          m.id ≠ m'.id := by
        have hm := hn.lt_of_knows hm
        have ⟨k, _, hm', _⟩ := hm'
        have hm' : m'.id = p.created + k := hm'
        omega
      refine ⟨fun m hm => ?_, fun m m' hm hm' he => ?_, fun k hk' => ?_⟩
      · cases hk hm
        case inl hm =>
          have ⟨call, hc, hm⟩ := hi.known m hm
          exact ⟨call, List.mem_cons_of_mem _ hc, hm⟩
        case inr hm => exact ⟨_, List.mem_cons_self, hm⟩
      · cases hk hm
        case inl hm =>
          cases hk hm'
          case inl hm' => exact hi.unique m m' hm hm' he
          case inr hm' => exact absurd he <| hx hm hm'
        case inr hm =>
          cases hk hm'
          case inl hm' => exact absurd he.symm <| hx hm' hm
          case inr hm' => exact hm.eq hm' he
      · exact ⟨_, rfl, hp k hk'⟩

end Loading

theorem Reachable.loading (h : Reachable p) : ∃ calls, Loading calls p := by
  have ⟨p₀, hs, hr⟩ := h
  refine hr.invariant (i := fun p => ∃ calls, Loading calls p) ?_ ⟨[], .start hs⟩
  rintro p event p' ⟨calls, hl⟩ _ hp
  cases event
  case load => exact ⟨_, hl.load hp⟩
  all_goals exact ⟨calls, hl.other id hp⟩

section

variable {w w' : World} {ctx : CtxPtr} {exp : MinstExport} {handle : BitVec 32} {minst : SystemImpls}

theorem view_put : (p.put thread w).view thread = w := by
  simp [view, put]

theorem put_put : (p.put thread w).put thread w' = p.put thread w' := by
  simp [put]

-- The start of an execution, on its own thread.
theorem enterSystemImpl_eq_ok (h : enterSystemImpl thread ctx p = .ok (exp, handle) p') :
    ∃ minst p₁ c, ensureMinst thread p = .ok minst p₁ ∧
      minst.sysImplExports (p.systemId thread ctx) = some exp ∧
      enterSystem minst.memory.ptr ctx (p.view thread).callMem = .ok handle c ∧
      p'.running = (thread, minst) :: p.running ∧
      p'.view thread = { (p.view thread).called .id [.ctx ctx] with callMem := c } := by
  obtain ⟨minst, p₁, h₁, h⟩ := bind_eq_ok.mp h
  obtain ⟨systemId, p₂, h₂, h⟩ := bind_eq_ok.mp h
  obtain ⟨_, p₃, h₃, h⟩ := bind_eq_ok.mp h
  cases assert_eq_ok h₃
  have hp := ensureMinst_with h₁
  obtain ⟨w, hw, rfl⟩ := zoom_eq_ok.mp h₂
  cases hw
  have hv : p₁.view thread = p.view thread ∧ p₁.running = p.running := by
    obtain ⟨_, _, rfl⟩ := hp
    exact ⟨rfl, rfl⟩
  simp only [hv.1] at h
  have hs : (p.view thread).runtime.id ((p.view thread).hostView .id [.ctx ctx]) =
      p.systemId thread ctx := rfl
  rw [hs] at h
  cases he : minst.sysImplExports (p.systemId thread ctx)
  case none => rw [he] at h; cases h
  case some =>
    rw [he] at h
    obtain ⟨_, p₄, h₄, h⟩ := bind_eq_ok.mp h
    obtain ⟨_, _, h₅, h⟩ := bind_eq_ok.mp h
    cases h₅
    cases h
    obtain ⟨w₁, hz, rfl⟩ := zoom_eq_ok.mp h₄
    obtain ⟨c, hc, rfl⟩ := zoom_eq_ok.mp hz
    rw [view_put] at hc
    refine ⟨minst, p₁, c, h₁, he, hc, congrArg _ hv.2, ?_⟩
    rw [put_put, view_put]
    exact view_put

theorem knows_of_ensureMinst {p₁ : Program} (h : ensureMinst thread p = .ok minst p₁) :
    p.Knows minst := by
  cases ensureMinst_ok h
  case inl hl => exact .inr <| .inl ⟨_, (lock_eq_some.mp hl.1).1⟩
  case inr hl => exact .inl <| List.mem_of_getElem? hl.2.1

theorem Built.function {build : Build} {id : SystemId} (h : Built systems build m)
    (he : m.sysImplExports id = some exp) : ∃ name, systems.reverse.lookup id = some name ∧
      m.minst.findExport name = some exp ∧ exp.kind = .func := by
  cases getSystemImplExports_lookup h.exports id
  case inl hl =>
    obtain ⟨name, exp', hl, hf, hk, he'⟩ := hl
    cases he.symm.trans he'
    exact ⟨name, hl, hf, hk⟩
  case inr hl => cases he.symm.trans hl.2

-- Whatever has been loaded and reset before, and whatever is running.
theorem Loading.calls_export (h : Loading calls p)
    (hr : enterSystemImpl thread ctx p = .ok (exp, handle) p') : ∃ minst,
      p'.running = (thread, minst) :: p.running ∧
      Calls calls minst (p.systemId thread ctx) exp := by
  have ⟨minst, p₁, c, h₁, he, _, hp, _⟩ := enterSystemImpl_eq_ok hr
  have ⟨call, hc, hm⟩ := h.provenance.known _ <| knows_of_ensureMinst h₁
  have ⟨_, _, _, hb⟩ := hm
  exact ⟨minst, hp, call, hc, hm, hb.function he⟩

end

theorem loaded_loading : Loading [⟨plainSystems, plainBuild, (plain 0).created,
    loaded.created - (plain 0).created⟩] loaded :=
  .load (.start plain_starts)
    ⟨⟨List.mem_singleton_self 0, by decide⟩, bind_ok (f := fun _ => pure ()) load_plain⟩

theorem loaded_provenance : ∃ calls, Provenance calls loaded :=
  ⟨_, loaded_loading.provenance⟩

theorem loaded_calls_export : ∃ calls r p' minst, enterSystemImpl 0 0 loaded = .ok r p' ∧
    p'.running = (0, minst) :: loaded.running ∧ Calls calls minst (loaded.systemId 0 0) r.1 := by
  have ⟨p, hs, _⟩ := Crowd.exists_first
  have ⟨⟨exp, handle⟩, _, hr, hp⟩ := bind_eq_ok.mp hs.run
  cases hp
  have ⟨minst, h⟩ := loaded_loading.calls_export hr
  exact ⟨_, _, p, minst, hr, h⟩

end Ecsact.Program
