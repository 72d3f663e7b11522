import EcsactSiWasmer.Execution.Entries
import EcsactSiWasmer.Execution.Theorems.Account
import EcsactSiWasmer.Execution.Theorems.Capacity
import EcsactSiWasmer.Execution.Theorems.Exclusive
import EcsactSiWasmer.Execution.Theorems.Idle
import EcsactSiWasmer.Execution.Theorems.Sandbox

open EStateM Ecsact.World Ecsact.CallMem

namespace Ecsact

namespace CallMem

-- The first slot holds the memory, and the next slots come after it.
def Rooted (mem : MemPtr) (c : CallMem) : Prop :=
  ∃ info, c.info = some info ∧ 8 ≤ info.dataOffset ∧
    (c.ndebug = false → info.dataOffsetTypes 0 = some .memory) ∧ info.data.readWord 64 0 = mem

-- Slots are only added, which leaves the first one alone up to the end of the data.
def Advances (c c' : CallMem) : Prop :=
  ∀ info, c.info = some info → ∃ info', c'.info = some info' ∧
    info.dataOffset ≤ info'.dataOffset ∧
    (info'.dataOffset ≤ 4096 → ∀ mem, c.Rooted mem → c'.Rooted mem)

instance : IsPreorder CallMem Advances where
  refl _ info hi := ⟨info, hi, le_rfl, fun _ _ => id⟩
  trans c c' c'' h₁ h₂ info hi := by
    have ⟨info', hi', hl, hr⟩ := h₁ info hi
    have ⟨info'', hi'', hl', hr'⟩ := h₂ info' hi'
    exact ⟨info'', hi'', hl.trans hl', fun h mem => hr' h mem ∘ hr (hl'.trans h) mem⟩

variable {c c' : CallMem} {mem : MemPtr} {info : CallMemInfo} {v : BitVec 64} {type : SlotType}

theorem Rooted.read (h : c.Rooted mem) : callMemRead 0 .memory c = .ok mem c := by
  have ⟨info, hi, hl, ht, hm⟩ := h
  refine callMemRead_eq_ok.mpr ⟨info, hi, fun hn => ⟨?_, ht hn⟩, hm.symm, rfl⟩
  exact Nat.lt_of_lt_of_le (by decide) hl

theorem Rooted.of_untraced (h : c.Rooted mem) (hu : c'.untraced = c.untraced) : c'.Rooted mem := by
  have ⟨info, hi, hl, ht, hm⟩ := h
  have ⟨_, hi'⟩ := info_of_untraced hi hu
  have hn : c'.untraced.ndebug = c.untraced.ndebug := congrArg CallMem.ndebug hu
  exact ⟨_, hi', hl, fun hd => ht <| hn.symm.trans hd, hm⟩

-- The types which are recorded for later slots.
theorem assignOffsetType_zero {ndebug : Bool} (h : 8 ≤ info.dataOffset) :
    assignOffsetType ndebug info type 0 = info.dataOffsetTypes 0 := by
  rw [assignOffsetType]
  split
  case isTrue  => rfl
  case isFalse => exact Function.update_of_ne (by omega) ..

theorem Rooted.alloc (h : c.Rooted mem) (hi : c.info = some info) (hl : info.dataOffset + 8 ≤ 4096) :
    Rooted mem { c with info := some (info.alloc c.ndebug v type) } := by
  have ⟨_, hi', ho, ht, hm⟩ := h
  cases hi.symm.trans hi'
  refine ⟨_, rfl, Nat.le_add_right_of_le ho, fun hn => ?_, ?_⟩
  · exact (assignOffsetType_zero ho).trans <| ht hn
  · have hd : (BitVec.ofNat 32 info.dataOffset).toInt = info.dataOffset := by
      rw [toInt_eq_toNat] <;> simp <;> omega
    rw [CallMemInfo.alloc, ByteStore.readWord_writeWord_disjoint, hm]
    exact .inl <| by omega

theorem Rooted.reserved (h : c.Rooted mem) (hi : c.info = some info) :
    Rooted mem (reserved c info type) := by
  have ⟨_, hi', ho, ht, hm⟩ := h
  cases hi.symm.trans hi'
  refine ⟨_, rfl, Nat.le_add_right_of_le ho, fun hn => ?_, hm⟩
  exact (assignOffsetType_zero ho).trans <| ht hn

theorem advances_callMemAlloc (v : BitVec 64) (type : SlotType) :
    Within Advances (callMemAlloc v type) := by
  intro c info hi
  cases ha : callMemAlloc v type c
  case ok =>
    obtain ⟨_, hi', _, _, rfl⟩ := callMemAlloc_eq_ok.mp ha
    cases hi.symm.trans hi'
    exact ⟨_, rfl, Nat.le_add_right .., fun hl mem hr => hr.alloc hi hl⟩
  case error =>
    cases callMemAlloc_error hi ha
    case inl hc =>
      subst hc
      exact ⟨info, hi, le_rfl, fun _ _ => id⟩
    case inr hc =>
      subst hc
      exact ⟨_, rfl, Nat.le_add_right .., fun _ mem hr => hr.reserved hi⟩

theorem rooted_initializeInfo {ndebug : Bool} :
    Rooted mem ⟨ndebug, some (initializeInfo ndebug mem)⟩ := by
  refine ⟨_, rfl, le_rfl, fun hn => ?_, ByteStore.readWord_writeWord rfl mem⟩
  replace hn : ndebug = false := hn
  simp [initializeInfo, CallMemInfo.alloc, assignOffsetType, hn, blank]

theorem rooted_enterInitialize {u : Unit} (h : enterInitialize mem c = .ok u c') :
    c'.Rooted mem := by
  obtain ⟨_, rfl⟩ := enterInitialize_eq_ok.mp h
  exact rooted_initializeInfo

theorem grown_enterInitialize {u : Unit} (h : enterInitialize mem c = .ok u c') : Grown 8 c' := by
  obtain ⟨_, rfl⟩ := enterInitialize_eq_ok.mp h
  exact ⟨_, rfl, CallMemInfo.grown_initializeInfo⟩

theorem grown_enterSystem {ctx : CtxPtr} {handle : BitVec 32}
    (h : enterSystem mem ctx c = .ok handle c') : Grown 16 c' := by
  obtain ⟨_, _, rfl⟩ := enterSystem_eq_ok.mp h
  exact ⟨_, rfl, CallMemInfo.grown_systemInfo⟩

theorem rooted_enterSystem {ctx : CtxPtr} {handle : BitVec 32}
    (h : enterSystem mem ctx c = .ok handle c') : c'.Rooted mem := by
  obtain ⟨_, _, rfl⟩ := enterSystem_eq_ok.mp h
  exact (@rooted_initializeInfo mem c.ndebug).alloc rfl <| show 0 + 8 + 8 ≤ 4096 by decide

end CallMem

theorem primitives_advances : Primitives fun w w' => Advances w.callMem w'.callMem := by
  refine primitives_of_callMem (fun name => ?_) advances_callMemAlloc
  refine within_debugTraceMethod.mono fun c c' hu info hi => ?_
  have ⟨_, hi'⟩ := info_of_untraced hi hu
  exact ⟨_, hi', le_rfl, fun _ mem hr => hr.of_untraced hu⟩

namespace ImportCall

variable {mem : MemPtr} {calls : List ImportCall} {call : ImportCall} {w w' : World} {k : Nat}

theorem rooted_run {trap : Option Trap} (hg : Grown k w.callMem) (hr : w.callMem.Rooted mem)
    (hk : k + (if call.Derives then 16 else 0) ≤ 4096) (h : call.run w = .ok trap w') :
    w'.callMem.Rooted mem := by
  have ⟨info, hi, _⟩ := hg
  have hc : Within (fun w w' : World => Advances w.callMem w'.callMem)
      (call.func.funcCallback call.args) := primitives_advances.callback call.mem
  have h' : call.func.funcCallback call.args (call.enter w) = .ok trap w' := h
  have ⟨info', hi', _, hx⟩ := hc.of_ok h' info hi
  have ⟨_, hi'', hg'⟩ := grown_of_ok hg h
  cases hi'.symm.trans hi''
  exact hx (hg'.offset ▸ hk) mem hr

-- A guest which asks for as many handles as there is space for finds its memory at every call.
theorem rooted_begun (hg : Grown k w.callMem) (hr : w.callMem.Rooted mem)
    (hk : k + 16 * (begun calls w).countP (·.1.Derives) ≤ 4096) :
    ∀ b ∈ begun calls w, b.2.callMem.Rooted mem := by
  induction calls generalizing w k
  case nil => nofun
  case cons call calls hi =>
    refine List.forall_mem_cons.mpr ⟨hr, ?_⟩
    cases hx : call.run w
    case error e w' =>
      rw [after_error hx]
      nofun
    case ok trap w' =>
      cases trap_eq_none call.mem call.typed hx
      rw [after_ok hx, if_pos rfl]
      have hb : begun (call :: calls) w = (call, w) :: begun calls w' := by
        rw [begun, after_ok hx, if_pos rfl]
      have hc : (begun (call :: calls) w).countP (·.1.Derives) =
          (begun calls w').countP (·.1.Derives) + if call.Derives then 1 else 0 := by
        simp [hb, List.countP_cons]
      have he : k + 16 * (begun (call :: calls) w).countP (·.1.Derives) =
          k + (if call.Derives then 16 else 0) + 16 * (begun calls w').countP (·.1.Derives) := by
        rw [hc]
        split <;> omega
      rw [he] at hk
      exact hi (grown_of_ok hg hx) (rooted_run hg hr (by omega) hx) hk

end ImportCall

theorem Entry.active_of_rooted {inst : Minst} {memory : MinstExport} {w : World}
    (hm : inst.exports.find? (·.kind = .memory) = some memory)
    (hr : w.callMem.Rooted memory.ptr) : Entry.Active ⟨w, inst.memory⟩ :=
  ⟨memory.ptr, by simp [Minst.memory, hm], hr.read⟩

theorem active_initializeEntries {inst : Minst} {memory : MinstExport} {guest : GuestRun} {w : World}
    (hm : inst.exports.find? (·.kind = .memory) = some memory) (hr : w.callMem.Rooted memory.ptr)
    (hg : Grown 8 w.callMem)
    (hc : (inst.initializeBegun guest w).countP (DerivesHandle ·.1.name) ≤ 255) :
    ∀ e ∈ inst.initializeEntries guest w, e.Active := by
  have hk : 8 + 16 * (inst.initializeBegun guest w).countP (DerivesHandle ·.1.name) ≤ 4096 := by
    omega
  refine List.forall_mem_map.mpr fun b hb => Entry.active_of_rooted hm ?_
  cases @initializeBegun_cases w inst guest
  case inl hn =>
    rw [hn] at hb
    cases hb
  case inr hx =>
    obtain ⟨_, _, _, hx⟩ := hx
    rw [hx] at hb hk
    exact ImportCall.rooted_begun hg hr hk b hb

theorem createEntries_eq_nil {build : Build} {w : World}
    (hc : build.Instantiates → build.startRun.calls = []) : Minst.createEntries build w = [] := by
  simp only [Minst.createEntries]
  cases hm : build.module
  case error => rfl
  case ok module =>
    simp only
    cases hf : module.imports.find? fun imp => (importResolver imp).isNone
    case some => rfl
    case none =>
      simp only
      cases he : build.externs
      case error => rfl
      case ok ptrs =>
        have hi : ∀ imp ∈ module.imports, (importResolver imp).isSome := by
          simpa [Option.isSome_iff_ne_none] using hf
        simp [hc ⟨module, ptrs, hm, hi, he⟩, ImportCall.begun]

namespace Program

variable {p p' : Program} {thread : ThreadId} {event : Event} {systems : List (SystemId × String)}
  {build : Build} {builds : Nat → Build}

theorem active_loadMinstEntries (hc : build.Instantiates → build.startRun.calls = [])
    (hd : (loadMinstBegun thread systems build p).countP (DerivesHandle ·.1.name) ≤ 255) :
    ∀ e ∈ loadMinstEntries thread systems build p, e.Active := by
  rw [loadMinstEntries, createEntries_eq_nil hc, List.nil_append]
  split
  case h_2 => nofun
  case h_1 inst p₁ h₁ =>
    split
    case h_2 => nofun
    case h_1 exports memory he hm =>
      split
      case h_2 => nofun
      case h_1 p₂ h₂ =>
        have hi := onThread_callMem h₂
        have hb : inst.initializeBegun build.initRun (p₂.view thread) <:+
            loadMinstBegun thread systems build p := by
          simp only [loadMinstBegun, after_ok h₁, he, hm, after_ok h₂]
          exact List.suffix_append ..
        exact active_initializeEntries hm (rooted_enterInitialize hi) (grown_enterInitialize hi)
          ((hb.sublist.countP_le ..).trans hd)

theorem active_loadLoopEntries {n i : Nat}
    (hc : ∀ r ∈ loadLoopReached thread systems builds n i p,
      (r.1.Instantiates → r.1.startRun.calls = []) ∧
      (loadMinstBegun thread systems r.1 r.2).countP (DerivesHandle ·.1.name) ≤ 255) :
    ∀ e ∈ loadLoopEntries thread systems builds n i p, e.Active := by
  induction n generalizing i p
  case zero => nofun
  case succ n hi =>
    have ⟨⟨hs, hd⟩, hc⟩ := List.forall_mem_cons.mp hc
    rw [loadLoopEntries]
    refine List.forall_mem_append.mpr ⟨active_loadMinstEntries hs hd, ?_⟩
    split
    case h_2 => nofun
    case h_1 p' hl =>
      rw [after_ok hl, if_pos rfl] at hc
      exact hi hc

-- The instances that the program knows are referred to with the first memory that they export.
def Exports (m : SystemImpls) : Prop :=
  m.minst.exports.find? (·.kind = .memory) = some m.memory

-- Each execution has the memory of its instance in its first slot.
structure Seated (p : Program) : Prop where
  idle       : Idle p
  pool       : ∀ m ∈ p.allMinsts, Exports m
  remembered : ∀ thread m, p.threadMinst thread = some m → Exports m
  running    : ∀ r ∈ p.running, Exports r.2 ∧ (p.view r.1).callMem.Rooted r.2.memory.ptr ∧
    ∃ k ≤ 4096, Grown k (p.view r.1).callMem

-- What another thread does is not seen in call memory.
theorem Elsewhere.view_callMem (h : Elsewhere thread p p') {thread' : ThreadId}
    (hn : thread' ≠ thread) : (p'.view thread').callMem = (p.view thread').callMem := by
  have hi := h.info thread' hn
  have hd := h.ndebug
  simp only [view, hi, hd]

namespace Seated

theorem of_elsewhere (h : Seated p) (hi : Idle p') (he : Elsewhere thread p p')
    (ha : ∀ m ∈ p'.allMinsts, Exports m) (ht : ∀ t m, p'.threadMinst t = some m → Exports m)
    (hr : ∀ r ∈ p'.running, r ∈ p.running ∧ r.1 ≠ thread) : Seated p' where
  idle           := hi
  pool           := ha
  remembered     := ht
  running r hr' := by
    have ⟨hr, hn⟩ := hr r hr'
    exact he.view_callMem hn ▸ h.running r hr

theorem ensureMinst {p₁ : Program} {minst : SystemImpls} (h : Seated p)
    (he : ensureMinst thread p = .ok minst p₁) :
    Exports minst ∧ ∀ t m, p₁.threadMinst t = some m → Exports m := by
  cases ensureMinst_ok he
  case inl hl =>
    obtain ⟨hl, rfl⟩ := hl
    exact ⟨h.remembered thread minst (lock_eq_some.mp hl).1, h.remembered⟩
  case inr hl =>
    obtain ⟨_, hl, rfl⟩ := hl
    have hm := h.pool minst <| List.mem_of_getElem? hl
    refine ⟨hm, fun t m ht => ?_⟩
    cases update_eq_some.mp ht
    case inl ht => exact Option.some.inj ht.2 ▸ hm
    case inr ht => exact h.remembered t m ht.2

theorem load {err : SiError} (h : Seated p) (hi : Idle p') (hb : ¬p.busy thread)
    (hl : ecsactSiWasmLoad thread systems builds p = .ok err p') : Seated p' := by
  have ⟨hr, ht⟩ := (ecsactSiWasmLoad_ok hl).keeps
  refine h.of_elsewhere hi (elsewhere_load.of_ok hl) (fun m hm => ?_) (ht ▸ h.remembered)
    fun r hr' => ?_
  · cases ecsactSiWasmLoad_built hl
    case inl hp => exact h.pool m <| hp.2.1 ▸ hm
    case inr hp =>
      have ⟨k, hk, hm⟩ := List.getElem_of_mem hm
      exact hm ▸ (hp k hk).memory
  · rw [hr] at hr'
    exact ⟨hr', ne_of_not_busy hb hr'⟩

theorem guest {call : ImportCall} {trap : Option Trap} (h : Seated p) (hi : Idle p')
    (hc : (Event.guest thread call).Regular p) (hg : onThread thread call.run p = .ok trap p') :
    Seated p' := by
  have ht : Touched p p' := touched_onThread.of_ok hg
  refine ⟨hi, ht.allMinsts ▸ h.pool, ht.threadMinst ▸ h.remembered, fun r hr => ?_⟩
  have ⟨hm, hr, k, hk, hg'⟩ := h.running r <| ht.running ▸ hr
  by_cases hn : r.1 = thread
  case neg => exact (elsewhere_guest.of_ok hg).view_callMem hn ▸ ⟨hm, hr, k, hk, hg'⟩
  case pos =>
    subst hn
    have ⟨w, hw, hp⟩ := zoom_eq_ok.mp hg
    have hl : k + (if call.Derives then 16 else 0) ≤ 4096 := by
      split
      case isFalse => exact hk
      case isTrue hd =>
        have ⟨info, hi, hg'⟩ := hg'
        have hl := hc hd info hi
        rw [hg'.maxSize, hg'.offset] at hl
        exact hl
    rw [hp, view_put_callMem]
    exact ⟨hm, ImportCall.rooted_run hg' hr hl hw, _, hl, ImportCall.grown_of_ok hg' hw⟩

theorem enter {ctx : CtxPtr} {r : MinstExport × BitVec 32} (h : Seated p) (hi : Idle p')
    (hb : ¬p.busy thread) (hr : enterSystemImpl thread ctx p = .ok r p') : Seated p' := by
  have he := elsewhere_enterSystemImpl.of_ok hr
  have ⟨_, minst, p₁, p₂, h₁, ht, ⟨c, hc⟩, hp⟩ := enterSystemImpl_ok hr
  have ⟨hm, hn⟩ := h.ensureMinst h₁
  have ha : p₂.allMinsts = p.allMinsts := ht.allMinsts.trans (ensureMinst_allMinsts h₁)
  have hq : p₂.running = p.running := ht.running.trans (ensureMinst_running h₁)
  subst hp
  refine ⟨hi, ha ▸ h.pool, ht.threadMinst ▸ hn, List.forall_mem_cons.mpr ⟨?_, fun r hr => ?_⟩⟩
  · exact ⟨hm, rooted_enterSystem hc, 16, by decide, grown_enterSystem hc⟩
  · have hr := hq ▸ hr
    exact he.view_callMem (ne_of_not_busy hb hr) ▸ h.running r hr

theorem step (h : Seated p) (hc : event.Regular p) (hs : Step p event p') : Seated p' := by
  have hi := h.idle.step hs
  have ⟨he, hx⟩ := hs
  cases event
  case start          => cases hx; exact ⟨hi, h.pool, h.remembered, h.running⟩
  case setTrapHandler => cases hx; exact ⟨hi, h.pool, h.remembered, h.running⟩
  case reset          => cases hx; exact ⟨hi, nofun, h.remembered, h.running⟩
  case exit =>
    cases hx
    refine h.of_elsewhere hi (elsewhere_exit ..) h.pool (fun t m ht => ?_) fun r hr => ?_
    · cases update_eq_some.mp ht
      case inl ht => cases ht.2
      case inr ht => exact h.remembered t m ht.2
    · exact ⟨hr, ne_of_not_busy he.2 hr⟩
  case load =>
    have ⟨_, _, hl, hp⟩ := bind_eq_ok.mp hx
    cases hp
    exact h.load hi he.2 hl
  case guest =>
    have ⟨_, _, hg, hp⟩ := bind_eq_ok.mp hx
    cases hp
    exact h.guest hi hc hg
  case enter =>
    have ⟨_, _, hr, hp⟩ := bind_eq_ok.mp hx
    cases hp
    exact h.enter hi he.2 hr
  case leave =>
    have ⟨_, p₁, h₁, hp⟩ := bind_eq_ok.mp hx
    cases hp
    have he := (elsewhere_onCallMem ndebug_setCallMemData).of_ok h₁
    have ht : Touched p p₁ := touched_onThread.of_ok h₁
    refine h.of_elsewhere hi ⟨he.info, he.ndebug⟩ (ht.allMinsts ▸ h.pool)
      (ht.threadMinst ▸ h.remembered) fun r hr => ?_
    have ⟨hr, hn⟩ := List.mem_filter.mp hr
    exact ⟨ht.running ▸ hr, of_decide_eq_true hn⟩

end Seated

theorem Starts.seated (h : Starts p) (hc : p.callMemInfo = fun _ => none) : Seated p where
  idle       := fun t _ => congrFun hc t
  pool       := by simp [h.allMinsts]
  remembered := by simp [h.threadMinst]
  running    := by simp [h.running]

-- In a run whose steps all meet the condition, every callback finds the memory of its instance.
theorem Runs.entries_active {p₀ : Program} (h : Runs (fun p event => event.Regular p) p₀ p)
    (h₀ : Starts p₀) (hc : p₀.callMemInfo = fun _ => none) (hr : event.Regular p) :
    ∀ e ∈ event.entries p, e.Active := by
  have hs : Seated p := h.invariant (fun _ _ _ hi hc hp => hi.step hc hp) <| h₀.seated hc
  cases event
  case load thread systems builds =>
    rw [Event.entries]
    split
    case isFalse => nofun
    case isTrue hx => exact active_loadLoopEntries <| hr hx
  case guest thread call =>
    refine List.forall_mem_map.mpr fun r hr => ?_
    have ⟨hr, ht⟩ := List.mem_filter.mp hr
    have ht : r.1 = thread := of_decide_eq_true ht
    have ⟨hm, hx, _⟩ := hs.running r hr
    exact ht ▸ Entry.active_of_rooted hm hx
  all_goals nofun

theorem mem_loadLoopReached {n i : Nat} {r : Build × Program}
    (h : r ∈ loadLoopReached thread systems builds n i p) : ∃ k, r.1 = builds k := by
  induction n generalizing i p
  case zero => cases h
  case succ n hi =>
    cases h
    case head => exact ⟨i, rfl⟩
    case tail h =>
      cases hl : loadMinst thread systems (builds i) p
      case error =>
        rw [after_error hl] at h
        cases h
      case ok err p' =>
        rw [after_ok hl] at h
        split at h
        case isTrue  => exact hi h
        case isFalse => cases h

theorem plainBuild_regular :
    (Event.load 0 plainSystems plainBuild).Regular (plain 0) := by
  intro _ r hr
  obtain ⟨_, hr⟩ := mem_loadLoopReached hr
  rw [hr, loadMinstBegun_eq_nil rfl rfl]
  exact ⟨fun _ => rfl, Nat.zero_le _⟩

-- The first call of an execution's guest.
theorem exists_entries_active : ∃ p call,
    (Event.guest 0 call).entries p ≠ [] ∧ ∀ e ∈ (Event.guest 0 call).entries p, e.Active := by
  have ⟨p, hs, hc⟩ := Crowd.exists_first
  have hl : Step (plain 0) (.load 0 plainSystems plainBuild) loaded :=
    ⟨⟨List.mem_singleton_self 0, by decide⟩, bind_ok load_plain⟩
  have h : Runs (fun p event => event.Regular p) (plain 0) p :=
    .tail (.single ⟨_, plainBuild_regular, hl⟩) ⟨.enter 0 0, trivial, hs⟩
  have hd : ¬DerivesHandle (ImportCall.environSizesGet 16 24).name := by decide
  have hr : (Event.guest 0 (ImportCall.environSizesGet 16 24)).Regular p := fun h => absurd h hd
  exact ⟨p, _, by simp [Event.entries, hc.running], h.entries_active plain_starts rfl hr⟩

-- A module whose start function asks for the size of the environment.
def startBuild : Build :=
  { plainBuild 0 with startRun := { calls := [ImportCall.environSizesGet 16 24] } }

-- The start function runs without call memory.
theorem startBuild_not_active : Starts (plain 0) ∧ (plain 0).callMemInfo = (fun _ => none) ∧
    (Event.load 0 plainSystems fun _ => startBuild).Enabled (plain 0) ∧
    ∃ e ∈ (Event.load 0 plainSystems fun _ => startBuild).entries (plain 0), ¬e.Active ∧
      ∃ w, (ImportCall.environSizesGet 16 24).run e.world = .error (.undefined "call_mem_info") w := by
  let e : Entry := ⟨(plain 0).view 0, some 1⟩
  have he : e ∈ (Event.load 0 plainSystems fun _ => startBuild).entries (plain 0) :=
    List.mem_append_left _ <| List.mem_append_left _ <| List.mem_singleton_self e
  refine ⟨plain_starts, rfl, ⟨List.mem_singleton_self 0, by decide⟩, e, he, fun h => ?_, _, rfl⟩
  have ⟨_, _, hm⟩ := h
  have ⟨_, hi, _⟩ := callMemRead_eq_ok.mp hm
  cases hi

end Program
end Ecsact
