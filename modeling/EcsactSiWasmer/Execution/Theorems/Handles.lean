import EcsactSiWasmer.Execution.Handles
import EcsactSiWasmer.Execution.Theorems.Bindings
import EcsactSiWasmer.Imports.Theorems.Asserts

open EStateM Ecsact.World Ecsact.CallMem

namespace Ecsact

-- The call memory of an execution: the handles have their slots one after the other, and the other
-- offsets are of no context.
structure Holds (mem : MemPtr) (issued : IssuedHandles) (c : CallMem) (info : CallMemInfo) :
    Prop where
  eq      : c.info = some info
  fresh   : info.Fresh
  maxSize : info.maxSize = 4096
  le      : info.dataOffset ≤ 4096
  slots   : ∀ p ∈ issued, info.Issued c.ndebug p.1 p.2 mem
  ordered : issued.Pairwise fun p q => p.1.toNat + 16 ≤ q.1.toNat
  known   : c.ndebug = false → ∀ k, info.dataOffsetTypes k = some .context →
    ∃ p ∈ issued, p.1.toNat = k

theorem mem_of_lookup {issued : IssuedHandles} {handle : BitVec 32} {ctx : CtxPtr}
    (h : issued.lookup handle = some ctx) : (handle, ctx) ∈ issued := by
  have ⟨l₁, l₂, he, _⟩ := List.lookup_eq_some_iff.mp h
  rw [he]
  exact List.mem_append_right _ List.mem_cons_self

theorem lookup_isSome {issued : IssuedHandles} {handle : BitVec 32} {ctx : CtxPtr}
    (h : (handle, ctx) ∈ issued) : (issued.lookup handle).isSome :=
  List.lookup_isSome_iff.mpr ⟨_, h, beq_self_eq_true handle⟩

namespace Holds

variable {mem : MemPtr} {issued : IssuedHandles} {c c' : CallMem} {info : CallMemInfo}
  {handle : BitVec 32} {ctx : CtxPtr}

theorem holding (h : Holds mem issued c info) : Holding mem (issued.lookup ·) c info where
  eq      := h.eq
  fresh   := h.fresh
  maxSize := h.maxSize
  le      := h.le
  holds _ _ hl := h.slots _ <| mem_of_lookup hl

theorem denotes (h : Holds mem issued c info) (hi : (handle, ctx) ∈ issued) :
    c.Denotes handle ctx mem :=
  (h.slots _ hi).denotes h.eq <| h.le.trans_lt <| by decide

theorem of_untraced (h : Holds mem issued c info) (hu : c'.untraced = c.untraced) :
    ∃ trace, Holds mem issued c' { info with methodTrace := trace } := by
  have hn : c'.untraced.ndebug = c.untraced.ndebug := congrArg CallMem.ndebug hu
  replace hn : c'.ndebug = c.ndebug := hn
  have ⟨trace, hi⟩ := info_of_untraced h.eq hu
  refine ⟨trace, hi, h.fresh, h.maxSize, h.le, fun p hp => ?_, h.ordered, hn ▸ h.known⟩
  have ⟨hg, hl, hx, hm, ht⟩ := h.slots p hp
  exact ⟨hg, hl, hx, hm, hn ▸ ht⟩

theorem derive (h : Holds mem issued c info) (hl : info.dataOffset + 16 ≤ 4096) :
    Holds mem (issued ++ [(BitVec.ofNat 32 (info.dataOffset + 8), ctx)])
      { c with info := some (info.derive c.ndebug mem ctx) } (info.derive c.ndebug mem ctx) where
  eq      := rfl
  fresh   := h.fresh.alloc.alloc
  maxSize := h.maxSize
  le      := hl
  slots p hp := by
    cases List.mem_append.mp hp
    case inl hp => exact (h.slots p hp).derive <| by omega
    case inr hp =>
      cases List.mem_singleton.mp hp
      exact CallMemInfo.issued_derive <| by omega
  ordered := by
    refine List.pairwise_append.mpr ⟨h.ordered, List.pairwise_singleton _ _, fun p hp q hq => ?_⟩
    cases List.mem_singleton.mp hq
    have hu := (h.slots p hp).le
    simp
    omega
  known hn k hk := by
    replace hn : c.ndebug = false := hn
    by_cases h₂ : k = info.dataOffset + 8
    case pos =>
      refine ⟨_, List.mem_append_right _ List.mem_cons_self, ?_⟩
      simp [h₂]
      omega
    case neg =>
      have ht : assignOffsetType c.ndebug info .memory k = some .context := by
        simpa [CallMemInfo.derive, CallMemInfo.alloc, assignOffsetType, hn, h₂] using hk
      by_cases h₁ : k = info.dataOffset
      case pos => simp [assignOffsetType, hn, h₁] at ht
      case neg =>
        obtain ⟨p, hp, he⟩ := h.known hn k <| by
          simpa [assignOffsetType, hn, h₁] using ht
        exact ⟨p, List.mem_append_left _ hp, he⟩

theorem withTrace (h : Holds mem issued c info) (trace : List String) :
    Holds mem issued { c with info := some { info with methodTrace := trace } }
      { info with methodTrace := trace } where
  eq      := rfl
  fresh   := h.fresh
  maxSize := h.maxSize
  le      := h.le
  slots p hp := by
    have ⟨hg, hl, hx, hm, ht⟩ := h.slots p hp
    exact ⟨hg, hl, hx, hm, ht⟩
  ordered := h.ordered
  known   := h.known

end Holds

theorem holds_enter {c c' : CallMem} {mem : MemPtr} {ctx : CtxPtr} {handle : BitVec 32}
    (h : enterSystem mem ctx c = .ok handle c') :
    handle = 8 ∧ ∃ info, Holds mem [(handle, ctx)] c' info := by
  obtain ⟨_, rfl, rfl⟩ := enterSystem_eq_ok.mp h
  have h₀ : Holds mem [] { c with info := some blank } blank :=
    ⟨rfl, fresh_blank, rfl, by decide, nofun, .nil, nofun⟩
  exact ⟨rfl, _, h₀.derive <| by decide⟩

namespace Execution

variable {mem : MemPtr} {issued : IssuedHandles} {w w' : World} {call : ImportCall} {n : Native}

theorem first (h : Execution mem w issued) : ∃ ctx, (8, ctx) ∈ issued := by
  induction h
  case enter h =>
    cases (holds_enter h).1
    exact ⟨_, List.mem_cons_self⟩
  case derive hi       => exact hi.imp fun _ => List.mem_append_left _
  case other hi        => exact hi
  case elsewhere hi    => exact hi

theorem admissible (hn : (call.name, n) ∈ nativeApi) (hq : n.asksId)
    (hp : call.PassesIssued issued) : n.Admissible mem (issued.lookup ·) call w := by
  have hr : ∀ e ∈ nativeApi, e.2.asksId → ∀ r ∈ e.2.roles, r = .context ∨ r = .id := by
    decide
  intro ⟨v, role⟩ he
  cases hr _ hn hq role (List.of_mem_zip he).2
  case inl h =>
    subst h
    have ⟨ctx, hc⟩ := hp n hn _ he rfl
    exact lookup_isSome hc
  case inr h =>
    subst h
    trivial

theorem holds (h : Execution mem w issued) : ∃ info, Holds mem issued w.callMem info := by
  induction h
  case enter h => exact (holds_enter h).2
  case other w w' issued call _ hd _ hx hi =>
    have ⟨info, hh⟩ := hi
    have ⟨_, hh⟩ := hh.of_untraced <| (ImportCall.within_untraced hd).of_ok (s := call.enter w) hx
    exact ⟨_, hh⟩
  case elsewhere he hi => exact he ▸ hi
  case derive w w' issued call n ctx handle _ hn hq hp hf hx ha hr hi =>
    have ⟨info, hh⟩ := hi
    have hl := hf info hh.eq
    rw [hh.maxSize] at hl
    have ⟨hd, hk⟩ := derived_of_asksId hh.holding hn hq (admissible hn hq hp) hl
    have ⟨trace, ctx', ha', hr', hc⟩ := hd.eq hk hx
    cases ha.symm.trans ha'
    cases hr.symm.trans hr'
    rw [hc]
    exact ⟨_, (hh.withTrace trace).derive hl⟩

theorem ne_assert (h : Execution mem w issued) (hp : call.PassesIssued issued)
    (hf : DerivesHandle call.name → w.HasRoom) {e : Fault} (hx : call.run w = .error e w') :
    e ≠ .assertFailed := by
  have ⟨info, hh⟩ := h.holds
  by_cases hn : ∃ n, (call.name, n) ∈ nativeApi
  case neg =>
    have ⟨ctx, hf⟩ := h.first
    exact ImportCall.ne_assert_of_wasi (hh.denotes hf).memory (not_exists.mp hn) hx
  case pos =>
    have ⟨n, hn⟩ := hn
    cases hq : n.asksId
    case false =>
      have hd : ∀ e ∈ call.vals.zip n.roles, e.2 = .context →
          ∃ ctx, w.callMem.Denotes e.1 ctx mem :=
        fun e he hc => (hp n hn e he hc).imp fun _ => hh.denotes
      exact ImportCall.ne_assert_of_binding hn hq hd hx
    case true =>
      have hl := hf ((asksId_iff _ hn).mp hq) info hh.eq
      rw [hh.maxSize] at hl
      have ⟨⟨_, _, _, hr⟩, _⟩ := derived_of_asksId hh.holding hn hq (admissible hn hq hp) hl
      cases hr.symm.trans hx

theorem stable (h : Execution mem w issued) : Stable mem w issued := by
  have ⟨info, hh⟩ := h.holds
  constructor
  case context => exact fun p hp => read_ok (hh.denotes hp).context
  case memory  => exact fun p hp => read_ok (hh.denotes hp).memory
  case asserts => exact fun call hp hf e w' hx => h.ne_assert hp hf hx
  case disjoint =>
    refine hh.ordered.imp_of_mem fun {p q} hp _ ho => ⟨fun he => ?ne, ?disjoint⟩
    case ne =>
      rw [he] at ho
      omega
    case disjoint =>
      refine Set.disjoint_left.mpr fun i hi hj => ?_
      have hi := hi.2
      have hj := hj.1
      omega

-- A system can be entered whenever no call is active, and what its guest is then given stays good.
theorem handles_stable (mem : MemPtr) :
    (∀ ctx c, c.info = none → ∃ handle c', enterSystem mem ctx c = .ok handle c') ∧
      ∀ w issued, Execution mem w issued → Stable mem w issued :=
  ⟨fun _ _ h => ⟨_, _, enterSystem_eq_ok.mpr ⟨fun _ => h, rfl, rfl⟩⟩, fun _ _ h => h.stable⟩

theorem systemWorld_execution (ndebug : Bool) : Execution 1 (systemWorld ndebug) [(8, 2)] :=
  @enter 1 (World.idle .inert ndebug) 2 8 _ <| enterSystem_eq_ok.mpr ⟨fun _ => rfl, rfl, rfl⟩

def parentNative : Native :=
  { fn := .parent, roles := [.context], asksId := true }

theorem parentNative_mem : ("ecsact_system_execution_context_parent", parentNative) ∈ nativeApi := by
  simp [nativeApi, parentNative]

-- The guest asks for the parent of its context, and gets a second handle.
theorem parent_execution : ∃ w, Execution 1 w [(8, 2), (24, 0)] := by
  have hi : (ImportCall.parent 8).PassesIssued [(8, 2)] := by
    intro n hn e he _
    have hr : n = parentNative := by
      simpa [ImportCall.parent, nativeApi, parentNative] using hn
    subst hr
    have hv : e = (8, .context) := List.mem_singleton.mp he
    subst hv
    exact ⟨2, List.mem_cons_self⟩
  have hf : (systemWorld false).HasRoom := by
    intro info hw
    cases hw
    decide
  exact ⟨_, (systemWorld_execution false).derive parentNative_mem rfl hi hf rfl rfl rfl⟩

theorem parent_stable : ∃ w, Stable 1 w [(8, 2), (24, 0)] :=
  parent_execution.imp fun w => (handles_stable 1).2 w _

end Execution
end Ecsact
