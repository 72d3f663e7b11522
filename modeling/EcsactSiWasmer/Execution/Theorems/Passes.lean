import EcsactSiWasmer.Execution.Bounds
import EcsactSiWasmer.Execution.Theorems.Account
import EcsactSiWasmer.Execution.Theorems.Idle
import EcsactSiWasmer.Execution.Theorems.Uses

open EStateM Ecsact.World Ecsact.CallMem

namespace Ecsact

section

variable {w w' : World} {call : ImportCall} {n : Native} {issued : IssuedHandles} {mem : MemPtr}
  {c c' : CallMem}

-- A call which returns in a build with asserts has passed no other handles.
theorem Marked.passesIssued (h : Marked (issued.map Prod.fst) w.callMem)
    (hd : w.callMem.ndebug = false) (hx : call.run w = .ok none w') : call.PassesIssued issued := by
  rintro n hn ⟨v, role⟩ he hc
  subst hc
  refine by_contra fun hb => ?_
  obtain ⟨i, hi, hv⟩ := List.mem_iff_getElem.mp he
  simp only [List.getElem_zip, Prod.mk.injEq] at hv
  simp only [List.length_zip, lt_min_iff] at hi
  have hf : call.PassesForged n (issued.map Prod.fst) := by
    refine ⟨i, by rw [List.getElem?_eq_getElem hi.2, hv.2], fun hm => hb ?_⟩
    obtain ⟨⟨handle, ctx⟩, hm, he⟩ := List.mem_map.mp hm
    have he : handle = v := by
      simpa [ImportCall.val, List.getD_eq_getElem?_getD, hi.1, hv.1] using he
    exact ⟨ctx, he ▸ hm⟩
  obtain ⟨_, ha, _⟩ := h.asserts hd hn hf
  cases ha.symm.trans hx

-- A call of a guest which was given no handles is none of a binding.
theorem not_binding (h : call.PassesIssued []) : (call.name, n) ∉ nativeApi := by
  intro hn
  have hr : ∀ e ∈ nativeApi, e.2.roles.head? = some .context := by decide
  obtain ⟨roles, hr⟩ := List.head?_eq_some_iff.mp <| hr _ hn
  have hl := ImportCall.vals_length hn
  replace hr : n.roles = .context :: roles := hr
  rw [hr] at hl
  obtain ⟨v, vs, hv⟩ := List.exists_cons_of_length_eq_add_one hl
  have he : (v, Role.context) ∈ call.vals.zip n.roles := by simp [hv, hr]
  obtain ⟨_, hc⟩ := h n hn _ he rfl
  cases hc

-- No call is active, or one for which no context is recorded.
def Unmarked (c : CallMem) : Prop :=
  c.info = none ∨ Marked [] c

theorem Unmarked.of_untraced (h : Unmarked c) (hu : c'.untraced = c.untraced) : Unmarked c' := by
  cases h
  case inr hm => exact .inr <| hm.of_untraced hu
  case inl hi =>
    refine .inl <| Option.eq_none_iff_forall_ne_some.mpr fun info hi' => ?_
    obtain ⟨_, hs⟩ := info_of_untraced hi' hu.symm
    cases hi.symm.trans hs

theorem trace_unset {name : String} (hd : w.callMem.ndebug = false) (hi : w.callMem.info = none) :
    onCallMem (debugTraceMethod name) w = .error .assertFailed w :=
  zoom_error <| debugTraceMethod_error hd hi

-- The bindings start with a trace.
theorem binding_unset (hn : (call.name, n) ∈ nativeApi) (hd : w.callMem.ndebug = false)
    (hi : w.callMem.info = none) : call.run w ≠ .ok none w' := by
  obtain ⟨name, f, hr⟩ : ∃ name f, call.run w = withHandle name (call.val 0) f (call.enter w) := by
    by_cases hs : n.fn = .same
    case pos => exact ⟨_, _, ImportCall.run_same (eq_same hn hs).1 w⟩
    case neg =>
      obtain ⟨name, f, hr, _⟩ := ImportCall.starts hn hs
      exact ⟨name, f, hr w⟩
  intro hx
  have ht := @trace_unset (call.enter w) name hd hi
  cases hx.symm.trans <| hr.trans <| bind_error ht

namespace Unmarked

theorem passesIssued (h : Unmarked w.callMem) (hd : w.callMem.ndebug = false)
    (hx : call.run w = .ok none w') : call.PassesIssued [] := by
  cases h
  case inl hi => exact fun n hn => absurd hx <| binding_unset hn hd hi
  case inr hm => exact Marked.passesIssued hm hd hx

theorem run (h : Unmarked w.callMem) (hd : w.callMem.ndebug = false)
    (hx : call.run w = .ok none w') : Unmarked w'.callMem ∧ w'.callMem.ndebug = false := by
  have hn : ¬DerivesHandle call.name := fun hc =>
    have ⟨(_, n), hn, he⟩ := derives_mem_nativeApi hc
    not_binding (n := n) (h.passesIssued hd hx) <| by rwa [← he]
  have hu := (ImportCall.within_untraced hn).of_ok (s := call.enter w) hx
  have hk : w'.callMem.untraced.ndebug = w.callMem.untraced.ndebug := congrArg CallMem.ndebug hu
  exact ⟨h.of_untraced hu, hk.trans hd⟩

-- The calls of a guest, if they all return.
theorem begun {calls : List ImportCall} (h : Unmarked w.callMem) (hd : w.callMem.ndebug = false)
    (hr : ∀ b ∈ ImportCall.begun calls w, Returned b) :
    ∀ b ∈ ImportCall.begun calls w, b.1.PassesIssued [] := by
  induction calls generalizing w
  case nil => nofun
  case cons call calls hi =>
    obtain ⟨⟨w', hx⟩, hr⟩ := List.forall_mem_cons.mp hr
    replace hx : call.run w = .ok none w' := hx
    rw [after_ok hx, if_pos rfl] at hr
    rw [ImportCall.begun, after_ok hx, if_pos rfl]
    obtain ⟨hm, hd'⟩ := h.run hd hx
    exact List.forall_mem_cons.mpr ⟨h.passesIssued hd hx, hi hm hd' hr⟩

theorem createBegun {build : Build} (h : Unmarked w.callMem) (hd : w.callMem.ndebug = false)
    (hr : ∀ b ∈ Minst.createBegun build w, Returned b) :
    ∀ b ∈ Minst.createBegun build w, b.1.PassesIssued [] := by
  cases @createBegun_cases w build
  case inl hb =>
    rw [hb]
    exact List.forall_mem_nil _
  case inr hb =>
    obtain ⟨_, _, _, _, _, hb⟩ := hb
    rw [hb] at hr ⊢
    exact h.begun hd hr

theorem initializeBegun {inst : Minst} {guest : GuestRun} (h : Unmarked w.callMem)
    (hd : w.callMem.ndebug = false) (hr : ∀ b ∈ inst.initializeBegun guest w, Returned b) :
    ∀ b ∈ inst.initializeBegun guest w, b.1.PassesIssued [] := by
  cases @initializeBegun_cases w inst guest
  case inl hb =>
    rw [hb]
    exact List.forall_mem_nil _
  case inr hb =>
    obtain ⟨_, _, _, hb⟩ := hb
    rw [hb] at hr ⊢
    exact h.begun hd hr

theorem enterInitialize (h : enterInitialize mem c = .ok () c') : Unmarked c' := by
  obtain ⟨_, c₁, h₁, h⟩ := bind_eq_ok.mp h
  obtain ⟨_, rfl⟩ := setCallMemData_eq_ok.mp h₁
  obtain ⟨_, c₂, h₂, h⟩ := bind_eq_ok.mp h
  cases h
  have hb : Marked [] { c with info := some blank } := ⟨blank, rfl, rfl, fun _ => ⟨by decide, nofun⟩⟩
  exact .inr <| hb.alloc h₂ (List.Subset.refl _) nofun

end Unmarked
end

namespace Program

variable {p p' : Program} {thread : ThreadId} {event : Event} {systems : List (SystemId × String)}
  {build : Build} {builds : Nat → Build} {issued : ThreadId → IssuedHandles}

theorem unmarked_view (hn : p.callMemInfo thread = none) : Unmarked (p.view thread).callMem :=
  .inl hn

theorem loadMinst_passesIssued (hn : p.callMemInfo thread = none)
    (hd : p.world.callMem.ndebug = false)
    (hr : ∀ b ∈ loadMinstBegun thread systems build p, Returned b) :
    ∀ b ∈ loadMinstBegun thread systems build p, b.1.PassesIssued [] := by
  have hu := unmarked_view hn
  cases @loadMinstBegun_cases p thread systems build
  case inl hb =>
    rw [hb] at hr ⊢
    exact hu.createBegun hd hr
  case inr hb =>
    obtain ⟨inst, p₁, _, memory, p₂, h₁, _, _, h₂, hb⟩ := hb
    rw [hb] at hr ⊢
    obtain ⟨hc, hi⟩ := List.forall_mem_append.mp hr
    have hd₁ : p₁.world.callMem.ndebug = _ :=
      ((elsewhere_onThread <| within_create primitives_ndebug).of_ok h₁).ndebug
    have hd₂ : p₂.world.callMem.ndebug = _ :=
      ((elsewhere_onCallMem ndebug_enterInitialize).of_ok h₂).ndebug
    have hu₂ : Unmarked (p₂.view thread).callMem := .enterInitialize <| onThread_callMem h₂
    exact List.forall_mem_append.mpr
      ⟨hu.createBegun hd hc, hu₂.initializeBegun (hd₂.trans <| hd₁.trans hd) hi⟩

theorem loadLoop_passesIssued {n i : Nat} (hn : p.callMemInfo thread = none)
    (hd : p.world.callMem.ndebug = false)
    (hr : ∀ b ∈ loadLoopBegun thread systems builds n i p, Returned b) :
    ∀ b ∈ loadLoopBegun thread systems builds n i p, b.1.PassesIssued [] := by
  induction n generalizing i p
  case zero => exact List.forall_mem_nil _
  case succ n hi =>
    rw [loadLoopBegun] at hr ⊢
    obtain ⟨hm, hr⟩ := List.forall_mem_append.mp hr
    refine List.forall_mem_append.mpr ⟨loadMinst_passesIssued hn hd hm, ?_⟩
    cases h : loadMinst thread systems (builds i) p
    case error => simp [after, h]
    case ok err p' =>
      rw [after_ok h] at hr ⊢
      cases err
      case some => exact List.forall_mem_nil _
      case none =>
        have hd' : p'.world.callMem.ndebug = _ := (elsewhere_loadMinst.of_ok h).ndebug
        exact hi (loadMinst_info hn h) (hd'.trans hd) hr

-- No guest that a load runs has got a handle, as such a guest's calls of the bindings do not return.
theorem load_passesIssued (hi : Idle p) (hd : p.world.callMem.ndebug = false)
    (hs : Step p (.load thread systems builds) p') :
    (Event.load thread systems builds).PassesIssued issued p := by
  have hr := hs.returned
  rw [Event.PassesIssued]
  rw [Event.begun] at hr ⊢
  split
  case isFalse => exact List.forall_mem_nil _
  case isTrue hx =>
    rw [if_pos hx] at hr
    exact loadLoop_passesIssued (hi thread hs.enabled.2) hd hr

end Program
end Ecsact
