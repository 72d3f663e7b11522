import EcsactSiWasmer.Execution.Embedding
import EcsactSiWasmer.Execution.Theorems.Exchange
import EcsactSiWasmer.Execution.Theorems.Hosting
import EcsactSiWasmer.Execution.Theorems.Seeks
import EcsactSiWasmer.Execution.Theorems.Totality
import EcsactSiWasmer.Execution.Theorems.Translation
import EcsactSiWasmer.Execution.Theorems.Usage

open EStateM Ecsact.World Ecsact.CallMem

namespace Ecsact

section

variable {call : ImportCall} {w : World} {mem : MemPtr} {issued : IssuedHandles}

end

namespace ImportCall

variable {call : ImportCall} {w : World} {mem : MemPtr} {issued : IssuedHandles}

theorem returnable_read_iff (h : call.name = "fd_read") : call.Returnable w mem ↔
    ∃ info, w.files.virtualFiles (call.val 0) = some info ∧
      (w.files.opens info ∨ call.AsksForNothing w mem) := by
  constructor
  case mp => exact fun hr => hr.read h
  case mpr =>
    intro hg
    constructor
    case read => exact fun _ => hg
    all_goals simp [h]

-- What is total returns, and no trap comes of it.
theorem Total.exists_ok (h : call.Total w) : ∃ w', call.run w = .ok none w' := by
  obtain ⟨trap, w', hw⟩ := h.returns
  cases trap_eq_none call.mem call.typed hw
  exact ⟨w', hw⟩

theorem returns_read_iff (hm : FindsMemory w mem) (hi : w.files.Intact) (hn : call.name = "fd_read") :
    (∃ w', call.run w = .ok none w') ↔ call.Returnable w mem := by
  have ht := total_fdRead_iff hi hn
  rw [returnable_read_iff hn]
  constructor
  case mp =>
    rintro ⟨w', hw⟩
    cases hv : w.files.virtualFiles (call.val 0)
    case none =>
      have he := (fdRead_run hn w).trans <| fdRead_error (w := call.enter w) (a := call.val 1)
        (b := call.val 2) (c := call.val 3) hm <| Files.ensureOpen_unknown hv
      cases hw.symm.trans he
    case some info =>
      have ⟨mem', info', hm', hv', h⟩ := ht.mp <| .of_ok hw <| .inr <| by simp [hv]
      cases hm.unique hm'
      exact ⟨info', hv ▸ hv', h⟩
  case mpr => exact fun ⟨info, hv, h⟩ => (ht.mpr ⟨mem, info, hm, hv, h⟩).exists_ok

end ImportCall

namespace Program

variable {p p' : Program} {thread : ThreadId} {event : Event} {minst : SystemImpls}
  {issued issued' : ThreadId → IssuedHandles} {grants : List Grant}

namespace Embedded

theorem idle (h : Embedded issued grants p) : Idle p := by
  induction h
  case start hc _ _ => exact fun t _ => congrFun hc t
  case step hx hi =>
    have ⟨_, hs⟩ := hx.step
    exact hi.step hs
  case allow ha hi =>
    obtain ⟨_, _, rfl⟩ := allow_eq_ok.mp ha
    exact hi
  case consume hi   => exact hi
  case elsewhere hi => exact hi

theorem executing (h : Embedded issued grants p) : Executing issued p := by
  induction h
  case start hs _ _ _ => simp [Executing, hs.running]
  case step hx hi => exact hx.executing hi
  case allow ha hi =>
    obtain ⟨_, _, rfl⟩ := allow_eq_ok.mp ha
    exact fun r hr => (hi r hr).elsewhere rfl
  case consume hi   => exact fun r hr => (hi r hr).elsewhere rfl
  case elsewhere hi => exact fun r hr => (hi r hr).elsewhere rfl

theorem exchange (h : Embedded issued grants p) :
    ∃ ops delivered, Exchange grants ops delivered p := by
  induction h
  case start hs _ hf hl => exact ⟨_, _, .start hs hf hl⟩
  case step hx hi =>
    have ⟨_, _, hi⟩ := hi
    have ⟨_, hs⟩ := hx.step
    exact ⟨_, _, hi.step hs⟩
  case allow ha hi =>
    have ⟨_, _, hi⟩ := hi
    exact ⟨_, _, hi.allow ha⟩
  case consume hr hi =>
    have ⟨_, _, hi⟩ := hi
    exact ⟨_, _, hi.consume hr⟩
  case elsewhere hi =>
    have ⟨_, _, hi⟩ := hi
    exact ⟨_, _, hi.elsewhere⟩

theorem intact (h : Embedded issued grants p) : p.world.files.Intact := by
  have ⟨_, _, h⟩ := h.exchange
  exact h.represents.intact

-- Whatever descriptors guests use, they get to what the host has granted.
theorem confines (h : Embedded issued grants p) : Confines issued grants p := by
  obtain ⟨_, _, hx⟩ := h.exchange
  have hr := hx.represents
  have ha (event : Event) := @Event.account _ footprint_served.account p event
  constructor
  case refines => exact hr.answers
  case streams => exact fun _ => hr.reads
  case reads   => exact fun event _ b hb hn => (hr.served <| (ha event).2 b hb).delivers hn
  case keeps   => exact fun event _ => (ha event).1.sameMappings
  case inside  => exact fun event hx b hb mem hf => ImportCall.inside hf <| hx.bounds b hb mem hf

end Embedded

-- The execution of a system, after the host has granted a file.
theorem exists_embedded : ∃ p, Embedded (Function.update (fun _ => []) 0 [(8, 2)])
    [⟨"a.txt", "a", 11⟩] p ∧ p.running = [(0, plainImpls 1)] ∧
    (p.world.memories (plainMemory 1).ptr).size = 65536 := by
  have ⟨p₀, _, p, ⟨_, handle⟩, h₀, h₁, he, h₂, h₈, hr, _, hs₁⟩ := enter_booted
  cases h₈
  have hs : Embedded (fun _ => []) [] booted :=
    @Embedded.start _ (fun _ => none) ⟨rfl, rfl, rfl, rfl⟩ rfl rfl rfl
  have hx : (Event.load 0 plainSystems plainBuild).Aside := trivial
  have ha : (Event.load 0 plainSystems plainBuild).Abides (fun _ => []) p₀ := plainBuild_abides
  exact ⟨p, ((hs.allow h₀).step <| .aside hx ha h₁).step <| .enter he h₂, hr, hs₁⟩

theorem booted_confines : ∃ p, p.running = [(0, plainImpls 1)] ∧
    Confines (Function.update (fun _ => []) 0 [(8, 2)]) [⟨"a.txt", "a", 11⟩] p := by
  have ⟨p, hh, hr, _⟩ := exists_embedded
  exact ⟨p, hr, hh.confines⟩

end Program
end Ecsact
