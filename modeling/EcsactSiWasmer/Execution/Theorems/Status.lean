import EcsactSiWasmer.Execution.Status
import EcsactSiWasmer.Execution.Theorems.Embedding
import EcsactSiWasmer.Execution.Theorems.OutParams

open EStateM Ecsact.World Ecsact.CallMem

namespace Ecsact

-- What is stored for a status is what a guest reads.
theorem Fdstat.encode_at {s : Fdstat} {m : ByteStore} {a : Int} : s.At (m.write a s.encode) a where
  filetype := by simp [encode, ByteStore.write]
  flags    := by
    have he : s.encode = [s.fsFiletype.value, 0] ++ (leBytes 2 s.fsFlags.toNat ++
        ([0, 0, 0, 0] ++ leBytes 8 s.fsRightsBase.toNat ++ leBytes 8 s.fsRightsInheriting.toNat)) := by
      simp [encode]
    rw [he]
    exact ByteStore.readWord_write_append rfl
  base     := by
    have he : s.encode = ([s.fsFiletype.value, 0] ++ leBytes 2 s.fsFlags.toNat ++ [0, 0, 0, 0]) ++
        (leBytes 8 s.fsRightsBase.toNat ++ leBytes 8 s.fsRightsInheriting.toNat) := by
      simp [encode]
    rw [he]
    exact ByteStore.readWord_write_append rfl
  inheriting := by
    have he : s.encode = ([s.fsFiletype.value, 0] ++ leBytes 2 s.fsFlags.toNat ++ [0, 0, 0, 0] ++
        leBytes 8 s.fsRightsBase.toNat) ++ (leBytes 8 s.fsRightsInheriting.toNat ++ []) := by
      simp [encode]
    rw [he]
    exact ByteStore.readWord_write_append rfl

section

variable {grants : List Grant} {files : Files} {fd : BitVec 32}

theorem permits_write_iff : (status grants fd).permits Rights.fdWrite ↔
    fd = wasiStderrFd ∨ fd = wasiStdoutFd := by
  rw [status]
  split
  case isTrue h  => exact iff_of_true (by decide) h
  case isFalse h =>
    refine iff_of_false ?_ h
    split <;> decide

namespace Files.Represents

theorem granted_iff (h : Represents grants files) :
    granted grants fd ↔ ∃ info, files.virtualFiles fd = some info := by
  simp only [granted, List.any_eq_true, decide_eq_true_eq]
  constructor
  case mp =>
    intro ⟨g, _, hd, hf⟩
    have ⟨info, hv, _⟩ := h.exists_entry hf
    exact ⟨info, hd ▸ hv⟩
  case mpr =>
    intro ⟨info, hv⟩
    have ⟨hd, hf⟩ := h.grant_of_table hv
    exact ⟨info.grant, h.grant_mem hv, hd, hf⟩

-- No grant is for one of the standard streams.
theorem not_isStdio (h : Represents grants files) (hg : granted grants fd) : ¬IsStdio fd := by
  simp only [granted, List.any_eq_true, decide_eq_true_eq] at hg
  obtain ⟨g, hm, rfl, _⟩ := hg
  have hd := h.toInt_fd hm
  rintro (hs | hs | hs)
  all_goals
    rw [hs] at hd
    exact absurd hd <| by decide

theorem status_eq (h : Represents grants files) :
    (defaultFdstats fd).getD (files.fdstat fd) = status grants fd := by
  rw [defaultFdstats, status]
  by_cases hg : granted grants fd
  case pos =>
    obtain ⟨info, hv⟩ := h.granted_iff.mp hg
    obtain ⟨ho, hi⟩ := not_or.mp <| h.not_isStdio hg
    obtain ⟨he, hi⟩ := not_or.mp hi
    rw [if_neg hi, if_neg (not_or.mpr ⟨ho, he⟩), if_neg (not_or.mpr ⟨he, ho⟩), if_pos hg,
      Files.fdstat, hv]
    exact h.fdstat fd info hv
  case neg =>
    have hf : files.fdstat fd = {} := by
      cases hv : files.virtualFiles fd
      case none      => rw [Files.fdstat, hv]; rfl
      case some info => exact absurd (h.granted_iff.mpr ⟨info, hv⟩) hg
    rw [if_neg hg, hf]
    by_cases hi : fd = wasiStdinFd
    case pos =>
      rw [if_pos hi, if_neg (by rw [hi]; decide)]
      rfl
    case neg =>
      rw [if_neg hi]
      by_cases hs : fd = wasiStderrFd ∨ fd = wasiStdoutFd
      case pos => rw [if_pos hs, if_pos hs.symm]; rfl
      case neg => rw [if_neg hs, if_neg (mt Or.symm hs)]; rfl

theorem permits_read_iff (h : Represents grants files) :
    (status grants fd).permits Rights.fdRead ↔ ∃ info, files.virtualFiles fd = some info := by
  rw [← h.granted_iff, status]
  split
  case isTrue hd =>
    exact iff_of_false (by decide) fun hg => h.not_isStdio hg <| hd.elim (.inr <| .inl ·) .inl
  case isFalse =>
    split
    case isTrue hg  => exact iff_of_true (by decide) hg
    case isFalse hg => exact iff_of_false (by decide) hg

end Files.Represents
end

namespace Program

variable {issued : ThreadId → IssuedHandles} {grants : List Grant} {p : Program} {thread : ThreadId}
  {minst : SystemImpls} {call : ImportCall}

theorem Event.Abides.out_lt {mem : MemPtr} {i n : Nat}
    (ha : (guest thread call).Abides issued p) (hf : call.Finds (p.view thread) mem)
    (ho : (i, n) ∈ call.ranges.out) : (call.val i).toNat < 2 ^ 31 :=
  ((ha.inBounds hf).named true _ _ _ <| .out ho).1

-- The status which guests get is a matter of the grants, whatever else has happened.
theorem Embedded.honours (h : Embedded issued grants p) (hr : (thread, minst) ∈ p.running)
    (ha : (Event.guest thread call).Abides issued p) :
    Honours grants (p.view thread) minst.memory.ptr call := by
  have hx := h.executing _ hr
  have hf := hx.found ha.passesIssued
  have ⟨_, hh⟩ := hx.holds
  have ⟨_, hc⟩ := hx.first
  have hm : ImportCall.FindsMemory (p.view thread) minst.memory.ptr := (hh.denotes hc).memory
  have ⟨_, _, he⟩ := h.exchange
  have hq := he.represents
  constructor
  case inside => exact ImportCall.inside hf <| ha.inBounds hf
  case fdstat =>
    intro hn
    have ho : call.ranges.out = [(1, 24)] := by rw [ImportCall.ranges, hn]; rfl
    have hr := call.fdFdstatGet_run (w := p.view thread) hn
    have hl := call.enter_results (w := p.view thread) hn rfl rfl
    obtain ⟨_, hw⟩ := @fdFdstatGet_ok minst.memory.ptr (call.val 0) (call.val 1)
      (call.enter (p.view thread)) _ hm (by simp [hl]) hq.status_eq
    have hv := toInt_eq_toNat <| ha.out_lt hf (i := 1) (n := 24) <| by simp [ho]
    refine ⟨_, hr.trans hw, ?status, ?results⟩
    case status =>
      simp only [stored, Function.update_self, hv]
      exact Fdstat.encode_at
    case results =>
      simp only [hl]
      rfl
  case write =>
    intro hn
    have hr := call.fdWrite_run (w := p.view thread) hn
    have hl := call.enter_results (w := p.view thread) hn rfl rfl
    have hz : 0 < (call.enter (p.view thread)).results.length := by simp [hl]
    by_cases hf : call.val 0 = wasiStderrFd ∨ call.val 0 = wasiStdoutFd
    case pos =>
      have hw := @fdWrite_ok minst.memory.ptr (call.val 0) (call.val 1) (call.val 2) (call.val 3)
        (call.enter (p.view thread)) hm hz hf _ rfl
      refine ⟨_, hr.trans hw, ?_⟩
      rw [if_pos <| permits_write_iff.mpr hf]
      simp only [hl]
      rfl
    case neg =>
      have hw := @fdWrite_unknown minst.memory.ptr (call.val 0) (call.val 1) (call.val 2) (call.val 3)
        (call.enter (p.view thread)) hm hz hf
      refine ⟨_, hr.trans hw, ?_⟩
      rw [if_neg <| mt permits_write_iff.mp hf]
      simp only [hl]
      rfl
  case read =>
    intro hn
    rw [call.returns_read_iff hm hq.intact hn, call.returnable_read_iff hn,
      hq.permits_read_iff]
    constructor
    case mp =>
      rintro ⟨info, hv, hx⟩
      exact ⟨⟨info, hv⟩, fun _ hv' => Option.some.inj (hv.symm.trans hv') ▸ hx⟩
    case mpr =>
      rintro ⟨⟨info, hv⟩, hx⟩
      exact ⟨info, hv, hx info hv⟩

theorem fdFdstatGet_inBounds {w : World} {mem : MemPtr} (hs : (w.memories mem).size = 65536) :
    (ImportCall.fdFdstatGet 11 32).InBounds w mem where
  named write v k n h := by
    cases h
    case out h =>
      cases h
      case tail h => cases h
      case head =>
        have hm : ((ImportCall.fdFdstatGet 11 32).memory w mem).size = 65536 := hs
        rw [hm]
        decide
    case entry h _ _    => cases h
    case buffer h _ _ _ => cases h
  pointed v h := by
    cases h
    case arg n i hn _ => simp [nativeApi, ImportCall.fdFdstatGet] at hn
    case word h _ _   => cases h
  flag h := absurd h <| show ¬"fd_fdstat_get" = _ by decide

theorem fdFdstatGet_abides (hs : (p.world.memories (plainMemory 1).ptr).size = 65536)
    (hf : ∀ mem, (ImportCall.fdFdstatGet 11 32).Finds (p.view 0) mem → mem = (plainMemory 1).ptr) :
    (Event.guest 0 (ImportCall.fdFdstatGet 11 32)).Abides issued p where
  passes b hb n hn := by
    cases List.mem_singleton.mp hb
    simp [nativeApi, ImportCall.fdFdstatGet] at hn
  fits b hb := by
    cases List.mem_singleton.mp hb
    exact fun hd => absurd hd <| show ¬DerivesHandle "fd_fdstat_get" by decide
  bounds b hb mem hm := by
    cases List.mem_singleton.mp hb
    cases hf mem hm
    exact fdFdstatGet_inBounds hs

-- A file which is granted can be read, and not written.
theorem booted_honours : status [⟨"a.txt", "a", 11⟩] 11 = Files.fileFdstat ∧
    ∃ p : Program, p.running = [(0, plainImpls 1)] ∧
      Honours [⟨"a.txt", "a", 11⟩] (p.view 0) (plainMemory 1).ptr
        (ImportCall.fdFdstatGet 11 32) := by
  have ⟨p, h, hr, hs⟩ := exists_embedded
  have hk : (0, plainImpls 1) ∈ p.running := hr ▸ List.mem_singleton_self _
  refine ⟨by decide, p, hr, h.honours hk <| fdFdstatGet_abides hs fun mem hm => ?_⟩
  refine (h.executing _ hk).finds (fun n hn => ?_) hm
  simp [nativeApi, ImportCall.fdFdstatGet] at hn

end Program
end Ecsact
