import EcsactSiWasmer.Execution.Theorems.Calls
import EcsactSiWasmer.Execution.Theorems.Logs
import EcsactSiWasmer.Execution.Writes
import EcsactSiWasmer.Imports.Theorems.Signatures
import EcsactSiWasmer.Imports.Theorems.Wasi

open EStateM Ecsact.CallMem

namespace Ecsact

theorem Write.pushesBuffers (wr : Write) : wr.PushesBuffers := by
  have hr := ImportCall.run_eq (k := 4) wr.name rfl rfl wr.world
  have hl : 0 < (wr.call.enter wr.world).results.length := by
    rw [ImportCall.enter_length wr.name rfl]
    exact Nat.one_pos
  have hw := @fdWrite_ok wr.mem (wr.call.val 0) (wr.call.val 1) (wr.call.val 2)
    (wr.call.val 3) (wr.call.enter wr.world) wr.active hl wr.stream _ rfl
  exact ⟨_, hr.trans hw, rfl⟩

theorem getElem?_of_mem_pushesOf {writes : List Write} {p : Push} (h : p ∈ pushesOf writes) :
    ∃ wr, writes[p.call]? = some wr ∧ p.level = wr.level ∧ p.str ∈ wr.buffers := by
  have ⟨⟨wr, i⟩, hm, hp⟩ := List.mem_flatMap.mp h
  have ⟨str, hs, hp⟩ := List.mem_map.mp hp
  subst hp
  exact ⟨wr, List.mem_zipIdx_iff_getElem?.mp hm, rfl, hs⟩

theorem call_of_mem_zipIdx {writes : List Write} {k : Nat} {p : Push}
    (h : p ∈ (writes.zipIdx k).flatMap fun (wr, i) => wr.pushes i) : k ≤ p.call := by
  have ⟨⟨wr, i⟩, hm, hp⟩ := List.mem_flatMap.mp h
  have ⟨_, _, hp⟩ := List.mem_map.mp hp
  subst hp
  exact List.le_snd_of_mem_zipIdx hm

-- The pushes of one of the calls, which are numbered from some number on.
theorem zipIdx_filter {writes : List Write} {k i : Nat} {wr : Write} (h : writes[i]? = some wr) :
    ((writes.zipIdx k).flatMap fun (wr, i) => wr.pushes i).filter (·.call = k + i) =
      wr.pushes (k + i) := by
  induction writes generalizing k i
  case nil => simp at h
  case cons wr' writes hi =>
    rw [List.zipIdx_cons, List.flatMap_cons, List.filter_append]
    cases i
    case zero =>
      cases h
      have hs : (wr.pushes k).filter (·.call = k) = wr.pushes k :=
        List.filter_eq_self.mpr fun p hp => by
          have ⟨_, _, hp⟩ := List.mem_map.mp hp
          simp [← hp]
      have hn : ((writes.zipIdx (k + 1)).flatMap fun (wr, i) => wr.pushes i).filter (·.call = k) =
          [] :=
        List.filter_eq_nil_iff.mpr fun p hp => by
          have := call_of_mem_zipIdx hp
          simpa using by omega
      simp only [Nat.add_zero, hs, hn, List.append_nil]
    case succ i =>
      have hn : (wr'.pushes k).filter (·.call = k + (i + 1)) = [] :=
        List.filter_eq_nil_iff.mpr fun p hp => by
          have ⟨_, _, hp⟩ := List.mem_map.mp hp
          simp [← hp]
      rw [hn, List.nil_append, show k + (i + 1) = k + 1 + i by omega]
      exact hi h

theorem pushesOf_filter {writes : List Write} {i : Nat} {wr : Write} (h : writes[i]? = some wr) :
    ((pushesOf writes).filter (·.call = i)).map Push.str = wr.buffers := by
  have hf := zipIdx_filter (k := 0) h
  rw [Nat.zero_add] at hf
  rw [pushesOf, hf, Write.pushes, List.map_map]
  exact List.map_id _

section

variable {level : LogLevel} {history : List Stored}

theorem collected_str : (collected level history).flatMap Stored.str =
    Logger.pendingText level (history.map Stored.op) := by
  have step (stored : List Stored) : (history.foldl (Stored.collect level) stored).flatMap
      Stored.str =
        (history.map Stored.op).foldl (Logger.Op.apply level) (stored.flatMap Stored.str) := by
    induction history generalizing stored
    case nil => rfl
    case cons s history hi =>
      rw [List.foldl_cons, List.map_cons, List.foldl_cons, hi, Stored.collect]
      cases ho : s.op
      case snapshot   => rfl
      case push l str =>
        have hs : s.str = str := by rw [Stored.str, ho]
        simp only [Logger.Op.apply]
        split
        case isTrue  => rw [List.flatMap_append, List.flatMap_singleton, hs]
        case isFalse => rfl
  exact step []

end

namespace Writing

variable {writes : ThreadId → List Write} {todo : ThreadId → List Push} {history : List Stored}
  {lg : Logger LogLevel}

theorem loggerMatches (h : Writing writes todo history lg) :
    Logger.Matches lg (history.map Stored.op) := by
  induction h
  case start => exact Logger.initial_matches
  case push t p _ _ _ hi =>
    rw [List.map_append]
    exact hi.pushStdioStr p.level p.str
  case consume hr hi =>
    rw [List.map_append, List.map_map, show Stored.op ∘ Stored.consume = id from rfl, List.map_id]
    exact Logger.Event.run_matches hi hr

-- What a thread has pushed and what it has still to push are all of its pushes.
theorem pushed_append (h : Writing writes todo history lg) (t : ThreadId) :
    history.filterMap (Stored.push? t) ++ todo t = pushesOf (writes t) := by
  induction h
  case start => rfl
  case push t' p ps _ hp hi =>
    by_cases ht : t' = t
    case pos =>
      subst ht
      rw [← hi, hp, List.filterMap_append, Function.update_self]
      simp [Stored.push?]
    case neg =>
      rw [← hi, List.filterMap_append, Function.update_of_ne (Ne.symm ht)]
      simp [Stored.push?, ht]
  case consume hi =>
    rw [← hi, List.filterMap_append]
    simp [Stored.push?, List.filterMap_map, Function.comp_def]

theorem mem_pushesOf (h : Writing writes todo history lg) {t : ThreadId} {p : Push}
    (hp : Stored.push t p ∈ history) : p ∈ pushesOf (writes t) := by
  rw [← h.pushed_append t]
  exact List.mem_append_left _ <| List.mem_filterMap.mpr ⟨_, hp, if_pos rfl⟩

theorem merges (h : Writing writes todo history lg) : Merges writes history lg where
  text level := by rw [collected_str, h.loggerMatches.text]
  whole _ _ hp := getElem?_of_mem_pushesOf <| h.mem_pushesOf hp
  order t i wr hw := by
    rw [pushed, ← pushesOf_filter hw, ← h.pushed_append t, List.filter_append, List.map_append]
    exact List.prefix_append _ _
  single t p wr hp hw hl := by
    have ⟨wr', hw', _, hs⟩ := getElem?_of_mem_pushesOf <| h.mem_pushesOf hp
    cases hw.symm.trans hw'
    have ⟨str, hb⟩ := List.length_eq_one_iff.mp <|
      le_antisymm hl <| List.length_pos_of_mem hs
    rw [Write.payload, hb]
    rw [hb, List.mem_singleton] at hs
    simp [hs]
  calls _ wr _ := wr.pushesBuffers

end Writing

theorem fdWrite_mem : ("fd_write", ⟨wasmFunctypeNew41 .i32 .i32 .i32 .i32 .i32,
    ecsactSiWasiFdWrite⟩) ∈ importTables := by
  simp [importTables, guestWasiModuleImports]

def ImportCall.fdWrite (fd iovec iovecLen outWriteAmount : BitVec 32) : ImportCall where
  name  := "fd_write"
  func  := ⟨wasmFunctypeNew41 .i32 .i32 .i32 .i32 .i32, ecsactSiWasiFdWrite⟩
  mem   := fdWrite_mem
  args  := [.i32 fd, .i32 iovec, .i32 iovecLen, .i32 outWriteAmount]
  typed := typed_quad fd iovec iovecLen outWriteAmount

-- The line "a\n" in two buffers, as the standard library of a guest writes it.
def writeLine : Write where
  call   := .fdWrite 1 0 2 24
  world  := (systemWorld true).stored 1 0
    [16, 0, 0, 0, 1, 0, 0, 0, 17, 0, 0, 0, 1, 0, 0, 0, 97, 10]
  mem    := 1
  name   := rfl
  stream := .inr rfl
  active := rfl

namespace Writing

-- Two threads write the line at the same time.
theorem writeLine_twice : ∃ todo history lg, Writing (fun _ => [writeLine]) todo history lg ∧
    Logger.text .info lg.stdioStrings = [97, 97, 10, 10] := by
  let h₁ := @push (fun _ => [writeLine]) _ _ _ 0 ⟨0, .info, [97]⟩ [⟨0, .info, [10]⟩] start rfl
  let h₂ := @push (fun _ => [writeLine]) _ _ _ 1 ⟨0, .info, [97]⟩ [⟨0, .info, [10]⟩] h₁ rfl
  let h₃ := @push (fun _ => [writeLine]) _ _ _ 0 ⟨0, .info, [10]⟩ [] h₂ rfl
  let h₄ := @push (fun _ => [writeLine]) _ _ _ 1 ⟨0, .info, [10]⟩ [] h₃ rfl
  exact ⟨_, _, _, h₄, rfl⟩

theorem text_ne_payloads : ∃ writes todo history lg, Writing writes todo history lg ∧
    ¬∃ ws : List Write, (∀ wr ∈ ws, ∃ t, wr ∈ writes t) ∧
      Logger.text .info lg.stdioStrings = ws.flatMap Write.payload := by
  have ⟨todo, history, lg, h, ht⟩ := writeLine_twice
  refine ⟨_, todo, history, lg, h, fun ⟨ws, hw, he⟩ => ?_⟩
  rw [ht] at he
  cases ws
  case nil => cases he
  case cons wr ws =>
    have ⟨_, hm⟩ := hw wr List.mem_cons_self
    cases List.mem_singleton.mp hm
    have hb : writeLine.payload = [97, 10] := rfl
    rw [List.flatMap_cons, hb] at he
    cases he

theorem merges_twice : ∃ history lg, Merges (fun _ => [writeLine]) history lg := by
  have ⟨_, history, lg, h, _⟩ := writeLine_twice
  exact ⟨history, lg, h.merges⟩

end Writing
end Ecsact
