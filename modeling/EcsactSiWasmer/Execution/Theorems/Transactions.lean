import EcsactSiWasmer.Execution.Transactions
import EcsactSiWasmer.Execution.Theorems.Logs

open RecursiveMutex

namespace Ecsact.Logger

section

variable {L : Type} [LinearOrder L] {reaction : Reaction L} {next : Code (SharedLogs L)}
  {s : SharedLogs L} {n k : Nat} {es : List (LogLineEntry L)} {pushes : List (L × List Byte)}

-- The functions lock and unlock in pairs.

theorem inside_pushStdioStrCode {level : L} {str : List Byte} (h : next.Inside n) :
    (pushStdioStrCode level str next).Inside n :=
  .lock <| .access fun _ => .unlock h

theorem inside_pushAllCode (h : next.Inside n) : (pushAllCode pushes next).Inside n := by
  induction pushes
  case nil         => exact h
  case cons p _ hi => exact inside_pushStdioStrCode hi

theorem inside_consumeEntriesCode (h : next.Inside n) :
    (consumeEntriesCode reaction k es next).Inside n := by
  induction es generalizing k
  case nil         => exact h
  case cons _ _ hi => exact .access fun _ => inside_pushAllCode hi

theorem section_code (call : Call L) : call.code.Section := by
  cases call
  case push    => exact .lock <| .access fun _ => .leave
  case consume =>
    refine .lock <| .access fun s => inside_consumeEntriesCode <| .access fun s => ?_
    split
    case h_1 => exact .hang
    case h_2 => exact .leave
    case h_3 => exact inside_consumeEntriesCode <| .access fun _ => .leave

-- What they do if they are not interrupted.

theorem finish_pushAllCode : (pushAllCode pushes next).finish s =
    next.finish { s with logger := s.logger.pushAll pushes } := by
  induction pushes generalizing s
  case nil         => rfl
  case cons p _ hi => exact hi

theorem finish_consumeEntriesCode : (consumeEntriesCode reaction k es next).finish s =
    next.finish {
      logger    := (consumeEntries reaction k es s.logger).2
      delivered := s.delivered ++ (consumeEntries reaction k es s.logger).1
    } := by
  induction es generalizing k s
  case nil => simp [consumeEntriesCode, consumeEntries]
  case cons entry rest hi =>
    simp only [consumeEntriesCode, Code.finish, finish_pushAllCode, hi, consumeEntries,
      List.append_assoc, List.singleton_append]

theorem finish_code {call : Call L} (thread : ThreadId) : call.code.finish s =
    ((call.event thread).run s.logger).map fun r =>
      { logger := r.2, delivered := s.delivered ++ (call.event thread).deliveries s.logger } := by
  cases call
  case push => simp [Call.code, pushStdioStrCode, Code.finish, Call.event, Event.run, Event.deliveries]
  case consume reaction =>
    simp only [Call.code, consumeLogsCode, Code.finish, finish_consumeEntriesCode, Call.event,
      Event.run, Event.deliveries, ecsactSiWasmConsumeLogs, id]
    cases consumeStdioStrAsLogLines (consumeEntries reaction 0 s.logger.getLogLines s.logger).2
    case done r =>
      obtain ⟨stdioEntries, lg⟩ := r
      simp [finish_consumeEntriesCode, Code.finish, LoopResult.map]
    case outOfRange => simp [Code.finish, LoopResult.map]
    case running    => simp [Code.finish, LoopResult.map]

-- The calls one after the other are a run of the logger.
theorem atomically_code {es : List (ThreadId × Call L)} : atomically Call.code es s =
    (runEvents (es.map fun e => e.2.event e.1) s.logger).map fun r => {
      logger    := r.2
      delivered := s.delivered ++ deliveries (es.map fun e => e.2.event e.1) s.logger
    } := by
  induction es generalizing s
  case nil => simp [atomically, runEvents, deliveries]
  case cons e es hi =>
    simp only [atomically, finish_code e.1, List.map_cons, runEvents, deliveries]
    cases (e.2.event e.1).run s.logger
    case none => rfl
    case some r =>
      simp only [Option.map_some, Option.bind_eq_bind, Option.bind_some, hi, Option.map_map]
      simp [Function.comp_def]

-- What is snapshot and what is left over is what was pushed.

theorem chunks_append {level : L} {t : List Byte} {ops ops' : List (Op L)} :
    chunks level t (ops ++ ops') =
      chunks level t ops ++ chunks level (ops.foldl (Op.apply level) t) ops' := by
  induction ops generalizing t
  case nil => rfl
  case cons op ops hi => cases op <;> simp [chunks, hi, Op.apply]

theorem chunks_pushes {level : L} {t : List Byte} {ops : List (Op L)}
    (h : .snapshot ∉ ops) : chunks level t ops = [] := by
  induction ops generalizing t
  case nil => rfl
  case cons op ops hi =>
    cases op
    case push     => exact hi <| List.not_mem_of_not_mem_cons h
    case snapshot => exact absurd List.mem_cons_self h

theorem flatten_chunks {level : L} {t : List Byte} {ops : List (Op L)} :
    (chunks level t ops).flatten ++ ops.foldl (Op.apply level) t = t ++ pushed level ops := by
  induction ops generalizing t
  case nil => simp [chunks, pushed]
  case cons op ops hi =>
    cases op
    case push l str =>
      rw [chunks, List.foldl_cons, hi, Op.apply]
      by_cases hl : l = level <;> simp [pushed, hl]
    case snapshot =>
      rw [chunks, List.flatten_cons, List.append_assoc, List.foldl_cons, Op.apply, hi]
      simp [pushed]

omit [LinearOrder L] in
theorem snapshot_not_mem_reactions {k n : Nat} : .snapshot ∉ reactions reaction k n := by
  simp [reactions]

variable {lg lg' : Logger L} {ops ops' : List (Op L)} {event : Event L} {events : List (Event L)}

-- An operation passes on what the splitter makes of the texts that it takes.
theorem Event.deliveries_level (h : Matches lg ops) (hr : event.run lg = some (ops', lg'))
    (level : L) : (event.deliveries lg).filter (·.logLevel = level) =
      (chunks level (pendingText level ops) ops').flatMap fun t =>
        (messages t).map fun m => deliver ⟨level, m⟩ := by
  cases event
  case push =>
    cases hr
    rfl
  case consume thread reaction =>
    simp only [Event.run, getLogLines, h.entries, List.length_nil] at hr
    split at hr
    case h_1 r hd =>
      obtain ⟨es, he, hl, hs, _⟩ := (consume_eq_done h.entries).mp hd
      obtain ⟨ms, hm, hf⟩ := splitStdioStrings_level he h.sorted level
      cases hr
      rw [h.text] at hm
      have hc : chunks level (pendingText level ops) (reactions reaction 0 0 ++ .snapshot ::
          reactions reaction 0 r.stdio.length) = [pendingText level ops] := by
        rw [chunks_append, chunks, chunks_pushes snapshot_not_mem_reactions,
          chunks_pushes snapshot_not_mem_reactions]
        rfl
      have hq : (Event.consume thread reaction).deliveries lg = es.map deliver := by
        simp [Event.deliveries, hd, hl, hs]
      have hk : messages (pendingText level ops) = ms := by simp [messages, hm]
      have hx : (es.map deliver).filter (·.logLevel = level) =
          (es.filter (·.logLevel = level)).map deliver := List.filter_map
      rw [hq, hc, hx, hf, List.flatMap_singleton, hk, List.map_map]
      rfl
    case h_2 hd =>
      cases hr
      simp [Event.deliveries, hd, getLogLines, h.entries, consumeEntries, reactions, chunks]
    case h_3 => cases hr

theorem deliveries_cons (h : event.run lg = some (ops, lg')) :
    deliveries (event :: events) lg = event.deliveries lg ++ deliveries events lg' := by
  simp only [deliveries, h]

theorem deliveries_level (h : Matches lg ops) (hr : runEvents events lg = some (ops', lg'))
    (level : L) : (deliveries events lg).filter (·.logLevel = level) =
      (chunks level (pendingText level ops) ops').flatMap fun t =>
        (messages t).map fun m => deliver ⟨level, m⟩ := by
  induction events generalizing lg ops ops'
  case nil =>
    cases hr
    rfl
  case cons event es hi =>
    simp only [runEvents] at hr
    split at hr
    case h_1 => cases hr
    case h_2 ops₁ lg₁ he =>
      simp only [Option.map_eq_some_iff, Prod.mk.injEq, Prod.exists] at hr
      obtain ⟨ops₂, lg₂, hr, rfl, rfl⟩ := hr
      have hm := Event.run_matches h he
      rw [deliveries_cons he, List.filter_append, Event.deliveries_level h he, hi hm hr, chunks_append,
        List.flatMap_append, pendingText, pendingText, List.foldl_append]

end

namespace Transactions

variable {c : Transactions}

theorem Reachable.locked (h : Reachable c) : Locked Call.code { logger := initial } c :=
  RecursiveMutex.Reachable.locked h section_code

theorem Reachable.runs (h : Reachable c) (hf : c.holder = none) :
    ∃ ops, runEvents c.events initial = some (ops, c.shared.logger) ∧
      c.shared.delivered = deliveries c.events initial := by
  have hs := h.locked.free hf
  rw [atomically_code] at hs
  obtain ⟨⟨ops, lg⟩, hr, he⟩ := Option.map_eq_some_iff.mp hs
  exact ⟨ops, he ▸ hr, by rw [← he]; rfl⟩

-- Whenever no thread holds the mutex, the threads have done what they would have done one after the
-- other, each in the order of its calls.
theorem Reachable.linearizes (h : Reachable c) (hf : c.holder = none) :
    (∃ ops, runEvents c.events initial = some (ops, c.shared.logger) ∧
      c.shared.delivered = deliveries c.events initial) ∧
    ∀ t, callsOf c.entered t <+: callsOf c.called t ∧
      (c.current t = none → callsOf c.entered t = callsOf c.called t) := by
  refine ⟨h.runs hf, fun t => ⟨h.locked.entered_isPrefix t, fun hn => ?_⟩⟩
  cases h.locked.waits t <| by simp [hf]
  case idle hl     => exact hl.symm
  case before hu _ => simp [hn] at hu
  case after hu _  => simp [hn] at hu

-- The logger is accessed by none but the thread which holds the mutex. If each loop over a string
-- ends, there is no deadlock.
theorem Reachable.live (h : Reachable c) (hr : (runEvents c.events initial).isSome) :
    (∀ t a f next, c.current t = some (a, .access f next) → ∃ n, c.holder = some (t, n)) ∧
    ∀ t, c.current t ≠ none → ∃ c', Step Call.code c c' ∧ c'.called = c.called := by
  refine ⟨fun t a f next ha => h.locked.holds ha nofun (section_code a).ne_access, fun t ht => ?_⟩
  obtain ⟨⟨a, next⟩, ha⟩ := Option.ne_none_iff_exists'.mp ht
  refine h.locked.progress section_code ha fun u b hu => ?_
  obtain ⟨n, hh⟩ := h.locked.holds hu nofun (section_code b).ne_hang
  have ⟨_, _, hc, _, hs⟩ := (h.locked.held u n hh).current
  cases hu.symm.trans hc
  rw [atomically_code] at hs
  have hn : runEvents c.events initial = none := Option.map_eq_none_iff.mp hs
  simp [hn] at hr

-- All that is pushed for a level is split exactly once, in the order of the pushes, but for the text
-- which is still stored.
theorem Reachable.conserves (h : Reachable c) (hf : c.holder = none) :
    ∃ ops, runEvents c.events initial = some (ops, c.shared.logger) ∧ ∀ level,
      c.shared.delivered.filter (·.logLevel = level) =
        ((chunks level [] ops).flatMap fun t => (messages t).map fun m => deliver ⟨level, m⟩) ∧
      (chunks level [] ops).flatten ++ text level c.shared.logger.stdioStrings =
        pushed level ops := by
  have ⟨ops, hr, hd⟩ := h.runs hf
  refine ⟨ops, hr, fun level => ⟨?delivered, ?text⟩⟩
  case delivered =>
    rw [hd]
    convert deliveries_level initial_matches hr level
    rfl
  case text =>
    rw [(runEvents_matches initial_matches hr).text]
    exact flatten_chunks

-- A thread has pushed a line while another was about to ask for the lines.
def oneLine : Call LogLevel :=
  .push .info [10, 111, 107]

def noPushes : Call LogLevel :=
  .consume fun _ => []

theorem exists_pushed : ∃ c : Transactions, c.Reachable ∧ c.holder = none ∧ c.current 1 ≠ none ∧
    c.events = [oneLine.event 0] ∧ c.called = [(0, oneLine), (1, noPushes)] := by
  refine ⟨_, .tail (.tail (.tail (.tail (.tail .refl (.call (t := 0) (a := oneLine) rfl))
    (.call (t := 1) (a := noPushes) rfl)) (.enter (t := 0) (a := oneLine) rfl rfl))
    (.access (t := 0) (a := oneLine) rfl)) (.leave (t := 0) (a := oneLine) rfl rfl), rfl, ?_, rfl, rfl⟩
  nofun

theorem pushed_linearizes : ∃ c : Transactions, c.events = [oneLine.event 0] ∧
    (∃ ops, runEvents c.events initial = some (ops, c.shared.logger)) ∧
    callsOf c.entered 0 <+: callsOf c.called 0 := by
  have ⟨c, h, hf, _, he, _⟩ := exists_pushed
  have ⟨⟨ops, hr, _⟩, hc⟩ := h.linearizes hf
  exact ⟨c, he, ⟨ops, hr⟩, (hc 0).1⟩

theorem pushed_live : ∃ c c' : Transactions, c.called = [(0, oneLine), (1, noPushes)] ∧
    Step Call.code c c' ∧ c'.called = c.called := by
  have ⟨c, h, _, hn, he, hc⟩ := exists_pushed
  have ⟨c', hs, hl⟩ := (h.live <| by rw [he]; rfl).2 1 hn
  exact ⟨c, c', hc, hs, hl⟩

theorem pushed_conserves : ∃ c : Transactions, c.events = [oneLine.event 0] ∧
    text .info c.shared.logger.stdioStrings = [10, 111, 107] := by
  have ⟨c, h, hf, _, he, _⟩ := exists_pushed
  have ⟨ops, hr, hl⟩ := h.conserves hf
  have hp := (hl .info).2
  rw [he] at hr
  obtain ⟨rfl, _⟩ := Prod.mk.inj <| Option.some_inj.mp hr
  exact ⟨c, he, hp⟩

end Transactions
end Ecsact.Logger
