import EcsactSiWasmer.Execution.Logs

open StdString

namespace Ecsact.Logger

section

variable {str rest : List Byte} {c : Byte} {ms acc : List (List Byte)} {fuel : Nat} {idx : BitVec 32}

-- The loop only ever appends to the messages found so far.
theorem splitLoop_isPrefix (h : splitLoop str fuel idx acc = .done ms) : acc <+: ms := by
  induction fuel generalizing idx acc
  case zero => simp [splitLoop] at h
  case succ fuel hi =>
    simp only [splitLoop] at h
    split at h
    case isTrue => simp_all
    case isFalse =>
      split at h
      case h_1 => cases h
      case h_2 message _ =>
        have hp := hi h
        split at hp
        · exact hp
        · exact (List.prefix_append acc [message]).trans hp

theorem splitLoop_end : splitLoop str (fuel + 1) (posToInt none) acc = .done acc := by
  have hn : (posToInt none).signExtend 64 = npos := by decide
  simp [splitLoop, hn]

-- The first iteration searches and cuts from the second character on.
theorem splitString_cons : splitString (c :: rest) =
    match substr (c :: rest) 1 (find (c :: rest) newline 1) with
    | none         => .outOfRange
    | some message =>
      splitLoop (c :: rest) (rest.length + 2) (posToInt (find (c :: rest) newline 1)) <|
        if message.isEmpty then [] else [message] := by
  have hn : (0 : BitVec 32).signExtend 64 ≠ npos := by decide
  have hs : (((0 : BitVec 32) + 1).signExtend 64).toNat = 1 := by decide
  change splitLoop (c :: rest) (rest.length + 2 + 1) 0 [] = _
  rw [splitLoop, if_neg hn, hs]
  rfl

theorem splitString_of_not_mem (h : newline ∉ rest) :
    splitString (c :: rest) = .done (if rest.isEmpty then [] else [rest]) := by
  have hf : find (c :: rest) newline 1 = none := find_none <| by simpa using h
  have hs : substr (c :: rest) 1 none = some rest := by simp [substr]
  rw [splitString_cons, hf, hs]
  exact splitLoop_end

theorem splitString_of_mem (h : newline ∈ rest) (hd : splitString (c :: rest) = .done ms) :
    ∃ m ∈ ms, newline ∈ m := by
  have ⟨s₁, s₂, hr, h₁⟩ := List.eq_append_cons_of_mem h
  have hf : find (c :: rest) newline 1 = some (1 + s₁.length) := by
    rw [hr]
    exact @find_append_cons s₂ [c] s₁ newline h₁
  have hs : substr (c :: rest) 1 (some (1 + s₁.length)) = some (s₁ ++ [newline]) := by
    simp [substr, hr, Nat.add_comm 1, List.take_append, List.take_of_length_le]
  rw [splitString_cons, hf, hs] at hd
  have hp := splitLoop_isPrefix hd
  exact ⟨s₁ ++ [newline], hp.subset <| by simp, by simp⟩

theorem splitString_of_splittable {t : List Byte} (h : Splittable t) :
    splitString t = .done (segments newline t) := by
  cases h
  case inl h => simp [h, splitString, segments_nil]
  case inr h =>
    have ⟨rest, ht, hn, _⟩ := h
    rw [ht, splitString_of_not_mem hn, segments_cons]
    cases rest
    case nil => simp [segments_nil]
    case cons => simp [segments_of_not_mem hn]

theorem splittable_of_splitString {t : List Byte} (h : splitString t = .done (segments newline t))
    (hl : ∀ s ∈ segments newline t, s.length < 2 ^ 31) : Splittable t := by
  cases t
  case nil => exact .inl rfl
  case cons c rest =>
    by_cases hr : newline ∈ rest
    case pos =>
      have ⟨_, hm, hn⟩ := splitString_of_mem hr h
      exact absurd hn <| not_mem_of_mem_segments hm
    case neg =>
      rw [splitString_of_not_mem hr] at h
      injection h with h
      by_cases hc : c = newline
      case pos =>
        refine .inr ⟨rest, by rw [hc], hr, ?_⟩
        rw [hc, segments_cons] at hl
        cases rest
        case nil => simp
        case cons => exact hl _ <| by simp [segments_of_not_mem hr]
      case neg =>
        have hs : segments newline (c :: rest) = [c :: rest] :=
          segments_of_not_mem (by simp [hr, Ne.symm hc]) (by simp)
        rw [hs] at h
        split at h <;> simp at h

end

variable {L : Type} {m : List (L × List Byte)} {es : List (LogLineEntry L)}

theorem splitStdioStrings_cons_eq_done {e : L × List Byte} :
    splitStdioStrings (e :: m) = .done es ↔ ∃ ms es', splitString e.2 = .done ms ∧
      splitStdioStrings m = .done es' ∧ es = ms.map (⟨e.1, ·⟩) ++ es' := by
  simp only [splitStdioStrings]
  cases splitString e.2 <;> simp
  case done ms => simp only [eq_comm]

theorem splitStdioStrings_done (h : ∀ e ∈ m, ∃ ms, splitString e.2 = .done ms) :
    ∃ es, splitStdioStrings m = .done es := by
  induction m
  case nil => exact ⟨[], rfl⟩
  case cons e tl hi =>
    have ⟨ms, hm⟩ := h e <| List.mem_cons_self ..
    have ⟨es, he⟩ := hi fun e' he' => h e' <| List.mem_cons_of_mem _ he'
    exact ⟨_, splitStdioStrings_cons_eq_done.mpr ⟨ms, es, hm, he, rfl⟩⟩

theorem logLevel_mem (h : splitStdioStrings m = .done es) {entry : LogLineEntry L}
    (he : entry ∈ es) : ∃ e ∈ m, e.1 = entry.logLevel := by
  induction m generalizing es
  case nil =>
    cases h
    cases he
  case cons e tl hi =>
    have ⟨ms, es', _, h', hs⟩ := splitStdioStrings_cons_eq_done.mp h
    rw [hs] at he
    cases List.mem_append.mp he
    case inl he =>
      have ⟨_, _, he⟩ := List.mem_map.mp he
      exact ⟨e, List.mem_cons_self .., by simp [← he]⟩
    case inr he =>
      have ⟨e', he', hl⟩ := hi h' he
      exact ⟨e', List.mem_cons_of_mem _ he', hl⟩

variable [LinearOrder L] {lg lg' : Logger L} {reaction : Reaction L} {level : L} {k : Nat}
  {ops ops' : List (Op L)}

-- The messages of a level are those of the one string which is stored for it.
theorem splitStdioStrings_level (h : splitStdioStrings m = .done es) (hs : Sorted m) (level : L) :
    ∃ ms, splitString (text level m) = .done ms ∧
      es.filter (·.logLevel = level) = ms.map (⟨level, ·⟩) := by
  induction m generalizing es
  case nil =>
    cases h
    exact ⟨[], rfl, rfl⟩
  case cons e tl hi =>
    obtain ⟨ms, es', hm, h', he⟩ := splitStdioStrings_cons_eq_done.mp h
    obtain ⟨hl, ht⟩ := List.pairwise_cons.mp hs
    by_cases hc : e.1 = level
    case pos =>
      have hn : es'.filter (·.logLevel = level) = [] := by
        apply List.filter_eq_nil_iff.mpr
        intro entry hm
        obtain ⟨e', he', hl'⟩ := logLevel_mem h' hm
        simp [← hl', ← hc, (hl e' he').ne']
      refine ⟨ms, by simpa [text, hc] using hm, ?_⟩
      simp [he, hn, hc, List.filter_map, Function.comp_def]
    case neg =>
      obtain ⟨ms', hm', he'⟩ := hi h' ht
      refine ⟨ms', by simpa [text, hc] using hm', ?_⟩
      simp [he, he', hc, List.filter_map, Function.comp_def]

theorem text_of_mem (hs : Sorted m) {e : L × List Byte} (he : e ∈ m) : text e.1 m = e.2 := by
  induction m
  case nil => cases he
  case cons hd tl hi =>
    have ⟨hl, ht⟩ := List.pairwise_cons.mp hs
    cases List.mem_cons.mp he
    case inl he => simp [he, text]
    case inr he => simp [text, (hl e he).ne, hi ht he]

theorem consumeEntries_fst : (consumeEntries reaction k es lg).1 = es.map deliver := by
  induction es generalizing k lg
  case nil        => rfl
  case cons _ _ hi => simp [consumeEntries, hi]

-- The state in which the operations on the strings leave a logger that has no other entries.
structure Matches (lg : Logger L) (ops : List (Op L)) : Prop where
  entries : lg.loggerEntries = []
  sorted  : Sorted lg.stdioStrings
  text    : ∀ level, text level lg.stdioStrings = pendingText level ops

namespace Matches

theorem pushStdioStr (h : Matches lg ops) (l : L) (str : List Byte) :
    Matches (lg.pushStdioStr l str) (ops ++ [.push l str]) where
  entries := h.entries
  sorted  := sorted_appendString h.sorted
  text l' := by
    simp only [Logger.pushStdioStr, text_appendString h.sorted, h.text, pendingText,
      List.foldl_append, List.foldl_cons, List.foldl_nil, Op.apply, eq_comm]

theorem pushAll (h : Matches lg ops) (ps : List (L × List Byte)) :
    Matches (lg.pushAll ps) (ops ++ ps.map fun p => .push p.1 p.2) := by
  induction ps generalizing lg ops
  case nil => simpa [Logger.pushAll] using h
  case cons p ps hi => simpa [Logger.pushAll] using hi <| h.pushStdioStr p.1 p.2

theorem consumeEntries (h : Matches lg ops) :
    Matches (consumeEntries reaction k es lg).2 (ops ++ reactions reaction k es.length) := by
  induction es generalizing k lg ops
  case nil => simpa [Logger.consumeEntries, reactions] using h
  case cons _ _ hi =>
    simpa [Logger.consumeEntries, reactions, List.range'_succ] using hi <| h.pushAll (reaction k)

theorem snapshot (h : Matches lg ops) :
    Matches { lg with stdioStrings := [] } (ops ++ [.snapshot]) where
  entries    := h.entries
  sorted     := .nil
  text level := by simp [Logger.text, pendingText, Op.apply]

theorem clearLogLines (h : Matches lg ops) : Matches lg.clearLogLines ops where
  entries := rfl
  sorted  := h.sorted
  text    := h.text

end Matches

-- What a call consumes when there are no entries but those of the strings.
theorem consume_eq_done (he : lg.loggerEntries = []) {r : Consumed L} :
    ecsactSiWasmConsumeLogs reaction lg = .done r ↔
      ∃ es, splitStdioStrings lg.stdioStrings = .done es ∧ r.lines = [] ∧
        r.stdio = es.map deliver ∧
        r.logger = (consumeEntries reaction 0 es { lg with stdioStrings := [] }).2.clearLogLines := by
  simp only [ecsactSiWasmConsumeLogs, getLogLines, he, consumeEntries, List.length_nil,
    consumeStdioStrAsLogLines, LoopResult.map_eq_done]
  constructor
  case mp =>
    rintro ⟨_, ⟨es, hd, rfl⟩, rfl⟩
    exact ⟨es, hd, rfl, consumeEntries_fst, rfl⟩
  case mpr =>
    rintro ⟨es, hd, hl, hs, hg⟩
    refine ⟨_, ⟨es, hd, rfl⟩, ?_⟩
    cases r
    simp_all [consumeEntries_fst]

theorem Event.run_matches {event : Event L} (h : Matches lg ops)
    (hr : event.run lg = some (ops', lg')) : Matches lg' (ops ++ ops') := by
  cases event
  case push _ level str =>
    cases hr
    exact h.pushStdioStr level str
  case consume _ reaction =>
    simp only [Event.run, getLogLines, h.entries, List.length_nil] at hr
    split at hr
    case h_1 r hd =>
      have ⟨es, _, _, hs, hg⟩ := (consume_eq_done h.entries).mp hd
      cases hr
      rw [hg, hs, List.length_map]
      simpa [reactions] using h.snapshot.consumeEntries.clearLogLines
    case h_2 =>
      cases hr
      simpa [reactions, consumeEntries] using h
    case h_3 => cases hr

theorem runEvents_matches {events : List (Event L)} (h : Matches lg ops)
    (hr : runEvents events lg = some (ops', lg')) : Matches lg' (ops ++ ops') := by
  induction events generalizing lg ops ops'
  case nil =>
    cases hr
    simpa using h
  case cons event es hi =>
    simp only [runEvents] at hr
    split at hr
    case h_1 => cases hr
    case h_2 ops₁ lg₁ he =>
      simp only [Option.map_eq_some_iff, Prod.mk.injEq, Prod.exists] at hr
      obtain ⟨ops₂, lg₂, hr, rfl, rfl⟩ := hr
      simpa using hi (Event.run_matches h he) hr

theorem initial_matches : Matches initial [] where
  entries    := rfl
  sorted     := by simp [initial, Sorted]; decide
  text level := by simp [initial, text, pendingText]

theorem toInt_ofNat_eq_iff {n : Nat} : (BitVec.ofNat 32 n).toInt = n ↔ n < 2 ^ 31 := by
  rw [BitVec.toInt_ofNat', Int.bmod_def]
  split <;> omega

-- The part of a delivery which comes from one level.
theorem filter_deliver {ms : List (List Byte)}
    (h : es.filter (·.logLevel = level) = ms.map (⟨level, ·⟩)) :
    ((es.map deliver).filter (·.logLevel = level)).map
        (fun d => (d.message, d.messageLength.toInt)) =
      ms.map fun s => (s, (BitVec.ofNat 32 s.length).toInt) := by
  have hf : (es.map deliver).filter (·.logLevel = level) =
      (es.filter (·.logLevel = level)).map deliver := by
    rw [List.filter_map]
    rfl
  simp [hf, h, deliver, Function.comp_def]

theorem Splittable.length_lt {t s : List Byte} (h : Splittable t) (hs : s ∈ segments newline t) :
    s.length < 2 ^ 31 := by
  cases h
  case inl ht => simp [ht, segments_nil] at hs
  case inr ht =>
    have ⟨rest, ht, hn, hl⟩ := ht
    rw [ht, segments_cons] at hs
    cases rest
    case nil => simp [segments_nil] at hs
    case cons =>
      rw [segments_of_not_mem hn (by simp), List.mem_singleton] at hs
      exact hs ▸ hl

theorem splittable_of_delivers (h : Matches lg ops)
    (hd : DeliversSegments reaction lg (pendingText · ops)) (level : L) :
    Splittable (pendingText level ops) := by
  have ⟨r, hd, hr⟩ := hd
  have ⟨es, hd, _, hs, _⟩ := (consume_eq_done h.entries).mp hd
  have ⟨ms, hm, hf⟩ := splitStdioStrings_level hd h.sorted level
  specialize hr level
  rw [hs, filter_deliver hf] at hr
  have he : ms = segments newline (pendingText level ops) := by
    simpa [Function.comp_def] using congrArg (List.map Prod.fst) hr
  rw [h.text, he] at hm
  rw [he, List.map_inj_left] at hr
  exact splittable_of_splitString hm fun s hs => toInt_ofNat_eq_iff.mp (Prod.mk.inj <| hr s hs).2

theorem delivers_of_splittable (h : Matches lg ops)
    (hp : ∀ level, Splittable (pendingText level ops)) :
    DeliversSegments reaction lg (pendingText · ops) := by
  have ⟨es, he⟩ := @splitStdioStrings_done _ lg.stdioStrings fun e he => by
    have ht := h.text e.1
    rw [text_of_mem h.sorted he] at ht
    exact ⟨_, splitString_of_splittable <| ht ▸ hp e.1⟩
  let r : Consumed L := {
    lines  := []
    stdio  := es.map deliver
    logger := (Logger.consumeEntries reaction 0 es { lg with stdioStrings := [] }).2.clearLogLines
  }
  have hr : ecsactSiWasmConsumeLogs reaction lg = .done r :=
    (consume_eq_done h.entries).mpr ⟨es, he, rfl, rfl, rfl⟩
  refine ⟨r, hr, fun level => ?_⟩
  have ⟨ms, hm, hf⟩ := splitStdioStrings_level he h.sorted level
  rw [h.text, splitString_of_splittable (hp level)] at hm
  injection hm with hm
  rw [filter_deliver hf, ← hm, List.map_inj_left]
  intro s hs
  rw [toInt_ofNat_eq_iff.mpr <| (hp level).length_lt hs]

theorem deliversSegments_iff (h : Matches lg ops) :
    DeliversSegments reaction lg (pendingText · ops) ↔ ∀ level, Splittable (pendingText level ops) :=
  ⟨splittable_of_delivers h, delivers_of_splittable h⟩

-- In any run of pushes and calls, the next call delivers the lines of the pending text of each level
-- exactly if each of these texts is one that the splitter cuts right.
theorem consume_delivers_segments_iff {events : List (Event LogLevel)} {ops : List (Op LogLevel)}
    {lg : Logger LogLevel} (h : runEvents events initial = some (ops, lg))
    (reaction : Reaction LogLevel) :
    DeliversSegments reaction lg (pendingText · ops) ↔ ∀ level, Splittable (pendingText level ops) :=
  deliversSegments_iff <| runEvents_matches initial_matches h

-- The text "\nok" is passed on whole.
theorem consume_delivers_ok :
    ∃ ops lg, runEvents [.push 0 .info [10, 111, 107]] initial = some (ops, lg) ∧
      (DeliversSegments (fun _ => []) lg (pendingText · ops) ↔
        ∀ level, Splittable (pendingText level ops)) := by
  have h : runEvents [.push 0 .info [10, 111, 107]] initial =
      some ([.push .info [10, 111, 107]], initial.pushStdioStr .info [10, 111, 107]) := rfl
  exact ⟨_, _, h, consume_delivers_segments_iff h _⟩

-- The line "hi" which `std::puts` writes is passed on as "i\n".
theorem consume_breaks_line :
    ∃ ops lg, runEvents [.push 0 .info [104, 105, 10]] initial = some (ops, lg) ∧
      ¬DeliversSegments (fun _ => []) lg (pendingText · ops) := by
  refine ⟨_, _, rfl, fun h => ?_⟩
  have hs := (deliversSegments_iff <| initial_matches.pushStdioStr .info [104, 105, 10]).mp h .info
  simp [Splittable, pendingText, Op.apply, newline] at hs

end Ecsact.Logger
