import EcsactSiWasmer.Execution.Splitting
import EcsactSiWasmer.Execution.Theorems.Logs
import Mathlib.Data.List.Pairwise

open StdString

namespace Ecsact.Logger

section

variable {str : List Byte} {acc ms : List (List Byte)} {idx : BitVec 32}
  {i j p fuel start : Nat}

theorem signExtend_ne_npos (h : idx ≠ -1) : idx.signExtend 64 ≠ npos := by
  intro hs
  apply h
  have ht := congrArg (·.toInt) hs
  simp only [BitVec.toInt_signExtend_of_le (by decide : 32 ≤ 64)] at ht
  exact BitVec.eq_of_toInt_eq <| ht.trans (by decide)

-- Where the loop searches from. A sum which does not fit is a negative number, and as a `size_t` it
-- is behind all characters of all strings.
theorem toNat_start (h : idx ≠ -1) : ((idx + 1).signExtend 64).toNat =
    idx.toNat + 1 + if idx.toNat + 1 < 2 ^ 31 then 0 else 2 ^ 64 - 2 ^ 32 := by
  have ht : (idx + 1).toNat = idx.toNat + 1 := by
    have hn : idx.toNat ≠ (-1 : BitVec 32).toNat := fun e => h <| BitVec.eq_of_toNat_eq e
    simp only [BitVec.toNat_add] at hn ⊢
    have hl := idx.isLt
    have he : (-1 : BitVec 32).toNat = 2 ^ 32 - 1 := by decide
    have ho : (1 : BitVec 32).toNat = 1 := by decide
    omega
  have hm : (idx + 1).msb = decide (2 ^ 31 ≤ idx.toNat + 1) := by
    rw [BitVec.msb_eq_decide, ht]
  rw [BitVec.toNat_signExtend, BitVec.toNat_setWidth, hm, ht, Nat.mod_eq_of_lt (by omega)]
  by_cases hl : idx.toNat + 1 < 2 ^ 31
  case pos => rw [if_pos hl, decide_eq_false (Nat.not_le.mpr hl), if_neg Bool.false_ne_true]
  case neg => rw [if_neg hl, decide_eq_true (Nat.not_lt.mp hl), if_pos rfl]

-- The position of a character as the loop's `int`, where it is one and can be incremented.
theorem ofNat_ne_sentinel (h : i + 1 < 2 ^ 31) : BitVec.ofNat 32 i ≠ -1 := by
  intro he
  have ht := congrArg (·.toNat) he
  simp only [BitVec.toNat_ofNat] at ht
  have he : (-1 : BitVec 32).toNat = 2 ^ 32 - 1 := by decide
  omega

theorem start_ofNat (h : i + 1 < 2 ^ 31) :
    ((BitVec.ofNat 32 i + 1).signExtend 64).toNat = i + 1 := by
  have ht : (BitVec.ofNat 32 i).toNat = i := Nat.mod_eq_of_lt (by omega)
  rw [toNat_start (ofNat_ne_sentinel h), ht, if_pos h]

-- One iteration, from where it searches and cuts.
section

variable (hi : idx ≠ -1) (hs : ((idx + 1).signExtend 64).toNat = start) (hl : start ≤ str.length)
include hi hs hl

theorem visits_succ : visits str (fuel + 1) idx =
    ⟨start, find str newline start⟩ :: visits str fuel (posToInt (find str newline start)) := by
  have ⟨_, ht⟩ := @substr_of_le _ _ (find str newline start) hl
  simp only [visits, if_neg (signExtend_ne_npos hi), hs, ht]

theorem newlines_succ : newlines str (fuel + 1) idx =
    (find str newline start).toList ++
      newlines str fuel (posToInt (find str newline start)) := by
  rw [newlines, visits_succ hi hs hl]
  cases find str newline start <;> rfl

theorem splitLoop_succ : ∃ acc', splitLoop str (fuel + 1) idx acc =
    splitLoop str fuel (posToInt (find str newline start)) acc' := by
  have ⟨_, ht⟩ := @substr_of_le _ _ (find str newline start) hl
  simp only [splitLoop, if_neg (signExtend_ne_npos hi), hs, ht]
  exact ⟨_, rfl⟩

end

theorem visits_sentinel : visits str fuel (-1) = [] := by
  cases fuel <;> rfl

-- The messages which are there already do not matter to whether the loop ends.
theorem splitLoop_eq_map : splitLoop str fuel idx acc =
    (splitLoop str fuel idx []).map (acc ++ ·) := by
  induction fuel generalizing idx acc
  case zero => rfl
  case succ fuel ih =>
    simp only [splitLoop]
    split
    case isTrue => simp [LoopResult.map]
    case isFalse =>
      split
      case h_1 => rfl
      case h_2 message _ =>
        rw [ih, @ih (if message.isEmpty then [] else [] ++ [message])]
        cases splitLoop str fuel _ [] <;> simp only [LoopResult.map]
        split <;> simp

-- The loop is safe from a position on, and all which it finds is behind that position.
structure SafeFrom (str : List Byte) (idx : BitVec 32) (i : Nat) : Prop where
  done       : ∀ fuel acc, str.length - i < fuel → ∃ ms, splitLoop str fuel idx acc = .done ms
  inRange    : ∀ fuel, ∀ v ∈ visits str fuel idx, v.start ≤ str.length
  increasing : ∀ fuel, (i :: newlines str fuel idx).Pairwise (· < ·)

namespace SafeFrom

theorem splitsSafely (h : SafeFrom str idx i) : SplitsSafely str idx where
  ends         := ⟨_, h.done _ [] (Nat.lt_succ_self _)⟩
  inRange      := h.inRange
  increasing n := (List.pairwise_cons.mp <| h.increasing n).2

theorem sentinel : SafeFrom str (-1) i where
  done fuel acc h := by
    cases fuel
    case zero => cases h
    case succ => exact ⟨acc, splitLoop_end⟩
  inRange fuel v hv  := by rw [visits_sentinel] at hv; cases hv
  increasing fuel    := by rw [newlines, visits_sentinel]; exact List.pairwise_singleton ..

-- Safety from the next newline on, or from any position if there is none.
theorem step (hi : idx ≠ -1) (hs : ((idx + 1).signExtend 64).toNat = i + 1) (hl : i < str.length)
    (hj : i < j) (hf : ∀ p ∈ find str newline (i + 1), p = j)
    (h : SafeFrom str (posToInt (find str newline (i + 1))) j) : SafeFrom str idx i where
  done fuel acc hd := by
    cases fuel
    case zero => cases hd
    case succ fuel =>
      have ⟨acc', he⟩ := @splitLoop_succ _ acc _ fuel _ hi hs hl
      exact he ▸ h.done fuel acc' (by omega)
  inRange fuel v hv := by
    cases fuel
    case zero => cases hv
    case succ fuel =>
      rw [visits_succ hi hs hl, List.mem_cons] at hv
      cases hv
      case inl hv => exact hv ▸ hl
      case inr hv => exact h.inRange fuel v hv
  increasing fuel := by
    cases fuel
    case zero => simp [newlines, visits]
    case succ fuel =>
      have hc := (h.increasing fuel).cons_cons_of_trans hj
      rw [newlines_succ hi hs hl]
      generalize find str newline (i + 1) = next at hf hc ⊢
      cases next
      case none   => exact hc.sublist <| (List.sublist_cons_self j _).cons_cons i
      case some p => exact hf p rfl ▸ hc

-- From a position which is an `int` on. Behind the last newline of which this is true is one which
-- becomes the sentinel, or none.
theorem of_endsInInt (h : EndsInInt str) (hi : i + 1 < 2 ^ 31) (hl : i < str.length) :
    SafeFrom str (BitVec.ofNat 32 i) i := by
  induction hn : str.length - i using Nat.strongRecOn generalizing i
  case ind n ih =>
    have hs := start_ofNat hi
    cases hf : find str newline (i + 1)
    case none   =>
      have h : SafeFrom str (posToInt none) (i + 1) := sentinel
      exact step (ofNat_ne_sentinel hi) hs hl (Nat.lt_succ_self i) (by simp [hf]) (hf ▸ h)
    case some p =>
      have ⟨hp, hc, _⟩ := find_eq_some_iff.mp hf
      have ⟨hlp, _⟩ := List.getElem?_eq_some_iff.mp hc
      refine step (ofNat_ne_sentinel hi) hs hl hp (by simp [hf]) ?_
      rw [hf]
      by_cases hb : p + 1 < 2 ^ 31
      case pos => exact ih (str.length - p) (by omega) hb hlp rfl
      case neg =>
        have hp := h p <| find_of_le hf (by omega) (by omega)
        have he : posToInt (some p) = -1 := BitVec.eq_of_toNat_eq hp
        exact he ▸ sentinel

end SafeFrom

-- What is safe is safe behind a newline which the loop finds.
theorem SplitsSafely.next (h : SplitsSafely str idx) (hi : idx ≠ -1)
    (hs : ((idx + 1).signExtend 64).toNat = start) (hl : start ≤ str.length)
    (hf : find str newline start = some p) : SplitsSafely str (posToInt (some p)) where
  ends := by
    obtain ⟨fuel, ms, hm⟩ := h.ends
    cases fuel
    case zero => cases hm
    case succ fuel =>
      obtain ⟨acc, he⟩ := @splitLoop_succ _ [] _ fuel _ hi hs hl
      rw [he, hf, splitLoop_eq_map, LoopResult.map_eq_done] at hm
      obtain ⟨ms', hm, _⟩ := hm
      exact ⟨fuel, ms', hm⟩
  inRange fuel v hv := by
    refine h.inRange (fuel + 1) v ?_
    rw [visits_succ hi hs hl, hf]
    exact List.mem_cons_of_mem _ hv
  increasing fuel := by
    have hm := h.increasing (fuel + 1)
    rw [newlines_succ hi hs hl, hf] at hm
    exact (List.pairwise_cons.mp hm).2

-- What the loop finds behind a newline is further on.
theorem SplitsSafely.lt_of_find {q start' : Nat} (h : SplitsSafely str idx) (hi : idx ≠ -1)
    (hs : ((idx + 1).signExtend 64).toNat = start) (hl : start ≤ str.length)
    (hf : find str newline start = some p) (hi' : posToInt (some p) ≠ -1)
    (hs' : ((posToInt (some p) + 1).signExtend 64).toNat = start') (hl' : start' ≤ str.length)
    (hf' : find str newline start' = some q) : p < q := by
  have hm := h.increasing 2
  rw [newlines_succ hi hs hl, hf, newlines_succ hi' hs' hl', hf'] at hm
  simp only [Option.toList, List.cons_append, List.pairwise_cons] at hm
  exact hm.1 q <| List.mem_cons_self ..

-- A newline which is not an `int` has to become the sentinel. The loop would search from behind the
-- end of the string otherwise, or from before that newline.
theorem SplitsSafely.mod_eq_of_find (h : SplitsSafely str (BitVec.ofNat 32 i))
    (hm : str.length ≤ maxSize) (hi : i + 1 < 2 ^ 31) (hl : i < str.length)
    (hf : find str newline (i + 1) = some p) (hp : 2 ^ 31 ≤ p + 1) : p % 2 ^ 32 = 2 ^ 32 - 1 := by
  by_contra hc
  have hs := start_ofNat hi
  have hne := ofNat_ne_sentinel hi
  have ht : (posToInt (some p)).toNat = p % 2 ^ 32 := rfl
  have hi' : posToInt (some p) ≠ -1 := fun e => hc <| ht ▸ congrArg BitVec.toNat e
  have hs' := toNat_start hi'
  have ⟨_, hn, _⟩ := find_eq_some_iff.mp hf
  have ⟨hlp, _⟩ := List.getElem?_eq_some_iff.mp hn
  by_cases hw : p % 2 ^ 32 + 1 < 2 ^ 31
  case pos =>
    rw [ht, if_pos hw] at hs'
    have ⟨q, hq, hf'⟩ := find_of_getElem hn (by omega : p % 2 ^ 32 + 1 ≤ p)
    have hlt := h.lt_of_find hne hs hl hf hi' hs' (by omega) hf'
    omega
  case neg =>
    rw [ht, if_neg hw] at hs'
    have hr := (h.next hne hs hl hf).inRange 1
    rw [visits, if_neg (signExtend_ne_npos hi'), hs'] at hr
    have hr := hr _ <| List.mem_cons_self ..
    simp only [maxSize] at hm
    simp only at hr
    omega

-- A loop that is safe from a position on gets to the first newline which is not an `int`.
theorem SplitsSafely.endsInInt (h : SplitsSafely str (BitVec.ofNat 32 i)) (hm : str.length ≤ maxSize)
    (hi : i + 1 < 2 ^ 31) (hl : i < str.length) : EndsInInt str := by
  induction hn : str.length - i using Nat.strongRecOn generalizing i
  case ind n ih =>
    cases hf : find str newline (i + 1)
    case none   => exact fun p hp => absurd ((find_none_of_le hf (by omega)).symm.trans hp) (by simp)
    case some p =>
      have ⟨hp, hc, _⟩ := find_eq_some_iff.mp hf
      have ⟨hlp, _⟩ := List.getElem?_eq_some_iff.mp hc
      by_cases hb : p + 1 < 2 ^ 31
      case pos =>
        have hx := h.next (ofNat_ne_sentinel hi) (start_ofNat hi) hl hf
        exact ih (str.length - p) (by omega) hx hb hlp rfl
      case neg =>
        intro p' hp'
        cases (find_of_le hf (by omega : i + 1 ≤ 2 ^ 31 - 1) (by omega)).symm.trans hp'
        exact h.mod_eq_of_find hm hi hl hf <| Nat.not_lt.mp hb

-- The loop starts at the first character, whatever that is.
theorem splitsSafely_zero_iff (hs : str ≠ []) (hm : str.length ≤ maxSize) :
    SplitsSafely str 0 ↔ EndsInInt str := by
  have hl : 0 < str.length := List.length_pos_iff.mpr hs
  constructor
  case mp  => exact fun h => SplitsSafely.endsInInt (i := 0) h hm (by decide) hl
  case mpr => exact fun h => (SafeFrom.of_endsInInt h (by decide) hl).splitsSafely

theorem splitString_done (h : EndsInInt str) : ∃ ms, splitString str = .done ms := by
  cases str
  case nil => exact ⟨[], rfl⟩
  case cons c rest =>
    have hs := SafeFrom.of_endsInInt h (by decide) (Nat.zero_lt_succ rest.length)
    exact hs.done (splitFuel (c :: rest)) [] (by simp [splitFuel])

theorem endsInInt_nil : EndsInInt [] := by
  simp [EndsInInt, find]

end

variable {L : Type} {lg : Logger L}

theorem consumesSafely_iff (h : ∀ e ∈ lg.stdioStrings, e.2.length ≤ maxSize) :
    lg.ConsumesSafely ↔ ∀ e ∈ lg.stdioStrings, EndsInInt e.2 := by
  constructor
  case mp =>
    intro hc e he
    by_cases hn : e.2 = []
    case pos => exact hn ▸ endsInInt_nil
    case neg => exact (splitsSafely_zero_iff hn <| h e he).mp <| hc.strings e he hn
  case mpr =>
    intro he
    have ⟨es, hd⟩ := splitStdioStrings_done fun e hm => splitString_done <| he e hm
    refine ⟨⟨_, LoopResult.map_eq_done.mpr ⟨es, hd, rfl⟩⟩, fun e hm hn => ?_⟩
    exact (splitsSafely_zero_iff hn <| h e hm).mpr <| he e hm

-- Two pushes, the second of a whole line.
theorem consumesSafely_twoLines :
    (initial.pushStdioStr .info [97, 10]).ConsumesSafely ↔
      ∀ e ∈ (initial.pushStdioStr .info [97, 10]).stdioStrings, EndsInInt e.2 := by
  exact consumesSafely_iff (by decide)

-- A guest prints a line of `n` characters.
def longLine (n : Nat) : List Byte :=
  List.replicate n 97 ++ [newline]

theorem find_longLine {n pos : Nat} (h : pos ≤ n) : find (longLine n) newline pos = some n := by
  refine find_eq_some_iff.mpr ⟨h, ?found, fun j _ hj => ?before⟩
  case found => simp [longLine]
  case before =>
    rw [longLine, List.getElem?_append_left (by simpa using hj), List.getElem?_replicate, if_pos hj]
    decide

theorem not_endsInInt_longLine : ¬EndsInInt (longLine (2 ^ 31)) := by
  intro h
  have := h _ <| find_longLine (by decide)
  omega

theorem not_consumesSafely_longLine :
    ¬(initial.pushStdioStr .info (longLine (2 ^ 31))).ConsumesSafely := by
  intro h
  have hl : (longLine (2 ^ 31)).length = 2 ^ 31 + 1 := by
    rw [longLine, List.length_append, List.length_replicate]
    rfl
  have hn : longLine (2 ^ 31) ≠ [] := by
    rw [← List.length_pos_iff, hl]
    decide
  have hs := h.strings (.info, longLine (2 ^ 31)) (List.mem_cons_self ..) hn
  exact not_endsInInt_longLine <| (splitsSafely_zero_iff hn <| by rw [hl]; decide).mp hs

end Ecsact.Logger
