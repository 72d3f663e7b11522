import EcsactSiWasmer.Lib.ByteStore
import Mathlib.Data.List.Basic

-- `std::string` as the list of its bytes. A position or count is `none` where C++ has `npos`.

namespace StdString

abbrev Pos := Option Nat

-- The most bytes which a string can have.
def maxSize : Nat := 2 ^ 63 - 1

def find (s : List Byte) (c : Byte) (pos : Nat) : Pos :=
  ((s.drop pos).findIdx? (· == c)).map (pos + ·)

-- `none` where C++ throws `std::out_of_range`.
def substr (s : List Byte) (pos : Nat) : Pos → Option (List Byte)
  | none       => if pos ≤ s.length then some (s.drop pos) else none
  | some count => if pos ≤ s.length then some ((s.drop pos).take count) else none

-- The non-empty pieces of a text between the occurrences of `c`.
def segments (c : Byte) (s : List Byte) : List (List Byte) :=
  (s.splitOn c).filter (· ≠ [])

variable {s s₁ s₂ : List Byte} {c : Byte} {pos i : Nat}

theorem find_none (h : c ∉ s.drop pos) : find s c pos = none := by
  simp only [find, Option.map_eq_none_iff, List.findIdx?_eq_none_iff, beq_eq_false_iff_ne]
  exact fun x hx hc => h (hc ▸ hx)

theorem find_eq_some_iff : find s c pos = some i ↔
    pos ≤ i ∧ s[i]? = some c ∧ ∀ j, pos ≤ j → j < i → s[j]? ≠ some c := by
  simp only [find, Option.map_eq_some_iff, List.findIdx?_eq_some_iff_getElem, List.getElem_drop,
    beq_iff_eq]
  constructor
  case mp =>
    intro ⟨k, ⟨hk, hc, hf⟩, hi⟩
    rw [List.length_drop] at hk
    refine ⟨by omega, ?found, fun j hp hj => ?before⟩
    case found => rw [← hi, List.getElem?_eq_getElem (by omega), hc]
    case before =>
      have ⟨d, hd⟩ := Nat.exists_eq_add_of_le hp
      rw [hd, List.getElem?_eq_getElem (by omega)]
      exact fun h => hf d (by omega) <| Option.some.inj h
  case mpr =>
    intro ⟨hp, hc, hf⟩
    have ⟨k, hk⟩ := Nat.exists_eq_add_of_le hp
    have ⟨hl, hc⟩ := List.getElem?_eq_some_iff.mp hc
    refine ⟨k, ⟨by rw [List.length_drop]; omega, by simp only [← hk, hc], fun j hj h => ?_⟩, hk.symm⟩
    refine hf (pos + j) (Nat.le_add_right ..) (by omega) ?_
    rw [List.getElem?_eq_getElem (by omega), h]

-- A search finds something if there is something to find, and finds no later occurrence than that.
theorem find_of_getElem (h : s[i]? = some c) (hp : pos ≤ i) : ∃ j ≤ i, find s c pos = some j := by
  cases hf : find s c pos
  case none =>
    simp only [find, Option.map_eq_none_iff, List.findIdx?_eq_none_iff, beq_eq_false_iff_ne] at hf
    have ⟨k, hk⟩ := Nat.exists_eq_add_of_le hp
    exact absurd rfl <| hf c <| List.mem_of_getElem? <| by rw [List.getElem?_drop, ← hk, h]
  case some j =>
    refine ⟨j, Nat.not_lt.mp fun hj => ?_, rfl⟩
    exact (find_eq_some_iff.mp hf).2.2 i hp hj h

-- A search from further on, up to what a search has found, finds the same.
theorem find_of_le {j : Nat} (h : find s c pos = some i) (hp : pos ≤ j) (hj : j ≤ i) :
    find s c j = some i := by
  have ⟨_, hc, hf⟩ := find_eq_some_iff.mp h
  exact find_eq_some_iff.mpr ⟨hj, hc, fun k hk => hf k <| hp.trans hk⟩

theorem find_none_of_le {j : Nat} (h : find s c pos = none) (hp : pos ≤ j) : find s c j = none := by
  cases hf : find s c j
  case none => rfl
  case some k =>
    have ⟨hk, hc, _⟩ := find_eq_some_iff.mp hf
    have ⟨_, _, hs⟩ := find_of_getElem hc <| hp.trans hk
    exact absurd (h.symm.trans hs) (by simp)

theorem substr_of_le {count : Pos} (h : pos ≤ s.length) : ∃ t, substr s pos count = some t := by
  cases count <;> exact ⟨_, if_pos h⟩

-- The first occurrence behind a piece that does not contain the character.
theorem find_append_cons (h : c ∉ s₂) :
    find (s₁ ++ s₂ ++ c :: s) c s₁.length = some (s₁.length + s₂.length) := by
  have hf : s₂.findIdx? (· == c) = none := by
    simp only [List.findIdx?_eq_none_iff, beq_eq_false_iff_ne]
    exact fun x hx hc => h (hc ▸ hx)
  simp [find, List.append_assoc, List.findIdx?_append, hf, List.findIdx?_cons]

theorem segments_nil : segments c [] = [] := by
  simp [segments, List.splitOn]

theorem segments_of_not_mem (h : c ∉ s) (hs : s ≠ []) : segments c s = [s] := by
  simp [segments, List.splitOn_eq_singleton, h, hs]

theorem segments_cons : segments c (c :: s) = segments c s := by
  simp [segments, List.splitOn_cons_eq_if_modifyHead]

theorem not_mem_of_mem_splitOn (h : s₁ ∈ s.splitOn c) : c ∉ s₁ := by
  induction s generalizing s₁
  case nil => simp_all
  case cons x s hi =>
    rw [List.splitOn_cons_eq_if_modifyHead] at h
    split at h
    case isTrue =>
      cases List.mem_cons.mp h
      case inl h => simp [h]
      case inr h => exact hi h
    case isFalse hx =>
      cases hs : s.splitOn c
      case nil => exact absurd hs <| List.splitOn_ne_nil c s
      case cons hd tl =>
        rw [hs] at h hi
        cases List.mem_cons.mp h
        case inl h =>
          have hc : ¬c = x := fun e => hx <| by simp [e]
          simp [h, hc, hi (List.mem_cons_self ..)]
        case inr h => exact hi <| List.mem_cons_of_mem _ h

theorem not_mem_of_mem_segments (h : s₁ ∈ segments c s) : c ∉ s₁ :=
  not_mem_of_mem_splitOn <| List.mem_of_mem_filter h

end StdString
