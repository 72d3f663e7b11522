import Mathlib.Data.Int.CardIntervalMod

namespace RoundRobin

-- The slots of some turns, of which each takes the slot behind that of the turn before.
def turns (n start k : Nat) : List Nat :=
  (List.range k).map fun i => (start + i) % n

variable {n start k i j : Nat}

@[simp]
theorem length_turns : (turns n start k).length = k := by
  simp [turns]

-- No slot comes twice before all others have come.
theorem nodup_turns (h : k ≤ n) : (turns n start k).Nodup := by
  refine List.nodup_range.map_on fun i hi j hj he => ?_
  have hi := List.mem_range.mp hi
  have hj := List.mem_range.mp hj
  exact (Nat.ModEq.add_left_cancel' start he).eq_of_lt_of_lt (hi.trans_le h) (hj.trans_le h)

theorem take_drop_turns (h : i + n ≤ k) :
    ((turns n start k).drop i).take n = turns n (start + i) n := by
  refine List.ext_getElem (by simp; omega) fun l _ _ => ?_
  simp [turns, Nat.add_assoc]

theorem count_turns_eq (hn : 0 < n) :
    ∃ v, (turns n start k).count (j % n) = k.count (· ≡ v [MOD n]) := by
  refine ⟨j + (n - start % n), ?_⟩
  have hv : start + (j + (n - start % n)) ≡ j [MOD n] := by
    have hd := Nat.mod_lt start hn
    have he : start + (j + (n - start % n)) = j + n * (start / n + 1) := by
      have := Nat.div_add_mod start n
      rw [Nat.mul_add]
      omega
    rw [he]
    exact Nat.ModEq.symm <| by simp [Nat.ModEq]
  induction k
  case zero => rfl
  case succ k hi =>
    have ht : turns n start (k + 1) = turns n start k ++ [(start + k) % n] := by
      simp [turns, List.range_succ]
    rw [ht, List.count_append, hi, Nat.count_succ, List.count_singleton]
    refine congrArg (k.count _ + ·) ?_
    have hq : (start + k) % n = j % n ↔ k ≡ j + (n - start % n) [MOD n] := by
      constructor
      case mp  => exact fun h => Nat.ModEq.add_left_cancel' start <| Nat.ModEq.trans h hv.symm
      case mpr => exact fun h => Nat.ModEq.trans (h.add_left start) hv
    simp [hq]

-- After any number of turns, all slots have come about as often.
theorem count_turns_le (hn : 0 < n) (hi : i < n) (hj : j < n) :
    (turns n start k).count i ≤ (turns n start k).count j + 1 := by
  have ⟨v, hv⟩ := @count_turns_eq n start k i hn
  have ⟨v', hv'⟩ := @count_turns_eq n start k j hn
  rw [Nat.mod_eq_of_lt hi, Nat.count_modEq_card k hn] at hv
  rw [Nat.mod_eq_of_lt hj, Nat.count_modEq_card k hn] at hv'
  rw [hv, hv']
  split <;> split <;> omega

end RoundRobin
