import Mathlib.Data.List.Basic
import Mathlib.Logic.Function.Basic

namespace List

variable {W N : Type} [DecidableEq N] {name : W → N} {log : List W} {n : N} {w : W}

-- The last entry of a log which has a name.
def latest (name : W → N) (log : List W) (n : N) : Option W :=
  log.reverse.find? (name · = n)

theorem latest_append :
    latest name (log ++ [w]) n = if name w = n then some w else latest name log n := by
  rw [latest, reverse_append, reverse_singleton, singleton_append]
  by_cases h : name w = n
  case pos => rw [find?_cons_of_pos (by simpa using h), if_pos h]
  case neg => rw [find?_cons_of_neg (by simpa using h), if_neg h, latest]

theorem mem_of_latest (h : latest name log n = some w) : w ∈ log :=
  mem_reverse.mp <| mem_of_find?_eq_some h

theorem name_of_latest (h : latest name log n = some w) : name w = n := by
  simpa using find?_some h

end List

-- Values under keys, and the key of the value that goes by a name.
structure Registry (N K V : Type) where
  table : K → Option V
  index : N → Option K

namespace Registry

variable {N K V W : Type}

section

variable [DecidableEq N] [DecidableEq K]

def erase (r : Registry N K V) (n : N) : Registry N K V :=
  match r.index n with
  | none   => r
  | some k => ⟨Function.update r.table k none, Function.update r.index n none⟩

-- Puts a value under a key, in the place of the one which went by the name so far.
def bind (r : Registry N K V) (n : N) (k : K) (v : V) : Registry N K V where
  table := Function.update (r.erase n).table k (some v)
  index := Function.update (r.erase n).index n (some k)

variable {r : Registry N K V} {n n' : N} {k k' : K} {v : V}

theorem erase_index : (r.erase n).index n' = if n' = n then none else r.index n' := by
  cases h : r.index n
  case some => simp only [erase, h, Function.update_apply]
  case none =>
    simp only [erase, h]
    split
    case isTrue hn => rw [hn, h]
    case isFalse   => rfl

theorem erase_table : (r.erase n).table k = if r.index n = some k then none else r.table k := by
  cases h : r.index n
  case none => simp [erase, h]
  case some => simp [erase, h, Function.update_apply, eq_comm]

theorem bind_index : (r.bind n k v).index n' = if n' = n then some k else r.index n' := by
  simp only [bind, Function.update_apply, erase_index]
  split <;> rfl

theorem bind_table : (r.bind n k v).table k' =
    if k' = k then some v else if r.index n = some k' then none else r.table k' := by
  simp only [bind, Function.update_apply, erase_table]

-- Nothing but what goes by the name, and what is under the key, is touched.
theorem bind_table_of_ne (hk : k' ≠ k) (hn : r.index n ≠ some k') :
    (r.bind n k v).table k' = r.table k' := by
  rw [bind_table, if_neg hk, if_neg hn]

end

-- The two maps are each other's inverses.
structure Consistent (name : V → N) (r : Registry N K V) : Prop where
  named   : ∀ {n k}, r.index n = some k → ∃ v, r.table k = some v ∧ name v = n
  indexed : ∀ {k v}, r.table k = some v → r.index (name v) = some k

-- A registry shows what a log of bindings says: the last entry for each name, and nothing else. The
-- view of a value is what does not change while it is bound.
structure Tracks [DecidableEq N] (name : W → N) (key : W → K) (view : V → W) (log : List W)
    (r : Registry N K V) : Prop where
  index : ∀ n, r.index n = (log.latest name n).map key
  table : ∀ k w, (r.table k).map view = some w ↔ key w = k ∧ log.latest name (name w) = some w

namespace Tracks

variable [DecidableEq N] {name : W → N} {key : W → K} {view : V → W} {log : List W}
  {r r' : Registry N K V}

theorem nil : Tracks name key view [] ⟨fun _ => none, fun _ => none⟩ where
  index _   := rfl
  table _ _ := ⟨nofun, nofun⟩

theorem consistent (h : Tracks name key view log r) : r.Consistent (name ∘ view) where
  named {n k} hn := by
    rw [h.index n, Option.map_eq_some_iff] at hn
    have ⟨w, hl, hk⟩ := hn
    have hw := List.name_of_latest hl
    have ⟨v, hv, he⟩ := Option.map_eq_some_iff.mp <| (h.table k w).mpr ⟨hk, hw.symm ▸ hl⟩
    exact ⟨v, hv, (congrArg name he).trans hw⟩
  indexed {k v} hv := by
    have ⟨hk, hl⟩ := (h.table k (view v)).mp <| by rw [hv, Option.map_some]
    rw [h.index, Function.comp_apply, hl, Option.map_some, hk]

-- A name's value is there for as long as there is no later entry for the name.
theorem exists_value {w : W} (h : Tracks name key view log r)
    (hl : log.latest name (name w) = some w) : ∃ v, r.table (key w) = some v ∧ view v = w :=
  Option.map_eq_some_iff.mp <| (h.table _ w).mpr ⟨rfl, hl⟩

-- An entry with a later one for its name is not to be found under its key any more.
theorem table_eq_none {w : W} (h : Tracks name key view log r)
    (hk : ∀ w' ∈ log, key w' = key w → w' = w) (hl : log.latest name (name w) ≠ some w) :
    r.table (key w) = none := by
  cases hv : r.table (key w)
  case none   => rfl
  case some v =>
    have ⟨hw, hl'⟩ := (h.table (key w) (view v)).mp <| by rw [hv, Option.map_some]
    rw [hk _ (List.mem_of_latest hl') hw] at hl'
    exact absurd hl' hl

theorem congr (h : Tracks name key view log r) (hi : r'.index = r.index)
    (ht : ∀ k, (r'.table k).map view = (r.table k).map view) : Tracks name key view log r' where
  index n   := by rw [hi, h.index]
  table k w := by rw [ht, h.table]

theorem bind [DecidableEq K] {w : W} {v : V} (h : Tracks name key view log r)
    (hw : ∀ w' ∈ log, key w' ≠ key w) (hv : view v = w) :
    Tracks name key view (log ++ [w]) (r.bind (name w) (key w) v) where
  index n := by
    rw [bind_index, List.latest_append, h.index]
    simp only [eq_comm]
    split <;> rfl
  table k w' := by
    rw [bind_table, List.latest_append]
    by_cases hk : k = key w
    case pos =>
      rw [if_pos hk, Option.map_some, hv, Option.some_inj]
      constructor
      case mp =>
        intro he
        rw [← he, hk, if_pos rfl]
        exact ⟨rfl, rfl⟩
      case mpr =>
        intro ⟨hk', hl⟩
        split at hl
        case isTrue  => exact Option.some_inj.mp hl
        case isFalse => exact absurd (hk'.trans hk) <| hw w' <| List.mem_of_latest hl
    case neg =>
      rw [if_neg hk, h.index]
      by_cases hn : name w = name w'
      case pos =>
        -- The entry which is in force for the name so far is the one that is erased.
        rw [if_pos hn]
        have hf : ¬(key w' = k ∧ some w = some w') := fun ⟨hk', he⟩ =>
          hk <| hk'.symm.trans <| congrArg key (Option.some_inj.mp he).symm
        refine ⟨fun he => ?_, fun he => absurd he hf⟩
        split at he
        case isTrue       => cases he
        case isFalse hne =>
          have ⟨hk', hl⟩ := (h.table k w').mp he
          rw [hn, hl, Option.map_some, hk'] at hne
          exact absurd rfl hne
      case neg =>
        rw [if_neg hn]
        split
        case isFalse => exact h.table k w'
        case isTrue he =>
          have ⟨w₁, hl₁, hk₁⟩ := Option.map_eq_some_iff.mp he
          have hw₁ := List.name_of_latest hl₁
          refine ⟨nofun, fun ⟨hk', hl⟩ => absurd hw₁ ?_⟩
          have h₁ := (h.table k w₁).mpr ⟨hk₁, hw₁.symm ▸ hl₁⟩
          have h₂ := (h.table k w').mpr ⟨hk', hl⟩
          rw [← Option.some_inj.mp (h₂.symm.trans h₁)]
          exact Ne.symm hn

end Tracks
end Registry
