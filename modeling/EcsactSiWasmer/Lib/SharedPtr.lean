import Mathlib.Data.List.Perm.Basic
import Mathlib.Data.List.Nodup
import Mathlib.Logic.Function.Basic

namespace SharedPtr

variable {α : Type} [DecidableEq α]

-- The control blocks of objects by their numbers of strong references, and the objects which have been
-- destroyed, in that order.
structure Blocks (α : Type) where
  count     : α → Nat := fun _ => 0
  destroyed : List α  := []

namespace Blocks

-- `std::make_shared`
def make (b : Blocks α) (a : α) : Blocks α :=
  { b with count := Function.update b.count a 1 }

def copy (b : Blocks α) (a : α) : Blocks α :=
  { b with count := Function.update b.count a (b.count a + 1) }

-- The end of a reference, and of the object if it was the last.
def release (b : Blocks α) (a : α) : Blocks α where
  count     := Function.update b.count a (b.count a - 1)
  destroyed := if b.count a = 1 then b.destroyed ++ [a] else b.destroyed

def releaseAll (b : Blocks α) (l : List α) : Blocks α :=
  l.foldl release b

-- What `std::weak_ptr::lock` finds out.
def expired (b : Blocks α) (a : α) : Bool :=
  b.count a = 0

end Blocks

-- The objects made so far have the given owners, one for each strong reference. All others are
-- destroyed, once each.
structure Owned (b : Blocks α) (made owners : List α) : Prop where
  count     : ∀ a, b.count a = owners.count a
  subset    : owners ⊆ made
  nodup     : b.destroyed.Nodup
  destroyed : ∀ a, a ∈ b.destroyed ↔ a ∈ made ∧ a ∉ owners

namespace Owned

variable {b : Blocks α} {made owners owners' : List α} {a : α}

theorem start : Owned ({} : Blocks α) [] [] where
  count _     := rfl
  subset      := List.Subset.refl _
  nodup       := .nil
  destroyed _ := by simp

theorem perm (h : Owned b made owners) (hp : owners.Perm owners') : Owned b made owners' where
  count a     := (h.count a).trans <| hp.count_eq a
  subset      := fun _ ha => h.subset <| hp.mem_iff.mpr ha
  nodup       := h.nodup
  destroyed a := (h.destroyed a).trans <| by rw [hp.mem_iff]

theorem expired_iff (h : Owned b made owners) : b.expired a = true ↔ a ∉ owners := by
  simp [Blocks.expired, h.count, List.count_eq_zero]

theorem make (h : Owned b made owners) (ha : a ∉ made) :
    Owned (b.make a) (made ++ [a]) (a :: owners) where
  count c := by
    by_cases hc : c = a
    case pos =>
      subst hc
      have hn : owners.count c = 0 := List.count_eq_zero.mpr fun ho => ha <| h.subset ho
      simp [Blocks.make, hn]
    case neg => simp [Blocks.make, hc, h.count, Ne.symm hc]
  subset := by
    refine List.cons_subset.mpr ⟨by simp, fun c hc => ?_⟩
    exact List.mem_append_left _ <| h.subset hc
  nodup := h.nodup
  destroyed c := by
    have hn : a ∉ b.destroyed := fun hd => ha ((h.destroyed a).mp hd).1
    by_cases hc : c = a
    case pos => simp [Blocks.make, hc, hn]
    case neg => simp [Blocks.make, hc, h.destroyed]

theorem copy (h : Owned b made owners) (ha : a ∈ owners) : Owned (b.copy a) made (a :: owners) where
  count c := by
    by_cases hc : c = a
    case pos => simp [Blocks.copy, hc, h.count]
    case neg => simp [Blocks.copy, hc, h.count, Ne.symm hc]
  subset := List.cons_subset.mpr ⟨h.subset ha, h.subset⟩
  nodup := h.nodup
  destroyed c := by
    by_cases hc : c = a
    case pos => simp [Blocks.copy, hc, h.destroyed, ha]
    case neg => simp [Blocks.copy, hc, h.destroyed]

theorem release (h : Owned b made (a :: owners)) : Owned (b.release a) made owners where
  count c := by
    have hk := h.count c
    by_cases hc : c = a
    case pos => simp_all [Blocks.release]
    case neg => simpa [Blocks.release, hc, List.count_cons, Ne.symm hc] using hk
  subset := (List.cons_subset.mp h.subset).2
  nodup := by
    have hn : a ∉ b.destroyed := fun hd => ((h.destroyed a).mp hd).2 List.mem_cons_self
    simp only [Blocks.release]
    split
    case isTrue  => exact h.nodup.append (List.nodup_singleton a) <| by simpa using hn
    case isFalse => exact h.nodup
  destroyed c := by
    have ha : a ∈ made := h.subset List.mem_cons_self
    have hk : b.count a = 1 ↔ a ∉ owners := by simp [h.count, List.count_eq_zero]
    by_cases hc : c = a
    case pos =>
      subst hc
      have hn : c ∉ b.destroyed := fun hd => ((h.destroyed c).mp hd).2 List.mem_cons_self
      simp only [Blocks.release]
      split <;> simp_all
    case neg =>
      have hd : c ∈ (b.release a).destroyed ↔ c ∈ b.destroyed := by
        simp only [Blocks.release]
        split <;> simp [hc]
      rw [hd, h.destroyed]
      simp [hc]

theorem releaseAll {l : List α} (h : Owned b made (l ++ owners)) :
    Owned (b.releaseAll l) made owners := by
  induction l generalizing b
  case nil => exact h
  case cons a l hi => exact hi h.release

end Owned
end SharedPtr
