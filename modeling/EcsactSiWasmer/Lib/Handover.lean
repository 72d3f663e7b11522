import Mathlib.Data.List.Basic

namespace List

section

variable {ι S E O : Type} (next : S → E → S) (observe : S → E → O) (Rest : S → Prop)

-- What several parties observe, as each event of a run is one of theirs.
def observations : List (ι × E) → S → List (ι × O)
  | [],           _ => []
  | (i, e) :: es, s => (i, observe s e) :: observations es (next s e)

-- Where the events go over to another party than the one before, the state is at rest.
def HandsOver : Option ι → List (ι × E) → S → Prop
  | _,    [],           _ => True
  | last, (i, e) :: es, s => (last ≠ some i → Rest s) ∧ HandsOver (some i) es (next s e)

end

-- A relation on the states which have an invariant. Related states look the same to each event, and
-- stay so, and all states at rest are related.
structure Unwinding {S E O : Type} (next : S → E → S) (observe : S → E → O) (Rest : S → Prop)
    (A : E → Prop) (R : S → S → Prop) : Prop where
  next    : ∀ {s t e}, R s t → A e → R (next s e) (next t e)
  observe : ∀ {s t e}, R s t → A e → observe s e = observe t e
  rested  : ∀ {s t}, R s t → Rest s → Rest t
  rest    : ∀ {s t}, R s s → R t t → Rest s → Rest t → R s t

namespace Unwinding

variable {ι S E O : Type} {next : S → E → S} {observe : S → E → O} {Rest : S → Prop}
  {A : E → Prop} {R : S → S → Prop} {s t : S} {es : List (ι × E)} {last : Option ι} {i : ι}

-- A party alone is either in a related state, as the last event was its own, or at rest.
theorem observations_filter_of [DecidableEq ι] (u : Unwinding next observe Rest A R) (hs : R s s)
    (ht : R t t) (ha : ∀ x ∈ es, A x.2) (hh : HandsOver next Rest last es s)
    (hl : last = some i → R s t) (hn : last ≠ some i → Rest t) :
    (observations next observe es s).filter (·.1 = i) =
      observations next observe (es.filter (·.1 = i)) t := by
  induction es generalizing last s t
  case nil => rfl
  case cons x es hi =>
    have ⟨j, e⟩ := x
    have ⟨he, ha⟩ := forall_mem_cons.mp ha
    have ⟨hr, hh⟩ := hh
    by_cases hj : j = i
    case pos =>
      subst hj
      have hst : R s t := by
        by_cases h : last = some j
        case pos => exact hl h
        case neg => exact u.rest hs ht (hr h) (hn h)
      have hf := @hi (next s e) (next t e) (some j) (u.next hs he) (u.next ht he) ha hh
        (fun _ => u.next hst he) (absurd rfl ·)
      simp only [observations, filter_cons, decide_true, if_true, hf, u.observe hst he]
    case neg =>
      have hrt : Rest t := by
        by_cases h : last = some i
        case pos => exact u.rested (hl h) <| hr fun h' => hj <| Option.some_inj.mp <| h'.symm.trans h
        case neg => exact hn h
      have hf := @hi (next s e) t (some j) (u.next hs he) ht ha hh
        (fun h => absurd (Option.some_inj.mp h) hj) fun _ => hrt
      rw [observations, filter_cons_of_neg (by simpa using hj), filter_cons_of_neg (by simpa using hj)]
      exact hf

-- What a party observes is what it observes alone.
theorem observations_filter [DecidableEq ι] (u : Unwinding next observe Rest A R) (hs : R s s)
    (hr : Rest s) (ha : ∀ x ∈ es, A x.2) (hh : HandsOver next Rest none es s) :
    (observations next observe es s).filter (·.1 = i) =
      observations next observe (es.filter (·.1 = i)) s :=
  u.observations_filter_of hs hs ha hh nofun fun _ => hr

end Unwinding
end List
