import Mathlib.Logic.Basic

namespace List

variable {S E : Type} {next : S → E → S} {s : S} {es : List E}

-- A property holds of each step of a run and of the state which it is made in.
def Along (next : S → E → S) (P : S → E → Prop) : S → List E → Prop
  | _, []      => True
  | s, e :: es => P s e ∧ Along next P (next s e) es

namespace Along

variable {P Q : S → E → Prop} {I : S → Prop} {A : E → Prop}

-- A condition which carries an invariant from state to state is as good as what it is equivalent to
-- in the states with the invariant.
theorem iff_of_invariant (hs : I s) (ha : ∀ e ∈ es, A e)
    (hi : ∀ s e, I s → A e → Q s e → I (next s e)) (h : ∀ s e, I s → A e → (P s e ↔ Q s e)) :
    Along next P s es ↔ Along next Q s es := by
  induction es generalizing s
  case nil => exact Iff.rfl
  case cons e es ih =>
    have ⟨he, ha⟩ := forall_mem_cons.mp ha
    constructor
    case mp =>
      intro ⟨hp, hl⟩
      have hq := (h s e hs he).mp hp
      exact ⟨hq, (ih (hi s e hs he hq) ha).mp hl⟩
    case mpr =>
      intro ⟨hq, hl⟩
      exact ⟨(h s e hs he).mpr hq, (ih (hi s e hs he hq) ha).mpr hl⟩

-- What does not depend on the states holds along a run if it holds of its steps.
theorem const_iff : Along next (fun _ => A) s es ↔ ∀ e ∈ es, A e := by
  induction es generalizing s
  case nil           => exact iff_of_true trivial nofun
  case cons e es ih  => rw [forall_mem_cons, Along, ih]

end Along

-- The runs of a relation, with what each of their steps is.
inductive Traces {G : Type} (step : G → E → G → Prop) : G → List E → G → Prop
  | nil {g : G} : Traces step g [] g
  | cons {g g' g'' : G} {e : E} {es : List E} : step g e g' → Traces step g' es g'' →
      Traces step g (e :: es) g''

-- A relation between two systems which each step keeps is kept by their runs.
theorem Traces.related {G : Type} {step : G → E → G → Prop} {P : S → E → Prop} {R : G → S → Prop}
    {g g' : G} (h : Traces step g es g') (hr : R g s) (ha : Along next P s es)
    (hs : ∀ g e g' s, R g s → P s e → step g e g' → R g' (next s e)) :
    R g' (es.foldl next s) := by
  induction h generalizing s
  case nil                 => exact hr
  case cons g _ _ e _ h _ hi =>
    have ⟨hp, ha⟩ := ha
    exact hi (hs g e _ s hr hp h) ha

end List
