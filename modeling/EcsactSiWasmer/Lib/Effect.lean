import Mathlib.Order.RelClasses
import Mathlib.Logic.Function.Basic

namespace EStateM

variable {ε σ τ α β γ : Type}

namespace Result

-- The state in which a computation ends, whether it returns or fails.
def state : Result ε σ α → σ
  | ok _ s | error _ s => s

@[simp]
theorem state_ok {a : α} {s : σ} : (ok a s : Result ε σ α).state = s :=
  rfl

@[simp]
theorem state_error {e : ε} {s : σ} : (error e s : Result ε σ α).state = s :=
  rfl

end Result

def Result.mapState (f : σ → σ) : Result ε σ α → Result ε σ α
  | ok a s    => ok a (f s)
  | error e s => error e (f s)

theorem pure_apply (a : α) (s : σ) : (pure a : EStateM ε σ α) s = .ok a s :=
  rfl

theorem get_apply (s : σ) : (get : EStateM ε σ σ) s = .ok s s :=
  rfl

theorem modify_apply (f : σ → σ) (s : σ) : (modify f : EStateM ε σ Unit) s = .ok () (f s) :=
  rfl

theorem bind_ok {x : EStateM ε σ α} {f : α → EStateM ε σ β} {s s' : σ} {a : α}
    (h : x s = .ok a s') : (x >>= f) s = f a s' := by
  simp only [bind, EStateM.bind, h]

theorem bind_error {x : EStateM ε σ α} {f : α → EStateM ε σ β} {s s' : σ} {e : ε}
    (h : x s = .error e s') : (x >>= f) s = .error e s' := by
  simp only [bind, EStateM.bind, h]

-- A sequence returns only if both of its parts do.
theorem bind_eq_ok {x : EStateM ε σ α} {f : α → EStateM ε σ β} {s s₂ : σ} {b : β} :
    (x >>= f) s = .ok b s₂ ↔ ∃ a s₁, x s = .ok a s₁ ∧ f a s₁ = .ok b s₂ := by
  cases h : x s <;> simp [bind, EStateM.bind, h, and_assoc]

theorem bind_eq_error {x : EStateM ε σ α} {f : α → EStateM ε σ β} {s s₂ : σ} {e : ε} :
    (x >>= f) s = .error e s₂ ↔
      x s = .error e s₂ ∨ ∃ a s₁, x s = .ok a s₁ ∧ f a s₁ = .error e s₂ := by
  cases h : x s <;> simp [bind, EStateM.bind, h, and_assoc]

-- What is true of the result, from one state.

theorem exists_ok_iff {x : EStateM ε σ α} {s s' : σ} {a : α} {P : α → Prop}
    (h : x s = .ok a s') : (∃ a' s', x s = .ok a' s' ∧ P a') ↔ P a := by
  simp [h]

theorem not_exists_ok {x : EStateM ε σ α} {s s' : σ} {e : ε} {P : α → Prop}
    (h : x s = .error e s') : ¬∃ a s', x s = .ok a s' ∧ P a := by
  simp [h]

-- Runs a computation on a part of a larger state.
def zoom (view : τ → σ) (put : σ → τ → τ) (x : EStateM ε σ α) : EStateM ε τ α := fun t =>
  match x (view t) with
  | .ok a s    => .ok a (put s t)
  | .error e s => .error e (put s t)

theorem zoom_ok {view : τ → σ} {put : σ → τ → τ} {x : EStateM ε σ α} {a : α} {s : σ} {t : τ}
    (h : x (view t) = .ok a s) : zoom view put x t = .ok a (put s t) := by
  simp only [zoom, h]

theorem zoom_error {view : τ → σ} {put : σ → τ → τ} {x : EStateM ε σ α} {e : ε} {s : σ} {t : τ}
    (h : x (view t) = .error e s) : zoom view put x t = .error e (put s t) := by
  simp only [zoom, h]

theorem zoom_eq_ok {view : τ → σ} {put : σ → τ → τ} {x : EStateM ε σ α} {a : α} {t t' : τ} :
    zoom view put x t = .ok a t' ↔ ∃ s, x (view t) = .ok a s ∧ t' = put s t := by
  cases h : x (view t) <;> simp [zoom, h, and_assoc, eq_comm]

theorem zoom_eq_error {view : τ → σ} {put : σ → τ → τ} {x : EStateM ε σ α} {e : ε} {t t' : τ} :
    zoom view put x t = .error e t' ↔ ∃ s, x (view t) = .error e s ∧ t' = put s t := by
  cases h : x (view t) <;> simp [zoom, h, and_assoc, eq_comm]

-- `x` relates the state it starts in to the state it ends in by `R`.
def Within (R : σ → σ → Prop) (x : EStateM ε σ α) : Prop :=
  ∀ s, R s (x s).state

-- `x` never fails with an error in `F`.
def Avoids (F : ε → Prop) (x : EStateM ε σ α) : Prop :=
  ∀ s e s', x s = .error e s' → ¬F e

-- The relation between states which agree on a projection.
def Keeps (p : σ → γ) (s s' : σ) : Prop :=
  p s' = p s

instance {p : σ → γ} : IsPreorder σ (Keeps p) where
  refl _ := rfl
  trans _ _ _ h₁ h₂ := Eq.trans h₂ h₁

namespace Within

variable {R : σ → σ → Prop} {x : EStateM ε σ α} {f : α → EStateM ε σ β}

theorem of_ok (h : Within R x) {s s' : σ} {a : α} (hx : x s = .ok a s') : R s s' := by
  simpa [hx] using h s

theorem of_error (h : Within R x) {s s' : σ} {e : ε} (hx : x s = .error e s') : R s s' := by
  simpa [hx] using h s

theorem mono {S : σ → σ → Prop} (h : Within R x) (hs : ∀ s s', R s s' → S s s') : Within S x :=
  fun s => hs _ _ <| h s

theorem modify {f : σ → σ} (h : ∀ s, R s (f s)) :
    Within R (modify f : EStateM ε σ Unit) :=
  h

theorem zoom {S : τ → τ → Prop} {view : τ → σ} {put : σ → τ → τ} (h : Within R x)
    (hs : ∀ t s, R (view t) s → S t (put s t)) : Within S (zoom view put x) := by
  intro t
  have hr := h (view t)
  cases hx : x (view t) <;> simp only [EStateM.zoom, hx, Result.state] at hr ⊢ <;> exact hs _ _ hr

theorem ite {c : Prop} [Decidable c] {y : EStateM ε σ α} (hx : Within R x) (hy : Within R y) :
    Within R (if c then x else y) := by
  split <;> assumption

variable [IsPreorder σ R]

theorem pure {a : α} : Within R (pure a : EStateM ε σ α) :=
  fun s => refl_of R s

theorem throw {e : ε} : Within R (throw e : EStateM ε σ α) :=
  fun s => refl_of R s

theorem get : Within R (get : EStateM ε σ σ) :=
  fun s => refl_of R s

-- It is enough to know of the first part what it does from one state.
theorem bind_state {s : σ} (hx : R s (x s).state) (hf : ∀ a, Within R (f a)) :
    R s ((x >>= f) s).state := by
  cases h : x s
  case ok a s₁   => rw [h] at hx; rw [bind_ok h]; exact trans_of R hx (hf a s₁)
  case error e _ => rw [h] at hx; rw [bind_error h]; exact hx

theorem bind (hx : Within R x) (hf : ∀ a, Within R (f a)) : Within R (x >>= f) :=
  fun s => bind_state (hx s) hf

end Within

namespace Avoids

variable {F : ε → Prop} {x : EStateM ε σ α} {f : α → EStateM ε σ β}

theorem pure {a : α} : Avoids F (pure a : EStateM ε σ α) := by
  intro _ _ _ h
  cases h

theorem throw {e : ε} (h : ¬F e) : Avoids F (throw e : EStateM ε σ α) := by
  intro _ _ _ he
  cases he
  exact h

theorem get : Avoids F (get : EStateM ε σ σ) := by
  intro _ _ _ h
  cases h

theorem modify {g : σ → σ} : Avoids F (modify g : EStateM ε σ Unit) := by
  intro _ _ _ h
  cases h

theorem bind (hx : Avoids F x) (hf : ∀ a, Avoids F (f a)) : Avoids F (x >>= f) := by
  intro s e s' h
  cases bind_eq_error.mp h
  case inl h => exact hx _ _ _ h
  case inr h =>
    have ⟨a, _, _, h⟩ := h
    exact hf a _ _ _ h

theorem ite {c : Prop} [Decidable c] {y : EStateM ε σ α} (hx : Avoids F x) (hy : Avoids F y) :
    Avoids F (if c then x else y) := by
  split <;> assumption

theorem zoom {view : τ → σ} {put : σ → τ → τ} (h : Avoids F x) : Avoids F (zoom view put x) := by
  intro t e t' he
  cases hx : x (view t) <;> simp only [EStateM.zoom, hx] at he <;> cases he
  exact h _ _ _ hx

end Avoids

-- A change of the state that `x` starts in is made to the state which it ends in, or it is lost.
def Carries (f : σ → σ) (x : EStateM ε σ α) : Prop :=
  ∀ s, x (f s) = (x s).mapState f ∨ x (f s) = x s

namespace Carries

variable {f : σ → σ} {x : EStateM ε σ α} {g : α → EStateM ε σ β}

theorem pure {a : α} : Carries f (pure a : EStateM ε σ α) :=
  fun _ => .inl rfl

theorem throw {e : ε} : Carries f (throw e : EStateM ε σ α) :=
  fun _ => .inl rfl

theorem modify {h : σ → σ} (hf : ∀ s, h (f s) = f (h s) ∨ h (f s) = h s) :
    Carries f (modify h : EStateM ε σ Unit) := by
  intro s
  refine (hf s).imp (fun hs => ?_) fun hs => ?_
  all_goals rw [modify_apply, modify_apply, hs]
  rfl

theorem bind (hx : Carries f x) (hg : ∀ a, Carries f (g a)) : Carries f (x >>= g) := by
  intro s
  cases hx s
  case inr h => exact .inr <| by simp only [EStateM.bind, h, Bind.bind]
  case inl h =>
    cases hs : x s
    case error e s' =>
      rw [hs] at h
      exact .inl <| by rw [bind_error h, bind_error hs]; rfl
    case ok a s' =>
      rw [hs] at h
      rw [bind_ok h, bind_ok hs]
      exact hg a s'

-- What is read is not what is changed.
theorem get_bind {g : σ → EStateM ε σ β} (hs : ∀ s, g (f s) = g s) (hg : ∀ s, Carries f (g s)) :
    Carries f (get >>= g) := by
  intro s
  rw [bind_ok (get_apply _), bind_ok (get_apply _), hs]
  exact hg s s

theorem ite {c : Prop} [Decidable c] {y : EStateM ε σ α} (hx : Carries f x) (hy : Carries f y) :
    Carries f (if c then x else y) := by
  split <;> assumption

theorem zoom {view : σ → τ} {put : τ → σ → σ} {y : EStateM ε τ α} (hv : ∀ s, view (f s) = view s)
    (hp : ∀ t s, put t (f s) = f (put t s)) : Carries f (zoom view put y) := by
  intro s
  cases h : y (view s)
  all_goals
    refine .inl ?_
    simp only [EStateM.zoom, hv, h, hp]
    rfl

-- With the change, `x` returns the same.
theorem ok (hx : Carries f x) {s s' : σ} {a : α} (h : x s = .ok a s') :
    ∃ s'', x (f s) = .ok a s'' := by
  cases hx s
  case inl hs => exact ⟨f s', by rw [hs, h]; rfl⟩
  case inr hs => exact ⟨s', hs.trans h⟩

end Carries

-- What is done after `x`, if that returns.
def after (x : EStateM ε σ α) (k : α → σ → List γ) (s : σ) : List γ :=
  match x s with
  | .ok a s'   => k a s'
  | .error _ _ => []

theorem after_ok {x : EStateM ε σ α} {k : α → σ → List γ} {s s' : σ} {a : α} (h : x s = .ok a s') :
    after x k s = k a s' := by
  rw [after, h]

theorem after_error {x : EStateM ε σ α} {k : α → σ → List γ} {s s' : σ} {e : ε}
    (h : x s = .error e s') : after x k s = [] := by
  rw [after, h]

theorem after_eq_nil {x : EStateM ε σ α} {k : α → σ → List γ} {s : σ} (h : ∀ a s', k a s' = []) :
    after x k s = [] := by
  rw [after]
  split
  case h_1 => exact h ..
  case h_2 => rfl

-- A relation between states by the list of what is done from the one to the other.
class Recounts (R : σ → List γ → σ → Prop) : Prop where
  nil    : ∀ s, R s [] s
  append : ∀ {s s' s'' : σ} {l l' : List γ}, R s l s' → R s' l' s'' → R s (l ++ l') s''

namespace Recounts

variable {R : σ → List γ → σ → Prop} [Recounts R] {x : EStateM ε σ α} {f : α → EStateM ε σ β}
  {k : α → σ → List γ} {l : List γ} {s : σ}

theorem bind (hx : R s l (x s).state)
    (hf : ∀ a s', x s = .ok a s' → R s' (k a s') (f a s').state) :
    R s (l ++ after x k s) ((x >>= f) s).state := by
  cases h : x s
  case ok a s' =>
    rw [h] at hx
    rw [bind_ok h, after, h]
    exact append hx <| hf a s' h
  case error =>
    rw [h] at hx
    rw [bind_error h, after, h, List.append_nil]
    exact hx

-- One of the two parts does nothing of what is listed.

theorem bind_nil (hx : R s [] (x s).state)
    (hf : ∀ a s', x s = .ok a s' → R s' (k a s') (f a s').state) :
    R s (after x k s) ((x >>= f) s).state :=
  bind hx hf

theorem nil_bind (hx : R s l (x s).state) (hf : ∀ a s', x s = .ok a s' → R s' [] (f a s').state) :
    R s l ((x >>= f) s).state := by
  have h := bind hx hf
  rwa [after_eq_nil fun _ _ => rfl, List.append_nil] at h

end Recounts
end EStateM
