import Mathlib.Data.List.Basic
import Mathlib.Logic.Function.Basic
import Mathlib.Logic.Relation

namespace RecursiveMutex

-- What a thread does with a state which threads share. Where to go on after an access can depend on
-- the state which the access finds. A thread that hangs does nothing more.
inductive Code (σ : Type)
  | done
  | hang
  | lock (next : Code σ)
  | unlock (next : Code σ)
  | access (f : σ → σ) (next : σ → Code σ)

namespace Code

variable {σ : Type}

-- All of the code at once, as if there were no other thread.
def finish : Code σ → σ → Option σ
  | done,          s => some s
  | hang,          _ => none
  | lock next,     s => next.finish s
  | unlock next,   s => next.finish s
  | access f next, s => (next s).finish (f s)

-- The rest of a section, which has locked the mutex `n` times more than the first. The end of the
-- section is that of the code.
inductive Inside : Nat → Code σ → Prop
  | hang {n : Nat} : Inside n hang
  | leave : Inside 0 (unlock done)
  | lock {n : Nat} {next : Code σ} : Inside (n + 1) next → Inside n (lock next)
  | unlock {n : Nat} {next : Code σ} : Inside n next → Inside (n + 1) (unlock next)
  | access {n : Nat} {f : σ → σ} {next : σ → Code σ} :
      (∀ s, Inside n (next s)) → Inside n (access f next)

-- Code which consists of a section.
inductive Section : Code σ → Prop
  | lock {body : Code σ} : Inside 0 body → Section (lock body)

end Code

namespace Code

variable {σ : Type} {body : Code σ}

theorem Section.inside (h : (Code.lock body).Section) : body.Inside 0 := by
  cases h
  assumption

theorem Section.eq_lock {code : Code σ} (h : code.Section) : ∃ body, code = Code.lock body := by
  cases h
  exact ⟨_, rfl⟩

theorem Section.ne_done {code : Code σ} (h : code.Section) : code ≠ done := by
  cases h
  nofun

theorem Section.ne_hang {code : Code σ} (h : code.Section) : hang ≠ code := by
  cases h
  nofun

theorem Section.ne_access {code : Code σ} {f : σ → σ} {next : σ → Code σ} (h : code.Section) :
    access f next ≠ code := by
  cases h
  nofun

end Code

-- Several threads and what they share. `holder` is the thread which holds the mutex, and how many
-- times more than once. The calls are in the order in which they were made, and in that in which
-- their sections were entered.
structure Config (τ α σ : Type) where
  shared  : σ
  holder  : Option (τ × Nat)        := none
  current : τ → Option (α × Code σ) := fun _ => none
  called  : List (τ × α)            := []
  entered : List (τ × α)            := []

namespace Config

variable {τ α σ : Type} [DecidableEq τ]

def goTo (c : Config τ α σ) (t : τ) (a : α) (next : Code σ) : Config τ α σ :=
  { c with current := Function.update c.current t (some (a, next)) }

def exit (c : Config τ α σ) (t : τ) : Config τ α σ :=
  { c with current := Function.update c.current t none }

end Config

section

variable {τ α σ : Type} [DecidableEq τ] (code : α → Code σ)

-- A thread which is in no call may make one.
inductive Step : Config τ α σ → Config τ α σ → Prop
  | call {c : Config τ α σ} {t : τ} {a : α} : c.current t = none →
      Step c { c.goTo t a (code a) with called := c.called ++ [(t, a)] }
  | enter {c : Config τ α σ} {t : τ} {a : α} {next : Code σ} :
      c.current t = some (a, .lock next) → c.holder = none →
      Step c { c.goTo t a next with holder := some (t, 0), entered := c.entered ++ [(t, a)] }
  | lock {c : Config τ α σ} {t : τ} {a : α} {next : Code σ} {n : Nat} :
      c.current t = some (a, .lock next) → c.holder = some (t, n) →
      Step c { c.goTo t a next with holder := some (t, n + 1) }
  | access {c : Config τ α σ} {t : τ} {a : α} {f : σ → σ} {next : σ → Code σ} :
      c.current t = some (a, .access f next) →
      Step c { c.goTo t a (next c.shared) with shared := f c.shared }
  | unlock {c : Config τ α σ} {t : τ} {a : α} {next : Code σ} {n : Nat} :
      c.current t = some (a, .unlock next) → c.holder = some (t, n + 1) →
      Step c { c.goTo t a next with holder := some (t, n) }
  | leave {c : Config τ α σ} {t : τ} {a : α} {next : Code σ} :
      c.current t = some (a, .unlock next) → c.holder = some (t, 0) →
      Step c { c.goTo t a next with holder := none }
  | exit {c : Config τ α σ} {t : τ} {a : α} : c.current t = some (a, .done) → Step c (c.exit t)

def Reachable (s₀ : σ) : Config τ α σ → Prop :=
  Relation.ReflTransGen (Step code) { shared := s₀ }

end

-- The calls one after the other, each without an interruption.
def atomically {τ α σ : Type} (code : α → Code σ) : List (τ × α) → σ → Option σ
  | [],      s => some s
  | e :: es, s => (code e.2).finish s >>= atomically code es

theorem atomically_append {τ α σ : Type} {code : α → Code σ} {es : List (τ × α)} {e : τ × α} {s : σ} :
    atomically code (es ++ [e]) s = atomically code es s >>= (code e.2).finish := by
  induction es generalizing s
  case nil => cases h : (code e.2).finish s <;> simp [atomically, h]
  case cons e' es hi =>
    cases h : (code e'.2).finish s
    case none   => simp [atomically, h]
    case some s => simpa [atomically, h] using hi

section

variable {τ α σ : Type} [DecidableEq τ] (code : α → Code σ) (s₀ : σ) (c : Config τ α σ)

def callsOf (l : List (τ × α)) (t : τ) : List (τ × α) :=
  l.filter (·.1 = t)

-- Where a thread is which does not hold the mutex: in no call, or before or after the section of one.
inductive Waits (t : τ) : Prop
  | idle : c.current t = none → callsOf c.called t = callsOf c.entered t → Waits t
  | before {a : α} : c.current t = some (a, code a) →
      callsOf c.called t = callsOf c.entered t ++ [(t, a)] → Waits t
  | after {a : α} : c.current t = some (a, .done) →
      callsOf c.called t = callsOf c.entered t → Waits t

-- To finish the section which a thread is in gives what the calls would give atomically.
structure Inside (t : τ) (n : Nat) : Prop where
  current : ∃ a next, c.current t = some (a, next) ∧ next.Inside n ∧
    atomically code c.entered s₀ = next.finish c.shared
  calls   : callsOf c.called t = callsOf c.entered t

structure Locked : Prop where
  free  : c.holder = none → atomically code c.entered s₀ = some c.shared
  held  : ∀ t n, c.holder = some (t, n) → Inside code s₀ c t n
  waits : ∀ t, (∀ n, c.holder ≠ some (t, n)) → Waits code c t

end

namespace Locked

variable {τ α σ : Type} [DecidableEq τ] {code : α → Code σ} {s₀ : σ} {c c' : Config τ α σ} {t : τ}
  {a : α} {n : Nat} {next : Code σ}

theorem start : Locked code s₀ ({ shared := s₀ } : Config τ α σ) where
  free _  := rfl
  held    := by simp
  waits _ _ := .idle rfl rfl

-- A thread which waits is left alone by the steps of another.
theorem waits_of {u : τ} (h : Waits code c u) (hc : c'.current u = c.current u)
    (hl : callsOf c'.called u = callsOf c.called u)
    (he : callsOf c'.entered u = callsOf c.entered u) : Waits code c' u := by
  cases h
  case idle hu hk   => exact .idle (hc.trans hu) <| hl.trans <| hk.trans he.symm
  case before hu hk => exact .before (hc.trans hu) <| by rw [hl, hk, he]
  case after hu hk  => exact .after (hc.trans hu) <| hl.trans <| hk.trans he.symm

-- Code other than that of a whole call, or of none, is in a section.
theorem holds (h : Locked code s₀ c) (hc : c.current t = some (a, next))
    (hn : next ≠ .done) (ha : next ≠ code a) : ∃ n, c.holder = some (t, n) := by
  by_contra hh
  cases h.waits t <| not_exists.mp hh
  case idle hu _ => simp [hu] at hc
  case before a' hu _ =>
    rw [hu] at hc
    cases hc
    exact ha rfl
  case after hu _ =>
    rw [hu] at hc
    cases hc
    exact hn rfl

-- A step in a section.
theorem move (h : Locked code s₀ c) (hh : c.holder = some (t, n)) {m : Nat} {s : σ}
    (hi : next.Inside m)
    (hf : atomically code c.entered s₀ = next.finish s) :
    Locked code s₀ { c.goTo t a next with shared := s, holder := some (t, m) } where
  free  := nofun
  held  := by
    rintro _ _ ⟨⟩
    exact ⟨⟨a, next, by simp [Config.goTo], hi, hf⟩, (h.held t n hh).calls⟩
  waits u hu := by
    have hne : u ≠ t := fun he => hu m <| he ▸ rfl
    refine waits_of (h.waits u fun k hk => hne ?_) (by simp [Config.goTo, hne]) rfl rfl
    simpa using (Prod.ext_iff.mp <| Option.some_inj.mp <| hk.symm.trans hh).1

theorem step (h : Locked code s₀ c) (hc : ∀ a, (code a).Section) (hs : Step code c c') :
    Locked code s₀ c' := by
  cases hs
  case call t a hn =>
    have ht : ∀ n, c.holder ≠ some (t, n) := fun n hh => by
      have ⟨_, _, hu, _⟩ := (h.held t n hh).current
      simp [hn] at hu
    have hl : callsOf c.called t = callsOf c.entered t := by
      cases h.waits t ht <;> simp_all
    have hu {u : τ} (hne : u ≠ t) : callsOf (c.called ++ [(t, a)]) u = callsOf c.called u := by
      simp [callsOf, hne.symm]
    refine ⟨h.free, fun u n hh => ?held, fun u hw => ?waits⟩
    case held =>
      have hne : u ≠ t := fun he => ht n <| he ▸ hh
      have hi := h.held u n hh
      exact ⟨by simpa [Config.goTo, hne] using hi.current, (hu hne).trans hi.calls⟩
    case waits =>
      by_cases he : u = t
      case pos =>
        subst he
        refine .before (a := a) (by simp [Config.goTo]) ?_
        simpa [callsOf, Config.goTo] using hl
      case neg => exact waits_of (h.waits u hw) (by simp [Config.goTo, he]) (hu he) rfl
  case enter t a next hn hh =>
    have hw := h.waits t <| by simp [hh]
    cases hw
    case idle hu _  => simp [hu] at hn
    case after hu _ => simp [hu] at hn
    case before a' hu hl =>
      obtain ⟨rfl, hx⟩ := Prod.mk.inj <| Option.some_inj.mp <| hu.symm.trans hn
      have hi : next.Inside 0 := (hx ▸ hc a').inside
      have hf : atomically code (c.entered ++ [(t, a')]) s₀ = next.finish c.shared := by
        rw [atomically_append, h.free hh, hx]
        rfl
      refine ⟨nofun, ?held, fun u hw => ?waits⟩
      case held =>
        rintro _ _ ⟨⟩
        exact ⟨⟨a', next, by simp [Config.goTo], hi, hf⟩, by simpa [callsOf, Config.goTo] using hl⟩
      case waits =>
        have hne : u ≠ t := fun he => hw 0 <| he ▸ rfl
        refine waits_of (h.waits u <| by simp [hh]) (by simp [Config.goTo, hne]) rfl ?_
        simp [callsOf, hne.symm]
  case lock t a next n hn hh =>
    have ⟨_, _, hu, hi, hf⟩ := (h.held t n hh).current
    cases hn.symm.trans hu
    cases hi
    case lock hi => exact h.move hh hi hf
  case access t a f next hn =>
    have ⟨n, hh⟩ := h.holds hn nofun (hc a).ne_access
    have ⟨_, _, hu, hi, hf⟩ := (h.held t n hh).current
    cases hn.symm.trans hu
    cases hi
    case access hi =>
      have hm := h.move (a := a) hh (hi c.shared) hf
      rwa [← hh] at hm
  case unlock t a next n hn hh =>
    have ⟨_, _, hu, hi, hf⟩ := (h.held t _ hh).current
    cases hn.symm.trans hu
    cases hi
    case unlock hi => exact h.move hh hi hf
  case leave t a next hn hh =>
    have hi := h.held t 0 hh
    have ⟨_, _, hu, hx, hf⟩ := hi.current
    cases hn.symm.trans hu
    cases hx
    refine ⟨fun _ => hf, nofun, fun u _ => ?_⟩
    by_cases he : u = t
    case pos =>
      subst he
      exact .after (a := a) (by simp [Config.goTo]) hi.calls
    case neg =>
      refine waits_of (h.waits u fun k hk => he ?_) (by simp [Config.goTo, he]) rfl rfl
      simpa using (Prod.ext_iff.mp <| Option.some_inj.mp <| hk.symm.trans hh).1
  case exit t a hn =>
    have ht : ∀ n, c.holder ≠ some (t, n) := fun n hh => by
      have ⟨_, _, hu, hi, _⟩ := (h.held t n hh).current
      cases hn.symm.trans hu
      cases hi
    have hl : callsOf c.called t = callsOf c.entered t := by
      cases h.waits t ht
      case idle hu _  => simp [hu] at hn
      case after hl   => exact hl
      case before hu _ =>
        exact absurd (Prod.mk.inj <| Option.some_inj.mp <| hu.symm.trans hn).2 (hc _).ne_done
    refine ⟨h.free, fun u n hh => ?held, fun u hw => ?waits⟩
    case held =>
      have hne : u ≠ t := fun he => ht n <| he ▸ hh
      have hi := h.held u n hh
      exact ⟨by simpa [Config.exit, hne] using hi.current, hi.calls⟩
    case waits =>
      by_cases he : u = t
      case pos =>
        subst he
        exact .idle (by simp [Config.exit]) hl
      case neg => exact waits_of (h.waits u hw) (by simp [Config.exit, he]) rfl rfl

-- A thread has entered its calls in the order in which it has made them, but for one that waits.
theorem entered_isPrefix (h : Locked code s₀ c) (t : τ) :
    callsOf c.entered t <+: callsOf c.called t := by
  by_cases hw : ∀ n, c.holder ≠ some (t, n)
  case pos =>
    cases h.waits t hw
    case idle hl     => exact hl ▸ List.prefix_refl _
    case before hl   => exact hl ▸ List.prefix_append _ _
    case after hl    => exact hl ▸ List.prefix_refl _
  case neg =>
    have ⟨n, hh⟩ := not_forall_not.mp hw
    exact (h.held t n hh).calls ▸ List.prefix_refl _

-- As long as no section hangs, some thread which is in a call gets on with it.
theorem progress (h : Locked code s₀ c) (hc : ∀ a, (code a).Section)
    (ha : c.current t = some (a, next)) (hn : ∀ u b, c.current u ≠ some (b, .hang)) :
    ∃ c', Step code c c' ∧ c'.called = c.called := by
  cases hh : c.holder
  case some e =>
    obtain ⟨u, n⟩ := e
    have ⟨b, next, hu, hi, _⟩ := (h.held u n hh).current
    cases hi
    case hang        => exact absurd hu <| hn u b
    case leave       => exact ⟨_, .leave hu hh, rfl⟩
    case lock        => exact ⟨_, .lock hu hh, rfl⟩
    case unlock      => exact ⟨_, .unlock hu hh, rfl⟩
    case access      => exact ⟨_, .access hu, rfl⟩
  case none =>
    cases h.waits t <| by simp [hh]
    case idle hu _  => simp [hu] at ha
    case after hu _ => exact ⟨_, .exit hu, rfl⟩
    case before b hu _ =>
      obtain ⟨body, hb⟩ := (hc b).eq_lock
      exact ⟨_, .enter (hb ▸ hu) hh, rfl⟩

end Locked

section

variable {τ α σ : Type} [DecidableEq τ] {code : α → Code σ} {s₀ : σ} {c : Config τ α σ}

theorem Reachable.locked (h : Reachable code s₀ c) (hc : ∀ a, (code a).Section) :
    Locked code s₀ c := by
  induction h
  case refl       => exact .start
  case tail hs hi => exact hi.step hc hs

end
end RecursiveMutex
