import EcsactSiWasmer.Execution.Usage

namespace Ecsact.Program

-- The first execution of a thread, with the index that is computed for it.
structure Assignment where
  thread : ThreadId
  index  : Nat
  minst  : SystemImpls

-- What has been executed since a load: the first executions in their order, and the instances of the
-- threads which are still there. A thread that is started later is another, also by the same name.
structure Assignments where
  firsts   : List Assignment               := []
  assigned : List (ThreadId × SystemImpls) := []

namespace Assignments

def assign (a : Assignments) (first : Assignment) : Assignments where
  firsts   := a.firsts ++ [first]
  assigned := (first.thread, first.minst) :: a.assigned

def forget (a : Assignments) (thread : ThreadId) : Assignments :=
  { a with assigned := a.assigned.filter (·.1 ≠ thread) }

-- The number of threads to which an instance has been given.
def count (a : Assignments) (minst : SystemImpls) : Nat :=
  a.firsts.countP (·.minst.id = minst.id)

end Assignments

-- The runs after a load, up to the next load or reset.
inductive Executes (p₀ : Program) : Assignments → Program → Prop
  | load : Executes p₀ {} p₀
  | first {a : Assignments} {p p' : Program} {thread : ThreadId} {ctx : CtxPtr}
      {minst : SystemImpls} :
      Executes p₀ a p → thread ∉ a.assigned.map Prod.fst → Step p (.enter thread ctx) p' →
      p'.running = (thread, minst) :: p.running →
      Executes p₀ (a.assign
        ⟨thread, p'.nextAvailableIndex.toNat % p'.allMinsts.length, minst⟩) p'
  | again {a : Assignments} {p p' : Program} {thread : ThreadId} {ctx : CtxPtr} :
      Executes p₀ a p → thread ∈ a.assigned.map Prod.fst → Step p (.enter thread ctx) p' →
      Executes p₀ a p'
  | exit {a : Assignments} {p p' : Program} {thread : ThreadId} :
      Executes p₀ a p → Step p (.exit thread) p' → Executes p₀ (a.forget thread) p'
  | other {a : Assignments} {p p' : Program} {event : Event} :
      Executes p₀ a p → event.Continues → Step p event p' → Executes p₀ a p'

-- The instances are given to the threads in turn. A thread keeps its instance, and does not take a
-- turn again.
structure Balanced (p₀ : Program) (a : Assignments) (p : Program) : Prop where
  index   : ∀ first ∈ a.firsts, first.index < p₀.allMinsts.length ∧
    p₀.allMinsts[first.index]? = some first.minst
  counts  : ∀ minst ∈ p₀.allMinsts, ∀ minst' ∈ p₀.allMinsts, a.count minst ≤ a.count minst' + 1
  windows : ∀ i, i + p₀.allMinsts.length ≤ a.firsts.length →
    (((a.firsts.drop i).take p₀.allMinsts.length).map (·.minst.id)).Nodup
  counter : p.nextAvailableIndex.toNat = p₀.nextAvailableIndex.toNat + a.firsts.length
  again   : ∀ e ∈ a.assigned, ensureMinst e.1 p = .ok e.2 p

end Ecsact.Program
