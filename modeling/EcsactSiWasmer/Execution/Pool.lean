import EcsactSiWasmer.Execution.Outcome

namespace Ecsact.Program

-- An execution of a system finds an instance, and the system's function in it.
def Dispatches (p : Program) (thread : ThreadId) (id : SystemId) : Prop :=
  ∃ minst p', ensureMinst thread p = .ok minst p' ∧ (minst.sysImplExports id).isSome

-- No two threads are in executions on one instance.
def Exclusive (p : Program) : Prop :=
  ∀ r ∈ p.running, ∀ r' ∈ p.running, r.1 ≠ r'.1 → r.2.id ≠ r'.2.id

namespace Event

-- The steps which do not take away what a registered system needs: a reset with nothing registered,
-- and a load which names the systems registered so far, of which at least the first instance builds,
-- and which does not leave a thread in an execution of an instance without the new systems.
def Preserves (p : Program) : Event → Prop
  | reset                 => p.registered = []
  | load _ systems builds => p.setSystemExecutionImpl = true →
    p.registered ⊆ systems.map Prod.fst ∧
    (p.registered = [] ∨ (builds 0).error systems = none) ∧
    ((∀ k < 100, (builds k).error systems = none) →
      ∀ thread minst, p.threadMinst thread = some minst →
        p.running.any (·.2.id == minst.id) →
        ∀ id ∈ systems.map Prod.fst, (minst.sysImplExports id).isSome)
  | _                     => True

-- The steps of threads, of which there are at no time more than instances.
def OfThreads (p : Program) : Event → Prop
  | start _                                  => p.threads.length < p.allMinsts.length
  | exit _ | enter _ _ | guest _ _ | leave _ => True
  | load _ _ _ | reset | setTrapHandler _    => False

-- A thread's first execution is not given an instance which another thread remembers.
def Separates (p : Program) : Event → Prop
  | enter thread _ => p.lock thread = none → ∀ minst,
    p.allMinsts[(p.nextAvailableIndex + 1).toNat % p.allMinsts.length]? = some minst →
      ∀ thread' m, thread' ≠ thread → p.lock thread' = some m → m.id ≠ minst.id
  | _              => True

end Event

end Ecsact.Program
