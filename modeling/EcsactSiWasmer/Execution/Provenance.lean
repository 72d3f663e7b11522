import EcsactSiWasmer.Execution.Outcome

namespace Ecsact.Program

-- A call of `ecsact_si_wasm_load`, with the number of the first instance that it could make and how
-- many it made.
structure LoadCall where
  systems : List (SystemId × String)
  builds  : Nat → Build
  first   : Nat
  made    : Nat

-- The call has made the instance, in one of the iterations of its loop.
def LoadCall.Makes (call : LoadCall) (m : SystemImpls) : Prop :=
  ∃ k < call.made, m.id = call.first + k ∧ Built call.systems (call.builds k) m

-- The instances which the program still has a way to get to.
def Knows (p : Program) (m : SystemImpls) : Prop :=
  m ∈ p.allMinsts ∨ (∃ thread, p.threadMinst thread = some m) ∨ ∃ r ∈ p.running, r.2 = m

def Event.IsLoad : Event → Prop
  | load _ _ _ => True
  | _          => False

-- The runs, with the loads so far and the latest of them first.
inductive Loading : List LoadCall → Program → Prop
  | start {p : Program} : Starts p → Loading [] p
  | load {calls : List LoadCall} {p p' : Program} {thread : ThreadId}
      {systems : List (SystemId × String)} {builds : Nat → Build} : Loading calls p →
      Step p (.load thread systems builds) p' →
      Loading (⟨systems, builds, p.created, p'.created - p.created⟩ :: calls) p'
  | other {calls : List LoadCall} {p p' : Program} {event : Event} : Loading calls p →
      ¬event.IsLoad → Step p event p' → Loading calls p'

-- Where the instances come from, and that the number of one is its own.
structure Provenance (calls : List LoadCall) (p : Program) : Prop where
  known  : ∀ m, p.Knows m → ∃ call ∈ calls, call.Makes m
  unique : ∀ m m', p.Knows m → p.Knows m' → m.id = m'.id → m = m'
  pool   : ∀ k (h : k < p.allMinsts.length), ∃ call, calls.head? = some call ∧
    p.allMinsts[k].id = call.first + k ∧ Built call.systems (call.builds k) p.allMinsts[k]

-- An execution calls the function that its instance exports by the name which the load of the
-- instance has last given for the system.
def Calls (calls : List LoadCall) (minst : SystemImpls) (id : SystemId) (exp : MinstExport) : Prop :=
  ∃ call ∈ calls, call.Makes minst ∧ ∃ name, call.systems.reverse.lookup id = some name ∧
    minst.minst.findExport name = some exp ∧ exp.kind = .func

end Ecsact.Program
