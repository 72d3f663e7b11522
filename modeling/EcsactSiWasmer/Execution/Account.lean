import EcsactSiWasmer.Execution.System

open Ecsact.CallMem Ecsact.World

namespace Ecsact

-- The calls of imports which a guest makes, each with the world that it is made in, up to the first
-- which does not return.
def ImportCall.begun : List ImportCall → World → List (ImportCall × World)
  | [],            _ => []
  | call :: calls, w =>
    (call, w) :: EStateM.after call.run (fun trap w' => if trap = none then begun calls w' else []) w

namespace Minst

-- Those of the start function.
def createBegun (build : Build) (w : World) : List (ImportCall × World) :=
  match build.module with
  | .error _   => []
  | .ok module =>
    match module.imports.find? fun imp => (importResolver imp).isNone with
    | some _ => []
    | none   =>
      match build.externs with
      | .error _ => []
      | .ok _    => ImportCall.begun build.startRun.calls w

def initializeBegun (inst : Minst) (guest : GuestRun) (w : World) : List (ImportCall × World) :=
  match inst.findExport "_initialize" with
  | some exp => if exp.kind = .func then ImportCall.begun guest.calls w else []
  | none     => []

end Minst

namespace Program

def loadMinstBegun (thread : ThreadId) (systems : List (SystemId × String)) (build : Build)
    (p : Program) : List (ImportCall × World) :=
  Minst.createBegun build (p.view thread) ++
    EStateM.after (onThread thread (Minst.create build)) (fun result p₁ =>
      match result with
      | .error _ => []
      | .ok inst =>
        match getSystemImplExports inst systems fun _ => none with
        | .error _ => []
        | .ok _    =>
          match inst.exports.find? (·.kind = .memory) with
          | none        => []
          | some memory =>
            EStateM.after (onThread thread (onCallMem (enterInitialize memory.ptr)))
              (fun _ p₂ => inst.initializeBegun build.initRun (p₂.view thread)) p₁) p

def loadLoopBegun (thread : ThreadId) (systems : List (SystemId × String)) (builds : Nat → Build) :
    Nat → Nat → Program → List (ImportCall × World)
  | 0,     _, _ => []
  | n + 1, i, p =>
    loadMinstBegun thread systems (builds i) p ++
      EStateM.after (loadMinst thread systems (builds i)) (fun err p' =>
        if err = none then loadLoopBegun thread systems builds n (i + 1) p' else []) p

-- The calls which all guests make in a step, whether or not it comes to its end.
def Event.begun (p : Program) : Event → List (ImportCall × World)
  | load thread systems builds =>
    if p.setSystemExecutionImpl then
      loadLoopBegun thread systems builds 100 0 { p with allMinsts := [] }
    else []
  | guest thread call          => [(call, p.view thread)]
  | _                          => []

end Program

-- An account of what the calls of imports do, by which nothing else changes what it is about.
structure Account (R : World → List (ImportCall × World) → World → Prop) : Prop where
  recounts : EStateM.Recounts R
  call     : ∀ (call : ImportCall) w, R w [(call, w)] (call.run w).state
  called   : ∀ w fn args, R w [] (w.called fn args)
  callMem  : ∀ (w : World) c, R w [] { w with callMem := c }

end Ecsact
