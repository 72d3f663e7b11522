import EcsactSiWasmer.Execution.Guest
import EcsactSiWasmer.Execution.Logs
import EcsactSiWasmer.Imports.Iovecs

open Ecsact.CallMem

namespace Ecsact

-- A call of `fd_write` to one of the two streams, in a call which is active.
structure Write where
  call   : ImportCall
  world  : World
  mem    : MemPtr
  name   : call.name = "fd_write"
  stream : call.val 0 = wasiStderrFd ∨ call.val 0 = wasiStdoutFd
  active : callMemRead 0 .memory world.callMem = .ok mem world.callMem

-- The push of one buffer, with the number of its call among those of the thread.
structure Push where
  call  : Nat
  level : LogLevel
  str   : List Byte

namespace Write

variable (wr : Write)

def level : LogLevel :=
  stdLevel (wr.call.val 0)

-- The buffers which the loop pushes.
def buffers : List (List Byte) :=
  writeBuffers ((wr.call.enter wr.world).memories wr.mem).bytes (wr.call.val 1).toInt 0
    (wr.call.val 2).toInt.toNat

def payload : List Byte :=
  wr.buffers.flatten

def pushes (i : Nat) : List Push :=
  wr.buffers.map fun str => { call := i, level := wr.level, str := str }

-- Run by itself, the call pushes its buffers, and nothing else happens to the logger.
def PushesBuffers : Prop :=
  ∃ w, wr.call.run wr.world = .ok none w ∧
    w.logger = wr.buffers.foldl (·.pushStdioStr wr.level ·) wr.world.logger

end Write

def pushesOf (writes : List Write) : List Push :=
  writes.zipIdx.flatMap fun (wr, i) => wr.pushes i

-- What has happened to the stored strings, and by which thread if it was a push of a guest's.
inductive Stored
  | push (thread : ThreadId) (p : Push)
  | consume (op : Logger.Op LogLevel)

namespace Stored

def op : Stored → Logger.Op LogLevel
  | push _ p   => .push p.level p.str
  | consume op => op

def str (s : Stored) : List Byte :=
  match s.op with
  | .push _ str => str
  | .snapshot   => []

def collect (level : LogLevel) (stored : List Stored) (s : Stored) : List Stored :=
  match s.op with
  | .push l _ => if l = level then stored ++ [s] else stored
  | .snapshot => []

def push? (thread : ThreadId) : Stored → Option Push
  | push t p  => if t = thread then some p else none
  | consume _ => none

end Stored

-- The threads' calls, each push of which is one step, and so is each call of the consumer. What a
-- thread has still to push is known from the start, as no other thread changes its guest's memory.
inductive Writing (writes : ThreadId → List Write) :
    (ThreadId → List Push) → List Stored → Logger LogLevel → Prop
  | start : Writing writes (fun t => pushesOf (writes t)) [] Logger.initial
  | push {todo : ThreadId → List Push} {history : List Stored} {lg : Logger LogLevel}
      {t : ThreadId} {p : Push} {ps : List Push} : Writing writes todo history lg →
      todo t = p :: ps → Writing writes (Function.update todo t ps) (history ++ [.push t p])
        (lg.pushStdioStr p.level p.str)
  | consume {todo : ThreadId → List Push} {history : List Stored} {lg lg' : Logger LogLevel}
      {t : ThreadId} {reaction : Logger.Reaction LogLevel} {ops : List (Logger.Op LogLevel)} :
      Writing writes todo history lg → (Logger.Event.consume t reaction).run lg = some (ops, lg') →
      Writing writes todo (history ++ ops.map .consume) lg'

-- The pushes of a level since the last snapshot.
def collected (level : LogLevel) (history : List Stored) : List Stored :=
  history.foldl (Stored.collect level) []

-- The buffers of one call which have been pushed so far.
def pushed (thread : ThreadId) (call : Nat) (history : List Stored) : List (List Byte) :=
  ((history.filterMap (Stored.push? thread)).filter (·.call = call)).map Push.str

-- The text of a level is a merge of whole buffers of calls, those of each call in order.
structure Merges (writes : ThreadId → List Write) (history : List Stored) (lg : Logger LogLevel) :
    Prop where
  text   : ∀ level, Logger.text level lg.stdioStrings = (collected level history).flatMap Stored.str
  whole  : ∀ t p, Stored.push t p ∈ history → ∃ wr, (writes t)[p.call]? = some wr ∧
    p.level = wr.level ∧ p.str ∈ wr.buffers
  order  : ∀ t i wr, (writes t)[i]? = some wr → pushed t i history <+: wr.buffers
  single : ∀ t p wr, Stored.push t p ∈ history → (writes t)[p.call]? = some wr →
    wr.buffers.length ≤ 1 → p.str = wr.payload
  calls  : ∀ t, ∀ wr ∈ writes t, wr.PushesBuffers

end Ecsact
