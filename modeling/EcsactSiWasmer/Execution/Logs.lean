import EcsactSiWasmer.Objects.Logger

open StdString

namespace Ecsact.Logger

variable {L : Type}

-- What one call of the consumer gets: the bytes at `c_str()` and their number as an `int32_t`.
structure Delivery (L : Type) where
  logLevel      : L
  message       : List Byte
  messageLength : BitVec 32

def deliver (entry : LogLineEntry L) : Delivery L where
  logLevel      := entry.logLevel
  message       := entry.message
  messageLength := BitVec.ofNat 32 entry.message.length

-- What the consumer pushes from inside of its calls, by the number of the call.
abbrev Reaction (L : Type) := Nat → List (L × List Byte)

section

variable [LinearOrder L]

def pushAll (lg : Logger L) (pushes : List (L × List Byte)) : Logger L :=
  pushes.foldl (fun lg p => lg.pushStdioStr p.1 p.2) lg

-- One of the two loops over entries. The mutex is recursive, so the consumer may push.
def consumeEntries (reaction : Reaction L) :
    Nat → List (LogLineEntry L) → Logger L → List (Delivery L) × Logger L
  | _, [],            lg => ([], lg)
  | k, entry :: rest, lg =>
    let (deliveries, lg') := consumeEntries reaction (k + 1) rest (lg.pushAll (reaction k))
    (deliver entry :: deliveries, lg')

structure Consumed (L : Type) where
  lines  : List (Delivery L)
  stdio  : List (Delivery L)
  logger : Logger L

def ecsactSiWasmConsumeLogs (reaction : Reaction L) (lg : Logger L) : LoopResult (Consumed L) :=
  let entries := lg.getLogLines
  let (lines, lg₁) := consumeEntries reaction 0 entries lg
  (consumeStdioStrAsLogLines lg₁).map fun (stdioEntries, lg₂) =>
    let (stdio, lg₃) := consumeEntries reaction entries.length stdioEntries lg₂
    { lines := lines, stdio := stdio, logger := lg₃.clearLogLines }

end

def initial : Logger LogLevel where
  stdioStrings := [(.info, []), (.error, [])]

-- An operation under the logger's mutex, by the thread which holds it.
inductive Event (L : Type)
  | push (thread : ThreadId) (level : L) (str : List Byte)
  | consume (thread : ThreadId) (reaction : Reaction L)

-- What happens to the stored strings.
inductive Op (L : Type)
  | push (level : L) (str : List Byte)
  | snapshot

-- The pushes which a consumer makes in `n` calls, starting with the `k`-th.
def reactions (reaction : Reaction L) (k n : Nat) : List (Op L) :=
  (List.range' k n).flatMap fun i => (reaction i).map fun p => .push p.1 p.2

variable [LinearOrder L]

-- A call which throws leaves the strings in place. One whose loop does not end keeps the mutex.
def Event.run : Event L → Logger L → Option (List (Op L) × Logger L)
  | push _ level str,   lg => some ([.push level str], lg.pushStdioStr level str)
  | consume _ reaction, lg =>
    let n := lg.getLogLines.length
    match ecsactSiWasmConsumeLogs reaction lg with
    | .done r     =>
      some (reactions reaction 0 n ++ .snapshot :: reactions reaction n r.stdio.length, r.logger)
    | .outOfRange => some (reactions reaction 0 n, (consumeEntries reaction 0 lg.getLogLines lg).2)
    | .running    => none

def runEvents : List (Event L) → Logger L → Option (List (Op L) × Logger L)
  | [],          lg => some ([], lg)
  | event :: es, lg =>
    match event.run lg with
    | none          => none
    | some (ops, lg') => (runEvents es lg').map fun (ops', lg'') => (ops ++ ops', lg'')

def Op.apply (level : L) (t : List Byte) : Op L → List Byte
  | push l str => if l = level then t ++ str else t
  | snapshot   => []

-- The text which is pushed for a level since the last snapshot.
def pendingText (level : L) (ops : List (Op L)) : List Byte :=
  ops.foldl (Op.apply level) []

-- The texts which the splitter cuts as a splitter at newlines does. Those which `segments` leaves
-- whole lose their first character, and all others keep a newline.
def Splittable (t : List Byte) : Prop :=
  t = [] ∨ ∃ rest, t = newline :: rest ∧ newline ∉ rest ∧ rest.length < 2 ^ 31

-- One call of the consumer passes on each segment of the pending text of each level, in full.
def DeliversSegments (reaction : Reaction L) (lg : Logger L) (pending : L → List Byte) : Prop :=
  ∃ r, ecsactSiWasmConsumeLogs reaction lg = .done r ∧ ∀ level,
    (r.stdio.filter (·.logLevel = level)).map (fun d => (d.message, d.messageLength.toInt)) =
      (segments newline (pending level)).map fun s => (s, (s.length : Int))

end Ecsact.Logger
