import EcsactSiWasmer.Execution.Logs
import EcsactSiWasmer.Lib.RecursiveMutex

open RecursiveMutex

namespace Ecsact.Logger

-- What threads share: the globals of `logger.cc`, and what the consumers have got so far.
structure SharedLogs (L : Type) where
  logger    : Logger L
  delivered : List (Delivery L) := []

-- A thread's call of a function which uses the logger.
inductive Call (L : Type)
  | push (level : L) (str : List Byte)
  | consume (reaction : Reaction L)

def Call.event {L : Type} (thread : ThreadId) : Call L → Event L
  | push level str   => .push thread level str
  | consume reaction => .consume thread reaction

section

variable {L : Type} [LinearOrder L]

-- The body of `push_stdio_str`, which goes on with what its caller does next.
def pushStdioStrCode (level : L) (str : List Byte) (next : Code (SharedLogs L)) :
    Code (SharedLogs L) :=
  .lock <| .access (fun s => { s with logger := s.logger.pushStdioStr level str }) fun _ =>
    .unlock next

def pushAllCode (pushes : List (L × List Byte)) (next : Code (SharedLogs L)) :
    Code (SharedLogs L) :=
  pushes.foldr (fun p next => pushStdioStrCode p.1 p.2 next) next

-- One of the two loops over entries, in which the consumer locks the mutex again when it pushes.
def consumeEntriesCode (reaction : Reaction L) :
    Nat → List (LogLineEntry L) → Code (SharedLogs L) → Code (SharedLogs L)
  | _, [],            next => next
  | k, entry :: rest, next =>
    .access (fun s => { s with delivered := s.delivered ++ [deliver entry] }) fun _ =>
      pushAllCode (reaction k) <| consumeEntriesCode reaction (k + 1) rest next

-- An exception ends the transaction, as does the return. A loop that does not end keeps it open.
def consumeLogsCode (reaction : Reaction L) : Code (SharedLogs L) :=
  .lock <| .access id fun s =>
    let entries := s.logger.getLogLines
    consumeEntriesCode reaction 0 entries <|
      .access (fun s =>
        match consumeStdioStrAsLogLines s.logger with
        | .done (_, lg)          => { s with logger := lg }
        | .outOfRange | .running => s) fun s =>
        match consumeStdioStrAsLogLines s.logger with
        | .running               => .hang
        | .outOfRange            => .unlock .done
        | .done (stdioEntries, _) =>
          consumeEntriesCode reaction entries.length stdioEntries <|
            .access (fun s => { s with logger := s.logger.clearLogLines }) fun _ => .unlock .done

def Call.code : Call L → Code (SharedLogs L)
  | push level str   => pushStdioStrCode level str .done
  | consume reaction => consumeLogsCode reaction

-- What an operation passes on to its consumer.
def Event.deliveries (lg : Logger L) : Event L → List (Delivery L)
  | push _ _ _         => []
  | consume _ reaction =>
    match ecsactSiWasmConsumeLogs reaction lg with
    | .done r                => r.lines ++ r.stdio
    | .outOfRange | .running => (consumeEntries reaction 0 lg.getLogLines lg).1

def deliveries : List (Event L) → Logger L → List (Delivery L)
  | [],          _  => []
  | event :: es, lg =>
    match event.run lg with
    | none          => []
    | some (_, lg') => event.deliveries lg ++ deliveries es lg'

-- The texts of a level which snapshots take, the first of which continues `t`.
def chunks (level : L) : List Byte → List (Op L) → List (List Byte)
  | _, []        => []
  | t, op :: ops =>
    match op with
    | .push _ _ => chunks level (op.apply level t) ops
    | .snapshot => t :: chunks level [] ops

-- All that is pushed for a level.
def pushed (level : L) (ops : List (Op L)) : List Byte :=
  ops.flatMap fun
    | .push l str => if l = level then str else []
    | .snapshot   => []

end

-- What the splitter makes of a text.
def messages (t : List Byte) : List (List Byte) :=
  match splitString t with
  | .done ms               => ms
  | .outOfRange | .running => []

-- What threads do at the same time which use the logger.
abbrev Transactions :=
  Config ThreadId (Call LogLevel) (SharedLogs LogLevel)

namespace Transactions

def Reachable (c : Transactions) : Prop :=
  RecursiveMutex.Reachable Call.code { logger := initial } c

-- The operations in the order in which they have got the mutex.
def events (c : Transactions) : List (Event LogLevel) :=
  c.entered.map fun e => e.2.event e.1

end Transactions
end Ecsact.Logger
