import EcsactSiWasmer.Objects.Logger

namespace Ecsact.Logger

-- One iteration of the loop over a string: where it searches and cuts from, and what it finds.
structure Visit where
  start : Nat
  next  : StdString.Pos

-- The iterations of the loop over one string, at most the given number of them. There is none behind
-- one which throws.
def visits (str : List Byte) : Nat → BitVec 32 → List Visit
  | 0,        _   => []
  | fuel + 1, idx =>
    if idx.signExtend 64 = npos then []
    else
      let start := ((idx + 1).signExtend 64).toNat
      let nextIdx := StdString.find str newline start
      ⟨start, nextIdx⟩ ::
        match StdString.substr str start nextIdx with
        | none   => []
        | some _ => visits str fuel (posToInt nextIdx)

-- The newlines which these iterations find.
def newlines (str : List Byte) (fuel : Nat) (idx : BitVec 32) : List Nat :=
  (visits str fuel idx).filterMap (·.next)

-- The loop over a string ends, cuts the string only where it has a position, and goes forward from
-- newline to newline.
structure SplitsSafely (str : List Byte) (idx : BitVec 32) : Prop where
  ends       : ∃ fuel messages, splitLoop str fuel idx [] = .done messages
  inRange    : ∀ fuel, ∀ v ∈ visits str fuel idx, v.start ≤ str.length
  increasing : ∀ fuel, (newlines str fuel idx).Pairwise (· < ·)

-- The first newline which is too far behind the start for an `int`, if there is one, becomes the
-- sentinel.
def EndsInInt (str : List Byte) : Prop :=
  ∀ p, StdString.find str newline (2 ^ 31 - 1) = some p → p % 2 ^ 32 = 2 ^ 32 - 1

variable {L : Type}

-- The strings are split without an exception, each of them by a loop that is safe.
structure ConsumesSafely (lg : Logger L) : Prop where
  done    : ∃ r, lg.consumeStdioStrAsLogLines = .done r
  strings : ∀ e ∈ lg.stdioStrings, e.2 ≠ [] → SplitsSafely e.2 0

end Ecsact.Logger
