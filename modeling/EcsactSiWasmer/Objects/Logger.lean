import EcsactSiWasmer.Lib.StdString
import Mathlib.Order.Lattice
import Mathlib.Order.Defs.LinearOrder

namespace Ecsact

-- The two enumerators of `ecsact_si_wasm_log_level` that the source names, and all others.
inductive LogLevel
  | info
  | error
  | other (n : Nat)
  deriving DecidableEq

namespace LogLevel

def rank : LogLevel → Nat
  | info    => 0
  | error   => 1
  | other n => n + 2

theorem rank_injective : Function.Injective rank := by
  intro l₁ l₂ h
  cases l₁ <;> cases l₂ <;> simp_all [rank]

instance : LinearOrder LogLevel :=
  LinearOrder.lift' rank rank_injective

end LogLevel

abbrev ThreadId := Nat

structure LogLineEntry (L : Type) where
  logLevel : L
  message  : List Byte
  deriving DecidableEq

-- The globals of `logger.cc`. The map `_stdio_strings` is the list of its entries in key order.
structure Logger (L : Type) where
  loggerEntries : List (LogLineEntry L) := []
  stdioStrings  : List (L × List Byte)  := []

-- What has become of a loop after a number of iterations.
inductive LoopResult (α : Type)
  | done (a : α)
  | outOfRange
  | running
  deriving DecidableEq

def LoopResult.map {α β : Type} (f : α → β) : LoopResult α → LoopResult β
  | done a     => done (f a)
  | outOfRange => outOfRange
  | running    => running

@[simp]
theorem LoopResult.map_eq_done {α β : Type} {f : α → β} {r : LoopResult α} {b : β} :
    r.map f = done b ↔ ∃ a, r = done a ∧ f a = b := by
  cases r <;> simp [LoopResult.map]

namespace Logger

def newline : Byte := 10

-- `npos` after the implicit conversions of the loop, which compares an `int` with a `size_t`.
def npos : BitVec 64 := -1

def posToInt : StdString.Pos → BitVec 32
  | none   => -1
  | some p => BitVec.ofNat 32 p

-- The `while` loop over one string, for at most the given number of iterations.
def splitLoop (str : List Byte) : Nat → BitVec 32 → List (List Byte) → LoopResult (List (List Byte))
  | 0,        _,   _        => .running
  | fuel + 1, idx, messages =>
    if idx.signExtend 64 = npos then .done messages
    else
      let start := ((idx + 1).signExtend 64).toNat
      let nextIdx := StdString.find str newline start
      match StdString.substr str start nextIdx with
      | none         => .outOfRange
      | some message =>
        splitLoop str fuel (posToInt nextIdx) <|
          if message.isEmpty then messages else messages ++ [message]

-- The next value of `idx` is a function of the last, and is one of the newlines' positions or -1.
-- So a loop which runs for longer than this runs forever.
def splitFuel (str : List Byte) : Nat :=
  str.length + 2

-- The messages which one string gives. An empty string is skipped.
def splitString (str : List Byte) : LoopResult (List (List Byte)) :=
  if str.isEmpty then .done [] else splitLoop str (splitFuel str) 0 []

variable {L : Type}

def splitStdioStrings : List (L × List Byte) → LoopResult (List (LogLineEntry L))
  | []                   => .done []
  | (level, str) :: rest =>
    match splitString str with
    | .done messages => (splitStdioStrings rest).map (messages.map (⟨level, ·⟩) ++ ·)
    | .outOfRange    => .outOfRange
    | .running       => .running

def consumeStdioStrAsLogLines (lg : Logger L) : LoopResult (List (LogLineEntry L) × Logger L) :=
  (splitStdioStrings lg.stdioStrings).map (·, { lg with stdioStrings := [] })

def getLogLines (lg : Logger L) : List (LogLineEntry L) :=
  lg.loggerEntries

def clearLogLines (lg : Logger L) : Logger L :=
  { lg with loggerEntries := [] }

variable [LinearOrder L]

-- `_stdio_strings[level] += str`
def appendString (level : L) (str : List Byte) : List (L × List Byte) → List (L × List Byte)
  | []             => [(level, str)]
  | (l, t) :: rest =>
    if level < l then (level, str) :: (l, t) :: rest
    else if l < level then (l, t) :: appendString level str rest
    else (l, t ++ str) :: rest

def pushStdioStr (lg : Logger L) (level : L) (str : List Byte) : Logger L :=
  { lg with stdioStrings := appendString level str lg.stdioStrings }

-- The text which is stored for a level.
def text (level : L) : List (L × List Byte) → List Byte
  | []             => []
  | (l, t) :: rest => if l = level then t else text level rest

theorem text_of_lt {l : L} {m : List (L × List Byte)} (h : ∀ e ∈ m, l < e.1) : text l m = [] := by
  induction m
  case nil => rfl
  case cons e tl hi =>
    have he : e.1 ≠ l := (h e (List.mem_cons_self ..)).ne'
    simp [text, he, hi <| fun e' he' => h e' <| List.mem_cons_of_mem _ he']

-- The keys of a map are unique and in order.
def Sorted (m : List (L × List Byte)) : Prop :=
  m.Pairwise (·.1 < ·.1)

theorem text_appendString {level l : L} {str : List Byte} {m : List (L × List Byte)}
    (hs : Sorted m) : text l (appendString level str m) =
      if l = level then text l m ++ str else text l m := by
  induction m
  case nil => simp [appendString, text, eq_comm]
  case cons e tl hi =>
    have ⟨hl, ht⟩ := List.pairwise_cons.mp hs
    specialize hi ht
    rcases lt_trichotomy level e.1 with h | rfl | h
    case inl =>
      by_cases hc : l = level
      case neg => simp [appendString, h, text, Ne.symm hc, hc]
      case pos =>
        have hn : text l (e :: tl) = [] := text_of_lt fun e' he' => by
          cases List.mem_cons.mp he'
          case inl he => exact hc ▸ he ▸ h
          case inr he => exact hc ▸ h.trans (hl e' he)
        simp only [text] at hn
        simp [appendString, h, text, hc ▸ hn, hc]
    case inr.inl =>
      by_cases hc : l = e.1
      case pos => simp [appendString, text, hc]
      case neg => simp [appendString, text, hc, Ne.symm hc]
    case inr.inr =>
      by_cases hc : l = e.1
      case pos => simp [appendString, h, h.not_gt, text, hc, h.ne]
      case neg => simp [appendString, h, h.not_gt, text, Ne.symm hc, hi]

theorem mem_appendString {level : L} {str : List Byte} {m : List (L × List Byte)}
    {e : L × List Byte} (h : e ∈ appendString level str m) :
    e.1 = level ∨ ∃ e' ∈ m, e'.1 = e.1 := by
  induction m
  case nil => simp_all [appendString]
  case cons hd tl hi =>
    simp only [appendString] at h
    split at h
    case isTrue =>
      cases List.mem_cons.mp h
      case inl h => simp [h]
      case inr h => exact .inr ⟨e, h, rfl⟩
    case isFalse =>
      split at h
      case isTrue =>
        cases List.mem_cons.mp h
        case inl h => simp [h]
        case inr h =>
          cases hi h
          case inl h => exact .inl h
          case inr h =>
            have ⟨e', he, h⟩ := h
            exact .inr ⟨e', List.mem_cons_of_mem _ he, h⟩
      case isFalse =>
        cases List.mem_cons.mp h
        case inl h => exact .inr ⟨hd, List.mem_cons_self .., by simp [h]⟩
        case inr h => exact .inr ⟨e, List.mem_cons_of_mem _ h, rfl⟩

theorem sorted_appendString {level : L} {str : List Byte} {m : List (L × List Byte)}
    (hs : Sorted m) : Sorted (appendString level str m) := by
  induction m
  case nil => simp [appendString, Sorted]
  case cons hd tl hi =>
    have ⟨hl, ht⟩ := List.pairwise_cons.mp hs
    simp only [appendString]
    split
    case isTrue h =>
      apply List.pairwise_cons.mpr ⟨fun e he => ?_, hs⟩
      cases List.mem_cons.mp he
      case inl he => exact he ▸ h
      case inr he => exact h.trans (hl e he)
    case isFalse =>
      split
      case isTrue h =>
        refine List.pairwise_cons.mpr ⟨fun e he => ?_, hi ht⟩
        cases mem_appendString he
        case inl he => exact he ▸ h
        case inr he =>
          have ⟨e', he', h⟩ := he
          exact h ▸ hl e' he'
      case isFalse => exact List.pairwise_cons.mpr ⟨hl, ht⟩

end Logger
end Ecsact
