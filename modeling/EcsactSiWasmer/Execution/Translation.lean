import EcsactSiWasmer.Execution.Bindings
import EcsactSiWasmer.Execution.System
import Mathlib.Data.List.Forall2

open Ecsact.World

namespace Ecsact

-- What a system passes to a function of the native API: a context which it has, by its number among
-- these, or a word.
inductive Operand
  | context (k : Nat)
  | word (v : BitVec 32)

def Operand.Fits : Operand → Role → Prop
  | context _, role => role = .context
  | word _,    role => role ≠ .context

-- A call in a system's code, after what the system has itself stored.
structure ApiCall where
  name     : String
  native   : Native
  mem      : (name, native) ∈ nativeApi
  operands : List Operand
  typed    : List.Forall₂ Operand.Fits operands native.roles
  stores   : (MemPtr → LinearMemory) → MemPtr → LinearMemory := id

-- What a system sees of an answer. All that it can do with a context is to pass it on.
inductive Reply
  | nothing
  | bool (b : Bool)
  | entity (e : BitVec 32)
  | context

-- A system by the calls that it makes, and by how it goes on once it sees the answer and its memory.
inductive SystemCode
  | done
  | call (c : ApiCall) (next : Reply → LinearMemory → SystemCode)

namespace Answer

def reply : Answer → Reply
  | nothing   => .nothing
  | bool b    => .bool b
  | entity e  => .entity e
  | context _ => .context

def contexts : Answer → List CtxPtr
  | context ctx => [ctx]
  | _           => []

end Answer

namespace ApiCall

variable (c : ApiCall)

def word (i : Nat) : BitVec 32 :=
  match c.operands[i]? with
  | some (.word v) => v
  | _              => 0

section

variable (mem : MemPtr) (ctxs : List CtxPtr) (w : World)

-- The native function gets the contexts themselves, and pointers to the system's memory.
def hostArg (bytes : ByteStore) : Operand → Role → HostArg
  | .context k, _              => .ctx (ctxs.getD k 0)
  | .word _,    .context       => .ctx 0
  | .word v,    .id            => .i32 v
  | .word v,    .count         => .i32 v
  | .word v,    .flag          => .bool (v ≠ 0)
  | .word v,    .ptr           => .ptr (guestPtr mem v)
  | .word v,    .ptrs          => .ptrs <| (List.range (c.word 1).toNat).map fun i =>
      guestPtr mem (guestWord bytes v i)

def before : World :=
  { w with memories := c.stores w.memories }

def hostArgs : List HostArg :=
  List.zipWith (c.hostArg mem ctxs ((c.before w).memories mem).bytes) c.operands c.native.roles

def answer : Answer :=
  .of w.runtime ((c.before w).hostView c.native.fn (c.hostArgs mem ctxs w)) c.native.fn

def after : World :=
  (c.before w).called c.native.fn (c.hostArgs mem ctxs w)

-- The calls which do not meet one of the slips of the bindings.
structure Regular : Prop where
  contexts     : ∀ k, .context k ∈ c.operands → k < ctxs.length
  ptr          : ∀ v, (.word v, .ptr) ∈ c.operands.zip c.native.roles → v.toNat < 2 ^ 31
  ptrs         : ∀ v, (.word v, .ptrs) ∈ c.operands.zip c.native.roles → v.toNat < 2 ^ 31 ∧
    v.toNat + 4 * (c.word 1).toNat ≤ ((c.before w).memories mem).size ∧
    ∀ i < (c.word 1).toNat,
      (guestWord ((c.before w).memories mem).bytes v i).toNat < 2 ^ 31
  has          : c.native.fn ≠ .has
  streamToggle : c.native.fn = .streamToggle → c.word 2 = c.word 3
  generate     : c.native.fn = .generate → c.word 3 ≠ 0 ∨ c.word 1 = 0
  nonNull      : ∀ ctx, c.answer mem ctxs w = .context ctx → ctx ≠ 0
  fits         : c.native.asksId → ctxs.length < 256

end

-- The guest's word for an operand.
def value (handles : List (BitVec 32)) : Operand → BitVec 32
  | .context k => handles.getD k 0
  | .word v    => v

theorem entry_isSome : (importTables.lookup c.name).isSome := by
  have h : ∀ e ∈ nativeApi, (importTables.lookup e.1).isSome := by decide
  exact h _ c.mem

def func : ImportResolveFunc :=
  (importTables.lookup c.name).get c.entry_isSome

theorem func_mem : (c.name, c.func) ∈ importTables := by
  have h : importTables.lookup c.name = some c.func := (Option.some_get _).symm
  have ⟨l₁, l₂, hl, _⟩ := List.lookup_eq_some_iff.mp h
  simp [hl]

theorem func_params : c.func.funcType.params = .replicate c.native.roles.length .i32 := by
  have ht : ∀ e ∈ nativeApi, (importTables.lookup e.1).map (·.funcType.params) =
      some (.replicate e.2.roles.length .i32) := by
    decide
  have h : importTables.lookup c.name = some c.func := (Option.some_get _).symm
  simpa [h] using ht _ c.mem

-- The call of the import in the guest which is made of the system.
def toImport (handles : List (BitVec 32)) : ImportCall where
  name   := c.name
  func   := c.func
  mem    := c.func_mem
  args   := c.operands.map fun operand => .i32 (value handles operand)
  typed  := by
    rw [func_params, ← c.typed.length_eq, List.map_map]
    exact List.eq_replicate_iff.mpr ⟨by simp, by simp [WasmVal.kind]⟩
  stores := c.stores

-- What the guest sees in the results.

def reply (results : List (Option WasmVal)) : Reply :=
  match c.native.fn, results with
  | .has,    [some (.i32 v)] => .bool (v ≠ 0)
  | .same,   [some (.i32 v)] => .bool (v ≠ 0)
  | .entity, [some (.i32 v)] => .entity v
  | .parent, _               => .context
  | .other,  _               => .context
  | _,       _               => .nothing

def handles (results : List (Option WasmVal)) : List (BitVec 32) :=
  match c.native.fn, results with
  | .parent, [some (.i32 v)] => [v]
  | .other,  [some (.i32 v)] => [v]
  | _,       _               => []

end ApiCall

namespace SystemCode

variable (mem : MemPtr)

def runNative : SystemCode → List CtxPtr → World → World
  | done,        _,    w => w
  | call c next, ctxs, w =>
    let answer := c.answer mem ctxs w
    let w' := c.after mem ctxs w
    runNative (next answer.reply (w'.memories mem)) (ctxs ++ answer.contexts) w'

def Regular : SystemCode → List CtxPtr → World → Prop
  | done,        _,    _ => True
  | call c next, ctxs, w =>
    let answer := c.answer mem ctxs w
    let w' := c.after mem ctxs w
    c.Regular mem ctxs w ∧
      Regular (next answer.reply (w'.memories mem)) (ctxs ++ answer.contexts) w'

-- The calls which the guest makes when it starts in a world with the given handles.
def guestCalls : SystemCode → List (BitVec 32) → World → List ImportCall
  | done,        _,       _ => []
  | call c next, handles, w =>
    c.toImport handles ::
      match (c.toImport handles).run w with
      | .ok none w' =>
        guestCalls (next (c.reply w'.results) (w'.memories mem)) (handles ++ c.handles w'.results) w'
      | _           => []

end SystemCode

-- The bindings ask for a system's id more often than the system does.

def World.calls (w : World) : List HostCall :=
  w.hostCalls.filter (·.fn ≠ .id)

-- The same calls have been made, with the same memory.
structure World.Agrees (w v : World) : Prop where
  runtime  : w.runtime = v.runtime
  memories : w.memories = v.memories
  calls    : w.calls = v.calls

def HostView.withoutIds (view : HostView) : HostView :=
  { view with calls := view.calls.filter (·.fn ≠ .id) }

-- To ask for an id leaves nothing behind, and no other answer depends on it.
structure Runtime.IgnoresIds (runtime : Runtime) : Prop where
  answers  : ∀ view fn, Answer.of runtime view fn = Answer.of runtime view.withoutIds fn
  memories : ∀ calls c memories, c.fn ≠ .id →
    runtime.memories ⟨calls ++ [c], memories⟩ =
      runtime.memories (HostView.withoutIds ⟨calls ++ [c], memories⟩)
  ids      : ∀ calls args memories, runtime.memories ⟨calls ++ [⟨.id, args⟩], memories⟩ = memories

end Ecsact
