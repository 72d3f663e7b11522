import EcsactSiWasmer.Lib.ByteStore
import Mathlib.Data.List.Forall2

-- A range of addresses.
structure Buffer where
  start  : Int
  length : Nat
  deriving DecidableEq

namespace Buffer

def Has (b : Buffer) (x : Int) : Prop :=
  b.start ≤ x ∧ x < b.start + b.length

-- Two ranges have no address in common. An empty range has none at all.
def Apart (b b' : Buffer) : Prop :=
  ∀ x, b.Has x → ¬b'.Has x

def capacity (bufs : List Buffer) : Nat :=
  (bufs.map length).sum

-- The parts of some bytes which go to buffers in their order.
def chunks : List Buffer → List Byte → List (List Byte)
  | [],        _     => []
  | b :: bufs, bytes => bytes.take b.length :: chunks bufs (bytes.drop b.length)

variable {b b' : Buffer} {bufs : List Buffer} {bytes : List Byte}

theorem Apart.symm (h : b.Apart b') : b'.Apart b :=
  fun x hx hb => h x hb hx

theorem Apart.of_le (h : b.start + b.length ≤ b'.start) : b.Apart b' :=
  fun _ hx hx' => absurd hx'.1 <| not_le.mpr <| hx.2.trans_le h

@[simp]
theorem capacity_cons : capacity (b :: bufs) = b.length + capacity bufs :=
  List.sum_cons

theorem chunks_flatten : (chunks bufs bytes).flatten = bytes.take (capacity bufs) := by
  induction bufs generalizing bytes
  case nil          => rfl
  case cons b _ hi  => rw [chunks, List.flatten_cons, hi, capacity_cons, List.take_add]

-- A part is shorter than its buffer only if there is nothing left.
theorem chunks_fill : List.Forall₂ (fun b chunk => chunk.length ≤ b.length ∧
    (chunk.length < b.length → bytes.take (capacity bufs) = bytes)) bufs (chunks bufs bytes) := by
  induction bufs generalizing bytes
  case nil => exact .nil
  case cons b bufs hi =>
    refine .cons ⟨List.length_take_le .., fun hl => ?head⟩ ?tail
    case head =>
      rw [List.length_take] at hl
      rw [capacity_cons]
      exact List.take_of_length_le <| by omega
    case tail =>
      refine (@hi (bytes.drop b.length)).imp fun b' chunk ⟨hle, hf⟩ => ⟨hle, fun hl => ?_⟩
      rw [capacity_cons, List.take_add, hf hl, List.take_append_drop]

end Buffer

namespace ByteStore

variable {m : ByteStore} {b : Buffer} {bufs : List Buffer} {bytes : List Byte} {a x : Int}

-- Stores bytes in buffers, one after the other.
def scatter (m : ByteStore) : List Buffer → List Byte → ByteStore
  | [],        _     => m
  | b :: bufs, bytes =>
    scatter (m.write b.start (bytes.take b.length)) bufs (bytes.drop b.length)

-- The contents of buffers, one after the other.
def gather (m : ByteStore) (bufs : List Buffer) : List Byte :=
  bufs.flatMap fun b => m.read b.start b.length

@[simp]
theorem write_nil : m.write a [] = m :=
  funext fun _ => write_outside <| by simp; omega

theorem scatter_cons_empty (h : b.length = 0) :
    m.scatter (b :: bufs) bytes = m.scatter bufs bytes := by
  rw [scatter, h, List.take_zero, write_nil, List.drop_zero]

theorem write_of_not_has (hl : bytes.length ≤ b.length) (hx : ¬b.Has x) :
    m.write b.start bytes x = m x := by
  refine write_outside ?_
  simp only [Buffer.Has] at hx
  omega

theorem read_congr {m' : ByteStore} (h : ∀ x, b.Has x → m' x = m x) :
    m'.read b.start b.length = m.read b.start b.length := by
  refine List.map_congr_left fun i hi => h _ ?_
  rw [List.mem_range] at hi
  simp only [Buffer.Has]
  omega

theorem scatter_of_not_has (h : ∀ b ∈ bufs, ¬b.Has x) : m.scatter bufs bytes x = m x := by
  induction bufs generalizing m bytes
  case nil => rfl
  case cons b bufs hi =>
    have ⟨hb, h⟩ := List.forall_mem_cons.mp h
    rw [scatter, hi h, write_of_not_has (List.length_take_le ..) hb]

-- What is apart from the buffers stays as it is.
theorem read_scatter_apart (h : ∀ b' ∈ bufs, b'.Apart b) :
    (m.scatter bufs bytes).read b.start b.length = m.read b.start b.length :=
  read_congr fun x hx => scatter_of_not_has fun b' hb' hx' => h b' hb' x hx' hx

-- Each buffer has got its part.
theorem read_scatter (h : bufs.Pairwise Buffer.Apart) : List.Forall₂
    (fun b chunk => (m.scatter bufs bytes).read b.start chunk.length = chunk) bufs
      (Buffer.chunks bufs bytes) := by
  induction bufs generalizing m bytes
  case nil => exact .nil
  case cons b bufs hi =>
    have ⟨hb, h⟩ := List.pairwise_cons.mp h
    refine .cons ?_ <| hi h
    have hr := @read_scatter_apart (m.write b.start (bytes.take b.length))
      ⟨b.start, (bytes.take b.length).length⟩ bufs (bytes.drop b.length) fun b' hb' x hx' hx =>
        hb b' hb' x ⟨hx.1, hx.2.trans_le <| by simp⟩ hx'
    exact hr.trans read_write

end ByteStore
