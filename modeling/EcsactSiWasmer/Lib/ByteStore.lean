import Mathlib.Data.Nat.Basic
import Mathlib.Data.Int.Basic
import Mathlib.Data.List.Basic
import Mathlib.Tactic.Ring

abbrev Byte := BitVec 8

-- The `n` lowest bytes of a number, the lowest first.
def leBytes : Nat → Nat → List Byte
  | 0, _     => []
  | n + 1, v => BitVec.ofNat 8 v :: leBytes n (v / 256)

def leVal : List Byte → Nat
  | []      => 0
  | b :: bs => b.toNat + 256 * leVal bs

@[simp]
theorem leBytes_length (n v : Nat) : (leBytes n v).length = n := by
  induction n generalizing v
  case zero      => rfl
  case succ _ hi => simp [leBytes, hi]

theorem leVal_leBytes (n v : Nat) : leVal (leBytes n v) = v % 256 ^ n := by
  induction n generalizing v
  case zero => simp [leBytes, leVal, Nat.mod_one]
  case succ n hi =>
    calc leVal (leBytes (n + 1) v)
      _ = v % 256 + 256 * (v / 256 % 256 ^ n) := by simp [leBytes, leVal, hi]
      _ = v % 256 ^ (n + 1)                   := by rw [Nat.pow_succ', Nat.mod_mul]

theorem leBytes_take {n k v : Nat} : (leBytes (n + k) v).take n = leBytes n v := by
  induction n generalizing v
  case zero      => rfl
  case succ n hi => rw [Nat.succ_add, leBytes, List.take_succ_cons, hi, leBytes]

-- Reading a word back from its bytes gives the word.
theorem ofNat_leVal_leBytes {w n : Nat} (h : w = 8 * n) (v : BitVec w) :
    BitVec.ofNat w (leVal (leBytes n v.toNat)) = v := by
  have hw : 256 ^ n = 2 ^ w := by rw [h, Nat.pow_mul]
  apply BitVec.eq_of_toNat_eq
  simp [leVal_leBytes, hw]

-- A memory whose bytes are addressed relative to some base, so that an address may be negative.
abbrev ByteStore := Int → Byte

namespace ByteStore

variable {m : ByteStore} {a b x : Int} {bs : List Byte} {n : Nat}

def zeros : ByteStore :=
  fun _ => 0

def read (m : ByteStore) (a : Int) (n : Nat) : List Byte :=
  (List.range n).map fun i : Nat => m (a + i)

def write (m : ByteStore) (a : Int) (bs : List Byte) : ByteStore := fun x =>
  if a ≤ x ∧ x < a + bs.length then bs.getD (x - a).toNat 0 else m x

-- The word of `w` bits, stored in `w / 8` bytes, at an address.
def readWord (w : Nat) (m : ByteStore) (a : Int) : BitVec w :=
  BitVec.ofNat w (leVal (m.read a (w / 8)))

def writeWord {w : Nat} (m : ByteStore) (a : Int) (v : BitVec w) : ByteStore :=
  m.write a (leBytes (w / 8) v.toNat)

@[simp]
theorem read_length : (m.read a n).length = n := by
  simp [read]

theorem write_outside (h : x < a ∨ a + bs.length ≤ x) : m.write a bs x = m x := by
  simp only [write]
  rw [if_neg]
  omega

theorem write_changes (h : m.write a bs x ≠ m x) : a ≤ x ∧ x < a + bs.length := by
  by_contra hc
  exact h <| write_outside <| by omega

theorem read_write_disjoint (h : b + n ≤ a ∨ a + bs.length ≤ b) :
    (m.write a bs).read b n = m.read b n := by
  simp only [read]
  apply List.map_congr_left
  intro i hi
  rw [List.mem_range] at hi
  exact write_outside <| by omega

theorem read_write : (m.write a bs).read a bs.length = bs := by
  apply List.ext_getElem
  case hl => simp
  case h =>
    intro i _ hi
    have hx : (a + (i : Int) - a).toNat = i := by omega
    simp only [read, List.getElem_map, List.getElem_range, write]
    rw [if_pos (by omega), hx, List.getD_eq_getElem?_getD, List.getElem?_eq_getElem hi]
    exact Option.getD_some

theorem read_write_take (h : n ≤ bs.length) : (m.write a bs).read a n = bs.take n := by
  have ht := congrArg (List.take n) (@read_write m a bs)
  rw [read, ← List.map_take, List.take_range, Nat.min_eq_left h] at ht
  exact ht

theorem read_write_head {b : Byte} : (m.write a (b :: bs)).read a 1 = [b] := by
  simp [read, write]

-- Writing what is there changes nothing.
theorem write_read : m.write a (m.read a n) = m := by
  funext x
  simp only [write, read_length]
  split
  case isFalse => rfl
  case isTrue h =>
    have hx : a + ((x - a).toNat : Int) = x := by omega
    have hl : (x - a).toNat < n := by omega
    rw [read, List.getD_eq_getElem?_getD, List.getElem?_map, List.getElem?_range hl]
    exact congrArg m hx

theorem write_eq_self : m.write a bs = m ↔ m.read a bs.length = bs := by
  constructor
  case mp =>
    intro h
    rw [← h, read_write]
  case mpr =>
    intro h
    rw [← h, write_read]

theorem readWord_writeWord {w : Nat} (h : w = 8 * (w / 8)) (v : BitVec w) :
    (m.writeWord a v).readWord w a = v := by
  have hr := @read_write m a (leBytes (w / 8) v.toNat)
  rw [leBytes_length] at hr
  rw [readWord, writeWord, hr, ofNat_leVal_leBytes h]

-- A number may be stored in more bytes than it is read from.
theorem readWord_write_leBytes {w v : Nat} (hw : w = 8 * (w / 8)) (hn : w / 8 ≤ n) :
    (m.write a (leBytes n v)).readWord w a = BitVec.ofNat w v := by
  have hp : 256 ^ (w / 8) = 2 ^ w := by rw [hw, Nat.pow_mul, ← hw]
  rw [readWord, read_write_take (by simpa using hn), ← Nat.add_sub_cancel' hn, leBytes_take,
    leVal_leBytes, hp]
  exact BitVec.eq_of_toNat_eq <| by simp

theorem read_add {k : Nat} : m.read a (k + n) = m.read a k ++ m.read (a + k) n := by
  simp only [read, List.range_add, List.map_append, List.map_map]
  congr 1
  apply List.map_congr_left
  intro i _
  simp only [Function.comp_apply, Nat.cast_add, add_assoc]

-- A word in the middle of what is written.
theorem readWord_write_append {w : Nat} {v : BitVec w} {pre post : List Byte} (h : w = 8 * (w / 8)) :
    (m.write a (pre ++ (leBytes (w / 8) v.toNat ++ post))).readWord w (a + pre.length) = v := by
  have hr := @read_write m a (pre ++ (leBytes (w / 8) v.toNat ++ post))
  rw [List.length_append, List.length_append, leBytes_length, read_add, read_add] at hr
  have ⟨_, hr⟩ := List.append_inj hr read_length
  have ⟨hr, _⟩ := List.append_inj hr <| by rw [read_length, leBytes_length]
  rw [readWord, hr, ofNat_leVal_leBytes h]

theorem readWord_write_disjoint {w : Nat} (h : b + (w / 8 : Nat) ≤ a ∨ a + bs.length ≤ b) :
    (m.write a bs).readWord w b = m.readWord w b := by
  rw [readWord, readWord, read_write_disjoint h]

theorem readWord_writeWord_disjoint {w w' : Nat} {v : BitVec w'}
    (h : b + (w / 8 : Nat) ≤ a ∨ a + (w' / 8 : Nat) ≤ b) :
    (m.writeWord a v).readWord w b = m.readWord w b :=
  readWord_write_disjoint <| by simpa using h

end ByteStore
