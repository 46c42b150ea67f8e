import Mathlib.Algebra.GroupWithZero.Nat
import Mathlib.Data.List.GetD
import Mathlib.Tactic.Common

/-! Byte-addressed storage. A store is a total map from addresses to bytes, so a
frame fact is an equality of values and bounds are the business of the caller. -/

namespace ImcGem5.Lib
open List

abbrev Byte := BitVec 8

/-- The number spelled by a list of bytes, least significant byte first. -/
def leNat : List Byte → Nat
  | [] => 0
  | byte :: rest => byte.toNat + 256 * leNat rest

def leBytes : Nat → Nat → List Byte
  | 0, _ => []
  | width + 1, value => BitVec.ofNat 8 value :: leBytes width (value / 256)

@[simp] theorem leBytes_length (width value : Nat) : (leBytes width value).length = width := by
  induction width generalizing value with
  | zero => rfl
  | succ width ih => simp [leBytes, ih]

theorem leNat_leBytes (width value : Nat) : leNat (leBytes width value) = value % 256 ^ width := by
  induction width generalizing value with
  | zero => simp [leBytes, leNat, Nat.mod_one]
  | succ width ih =>
    have split : value % 256 ^ (width + 1) = value % 256 + 256 * (value / 256 % 256 ^ width) := by
      rw [Nat.pow_succ, Nat.mul_comm (256 ^ width) 256, Nat.mod_mul]
    rw [leBytes, leNat, ih, BitVec.toNat_ofNat, split]

abbrev Store := Nat → Byte

namespace Store

def read (store : Store) (start length : Nat) : List Byte :=
  (range length).map fun offset => store (start + offset)

def write (store : Store) (start : Nat) (bytes : List Byte) : Store := fun address =>
  if start ≤ address ∧ address < start + bytes.length then bytes.getD (address - start) 0 else store address

@[simp] theorem read_length (store : Store) (start length : Nat) : (store.read start length).length = length := by
  simp [read]

theorem write_outside (store : Store) (start : Nat) (bytes : List Byte) {address : Nat}
    (outside : address < start ∨ start + bytes.length ≤ address) :
    store.write start bytes address = store address := by
  simp only [write]
  rw [if_neg (by omega)]

theorem write_inside (store : Store) (start : Nat) (bytes : List Byte) {offset : Nat}
    (inside : offset < bytes.length) : store.write start bytes (start + offset) = bytes.getD offset 0 := by
  simp only [write]
  rw [if_pos (by omega), Nat.add_sub_cancel_left]

theorem read_congr {first second : Store} {start length : Nat}
    (same : ∀ offset, offset < length → first (start + offset) = second (start + offset)) :
    first.read start length = second.read start length := by
  apply map_congr_left
  intro offset member
  exact same offset (List.mem_range.mp member)

theorem read_write_same (store : Store) (start : Nat) (bytes : List Byte) :
    (store.write start bytes).read start bytes.length = bytes := by
  apply ext_getElem (by simp)
  intro offset first second
  simp only [read, getElem_map, getElem_range]
  rw [write_inside store start bytes second, getD_eq_getElem _ _ second]

theorem read_write_disjoint (store : Store) (start : Nat) (bytes : List Byte) {other length : Nat}
    (disjoint : other + length ≤ start ∨ start + bytes.length ≤ other) :
    (store.write start bytes).read other length = store.read other length := by
  apply read_congr
  intro offset inside
  apply write_outside
  omega

theorem write_append (store : Store) (start : Nat) (first second : List Byte) :
    store.write start (first ++ second) = (store.write start first).write (start + first.length) second := by
  funext address
  simp only [write, length_append]
  by_cases tail : start + first.length ≤ address ∧ address < start + first.length + second.length
  · rw [if_pos (by omega), if_pos tail, getD_append_right _ _ _ _ (by omega)]
    congr 1
    omega
  · rw [if_neg tail]
    by_cases head : start ≤ address ∧ address < start + first.length
    · rw [if_pos (by omega), if_pos head, getD_append _ _ _ _ (by omega)]
    · rw [if_neg (by omega), if_neg head]

/-- The 64-bit little-endian word at an address. -/
def word (store : Store) (address : Nat) : BitVec 64 := BitVec.ofNat 64 (leNat (store.read address 8))

def setWord (store : Store) (address : Nat) (value : BitVec 64) : Store :=
  store.write address (leBytes 8 value.toNat)

theorem ofNat_leBytes (value : BitVec 64) : BitVec.ofNat 64 (leNat (leBytes 8 value.toNat)) = value := by
  apply BitVec.eq_of_toNat_eq
  rw [leNat_leBytes, BitVec.toNat_ofNat]
  omega

@[simp] theorem word_setWord_same (store : Store) (address : Nat) (value : BitVec 64) :
    (store.setWord address value).word address = value := by
  have same := read_write_same store address (leBytes 8 value.toNat)
  rw [leBytes_length] at same
  simp only [word, setWord, same, ofNat_leBytes]

theorem word_setWord_disjoint (store : Store) {start other : Nat} (value : BitVec 64)
    (disjoint : other + 8 ≤ start ∨ start + 8 ≤ other) :
    (store.setWord start value).word other = store.word other := by
  simp only [word, setWord]
  rw [read_write_disjoint _ _ _ (by simpa using disjoint)]

end Store
end ImcGem5.Lib
