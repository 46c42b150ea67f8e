import Mathlib.Algebra.GroupWithZero.Nat
import Mathlib.Data.List.DropRight
import Mathlib.Data.List.Rotate

/-! A list in a circular buffer: it is what the buffer, turned to some place, begins with. -/

namespace ImcGem5.Lib.Ring
open List

variable {α : Type} {buffer contents data : List α} {start place : ℕ}

/-- Elements are copied into a buffer from some place on. -/
def copyAt (buffer : List α) (place : ℕ) (data : List α) : List α :=
  buffer.take place ++ data ++ buffer.drop (place + data.length)

/-- The same, and those past the end of the buffer come to its beginning. -/
def copyRound (buffer : List α) (place : ℕ) (data : List α) : List α :=
  if buffer.length - place < data.length then
    copyAt (copyAt buffer place (data.take (buffer.length - place))) 0 (data.drop (buffer.length - place))
  else copyAt buffer place data

theorem rotate_copyRound (inside : place < buffer.length) (fits : data.length ≤ buffer.length) :
    (copyRound buffer place data).rotate place = data ++ (buffer.rotate place).drop data.length := by
  have before : (buffer.take place).length = place := length_take_of_le (by omega)
  have turned (first rest : List α) (length : first.length = place) : (first ++ rest).rotate place = rest ++ first := by
    rw [← length, rotate_append_length_eq]
  rw [rotate_eq_drop_append_take (Nat.le_of_lt inside)]
  unfold copyRound
  split
  next wraps =>
    have taken : (data.take (buffer.length - place)).length = buffer.length - place := length_take_of_le (by omega)
    have full : buffer.drop (place + (buffer.length - place)) = [] := drop_eq_nil_of_le (by omega)
    have gone : (buffer.drop place).drop data.length = [] := drop_eq_nil_of_le (by rw [length_drop]; omega)
    have second : (data.drop (buffer.length - place)).length = data.length - (buffer.length - place) := length_drop
    rw [copyAt, copyAt, taken, full, append_nil, take_zero, nil_append, Nat.zero_add, second,
      drop_append_of_le_length (by omega), ← append_assoc, turned _ _ (by rw [length_append, second, length_drop]; omega),
      ← append_assoc, take_append_drop, drop_append, gone, nil_append, length_drop]
  next whole =>
    rw [copyAt, append_assoc, turned _ _ before, drop_append_of_le_length (by rw [length_drop]; omega), drop_drop, append_assoc]

theorem length_copyRound (inside : place < buffer.length) (fits : data.length ≤ buffer.length) :
    (copyRound buffer place data).length = buffer.length := by
  rw [← length_rotate (n := place), rotate_copyRound inside fits, length_append, length_drop, length_rotate]
  omega

/-- The elements from a place on, and those past the end of the buffer from its beginning. -/
def readRound (buffer : List α) (place len : ℕ) : List α :=
  if buffer.length - place < len then buffer.drop place ++ buffer.take (len - (buffer.length - place))
  else (buffer.drop place).take len

theorem readRound_eq {len : ℕ} (inside : place < buffer.length) (fits : len ≤ buffer.length) :
    readRound buffer place len = (buffer.rotate place).take len := by
  rw [rotate_eq_drop_append_take (Nat.le_of_lt inside), readRound, take_append, length_drop]
  split
  next wraps =>
    rw [take_of_length_le (l := buffer.drop place) (by rw [length_drop]; omega), take_take, Nat.min_eq_left (by omega)]
  next whole => rw [Nat.sub_eq_zero_of_le (by omega), take_zero, append_nil]

def Shows (buffer : List α) (start : ℕ) (contents : List α) : Prop := contents <+: buffer.rotate start

theorem Shows.fits (shows : Shows buffer start contents) : contents.length ≤ buffer.length :=
  shows.length_le.trans_eq (length_rotate ..)

theorem Shows.drop (shows : Shows buffer start contents) (n : ℕ) (le : n ≤ contents.length) : Shows buffer (start + n) (contents.drop n) := by
  rw [Shows, ← rotate_rotate, rotate_eq_drop_append_take (le.trans shows.length_le)]
  exact (IsPrefix.drop shows n).trans (prefix_append _ _)

theorem Shows.readRound (shows : Shows buffer start contents) (len : ℕ) (positive : 0 < buffer.length) (enough : len ≤ contents.length) :
    readRound buffer (start % buffer.length) len = contents.take len := by
  have fits := shows.fits
  obtain ⟨rest, same⟩ := shows
  rw [readRound_eq (Nat.mod_lt start positive) (by omega), rotate_mod, ← same, take_append_of_le_length enough]

/-- What is appended takes the place of the oldest elements where there is no room for it. -/
theorem Shows.append (shows : Shows buffer start contents) (data : List α) (positive : 0 < buffer.length) (fits : data.length ≤ buffer.length) :
    Shows (copyRound buffer ((start + contents.length) % buffer.length) data)
      (start + (contents.length + data.length - buffer.length)) ((contents ++ data).rtake buffer.length) := by
  obtain ⟨rest, same⟩ := shows
  have all : contents.length + rest.length = buffer.length := by rw [← length_append, same, length_rotate]
  have inside := Nat.mod_lt (start + contents.length) positive
  have behind : buffer.rotate ((start + contents.length) % buffer.length) = rest ++ contents := by
    rw [rotate_mod, ← rotate_rotate, ← same, rotate_append_length_eq]
  have length := length_copyRound inside fits
  have copied := rotate_copyRound inside fits
  rw [behind] at copied
  rw [Shows, rtake, length_append]
  generalize excess : contents.length + data.length - buffer.length = gone
  have round : start + contents.length + (rest.length + gone) = start + gone + buffer.length := by omega
  have turned : (copyRound buffer ((start + contents.length) % buffer.length) data).rotate (start + gone) =
      (data ++ (rest ++ contents).drop data.length).rotate (rest.length + gone) := by
    rw [← copied, rotate_rotate, ← rotate_mod, ← rotate_mod _ (_ + (rest.length + gone)), length, Nat.mod_add_mod, round, Nat.add_mod_right]
  rw [turned]
  rcases Nat.lt_or_ge rest.length data.length with full | room
  · have left : (rest ++ contents).drop data.length = contents.drop gone := by
      rw [drop_append, drop_eq_nil_of_le (by omega), nil_append]
      congr 1
      omega
    have count : rest.length + gone = data.length := by omega
    rw [left, count, rotate_append_length_eq, drop_append_of_le_length (by omega)]
  · have first : (data ++ rest.drop data.length).length = rest.length + gone := by
      rw [length_append, length_drop]
      omega
    rw [drop_append_of_le_length room, ← append_assoc, ← first, rotate_append_length_eq, show gone = 0 by omega, drop_zero,
      ← append_assoc]
    exact prefix_append _ _

end ImcGem5.Lib.Ring
