import Mathlib.Data.List.GetD
import Mathlib.Data.List.Induction
import Mathlib.Tactic.Common
import Mathlib.Algebra.Group.Nat.Defs
import Mathlib.Algebra.GroupWithZero.Nat

/-!
# Big-endian numbers

A number as a list of bytes, the most significant one first, and the number a
list of bytes stands for.

* `ofBytes_append` — the value of a list from the values of two parts;
* `ofBytes_toBytes` — writing a number that fits and reading it back;
* `slice_add`, `slice_four` — runs of bytes inside a list.
-/

namespace BigEndian

/-- The value of a list of bytes. -/
def ofBytes (bytes : List (BitVec 8)) : Nat :=
  bytes.foldl (fun n b => n * 256 + b.toNat) 0

/-- The last `w` bytes of a number. -/
def toBytes : Nat → Nat → List (BitVec 8)
  | 0, _ => []
  | w + 1, n => toBytes w (n / 256) ++ [BitVec.ofNat 8 n]

@[simp] theorem ofBytes_nil : ofBytes [] = 0 := rfl

@[simp] theorem ofBytes_concat (bytes : List (BitVec 8)) (b : BitVec 8) :
    ofBytes (bytes ++ [b]) = ofBytes bytes * 256 + b.toNat := by
  rw [ofBytes, List.foldl_append]
  rfl

/-- The value of a list from the values of its parts. -/
theorem ofBytes_append (xs ys : List (BitVec 8)) :
    ofBytes (xs ++ ys) = ofBytes xs * 256 ^ ys.length + ofBytes ys := by
  induction ys using List.reverseRecOn with
  | nil => simp
  | append_singleton ys y ih =>
    rw [← List.append_assoc, ofBytes_concat, ofBytes_concat, ih, List.length_append,
      List.length_singleton, Nat.pow_succ, Nat.add_mul, Nat.mul_assoc, Nat.add_assoc]

theorem ofBytes_lt (bytes : List (BitVec 8)) : ofBytes bytes < 256 ^ bytes.length := by
  induction bytes using List.reverseRecOn with
  | nil => exact Nat.one_pos
  | append_singleton bytes b ih =>
    have hByte := b.isLt
    rw [ofBytes_concat, List.length_append, List.length_singleton, Nat.pow_succ]
    omega

@[simp] theorem length_toBytes (w n : Nat) : (toBytes w n).length = w := by
  induction w generalizing n with
  | zero => rfl
  | succ w ih => rw [toBytes, List.length_append, ih, List.length_singleton]

/-- **Round trip** for a number that fits. -/
theorem ofBytes_toBytes {w n : Nat} (h : n < 256 ^ w) : ofBytes (toBytes w n) = n := by
  induction w generalizing n with
  | zero =>
    rw [Nat.pow_zero] at h
    rw [toBytes, ofBytes_nil]
    omega
  | succ w ih =>
    rw [Nat.pow_succ] at h
    rw [toBytes, ofBytes_concat, ih (by omega), BitVec.toNat_ofNat]
    omega

/-- The value of a run of bytes in a list. -/
def slice (bytes : List (BitVec 8)) (start n : Nat) : Nat :=
  ofBytes ((bytes.drop start).take n)

/-- Two runs next to each other. -/
theorem slice_add {bytes : List (BitVec 8)} {start n m : Nat}
    (h : start + (n + m) ≤ bytes.length) :
    slice bytes start (n + m) = slice bytes start n * 256 ^ m + slice bytes (start + n) m := by
  have hLength : ((bytes.drop (start + n)).take m).length = m := by
    rw [List.length_take, List.length_drop]
    omega
  rw [slice, List.take_add, ofBytes_append, List.drop_drop, hLength]
  rfl

theorem slice_lt (bytes : List (BitVec 8)) (start n : Nat) : slice bytes start n < 256 ^ n :=
  Nat.lt_of_lt_of_le (ofBytes_lt _) (Nat.pow_le_pow_right (by omega) (List.length_take_le _ _))

/-- A run of one byte. -/
theorem slice_one {bytes : List (BitVec 8)} {start : Nat} (h : start < bytes.length) :
    slice bytes start 1 = (bytes.getD start 0).toNat := by
  rw [slice, List.drop_eq_getElem_cons h, List.getD_eq_getElem _ _ h]
  exact Nat.zero_add _

/-- Appending a word writes its digits after those of the first. -/
theorem toNat_append {m n : Nat} (x : BitVec m) (y : BitVec n) :
    (x ++ y).toNat = x.toNat * 2 ^ n + y.toNat := by
  rw [BitVec.toNat_append, ← Nat.shiftLeft_add_eq_or_of_lt y.isLt, Nat.shiftLeft_eq]

/-- Four bytes as one word. -/
theorem slice_four {bytes : List (BitVec 8)} {start : Nat} (h : start + 4 ≤ bytes.length) :
    slice bytes start 4 = (bytes.getD start 0 ++ bytes.getD (start + 1) 0 ++
      bytes.getD (start + 2) 0 ++ bytes.getD (start + 3) 0).toNat := by
  rw [slice_add (n := 3) (m := 1) h, slice_add (n := 2) (m := 1) (by omega),
    slice_add (n := 1) (m := 1) (by omega), slice_one (by omega), slice_one (by omega),
    slice_one (by omega), slice_one (by omega)]
  simp only [toNat_append, Nat.pow_one, show 256 = 2 ^ 8 from rfl]

/-- A run inside the first part of a list. -/
theorem slice_append_left {xs ys : List (BitVec 8)} {start n : Nat} (h : start + n ≤ xs.length) :
    slice (xs ++ ys) start n = slice xs start n := by
  rw [slice, List.drop_append_of_le_length (by omega), List.take_append_of_le_length]
  · rfl
  · rw [List.length_drop]
    omega

/-- A run inside the second part of a list. -/
theorem slice_append_right (xs ys : List (BitVec 8)) (start n : Nat) :
    slice (xs ++ ys) (xs.length + start) n = slice ys start n := by
  rw [slice, slice, List.drop_append, List.drop_eq_nil_of_le (Nat.le_add_right _ _),
    Nat.add_sub_cancel_left, List.nil_append]

/-- A whole list as one run. -/
theorem slice_all (bytes : List (BitVec 8)) : slice bytes 0 bytes.length = ofBytes bytes := by
  rw [slice, List.drop_zero, List.take_length]

end BigEndian
