import Kernalite.Utils.String

/-!
# Kernalite — `memcmp`

* `memcmp_lex` — the sign of the result is the lexicographic order of the two ranges,
  bytes compared as unsigned numbers.
-/

namespace Kernalite

open ByteMemory Words

/-- The bytes of a range. -/
def bytesAt (m : Mem) (p size : Nat) : List Byte := (List.range size).map fun i => m (p + i)

theorem bytesAt_succ (m : Mem) (p size : Nat) :
    bytesAt m p (size + 1) = m p :: bytesAt m (p + 1) size := by
  rw [bytesAt, List.range_succ_eq_map, List.map_cons, List.map_map, bytesAt, Nat.add_zero]
  refine congrArg (m p :: ·) (List.map_congr_left fun i _ => ?_)
  exact congrArg m (by rw [Nat.succ_eq_add_one, Nat.add_assoc, Nat.add_comm 1])

theorem bytesAt_congr {m m' : Mem} {p size : Nat}
    (h : ∀ x, p ≤ x → x < p + size → m' x = m x) : bytesAt m' p size = bytesAt m p size :=
  List.map_congr_left fun i hi =>
    h (p + i) (Nat.le_add_right p i) (Nat.add_lt_add_left (List.mem_range.mp hi) p)

/-- The first difference of two rows of bytes, `0` when there is none. -/
def firstDifference : List Byte → List Byte → Int
  | x :: xs, y :: ys => if x ≠ y then x.toNat - y.toNat else firstDifference xs ys
  | _, _ => 0

section FirstDifference

variable {xs ys : List Byte}

/-- The order of rows of the same length is that of their first difference. -/
theorem firstDifference_neg_iff (h : xs.length = ys.length) :
    firstDifference xs ys < 0 ↔ xs < ys := by
  induction xs generalizing ys with
  | nil =>
    rw [List.eq_nil_of_length_eq_zero h.symm]
    exact iff_of_false (Int.lt_irrefl 0) (List.lt_irrefl [])
  | cons x xs ih =>
    obtain ⟨y, ys, rfl⟩ := List.exists_cons_of_length_eq_add_one h.symm
    rw [firstDifference, List.cons_lt_cons_iff, BitVec.lt_def]
    by_cases hSame : x = y
    · rw [if_neg (not_not_intro hSame), ih (Nat.succ.inj h)]
      simp [hSame]
    · rw [if_pos hSame]
      simp only [hSame, false_and, or_false]
      omega

theorem firstDifference_swap (xs ys : List Byte) :
    firstDifference ys xs = -firstDifference xs ys := by
  induction xs generalizing ys with
  | nil => cases ys <;> rfl
  | cons x xs ih =>
    cases ys with
    | nil => rfl
    | cons y ys =>
      rw [firstDifference, firstDifference, ih]
      by_cases hSame : x = y
      · rw [if_neg (not_not_intro hSame), if_neg (not_not_intro hSame.symm)]
      · rw [if_pos hSame, if_pos (Ne.symm hSame), Int.neg_sub]

theorem firstDifference_eq_zero_iff (h : xs.length = ys.length) :
    firstDifference xs ys = 0 ↔ xs = ys := by
  induction xs generalizing ys with
  | nil => exact iff_of_true rfl (List.eq_nil_of_length_eq_zero h.symm).symm
  | cons x xs ih =>
    obtain ⟨y, ys, rfl⟩ := List.exists_cons_of_length_eq_add_one h.symm
    rw [firstDifference, List.cons.injEq]
    by_cases hSame : x = y
    · rw [if_neg (not_not_intro hSame), ih (Nat.succ.inj h), and_iff_right hSame]
    · rw [if_pos hSame]
      have hValue : x.toNat ≠ y.toNat := fun hEq => hSame (BitVec.eq_of_toNat_eq hEq)
      exact iff_of_false (by omega) fun hBoth => hSame hBoth.1

/-- The result fits a byte and its sign. -/
theorem firstDifference_natAbs_lt (xs ys : List Byte) : (firstDifference xs ys).natAbs < 256 := by
  induction xs generalizing ys with
  | nil => cases ys <;> exact Nat.succ_pos 255
  | cons x xs ih =>
    cases ys with
    | nil => exact Nat.succ_pos 255
    | cons y ys =>
      rw [firstDifference]
      split_ifs
      · have hx := x.isLt
        have hy := y.isLt
        omega
      · exact ih ys

end FirstDifference

variable {m m' : Mem} {p q size : Nat}

/-- **The loop of `memcmp`** stops at the first difference. -/
theorem memcmp_eq (hP : p + size ≤ 2 ^ 64) (hQ : q + size ≤ 2 ^ 64) :
    memcmp m p q size = firstDifference (bytesAt m p size) (bytesAt m q size) := by
  induction size generalizing p q with
  | zero => rfl
  | succ size ih =>
    rw [memcmp, bytesAt_succ, bytesAt_succ, firstDifference]
    split_ifs with hDiffer
    · rfl
    · rcases Nat.eq_zero_or_pos size with rfl | hMore
      · rfl
      · rw [add64_eq (by omega), add64_eq (by omega)]
        exact ih (by omega) (by omega)

/--
**`memcmp` orders ranges lexicographically**, bytes as unsigned numbers, wherever they
lie and however they overlap: the result is negative, zero or positive as the first
range is below, equal to or above the second, swapping the ranges negates it, it fits
an `int`, and it depends on no byte outside the two ranges.
-/
theorem memcmp_lex (hP : p + size ≤ 2 ^ 64) (hQ : q + size ≤ 2 ^ 64) :
    (memcmp m p q size < 0 ↔ bytesAt m p size < bytesAt m q size) ∧
    (memcmp m p q size = 0 ↔ bytesAt m p size = bytesAt m q size) ∧
    (0 < memcmp m p q size ↔ bytesAt m q size < bytesAt m p size) ∧
    memcmp m q p size = -memcmp m p q size ∧
    (memcmp m p q size).natAbs < 256 ∧
    ∀ m' : Mem, (∀ x, (p ≤ x ∧ x < p + size) ∨ (q ≤ x ∧ x < q + size) → m' x = m x) →
      memcmp m' p q size = memcmp m p q size := by
  have hLength : (bytesAt m p size).length = (bytesAt m q size).length := by
    rw [bytesAt, bytesAt, List.length_map, List.length_map]
  have hSwap : memcmp m q p size = -memcmp m p q size := by
    rw [memcmp_eq hQ hP, memcmp_eq hP hQ, firstDifference_swap]
  refine ⟨?_, ?_, ?_, hSwap, ?_, fun m' hSame => ?_⟩
  · rw [memcmp_eq hP hQ, firstDifference_neg_iff hLength]
  · rw [memcmp_eq hP hQ, firstDifference_eq_zero_iff hLength]
  · rw [← firstDifference_neg_iff hLength.symm, ← memcmp_eq hQ hP, hSwap]
    omega
  · rw [memcmp_eq hP hQ]
    exact firstDifference_natAbs_lt _ _
  · rw [memcmp_eq hP hQ, memcmp_eq hP hQ,
      bytesAt_congr fun x hlo hhi => hSame x (Or.inl ⟨hlo, hhi⟩),
      bytesAt_congr fun x hlo hhi => hSame x (Or.inr ⟨hlo, hhi⟩)]

/-- Two ranges at the end of the address space that share three of their bytes. -/
theorem memcmp_lex_top :
    let m : Mem := fun x => BitVec.ofNat 8 x
    0 < memcmp m 0xFFFFFFFFFFFFFFFC 0xFFFFFFFFFFFFFFFB 4 ↔
      bytesAt m 0xFFFFFFFFFFFFFFFB 4 < bytesAt m 0xFFFFFFFFFFFFFFFC 4 :=
  (memcmp_lex (by omega) (by omega)).2.2.1

end Kernalite
