import Mathlib.Tactic.Common
import Mathlib.Data.Nat.Bitwise

/-!
# Unsigned 64-bit arithmetic on naturals

A C `size_t` or `uintptr_t` is a natural number below `2 ^ 64`; each operation
that can leave that range is one of the wrapping operations below. The lemmas
say when an operation agrees with the arithmetic of `Nat`, which is the only
form the proofs about programs ever need.

Main results:

* `add64_eq`, `mul64_eq`, `sub64_eq` — no wrap, no difference;
* `and_not_low_mask` — masking off the low bits of a word rounds it down.
-/

namespace Words

/-- `a + b` as an unsigned 64-bit sum. -/
def add64 (a b : Nat) : Nat := (a + b) % 2 ^ 64

/-- `a - b` as an unsigned 64-bit difference. -/
def sub64 (a b : Nat) : Nat := (a + (2 ^ 64 - b % 2 ^ 64)) % 2 ^ 64

/-- `a * b` as an unsigned 64-bit product. -/
def mul64 (a b : Nat) : Nat := (a * b) % 2 ^ 64

theorem add64_lt (a b : Nat) : add64 a b < 2 ^ 64 := by
  unfold add64
  omega

theorem add64_eq {a b : Nat} (h : a + b < 2 ^ 64) : add64 a b = a + b := by
  unfold add64
  omega

theorem sub64_eq {a b : Nat} (hle : b ≤ a) (ha : a < 2 ^ 64) : sub64 a b = a - b := by
  unfold sub64
  omega

/-- Adding a wrapped product is adding the product. -/
theorem add64_mul64 (a b c : Nat) : add64 a (mul64 b c) = (a + b * c) % 2 ^ 64 := by
  unfold add64 mul64
  omega

/-- Adding to a base address separates offsets below `2 ^ 64`. -/
theorem add64_left_inj {a b c : Nat} (hb : b < 2 ^ 64) (hc : c < 2 ^ 64) :
    add64 a b = add64 a c ↔ b = c := by
  unfold add64
  omega

/-- `x & ~(2 ^ k - 1)` on 64-bit words rounds `x` down to a multiple of `2 ^ k`. -/
theorem and_not_low_mask {x k : Nat} (hx : x < 2 ^ 64) (hk : k ≤ 64) :
    x &&& (2 ^ 64 - 2 ^ k) = x / 2 ^ k * 2 ^ k := by
  have hmask : 2 ^ 64 - 2 ^ k = (2 ^ (64 - k) - 1) * 2 ^ k := by
    rw [Nat.sub_mul, ← Nat.pow_add, Nat.sub_add_cancel hk, Nat.one_mul]
  apply Nat.eq_of_testBit_eq
  intro i
  rw [hmask, Nat.testBit_and, Nat.testBit_mul_two_pow, Nat.testBit_mul_two_pow,
    Nat.testBit_two_pow_sub_one, Nat.testBit_div_two_pow]
  by_cases hki : k ≤ i
  · rw [Nat.sub_add_cancel hki]
    by_cases hi : i < 64
    · simp [hki, show i - k < 64 - k by omega]
    · have hhigh : x.testBit i = false :=
        Nat.testBit_eq_false_of_lt (lt_of_lt_of_le hx (Nat.pow_le_pow_right (by omega) (by omega)))
      simp [hhigh]
  · simp [hki]

end Words
