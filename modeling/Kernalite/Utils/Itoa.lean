import Mathlib.Algebra.Group.Nat.Defs
import Mathlib.Algebra.GroupWithZero.Nat
import Kernalite.Utils.Kprintf
import Kernalite.Lib.ByteString

/-!
# Kernalite — `itoa`

`itoa` writes the digits of a number from the last to the first and then reverses
them in place.

* `itoaDigits_spec` — the digit loop;
* `itoaReverse_eq` — the loop that reverses: a mirror image of the range;
* `itoa_spec` — the buffer holds the digits of the number in the base, ended by a
  zero byte, and is written nowhere else.
-/

namespace Kernalite

open ByteMemory ByteString

/-- The digits of a number, without leading zeros. -/
def digitBytes (base num : Nat) : List Byte := (Nat.toDigits base num).map ascii

variable {base num : Nat} {buf : Mem}

-- ---------------------------------------------------------------------------
-- Digits
-- ---------------------------------------------------------------------------

theorem digitByte_eq {digit : Nat} (h : digit < 16) : digitByte digit = ascii digit.digitChar := by
  have hAll : ∀ d : Fin 16, digitByte d = ascii (d : Nat).digitChar := by decide
  exact hAll ⟨digit, h⟩

theorem digitByte_ne_zero {digit : Nat} (h : digit < 16) : digitByte digit ≠ 0 := by
  have hAll : ∀ d : Fin 16, digitByte d ≠ 0 := by decide
  exact hAll ⟨digit, h⟩

/-- The last digit and those before it. -/
theorem digitBytes_eq (hBase : 1 < base) (hHex : base ≤ 16) :
    digitBytes base num =
      (if num / base > 0 then digitBytes base (num / base) else []) ++ [digitByte (num % base)] := by
  have hLast : num % base < 16 := Nat.lt_of_lt_of_le (Nat.mod_lt _ (by omega)) hHex
  rw [digitBytes, Nat.toDigits_eq_if hBase, digitByte_eq hLast]
  by_cases hSmall : num < base
  · rw [if_pos hSmall, Nat.div_eq_of_lt hSmall, Nat.mod_eq_of_lt hSmall, if_neg (Nat.lt_irrefl 0)]
    rfl
  · rw [if_neg hSmall, if_pos (Nat.div_pos (Nat.not_lt.mp hSmall) (by omega)), List.map_append]
    rfl

theorem digitBytes_length_pos (base num : Nat) : 0 < (digitBytes base num).length := by
  rw [digitBytes, List.length_map]
  exact Nat.length_toDigits_pos

theorem digitBytes_length_le (hBase : 1 < base) {n : Nat} (hPos : 0 < n) (h : num < base ^ n) :
    (digitBytes base num).length ≤ n := by
  rw [digitBytes, List.length_map]
  exact (Nat.length_toDigits_le_iff hBase hPos).mpr h

theorem digitBytes_ne_zero (hBase : 1 < base) (hHex : base ≤ 16) (num : Nat) :
    ∀ b ∈ digitBytes base num, b ≠ 0 := by
  induction num using Nat.strongRecOn with
  | _ num ih =>
    intro b hb
    rw [digitBytes_eq hBase hHex] at hb
    rcases List.mem_append.mp hb with hb | hb
    · split_ifs at hb with hMore
      · exact ih _ (Nat.div_lt_self (Nat.pos_of_ne_zero fun hZero => by simp [hZero] at hMore) hBase) b hb
      · exact absurd hb List.not_mem_nil
    · rw [List.mem_singleton.mp hb]
      exact digitByte_ne_zero (Nat.lt_of_lt_of_le (Nat.mod_lt _ (by omega)) hHex)

/-- **The digit loop** leaves the digits back to front, and writes nothing else. -/
theorem itoaDigits_spec (hBase : 1 < base) (hHex : base ≤ 16) (rounds num ptr : Nat) (buf : Mem)
    (hRounds : num < base ^ rounds) (hPos : 0 < rounds) :
    (itoaDigits base rounds num ptr buf).1 = ptr + (digitBytes base num).length ∧
      Holds (itoaDigits base rounds num ptr buf).2 ptr (digitBytes base num).reverse ∧
      ∀ x, x < ptr ∨ ptr + (digitBytes base num).length ≤ x →
        (itoaDigits base rounds num ptr buf).2 x = buf x := by
  induction rounds generalizing num ptr buf with
  | zero => exact absurd hPos (Nat.lt_irrefl 0)
  | succ rounds ih =>
    rw [itoaDigits, digitBytes_eq hBase hHex, List.reverse_append, List.reverse_singleton]
    by_cases hMore : num / base > 0
    · have hRest : num / base < base ^ rounds :=
        Nat.div_lt_of_lt_mul (by rwa [Nat.pow_succ, Nat.mul_comm] at hRounds)
      have hPos' : 0 < rounds := by
        rcases Nat.eq_zero_or_pos rounds with rfl | hPos'
        · rw [Nat.pow_zero] at hRest
          omega
        · exact hPos'
      obtain ⟨hPtr, hHolds, hFrame⟩ := ih (num / base) (ptr + 1)
        (store8 buf ptr (digitByte (num % base))) hRest hPos'
      simp only [if_pos hMore]
      rw [List.length_append, List.length_singleton]
      refine ⟨by rw [hPtr]; omega, ⟨?_, hHolds⟩, fun x hx => ?_⟩
      · rw [hFrame ptr (Or.inl (Nat.lt_succ_self _)), store8_same]
      · rw [hFrame x (by omega), store8_of_ne (by omega)]
    · simp only [if_neg hMore]
      refine ⟨rfl, ⟨store8_same _ _ _, trivial⟩, fun x hx => store8_of_ne ?_⟩
      rw [List.nil_append, List.length_singleton] at hx
      omega

-- ---------------------------------------------------------------------------
-- Reversal
-- ---------------------------------------------------------------------------

/-- A range of at most one byte is its own mirror image. -/
theorem mirror_of_le {ptr1 ptr2 : Nat} (h : ptr2 ≤ ptr1) (x : Nat) :
    buf x = if ptr1 ≤ x ∧ x ≤ ptr2 then buf (ptr1 + ptr2 - x) else buf x := by
  split_ifs with hIn
  · congr 1
    omega
  · rfl

/-- Swapping the ends of a range and mirroring what is between. -/
theorem mirror_swap {ptr1 ptr2 : Nat} (h : ptr1 < ptr2) (x : Nat) :
    (if ptr1 + 1 ≤ x ∧ x ≤ ptr2 - 1 then
        store8 (store8 buf ptr1 (buf ptr2)) ptr2 (buf ptr1) (ptr1 + 1 + (ptr2 - 1) - x)
      else store8 (store8 buf ptr1 (buf ptr2)) ptr2 (buf ptr1) x) =
      if ptr1 ≤ x ∧ x ≤ ptr2 then buf (ptr1 + ptr2 - x) else buf x := by
  by_cases hInner : ptr1 + 1 ≤ x ∧ x ≤ ptr2 - 1
  · rw [if_pos hInner, if_pos (by omega), store8_of_ne (by omega), store8_of_ne (by omega)]
    congr 1
    omega
  · rw [if_neg hInner]
    by_cases hLast : x = ptr2
    · subst hLast
      rw [store8_same, if_pos (by omega), Nat.add_sub_cancel]
    · rw [store8_of_ne hLast]
      by_cases hFirst : x = ptr1
      · subst hFirst
        rw [store8_same, if_pos (by omega), Nat.add_sub_cancel_left]
      · rw [store8_of_ne hFirst, if_neg (by omega)]

/-- **The loop that reverses** mirrors the range and leaves everything else. -/
theorem itoaReverse_eq (rounds ptr1 ptr2 : Nat) (buf : Mem) (hRounds : ptr2 ≤ ptr1 + 2 * rounds)
    (x : Nat) :
    itoaReverse rounds ptr1 ptr2 buf x =
      if ptr1 ≤ x ∧ x ≤ ptr2 then buf (ptr1 + ptr2 - x) else buf x := by
  induction rounds generalizing ptr1 ptr2 buf with
  | zero => exact mirror_of_le (by omega) x
  | succ rounds ih =>
    rw [itoaReverse]
    by_cases hLt : ptr1 < ptr2
    · rw [if_pos hLt, ih _ _ _ (by omega)]
      exact mirror_swap hLt x
    · rw [if_neg hLt]
      exact mirror_of_le (by omega) x

/-- **`itoa`**: the buffer holds the digits as a string, and no byte behind it is
written. -/
theorem itoa_spec (hBase : 1 < base) (hHex : base ≤ 16) (hNum : num < 2 ^ 64) (buf : Mem) :
    CString (itoa num base buf) 0 (digitBytes base num) ∧
      ∀ x, (digitBytes base num).length < x → itoa num base buf x = buf x := by
  have hFits : num < base ^ 64 :=
    Nat.lt_of_lt_of_le hNum (Nat.pow_le_pow_left hBase 64)
  have hLength := digitBytes_length_le hBase (by omega) hFits
  have hPos := digitBytes_length_pos base num
  have hNonzero := digitBytes_ne_zero hBase hHex num
  obtain ⟨hPtr, hHolds, hFrame⟩ := itoaDigits_spec hBase hHex 64 num 0 buf hFits (by omega)
  rw [Nat.zero_add] at hPtr hFrame
  -- the buffer is the digits back to front and a zero byte, mirrored below the zero byte
  have hMirror : ∀ x, itoa num base buf x =
      if 0 ≤ x ∧ x ≤ (digitBytes base num).length - 1 then
        store8 (itoaDigits base 64 num 0 buf).2 (digitBytes base num).length 0
          (0 + ((digitBytes base num).length - 1) - x)
      else store8 (itoaDigits base 64 num 0 buf).2 (digitBytes base num).length 0 x := by
    intro x
    rw [← itoaReverse_eq 64 _ _ _ (by omega), ← hPtr]
    rfl
  generalize (itoaDigits base 64 num 0 buf).2 = digits at hHolds hFrame hMirror
  generalize digitBytes base num = bytes at *
  have hEnd : itoa num base buf bytes.length = 0 := by
    rw [hMirror, if_neg (by omega), store8_same]
  refine ⟨⟨holds_append.mpr ⟨?_, ?_⟩, hNonzero⟩, fun x hx => ?_⟩
  · rw [← List.reverse_reverse bytes]
    refine hHolds.reversed fun i hi => ?_
    rw [List.length_reverse] at hi ⊢
    rw [Nat.zero_add, hMirror, if_pos (by omega), store8_of_ne (by omega)]
    congr 1
    omega
  · rw [Nat.zero_add]
    exact ⟨hEnd, trivial⟩
  · rw [hMirror, if_neg (by omega), store8_of_ne (by omega), hFrame x (Or.inr (by omega))]

/-- The buffer of `vprintf` has room for every number it prints. -/
theorem itoa_inBuffer (hBase : 10 ≤ base) (hHex : base ≤ 16) (hNum : num < 2 ^ 64) (buf : Mem)
    {x : Nat} (hx : 64 ≤ x) : itoa num base buf x = buf x := by
  have hFits : num < base ^ 20 := by
    have hPow : 10 ^ 20 ≤ base ^ 20 := Nat.pow_le_pow_left hBase 20
    omega
  have hLength := digitBytes_length_le (by omega) (by omega) hFits
  exact (itoa_spec (by omega) hHex hNum buf).2 x (by omega)

end Kernalite
