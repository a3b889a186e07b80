import Kernalite.Lib.ByteMemory
import Kernalite.Lib.Loop

/-!
# Packed bit arrays in memory

Bit `i` of a packed array is bit `i % 8` of the byte at `cell i`. The address
function `cell` is a parameter: all that matters is that two indices below the
bound `N` share a byte exactly when they agree modulo the low three bits
(`Packed`). Setting or clearing a bit is the read-modify-write a C program does
on the byte, and touches no other bit (`getBit_setBit`, `getBit_clearBit`); the
loops over a range of bits follow (`getBit_setRange`, `getBit_clearRange`).
-/

namespace PackedBits

open ByteMemory Loop

/-- Indices below `N` share a byte exactly when `i / 8` agrees. -/
def Packed (cell : Nat → Nat) (N : Nat) : Prop :=
  ∀ i j, i < N → j < N → (cell i = cell j ↔ i / 8 = j / 8)

/-- `cell[i / 8] & (1 << (i % 8))`, as a truth value. -/
def getBit (cell : Nat → Nat) (m : Mem) (i : Nat) : Bool :=
  m (cell i) &&& (1#8 <<< (i % 8)) != 0#8

/-- `cell[i / 8] |= (1 << (i % 8))`. -/
def setBit (cell : Nat → Nat) (i : Nat) (m : Mem) : Mem :=
  store8 m (cell i) (m (cell i) ||| (1#8 <<< (i % 8)))

/-- `cell[i / 8] &= ~(1 << (i % 8))`. -/
def clearBit (cell : Nat → Nat) (i : Nat) (m : Mem) : Mem :=
  store8 m (cell i) (m (cell i) &&& ~~~(1#8 <<< (i % 8)))

/-- The bits of a one-bit mask. -/
theorem getLsbD_mask {k l : Nat} (hl : l < 8) :
    (1#8 <<< k).getLsbD l = decide (l = k) := by
  rw [BitVec.getLsbD_shiftLeft, BitVec.getLsbD_one]
  by_cases hlk : l = k
  · simp [hlk, show k < 8 by omega]
  · by_cases hlt : l < k
    · simp [hlt, hlk]
    · simp [hlk, show l - k ≠ 0 by omega]

/-- Testing a one-bit mask reads that bit. -/
theorem and_mask_ne_zero (b : Byte) {k : Nat} (hk : k < 8) :
    (b &&& (1#8 <<< k) != 0#8) = b.getLsbD k := by
  rw [Bool.eq_iff_iff, bne_iff_ne]
  constructor
  · intro hne
    by_contra hb
    apply hne
    apply BitVec.eq_of_getLsbD_eq
    intro l hl
    rw [BitVec.getLsbD_and, getLsbD_mask hl, BitVec.getLsbD_zero]
    by_cases hlk : l = k
    · simpa [hlk] using hb
    · simp [hlk]
  · intro hb hzero
    have hbit := congrArg (fun v => v.getLsbD k) hzero
    simp [BitVec.getLsbD_and, getLsbD_mask hk, hb] at hbit

theorem getBit_eq (cell : Nat → Nat) (m : Mem) (i : Nat) :
    getBit cell m i = (m (cell i)).getLsbD (i % 8) :=
  and_mask_ne_zero _ (by omega)

/-- A bit is read from its own byte only. -/
theorem getBit_congr {cell : Nat → Nat} {m m' : Mem} {i : Nat} (h : m' (cell i) = m (cell i)) :
    getBit cell m' i = getBit cell m i := by
  rw [getBit, getBit, h]

section Updates

variable {cell : Nat → Nat} {N : Nat}

theorem getBit_setBit (hCell : Packed cell N) (m : Mem) {i j : Nat} (hi : i < N) (hj : j < N) :
    getBit cell (setBit cell i m) j = (decide (j = i) || getBit cell m j) := by
  rw [getBit_eq, getBit_eq, setBit]
  by_cases hByte : cell j = cell i
  · have hdiv : j / 8 = i / 8 := (hCell j i hj hi).mp hByte
    have hmod : j % 8 = i % 8 ↔ j = i := by omega
    rw [hByte, store8_same, BitVec.getLsbD_or, getLsbD_mask (by omega), Bool.or_comm]
    simp only [hmod]
  · have hne : j ≠ i := fun h => hByte (h ▸ rfl)
    rw [store8_of_ne hByte]
    simp [hne]

theorem getBit_clearBit (hCell : Packed cell N) (m : Mem) {i j : Nat} (hi : i < N) (hj : j < N) :
    getBit cell (clearBit cell i m) j = (!decide (j = i) && getBit cell m j) := by
  rw [getBit_eq, getBit_eq, clearBit]
  by_cases hByte : cell j = cell i
  · have hdiv : j / 8 = i / 8 := (hCell j i hj hi).mp hByte
    have hmod : j % 8 = i % 8 ↔ j = i := by omega
    rw [hByte, store8_same, BitVec.getLsbD_and, BitVec.getLsbD_not, getLsbD_mask (by omega),
      Bool.and_comm]
    simp [hmod, show j % 8 < 8 by omega]
  · have hne : j ≠ i := fun h => hByte (h ▸ rfl)
    rw [store8_of_ne hByte]
    simp [hne]

/-- Setting the bits `lo .. hi - 1` one after the other sets exactly these. -/
theorem getBit_setRange (hCell : Packed cell N) (m : Mem) {lo hi j : Nat}
    (hle : lo ≤ hi) (hhi : hi ≤ N) (hj : j < N) :
    getBit cell (forRange lo hi (setBit cell) m) j =
      (decide (lo ≤ j ∧ j < hi) || getBit cell m j) := by
  refine forRange_inv (P := fun n t => getBit cell t j =
    (decide (lo ≤ j ∧ j < n) || getBit cell m j)) hle ?_ ?_
  · simp [show ¬ (lo ≤ j ∧ j < lo) by omega]
  · intro i t hlo hlt ih
    rw [getBit_setBit hCell t (by omega) hj, ih, ← Bool.or_assoc, ← Bool.decide_or]
    congr 2
    rw [eq_iff_iff]
    omega

/-- Clearing the bits `lo .. hi - 1` one after the other clears exactly these. -/
theorem getBit_clearRange (hCell : Packed cell N) (m : Mem) {lo hi j : Nat}
    (hle : lo ≤ hi) (hhi : hi ≤ N) (hj : j < N) :
    getBit cell (forRange lo hi (clearBit cell) m) j =
      (!decide (lo ≤ j ∧ j < hi) && getBit cell m j) := by
  refine forRange_inv (P := fun n t => getBit cell t j =
    (!decide (lo ≤ j ∧ j < n) && getBit cell m j)) hle ?_ ?_
  · simp [show ¬ (lo ≤ j ∧ j < lo) by omega]
  · intro i t hlo hlt ih
    rw [getBit_clearBit hCell t (by omega) hj, ih, ← Bool.and_assoc, ← Bool.not_or,
      ← Bool.decide_or]
    congr 3
    rw [eq_iff_iff]
    omega

/-- A byte is known by its bits: memories that agree on every bit of a byte's
group agree on the byte. -/
theorem byte_eq_of_bits (hCell : Packed cell N) {m m' : Mem} {i : Nat} (hi : 8 * (i / 8) + 8 ≤ N)
    (hBits : ∀ j, j < N → getBit cell m' j = getBit cell m j) : m' (cell i) = m (cell i) := by
  apply BitVec.eq_of_getLsbD_eq
  intro l hl
  have hGroup : cell (8 * (i / 8) + l) = cell i :=
    (hCell _ i (by omega) (by omega)).mpr (by omega)
  have hLow : (8 * (i / 8) + l) % 8 = l := by omega
  have hBit := hBits (8 * (i / 8) + l) (by omega)
  rwa [getBit_eq, getBit_eq, hGroup, hLow] at hBit

/-- A loop of single-bit updates writes only the bytes of its bits. -/
theorem sameOutside_bits {update : Nat → Mem → Mem}
    (hUpdate : ∀ i m a, a ≠ cell i → update i m a = m a) (m : Mem) {lo hi : Nat} (hle : lo ≤ hi) :
    SameOutside (fun a => ∃ i, lo ≤ i ∧ i < hi ∧ a = cell i) m (forRange lo hi update m) := by
  intro a ha
  refine forRange_inv (P := fun n (t : Mem) => n ≤ hi → t a = m a) hle (fun _ => rfl) ?_
    (Nat.le_refl hi)
  intro i t hlo hlt ih _
  rw [hUpdate i t a fun h => ha ⟨i, hlo, hlt, h⟩]
  exact ih (by omega)

theorem setBit_outside {i : Nat} {m : Mem} {a : Nat} (h : a ≠ cell i) :
    setBit cell i m a = m a :=
  store8_of_ne h

theorem clearBit_outside {i : Nat} {m : Mem} {a : Nat} (h : a ≠ cell i) :
    clearBit cell i m a = m a :=
  store8_of_ne h

end Updates

end PackedBits
