import Kernalite.Utils.String

/-!
# Kernalite — `memmove`

Both loops overwrite bytes they may still have to read. Each invariant says that what
the rest of the loop copies is what the source held at the start: going up, the
destination lies below the source; going down, above it.

* `copyForward_eq`, `copyBackward_eq` — the loops copy all bytes at once;
* `memmove_overlap` — `memmove` does so for every distance between the ranges.
-/

namespace Kernalite

open ByteMemory Words

/-- All bytes copied at once: what `memmove` is to leave. -/
def copiedBytes (dest src size : Nat) (m : Mem) : Mem :=
  fun x => if dest ≤ x ∧ x < dest + size then m (src + (x - dest)) else m x

variable {dest src size : Nat}

@[simp] theorem copiedBytes_zero (dest src : Nat) (m : Mem) : copiedBytes dest src 0 m = m := by
  funext x
  rw [copiedBytes, if_neg (by omega)]

/-- Nothing moves when the ranges are the same. -/
theorem copiedBytes_self (dest size : Nat) (m : Mem) : copiedBytes dest dest size m = m := by
  funext x
  rw [copiedBytes]
  split_ifs with hIn
  · rw [Nat.add_sub_cancel' hIn.1]
  · rfl

/-- The first byte, then the others: the store does not reach the source bytes above it. -/
theorem copiedBytes_first (h : dest ≤ src) (m : Mem) :
    copiedBytes (dest + 1) (src + 1) size (store8 m dest (m src)) =
      copiedBytes dest src (size + 1) m := by
  funext x
  unfold copiedBytes
  by_cases hFirst : x = dest
  · subst hFirst
    rw [if_neg (by omega), if_pos (by omega), store8_same, Nat.sub_self, Nat.add_zero]
  · by_cases hIn : dest + 1 ≤ x ∧ x < dest + 1 + size
    · rw [if_pos hIn, if_pos (by omega), store8_of_ne (by omega)]
      congr 1
      omega
    · rw [if_neg hIn, if_neg (by omega), store8_of_ne hFirst]

/-- The last byte, then the others: the store does not reach the source bytes below it. -/
theorem copiedBytes_last (h : src ≤ dest) (m : Mem) :
    copiedBytes dest src size (store8 m (dest + size) (m (src + size))) =
      copiedBytes dest src (size + 1) m := by
  funext x
  unfold copiedBytes
  by_cases hLast : x = dest + size
  · subst hLast
    rw [if_neg (by omega), if_pos (by omega), store8_same, Nat.add_sub_cancel_left]
  · by_cases hIn : dest ≤ x ∧ x < dest + size
    · rw [if_pos hIn, if_pos (by omega), store8_of_ne (by omega)]
    · rw [if_neg hIn, if_neg (by omega), store8_of_ne hLast]

/-- **The forward loop.** -/
theorem copyForward_eq (h : dest ≤ src) (hDest : dest + size ≤ 2 ^ 64)
    (hSrc : src + size ≤ 2 ^ 64) (m : Mem) :
    copyForward size dest src m = copiedBytes dest src size m := by
  induction size generalizing dest src m with
  | zero => rw [copyForward, copiedBytes_zero]
  | succ size ih =>
    rw [copyForward, ← copiedBytes_first h]
    rcases Nat.eq_zero_or_pos size with rfl | hMore
    · rw [copyForward, copiedBytes_zero]
    · rw [add64_eq (by omega), add64_eq (by omega)]
      exact ih (by omega) (by omega) (by omega) _

/-- **The backward loop.** Its pointers may start at the end of the address space. -/
theorem copyBackward_eq (h : src ≤ dest) (hDest : dest + size ≤ 2 ^ 64)
    (hSrc : src + size ≤ 2 ^ 64) (m : Mem) :
    copyBackward size (add64 dest size) (add64 src size) m = copiedBytes dest src size m := by
  have hStep : ∀ a n, a + (n + 1) ≤ 2 ^ 64 → sub64 (add64 a (n + 1)) 1 = a + n := by
    intro a n ha
    unfold sub64 add64
    omega
  induction size generalizing m with
  | zero => rw [copyBackward, copiedBytes_zero]
  | succ size ih =>
    simp only [copyBackward]
    rw [hStep dest size hDest, hStep src size hSrc, ← copiedBytes_last h,
      ← ih (by omega) (by omega), add64_eq (by omega), add64_eq (by omega)]

/-- `memmove` leaves what copying all bytes at once leaves. -/
theorem memmove_eq (hDest : dest + size ≤ 2 ^ 64) (hSrc : src + size ≤ 2 ^ 64) (m : Mem) :
    memmove dest src size m = (dest, copiedBytes dest src size m) := by
  unfold memmove
  by_cases hBelow : dest < src
  · rw [if_pos hBelow, copyForward_eq (Nat.le_of_lt hBelow) hDest hSrc]
  · rw [if_neg hBelow]
    by_cases hAbove : dest > src
    · rw [if_pos hAbove, copyBackward_eq (Nat.le_of_lt hAbove) hDest hSrc]
    · rw [if_neg hAbove, show src = dest by omega, copiedBytes_self]

/--
**`memmove` is safe for every overlap.** Where neither range wraps around the address
space, every byte of the destination is the byte the source held before the call,
no other byte changes, and the destination is returned.
-/
theorem memmove_overlap (hDest : dest + size ≤ 2 ^ 64) (hSrc : src + size ≤ 2 ^ 64) (m : Mem) :
    (memmove dest src size m).1 = dest ∧
    (∀ i, i < size → (memmove dest src size m).2 (dest + i) = m (src + i)) ∧
    SameOutside (fun x => dest ≤ x ∧ x < dest + size) m (memmove dest src size m).2 := by
  rw [memmove_eq hDest hSrc]
  refine ⟨rfl, fun i hi => ?_, fun x hx => if_neg hx⟩
  change copiedBytes dest src size m (dest + i) = m (src + i)
  rw [copiedBytes, if_pos (by omega), Nat.add_sub_cancel_left]

/-- Four bytes moved up by one, to the end of the address space. -/
theorem memmove_overlap_top :
    let m : Mem := fun x => BitVec.ofNat 8 x
    let moved := memmove 0xFFFFFFFFFFFFFFFC 0xFFFFFFFFFFFFFFFB 4 m
    moved.1 = 0xFFFFFFFFFFFFFFFC ∧ ∀ i, i < 4 →
      moved.2 (0xFFFFFFFFFFFFFFFC + i) = m (0xFFFFFFFFFFFFFFFB + i) :=
  have hMoved := memmove_overlap (by omega) (by omega) (fun x => BitVec.ofNat 8 x)
  ⟨hMoved.1, hMoved.2.1⟩

end Kernalite
