import Kernalite.Utils.Memmove

/-!
# Kernalite — `memcpy`

The header forbids overlapping ranges; the loop runs for them all the same. Going up
into its own source it copies bytes it has just written, so the first bytes of the
source repeat.

* `copyForward_wave` — what the loop leaves above its source;
* `memcpy_overlap` — every distance between the ranges, and when `memcpy` does what
  `memmove` does;
* `memset_eq` — `memset` fills its range.
-/

namespace Kernalite

open ByteMemory Words

/-- The bytes from `src` up to `dest`, repeated over the destination. -/
def wavedBytes (dest src size : Nat) (m : Mem) : Mem :=
  fun x => if dest ≤ x ∧ x < dest + size then m (src + (x - dest) % (dest - src)) else m x

variable {dest src size : Nat}

/-- Counting on by one, in a period. -/
theorem succ_mod_cases {i d : Nat} (hd : 0 < d) :
    (i % d + 1 = d ∧ (i + 1) % d = 0) ∨ (i % d + 1 < d ∧ (i + 1) % d = i % d + 1) := by
  have hBelow := Nat.mod_lt i hd
  rw [← Nat.mod_add_mod i d 1]
  rcases Nat.lt_or_ge (i % d + 1) d with hLess | hFull
  · exact Or.inr ⟨hLess, Nat.mod_eq_of_lt hLess⟩
  · have hEq : i % d + 1 = d := by omega
    exact Or.inl ⟨hEq, by rw [hEq, Nat.mod_self]⟩

/-- The first byte, then the others: the period stays, the byte just stored takes the
place of the one at its start. -/
theorem wavedBytes_first (h : src < dest) (m : Mem) :
    wavedBytes (dest + 1) (src + 1) size (store8 m dest (m src)) =
      wavedBytes dest src (size + 1) m := by
  have hPeriod : dest + 1 - (src + 1) = dest - src := Nat.add_sub_add_right dest 1 src
  funext x
  unfold wavedBytes
  rw [hPeriod]
  by_cases hFirst : x = dest
  · subst hFirst
    rw [if_neg (by omega), if_pos (by omega), store8_same, Nat.sub_self, Nat.zero_mod,
      Nat.add_zero]
  · by_cases hIn : dest + 1 ≤ x ∧ x < dest + 1 + size
    · obtain ⟨i, rfl⟩ := Nat.exists_eq_add_of_le hIn.1
      rw [if_pos hIn, if_pos (by omega), Nat.add_sub_cancel_left,
        show dest + 1 + i - dest = i + 1 by omega]
      rcases succ_mod_cases (i := i) (Nat.sub_pos_of_lt h) with ⟨hLast, hNext⟩ | ⟨hLess, hNext⟩
      · rw [hNext, show src + 1 + i % (dest - src) = dest by omega, store8_same, Nat.add_zero]
      · rw [hNext, store8_of_ne (by omega), Nat.add_right_comm, Nat.add_assoc]
    · rw [if_neg hIn, if_neg (by omega), store8_of_ne hFirst]

/-- **The forward loop above its source.** -/
theorem copyForward_wave (h : src < dest) (hDest : dest + size ≤ 2 ^ 64)
    (hSrc : src + size ≤ 2 ^ 64) (m : Mem) :
    copyForward size dest src m = wavedBytes dest src size m := by
  induction size generalizing dest src m with
  | zero =>
    funext x
    rw [copyForward, wavedBytes, if_neg (by omega)]
  | succ size ih =>
    rw [copyForward, ← wavedBytes_first h]
    rcases Nat.eq_zero_or_pos size with rfl | hMore
    · funext x
      rw [copyForward, wavedBytes, if_neg (by omega)]
    · rw [add64_eq (by omega), add64_eq (by omega)]
      exact ih (by omega) (by omega) (by omega) _

theorem wavedBytes_inside (m : Mem) {i : Nat} (hi : i < size) :
    wavedBytes dest src size m (dest + i) = m (src + i % (dest - src)) := by
  rw [wavedBytes, if_pos (by omega), Nat.add_sub_cancel_left]

theorem copiedBytes_inside (m : Mem) {i : Nat} (hi : i < size) :
    copiedBytes dest src size m (dest + i) = m (src + i) := by
  rw [copiedBytes, if_pos (by omega), Nat.add_sub_cancel_left]

/-- The byte that `memcpy` leaves at `dest + i`. -/
theorem memcpy_byte (hDest : dest + size ≤ 2 ^ 64) (hSrc : src + size ≤ 2 ^ 64) (m : Mem) {i : Nat}
    (hi : i < size) :
    (memcpy dest src size m).2 (dest + i) =
      m (src + if src < dest then i % (dest - src) else i) := by
  rw [memcpy]
  by_cases hAbove : src < dest
  · rw [copyForward_wave hAbove hDest hSrc, if_pos hAbove]
    exact wavedBytes_inside m hi
  · rw [copyForward_eq (by omega) hDest hSrc, if_neg hAbove]
    exact copiedBytes_inside m hi

/-- `memcpy` writes its destination and nothing else. -/
theorem memcpy_frame (hDest : dest + size ≤ 2 ^ 64) (hSrc : src + size ≤ 2 ^ 64) (m : Mem) :
    SameOutside (fun x => dest ≤ x ∧ x < dest + size) m (memcpy dest src size m).2 := by
  intro x hx
  rw [memcpy]
  by_cases hAbove : src < dest
  · rw [copyForward_wave hAbove hDest hSrc]
    exact if_neg hx
  · rw [copyForward_eq (by omega) hDest hSrc]
    exact if_neg hx

/--
**`memcpy` for every distance between the ranges.** Only its destination changes. Where
that begins inside the source, the bytes between the two starts are repeated; elsewhere
the source is copied. So `memcpy` does what `memmove` does if and only if the
destination does not begin inside the source, or the source repeats with that period
already.
-/
theorem memcpy_overlap (hDest : dest + size ≤ 2 ^ 64) (hSrc : src + size ≤ 2 ^ 64) (m : Mem) :
    SameOutside (fun x => dest ≤ x ∧ x < dest + size) m (memcpy dest src size m).2 ∧
    (∀ i, i < size → (memcpy dest src size m).2 (dest + i) =
      m (src + if src < dest ∧ dest < src + size then i % (dest - src) else i)) ∧
    (memcpy dest src size m = memmove dest src size m ↔
      ¬ (src < dest ∧ dest < src + size) ∨
        ∀ i, i < size → m (src + i % (dest - src)) = m (src + i)) := by
  have hByte : ∀ i, i < size → (memcpy dest src size m).2 (dest + i) =
      m (src + if src < dest ∧ dest < src + size then i % (dest - src) else i) := by
    intro i hi
    rw [memcpy_byte hDest hSrc m hi]
    by_cases hAbove : src < dest
    · by_cases hInside : dest < src + size
      · rw [if_pos hAbove, if_pos ⟨hAbove, hInside⟩]
      · rw [if_pos hAbove, if_neg fun h => hInside h.2, Nat.mod_eq_of_lt (by omega)]
    · rw [if_neg hAbove, if_neg fun h => hAbove h.1]
  refine ⟨memcpy_frame hDest hSrc m, hByte, ?_⟩
  rw [memmove_eq hDest hSrc]
  constructor
  · intro hSame
    by_cases hInside : src < dest ∧ dest < src + size
    · refine Or.inr fun i hi => ?_
      have hCopied := hByte i hi
      rw [hSame, if_pos hInside] at hCopied
      exact hCopied.symm.trans (copiedBytes_inside m hi)
    · exact Or.inl hInside
  · intro hPeriod
    refine Prod.ext rfl (funext fun x => ?_)
    by_cases hIn : dest ≤ x ∧ x < dest + size
    · obtain ⟨i, rfl⟩ := Nat.exists_eq_add_of_le hIn.1
      have hi : i < size := by omega
      refine (hByte i hi).trans (Eq.trans ?_ (copiedBytes_inside m hi).symm)
      split_ifs with hInside
      · exact hPeriod.resolve_left (not_not_intro hInside) i hi
      · rfl
    · exact (memcpy_frame hDest hSrc m x hIn).trans (if_neg hIn).symm

/-- Six bytes copied up by two. -/
theorem memcpy_overlap_two :
    let m : Mem := fun x => BitVec.ofNat 8 x
    ∀ i, i < 6 → (memcpy 0x12 0x10 6 m).2 (0x12 + i) = BitVec.ofNat 8 (0x10 + i % 2) := by
  intro m i hi
  have hCopied := (memcpy_overlap (by omega : 0x12 + 6 ≤ 2 ^ 64) (by omega : 0x10 + 6 ≤ 2 ^ 64) m).2.1
  exact hCopied i hi

/-- **`memset`** fills its range. -/
theorem memset_eq (val : Int) (h : dest + size ≤ 2 ^ 64) (m : Mem) :
    memset dest val size m =
      (dest, fun x => if dest ≤ x ∧ x < dest + size then toChar val else m x) := by
  have hFill : fillForward val size dest m =
      fun x => if dest ≤ x ∧ x < dest + size then toChar val else m x := by
    induction size generalizing dest m with
    | zero =>
      funext x
      rw [fillForward, if_neg (by omega)]
    | succ size ih =>
      have hRest : fillForward val size (add64 dest 1) (store8 m dest (toChar val)) = fun x =>
          if dest + 1 ≤ x ∧ x < dest + 1 + size then toChar val
          else store8 m dest (toChar val) x := by
        rcases Nat.eq_zero_or_pos size with rfl | hMore
        · funext x
          rw [fillForward, if_neg (by omega)]
        · rw [add64_eq (by omega)]
          exact ih (by omega) _
      rw [fillForward, hRest]
      funext x
      by_cases hFirst : x = dest
      · subst hFirst
        rw [if_neg (by omega), if_pos (by omega), store8_same]
      · rw [store8_of_ne hFirst]
        split_ifs <;> first | rfl | omega
  rw [memset, hFill]

end Kernalite
