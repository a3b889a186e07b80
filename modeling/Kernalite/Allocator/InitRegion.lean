import Kernalite.Allocator.Pool

/-!
# Kernalite — the region `page_init` manages

`page_init` rounds the start of its region up by add-and-mask, subtracts what
that costs from the size and divides twice, all modulo `2 ^ 64`. For a region
that ends below `2 ^ 64` the result is the largest run of whole pages inside it.

* `managedPages_spec` — no page before or after the ones managed would fit;
* `clearedBitmap_frame` — the clearing loop stays in the bitmap;
* `pageInit_exact` — when the call succeeds, and what it then leaves behind.
-/

namespace Kernalite

open ByteMemory PackedBits Words Loop

/-- **The managed pages are the whole pages of the region.** -/
theorem managedPages_spec {memStart memSize : Nat} (hShift : shiftUp memStart < memSize) :
    memStart + shiftUp memStart + pageSize * managedPages memStart memSize ≤ memStart + memSize ∧
      memStart + memSize <
        memStart + shiftUp memStart + pageSize * (managedPages memStart memSize + 1) := by
  unfold managedPages pageSize
  omega

/-- The clearing loop writes the first `bitmapBytes n` bytes of the area only. -/
theorem clearedBitmap_frame (L : Layout) {n : Nat} (hFit : bitmapBytes n ≤ bitmapArea L) (m : Mem) :
    SameOutside (fun a => L.bitMapStart ≤ a ∧ a < L.bitMapStart + bitmapBytes n) m
      (clearedBitmap L n m) := by
  have hArea := L.bitMap_le
  have hTop := L.bitMapEnd_lt
  unfold bitmapArea at hFit
  intro a ha
  refine forRange_inv (fun j (t : Mem) => j ≤ bitmapBytes n → t a = m a) (Nat.zero_le _)
    (fun _ => rfl) ?_ (Nat.le_refl _)
  intro i t _ hi ih _
  rw [add64_eq (by omega), store8_of_ne (by omega)]
  exact ih (by omega)

/-- What a successful `page_init(memStart, memSize)` leaves behind, from memory
`m` on: the whole pages of the region, all free, in a bitmap area that holds a
bit for each. -/
structure ManagesRegion (L : Layout) (memStart memSize : Nat) (m : Mem) (k : Kernel) : Prop where
  base_aligned : k.memBase % pageSize = 0
  base_ge      : memStart ≤ k.memBase
  base_lt      : k.memBase < memStart + pageSize
  top_le       : k.memBase + pageSize * k.totalPages ≤ memStart + memSize
  top_gt       : memStart + memSize < k.memBase + pageSize * (k.totalPages + 1)
  all_free     : ∀ i, i < k.totalPages → k.bit i = false
  in_area      : ∀ i, i < k.totalPages →
    L.bitMapStart ≤ k.bitmapByte i ∧ k.bitmapByte i < L.bitMapEnd
  frame        : SameOutside
    (fun a => L.bitMapStart ≤ a ∧ a < L.bitMapStart + bitmapBytes k.totalPages) m k.mem

theorem pageInit_managesRegion {L : Layout} {memStart memSize : Nat} {k : Kernel}
    (hEnd : memStart + memSize < 2 ^ 64) (hOk : (pageInit L memStart memSize k).1 = true) :
    ManagesRegion L memStart memSize k.mem (pageInit L memStart memSize k).2 := by
  have hAfter := AfterInit.of_pageInit hOk
  have hReady := hAfter.ready hEnd
  obtain ⟨hBase, -, hTotal, hShift, hFit⟩ := hAfter.fields hEnd
  obtain ⟨hTopLe, hTopGt⟩ := managedPages_spec hShift
  have hLt := shiftUp_lt memStart
  refine
    { base_aligned := hReady.base_aligned
      base_ge := by omega
      base_lt := by omega
      top_le := by rwa [hBase, hTotal]
      top_gt := by rwa [hBase, hTotal]
      all_free := fun i hi => pageInit_bits hOk hEnd hi
      in_area := fun i hi => ?_
      frame := ?_ }
  · obtain ⟨hByte, hIn⟩ := hReady.bitmapByte_eq hi
    exact ⟨by omega, hByte ▸ hIn⟩
  · rw [hTotal]
    rcases pageInit_cases L memStart (by omega : memSize < 2 ^ 64) k with
      ⟨-, c, hEq⟩ | ⟨-, -, c, hEq⟩ | ⟨-, -, c, hEq⟩
    · simp [hEq] at hOk
    · simp [hEq] at hOk
    · rw [hEq]
      exact clearedBitmap_frame L hFit k.mem

/--
**`page_init` manages the largest aligned sub-region, and only that.** For every
region that ends below `2 ^ 64` and every bitmap area: the call succeeds if and
only if alignment leaves something of the region and the area has a bit for every
whole page of the rest; then `ManagesRegion` holds of what it leaves behind.
-/
theorem pageInit_exact (L : Layout) (memStart memSize : Word) (k : Kernel)
    (hEnd : memStart.toNat + memSize.toNat < 2 ^ 64) :
    ((pageInit L memStart.toNat memSize.toNat k).1 = true ↔
      shiftUp memStart.toNat < memSize.toNat ∧
        ((memSize.toNat - shiftUp memStart.toNat) / pageSize + 7) / 8 ≤
          L.bitMapEnd - L.bitMapStart) ∧
    ((pageInit L memStart.toNat memSize.toNat k).1 = true →
      ManagesRegion L memStart.toNat memSize.toNat k.mem
        (pageInit L memStart.toNat memSize.toNat k).2) := by
  refine ⟨?_, pageInit_managesRegion hEnd⟩
  change _ ↔ _ ∧ bitmapBytes (managedPages memStart.toNat memSize.toNat) ≤ bitmapArea L
  rcases pageInit_cases L memStart.toNat memSize.isLt k with
    ⟨hShift, c, hEq⟩ | ⟨-, hBig, c, hEq⟩ | ⟨hShift, hFit, c, hEq⟩
  · rw [hEq]
    exact iff_of_false Bool.false_ne_true fun h => absurd h.1 (by omega)
  · rw [hEq]
    exact iff_of_false Bool.false_ne_true fun h => absurd h.2 (by omega)
  · rw [hEq]
    exact iff_of_true rfl ⟨hShift, hFit⟩

/-- A region that starts and ends inside a page: seven whole pages. -/
theorem pageInit_exact_unaligned :
    (pageInit smallLayout (0x40000800 : Word).toNat (0x8000 : Word).toNat Kernel.coldStart).1 = true ↔
      shiftUp (0x40000800 : Word).toNat < (0x8000 : Word).toNat ∧
        (((0x8000 : Word).toNat - shiftUp (0x40000800 : Word).toNat) / pageSize + 7) / 8 ≤
          smallLayout.bitMapEnd - smallLayout.bitMapStart :=
  (pageInit_exact smallLayout 0x40000800 0x8000 Kernel.coldStart (by decide)).1

end Kernalite
