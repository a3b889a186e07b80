import Kernalite.Allocator.PageAllocator
import Kernalite.Lib.FirstFit

/-!
# Kernalite — `page_init`

What `page_init` leaves behind, on each of its three ways out
(`pageInit_cases`), in the arithmetic of `Nat`. A successful call on a region
that ends below `2 ^ 64` makes the state `Ready`: the facts every other
allocator function relies on. `AfterInit` is the class of states the functional
results are about: the static variables as a successful `page_init` left them,
and any memory content whatsoever.
-/

namespace Kernalite

open ByteMemory PackedBits Words Loop

-- ---------------------------------------------------------------------------
-- Alignment arithmetic
-- ---------------------------------------------------------------------------

/-- Distance from an address up to the next page boundary. -/
def shiftUp (a : Nat) : Nat := (pageSize - a % pageSize) % pageSize

theorem shiftUp_lt (a : Nat) : shiftUp a < pageSize :=
  Nat.mod_lt _ (by decide)

theorem shiftUp_aligned (a : Nat) : (a + shiftUp a) % pageSize = 0 := by
  unfold shiftUp pageSize
  omega

/-- Rounding up by add-and-mask, also where the sum wraps: in the last page of
the address space the result is `0`, which is `2 ^ 64` modulo `2 ^ 64`. -/
theorem alignedStart_eq (a : Nat) :
    add64 a (pageSize - 1) &&& (2 ^ 64 - pageSize) = (a + shiftUp a) % 2 ^ 64 := by
  rw [show pageSize = 2 ^ 12 from rfl, and_not_low_mask (add64_lt _ _) (by omega)]
  unfold add64 shiftUp pageSize
  omega

theorem alignmentShift_eq (a : Nat) :
    sub64 ((a + shiftUp a) % 2 ^ 64) a = shiftUp a := by
  have h := shiftUp_lt a
  unfold sub64
  unfold pageSize at h
  omega

/-- Bytes of bitmap for `n` pages. -/
def bitmapBytes (n : Nat) : Nat := (n + 7) / 8

/-- The pages `page_init` finds in a region, after alignment. -/
def managedPages (memStart memSize : Nat) : Nat := (memSize - shiftUp memStart) / pageSize

/-- Bytes between the two bitmap symbols. -/
def bitmapArea (L : Layout) : Nat := L.bitMapEnd - L.bitMapStart

theorem bitmapArea_eq (L : Layout) : sub64 L.bitMapEnd L.bitMapStart = bitmapArea L :=
  sub64_eq L.bitMap_le L.bitMapEnd_lt

-- ---------------------------------------------------------------------------
-- The three ways out of `page_init`
-- ---------------------------------------------------------------------------

/-- The bytes of the bitmap after the clearing loop. -/
def clearedBitmap (L : Layout) (n : Nat) (m : Mem) : Mem :=
  forRange 0 (bitmapBytes n) (fun i m => store8 m (add64 L.bitMapStart i) 0) m

/-- **Outcomes of `page_init`.** Too small after alignment: nothing but console
output. Too large for the bitmap: `mem_base` and `total_pages` are written all
the same. Otherwise all three static variables are set and the bitmap cleared. -/
theorem pageInit_cases (L : Layout) (memStart : Nat) {memSize : Nat}
    (hSize : memSize < 2 ^ 64) (k : Kernel) :
    (memSize ≤ shiftUp memStart ∧
      ∃ c, pageInit L memStart memSize k = (false, { k with console := k.console ++ c })) ∨
    (shiftUp memStart < memSize ∧
      bitmapArea L < bitmapBytes (managedPages memStart memSize) ∧
      ∃ c, pageInit L memStart memSize k =
        (false, { k with
          memBase := (memStart + shiftUp memStart) % 2 ^ 64
          totalPages := managedPages memStart memSize
          console := k.console ++ c })) ∨
    (shiftUp memStart < memSize ∧
      bitmapBytes (managedPages memStart memSize) ≤ bitmapArea L ∧
      ∃ c, pageInit L memStart memSize k =
        (true,
          { mem := clearedBitmap L (managedPages memStart memSize) k.mem
            memBase := (memStart + shiftUp memStart) % 2 ^ 64
            bitmap := L.bitMapStart
            totalPages := managedPages memStart memSize
            console := k.console ++ c })) := by
  have hPages : sub64 memSize (shiftUp memStart) / pageSize = managedPages memStart memSize ∨
      memSize ≤ shiftUp memStart := by
    rcases Nat.lt_or_ge (shiftUp memStart) memSize with h | h
    · exact Or.inl (by rw [sub64_eq (Nat.le_of_lt h) hSize, managedPages])
    · exact Or.inr h
  have hBytes : add64 (managedPages memStart memSize) 7 / 8 =
      bitmapBytes (managedPages memStart memSize) := by
    rw [add64_eq, bitmapBytes]
    unfold managedPages pageSize
    omega
  by_cases hShift : memSize ≤ shiftUp memStart
  · refine Or.inl ⟨hShift, ?_⟩
    simp only [pageInit, alignedStart_eq, alignmentShift_eq, ge_iff_le, hShift,
      if_true]
    split_ifs <;> exact ⟨_, by simp only [Kernel.kprintf, List.append_assoc]; rfl⟩
  · have hTotal := hPages.resolve_right hShift
    refine Or.inr ?_
    by_cases hFit : bitmapBytes (managedPages memStart memSize) ≤ bitmapArea L
    · refine Or.inr ⟨by omega, hFit, ?_⟩
      have hFit' : ¬ bitmapBytes (managedPages memStart memSize) > bitmapArea L := by omega
      simp only [pageInit, alignedStart_eq, alignmentShift_eq, ge_iff_le, hShift,
        if_false, Kernel.kprintf, hTotal, hBytes, bitmapArea_eq, hFit', clearedBitmap]
      split_ifs <;> exact ⟨_, by simp only [List.append_assoc]; rfl⟩
    · refine Or.inl ⟨by omega, by omega, ?_⟩
      have hFit' : bitmapBytes (managedPages memStart memSize) > bitmapArea L := by omega
      simp only [pageInit, alignedStart_eq, alignmentShift_eq, ge_iff_le, hShift,
        if_false, Kernel.kprintf, hTotal, hBytes, bitmapArea_eq, hFit', if_true]
      split_ifs <;> exact ⟨_, by simp only [List.append_assoc]; rfl⟩

-- ---------------------------------------------------------------------------
-- The state after a successful call
-- ---------------------------------------------------------------------------

/-- The static variables describe a pool that ends below `2 ^ 64` and has its
bits inside the bitmap area. -/
structure Ready (L : Layout) (k : Kernel) : Prop where
  bitmap_eq    : k.bitmap = L.bitMapStart
  base_aligned : k.memBase % pageSize = 0
  top_lt       : k.memBase + k.totalPages * pageSize < 2 ^ 64
  bits_fit     : bitmapBytes k.totalPages ≤ bitmapArea L

/-- Address of page `i` of the pool. -/
def pageAddr (k : Kernel) (i : Nat) : Nat := k.memBase + i * pageSize

/-- `mem_base`, `bitmap` and `total_pages` are as a successful call
`page_init(memStart, memSize)` left them; memory is arbitrary. -/
def AfterInit (L : Layout) (memStart memSize : Nat) (k : Kernel) : Prop :=
  ∃ k₀, (pageInit L memStart memSize k₀).1 = true ∧
    k.memBase = (pageInit L memStart memSize k₀).2.memBase ∧
    k.bitmap = (pageInit L memStart memSize k₀).2.bitmap ∧
    k.totalPages = (pageInit L memStart memSize k₀).2.totalPages

section AfterInit

variable {L : Layout} {memStart memSize : Nat} {k : Kernel}

theorem AfterInit.of_pageInit (hOk : (pageInit L memStart memSize k).1 = true) :
    AfterInit L memStart memSize (pageInit L memStart memSize k).2 :=
  ⟨k, hOk, rfl, rfl, rfl⟩

theorem AfterInit.fields (h : AfterInit L memStart memSize k)
    (hEnd : memStart + memSize < 2 ^ 64) :
    k.memBase = memStart + shiftUp memStart ∧ k.bitmap = L.bitMapStart ∧
      k.totalPages = managedPages memStart memSize ∧ shiftUp memStart < memSize ∧
      bitmapBytes (managedPages memStart memSize) ≤ bitmapArea L := by
  obtain ⟨k₀, hOk, hBase, hBitmap, hTotal⟩ := h
  rcases pageInit_cases L memStart (by omega : memSize < 2 ^ 64) k₀ with
    ⟨-, c, hEq⟩ | ⟨-, -, c, hEq⟩ | ⟨hShift, hFit, c, hEq⟩
  · simp [hEq] at hOk
  · simp [hEq] at hOk
  · rw [hEq] at hBase hBitmap hTotal
    refine ⟨?_, hBitmap, hTotal, hShift, hFit⟩
    rw [hBase]
    exact Nat.mod_eq_of_lt (by omega)

theorem AfterInit.ready (h : AfterInit L memStart memSize k)
    (hEnd : memStart + memSize < 2 ^ 64) : Ready L k := by
  obtain ⟨hBase, hBitmap, hTotal, hShift, hFit⟩ := h.fields hEnd
  refine ⟨hBitmap, hBase ▸ shiftUp_aligned memStart, ?_, hTotal ▸ hFit⟩
  rw [hBase, hTotal]
  unfold managedPages pageSize
  omega

/-- The pool lies inside the region given to `page_init`. -/
theorem AfterInit.inside (h : AfterInit L memStart memSize k)
    (hEnd : memStart + memSize < 2 ^ 64) :
    memStart ≤ k.memBase ∧ k.memBase + k.totalPages * pageSize ≤ memStart + memSize := by
  obtain ⟨hBase, -, hTotal, hShift, -⟩ := h.fields hEnd
  rw [hBase, hTotal]
  unfold managedPages pageSize
  omega

end AfterInit

section Ready

variable {L : Layout} {k : Kernel}

theorem Ready.total_lt (h : Ready L k) : k.totalPages < 2 ^ 52 := by
  have := h.top_lt
  unfold pageSize at this
  omega

/-- `mem_base + total_pages * PAGE_SIZE` does not wrap. -/
theorem Ready.memEnd_eq (h : Ready L k) :
    add64 k.memBase (mul64 k.totalPages pageSize) = k.memBase + k.totalPages * pageSize := by
  rw [add64_mul64, Nat.mod_eq_of_lt h.top_lt]

/-- Nor does the address of any page. -/
theorem Ready.pageAddr_lt (h : Ready L k) {i : Nat} (hi : i ≤ k.totalPages) :
    pageAddr k i < 2 ^ 64 :=
  Nat.lt_of_le_of_lt (Nat.add_le_add_left (Nat.mul_le_mul_right _ hi) _) h.top_lt

theorem Ready.pageAddr_eq (h : Ready L k) {i : Nat} (hi : i ≤ k.totalPages) :
    add64 k.memBase (mul64 i pageSize) = pageAddr k i := by
  rw [add64_mul64]
  exact Nat.mod_eq_of_lt (h.pageAddr_lt hi)

/-- Where the bits of the bitmap area are. -/
theorem Ready.areaByte_eq (h : Ready L k) {i : Nat} (hi : i < 8 * bitmapArea L) :
    k.bitmapByte i = L.bitMapStart + i / 8 ∧ L.bitMapStart + i / 8 < L.bitMapEnd := by
  have hArea := L.bitMap_le
  have hTop := L.bitMapEnd_lt
  unfold bitmapArea at hi
  have hIn : L.bitMapStart + i / 8 < L.bitMapEnd := by omega
  exact ⟨by rw [Kernel.bitmapByte, h.bitmap_eq, add64_eq (by omega)], hIn⟩

/-- Every bit of the pool lies in the bitmap area. -/
theorem Ready.bitmapByte_eq (h : Ready L k) {i : Nat} (hi : i < k.totalPages) :
    k.bitmapByte i = L.bitMapStart + i / 8 ∧ L.bitMapStart + i / 8 < L.bitMapEnd := by
  have hFit := h.bits_fit
  unfold bitmapBytes at hFit
  exact h.areaByte_eq (by omega)

end Ready

/-- `page_init` on this layout manages at most 2 GiB. -/
theorem Ready.total_le {L : KernelLayout} {k : Kernel} (h : Ready L k) :
    k.totalPages ≤ 524288 := by
  have hFit := h.bits_fit
  have hSize := L.bitMap_size
  unfold bitmapBytes bitmapArea at hFit
  omega

/-- The page index of a pointer into a pool smaller than `2 ^ 63` bytes. -/
theorem pageIndex_eq {ptr memBase : Nat} (hle : memBase ≤ ptr) (hptr : ptr < 2 ^ 64)
    (hNear : ptr - memBase < 2 ^ 63) : pageIndex ptr memBase = (ptr - memBase) / pageSize := by
  have hdiv : (ptr - memBase) / pageSize < 2 ^ 64 :=
    Nat.lt_of_le_of_lt (Nat.div_le_self _ _) (by omega)
  have htdiv : ((ptr - memBase : Nat) : Int).tdiv (pageSize : Nat) =
      ((ptr - memBase) / pageSize : Nat) := rfl
  simp only [pageIndex, sub64_eq hle hptr, hNear, if_true]
  rw [htdiv]
  generalize (ptr - memBase) / pageSize = q at hdiv ⊢
  omega

end Kernalite
