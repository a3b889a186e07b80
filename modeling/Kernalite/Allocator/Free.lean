import Kernalite.Allocator.Tracking

/-!
# Kernalite — `page_free` and its truncation guard

`page_free` compares `start_index + num_pages`, a `size_t` sum, with the page
count, truncates a range that is too long, and clears its bits up to that sum
computed anew. A sum that wraps passes the guard, and the loop then runs over no
index at all.

* `pageFree_cases` — the three outcomes, for every pointer and every count;
* `pageFree_bits` — no other bit is cleared, whatever the arguments;
* `pageFree_exact_iff` — the truncated range is cleared exactly when the sum does
  not wrap, or there was nothing to clear.
-/

namespace Kernalite

open ByteMemory PackedBits Words Loop

variable {L : KernelLayout} {k : Kernel}

/-- The pointer passes the bounds checks of `page_free`. -/
def Freeable (k : Kernel) (ptr : Nat) : Prop :=
  ptr ≠ 0 ∧ k.memBase ≤ ptr ∧ ptr < k.memBase + k.totalPages * pageSize

instance (k : Kernel) (ptr : Nat) : Decidable (Freeable k ptr) :=
  inferInstanceAs (Decidable (_ ∧ _))

/-- The index of the page a pointer of the pool lies in. -/
def pageOf (k : Kernel) (ptr : Nat) : Nat := (ptr - k.memBase) / pageSize

/-- The index at which the loop of `page_free` stops. -/
def freeEnd (k : Kernel) (startIndex numPages : Nat) : Nat :=
  if startIndex + numPages < 2 ^ 64 then min (startIndex + numPages) k.totalPages else startIndex

theorem pageOf_lt {ptr : Nat} (h : Freeable k ptr) : pageOf k ptr < k.totalPages := by
  obtain ⟨-, hLow, hHigh⟩ := h
  unfold pageOf pageSize at *
  omega

theorem le_freeEnd {startIndex : Nat} (numPages : Nat) (h : startIndex < k.totalPages) :
    startIndex ≤ freeEnd k startIndex numPages := by
  unfold freeEnd
  split_ifs <;> omega

theorem freeEnd_le {startIndex : Nat} (numPages : Nat) (h : startIndex < k.totalPages) :
    freeEnd k startIndex numPages ≤ k.totalPages := by
  unfold freeEnd
  split_ifs <;> omega

/-- **Outcomes of `page_free`.** A pointer outside the pool changes the console at
most; otherwise the bits from that of the pointer up to `freeEnd` are cleared. -/
theorem pageFree_cases (h : Ready L k) {ptr numPages : Nat} (hPtr : ptr < 2 ^ 64)
    (hNum : numPages < 2 ^ 64) :
    (¬ Freeable k ptr ∧ ∃ c, pageFree ptr numPages k = { k with console := k.console ++ c }) ∨
    (Freeable k ptr ∧ ∃ c, pageFree ptr numPages k =
      { k with
        mem := forRange (pageOf k ptr) (freeEnd k (pageOf k ptr) numPages)
          (clearBit k.bitmapByte) k.mem
        console := k.console ++ c }) := by
  by_cases hNull : ptr = 0
  · refine Or.inl ⟨fun hFree => hFree.1 hNull, [], ?_⟩
    rw [pageFree, if_pos hNull, List.append_nil]
  by_cases hOut : ptr < k.memBase ∨ ptr ≥ k.memBase + k.totalPages * pageSize
  · have hNot : ¬ Freeable k ptr := by
      rintro ⟨-, hLow, hHigh⟩
      omega
    rw [pageFree, if_neg hNull, h.memEnd_eq, if_pos hOut]
    exact Or.inl ⟨hNot, _, rfl⟩
  · have hFree : Freeable k ptr := ⟨hNull, by omega, by omega⟩
    refine Or.inr ⟨hFree, ?_⟩
    have hTotal := h.total_le
    have hLt := pageOf_lt hFree
    have hNear : ptr - k.memBase < 2 ^ 63 := by
      unfold pageSize at hOut
      omega
    have hIndex : pageIndex ptr k.memBase = pageOf k ptr := pageIndex_eq hFree.2.1 hPtr hNear
    have hRoom : sub64 k.totalPages (pageOf k ptr) = k.totalPages - pageOf k ptr :=
      sub64_eq (by omega) (by omega)
    have hStop : add64 (pageOf k ptr)
        (if add64 (pageOf k ptr) numPages > k.totalPages then k.totalPages - pageOf k ptr
          else numPages) = freeEnd k (pageOf k ptr) numPages ∨
        2 ^ 64 ≤ pageOf k ptr + numPages := by
      rcases Nat.lt_or_ge (pageOf k ptr + numPages) (2 ^ 64) with hFits | hWraps
      · refine Or.inl ?_
        rw [freeEnd, if_pos hFits, add64_eq hFits]
        split_ifs with hLong
        · rw [add64_eq (by omega)]
          omega
        · rw [add64_eq hFits]
          omega
      · exact Or.inr hWraps
    simp only [pageFree, hNull, if_false, h.memEnd_eq, hOut, hIndex, hRoom, decide_eq_true_eq,
      Kernel.kprintf]
    rcases hStop with hStop | hWraps
    · rw [← hStop]
      split_ifs
      · exact ⟨_, by simp only [List.append_assoc]; rfl⟩
      · exact ⟨_, rfl⟩
    · -- the sum wraps to an index below the first: the loop does not run
      have hSum : add64 (pageOf k ptr) numPages = pageOf k ptr + numPages - 2 ^ 64 := by
        unfold add64
        omega
      have hGuard : ¬ pageOf k ptr + numPages - 2 ^ 64 > k.totalPages := by omega
      simp only [hSum, hGuard, if_false, freeEnd, Nat.not_lt.mpr hWraps]
      rw [forRange_of_le (by omega), forRange_of_le (Nat.le_refl _)]
      exact ⟨_, rfl⟩

/-- **The bits after `page_free`**, for a pointer into the pool. -/
theorem pageFree_bits (h : Ready L k) {ptr numPages : Nat} (hPtr : ptr < 2 ^ 64)
    (hNum : numPages < 2 ^ 64) (hFree : Freeable k ptr) {i : Nat} (hi : i < 2 ^ 64) :
    (pageFree ptr numPages k).bit i =
      (!decide (pageOf k ptr ≤ i ∧ i < freeEnd k (pageOf k ptr) numPages) && k.bit i) := by
  have hLt := pageOf_lt hFree
  have hTotal := h.total_le
  have hStop := freeEnd_le numPages hLt
  rcases pageFree_cases h hPtr hNum with ⟨hNot, -⟩ | ⟨-, c, hEq⟩
  · exact absurd hFree hNot
  · rw [hEq]
    exact getBit_clearRange k.bitmapByte_packed k.mem (le_freeEnd numPages hLt) (by omega) hi

-- ---------------------------------------------------------------------------
-- The truncated range
-- ---------------------------------------------------------------------------

/-- What a client may expect of `page_free(ptr, num_pages)`: a pointer into the
pool clears the bits of the range, cut off at the end of the pool, and no other
bit and no other byte; any other pointer changes no memory. -/
structure FreeExact (k : Kernel) (ptr numPages : Nat) : Prop where
  bits : Freeable k ptr → ∀ i, i < 2 ^ 64 →
    (pageFree ptr numPages k).bit i =
      (!decide (pageOf k ptr ≤ i ∧ i < min (pageOf k ptr + numPages) k.totalPages) && k.bit i)
  frame : Freeable k ptr → SameOutside
    (fun a => ∃ i, pageOf k ptr ≤ i ∧ i < min (pageOf k ptr + numPages) k.totalPages ∧
      a = k.bitmapByte i) k.mem (pageFree ptr numPages k).mem
  ignored : ¬ Freeable k ptr → (pageFree ptr numPages k).mem = k.mem

/-- The pointer is ignored, or the sum in the guard does not wrap, or every page
from that of the pointer on is free anyway. -/
def FreeInRange (k : Kernel) (ptr numPages : Nat) : Prop :=
  ¬ Freeable k ptr ∨ pageOf k ptr + numPages < 2 ^ 64 ∨
    ∀ i, pageOf k ptr ≤ i → i < k.totalPages → k.bit i = false

theorem freeExact_of_inRange (h : Ready L k) {ptr numPages : Nat} (hPtr : ptr < 2 ^ 64)
    (hNum : numPages < 2 ^ 64) (hRange : FreeInRange k ptr numPages) :
    FreeExact k ptr numPages := by
  rcases pageFree_cases h hPtr hNum with ⟨hNot, c, hEq⟩ | ⟨hFree, c, hEq⟩
  · exact ⟨fun hFree => absurd hFree hNot, fun hFree => absurd hFree hNot, fun _ => by rw [hEq]⟩
  · have hLt := pageOf_lt hFree
    have hLow := le_freeEnd numPages hLt
    have hStop : freeEnd k (pageOf k ptr) numPages ≤
        min (pageOf k ptr + numPages) k.totalPages := by
      unfold freeEnd
      split_ifs <;> omega
    refine ⟨fun _ i hi => ?_, fun _ => ?_, fun hNot => absurd hFree hNot⟩
    · rw [pageFree_bits h hPtr hNum hFree hi]
      rcases hRange with hNot | hFits | hClear
      · exact absurd hFree hNot
      · rw [freeEnd, if_pos hFits]
      · -- nothing was set: clearing more or less makes no difference
        by_cases hIn : pageOf k ptr ≤ i ∧ i < k.totalPages
        · rw [hClear i hIn.1 hIn.2, Bool.and_false, Bool.and_false]
        · rw [decide_eq_false (by omega), decide_eq_false (by omega)]
    · rw [hEq]
      refine (sameOutside_bits (fun i m a ha => clearBit_outside ha) k.mem hLow).mono ?_
      rintro a ⟨i, hFrom, hTo, rfl⟩
      exact ⟨i, hFrom, Nat.lt_of_lt_of_le hTo hStop, rfl⟩

/--
**`page_free` clears exactly the truncated range** when its sum does not wrap, or
when there was nothing to clear or to free: for every state the static variables
of which come from a successful `page_init` on a region that ends below `2 ^ 64`,
every pointer and every page count.
-/
theorem pageFree_exact_iff {memStart memSize : Nat} (hInit : AfterInit L memStart memSize k)
    (hEnd : memStart + memSize < 2 ^ 64) (ptr numPages : Word) :
    FreeExact k ptr.toNat numPages.toNat ↔ FreeInRange k ptr.toNat numPages.toNat := by
  have hReady := hInit.ready hEnd
  refine ⟨fun hExact => ?_, freeExact_of_inRange hReady ptr.isLt numPages.isLt⟩
  by_cases hFree : Freeable k ptr.toNat
  · refine Or.inr ?_
    rcases Nat.lt_or_ge (pageOf k ptr.toNat + numPages.toNat) (2 ^ 64) with hFits | hWraps
    · exact Or.inl hFits
    · -- the call clears nothing, although it should clear all bits from the pointer on
      refine Or.inr fun i hFrom hTo => ?_
      have hTotal := hReady.total_lt
      have hExpected := hExact.bits hFree i (by omega)
      have hActual := pageFree_bits hReady ptr.isLt numPages.isLt hFree (i := i) (by omega)
      rw [freeEnd, if_neg (Nat.not_lt.mpr hWraps), decide_eq_false (by omega)] at hActual
      rw [hActual, decide_eq_true (by omega)] at hExpected
      exact hExpected
  · exact Or.inl hFree

/-- Three used pages; freeing from the second one on with the largest count
clears nothing. -/
theorem pageFree_wraps :
    let k := (pageAlloc 3 (pageInit smallLayout 0x40000000 0x40000 Kernel.coldStart).2).2
    AfterInit smallLayout 0x40000000 0x40000 k ∧ Freeable k 0x40001000 ∧
      k.bit 1 = true ∧ (pageFree 0x40001000 0xFFFFFFFFFFFFFFFF k).bit 1 = true ∧
      ¬ FreeExact k 0x40001000 0xFFFFFFFFFFFFFFFF := by
  intro k
  have hFree : Freeable k 0x40001000 := by decide +kernel
  have hAfter : (pageFree 0x40001000 0xFFFFFFFFFFFFFFFF k).bit 1 = true := by decide +kernel
  have hStatic := pageAlloc_static 3 (pageInit smallLayout 0x40000000 0x40000 Kernel.coldStart).2
  refine ⟨(AfterInit.of_pageInit (by decide)).congr hStatic, hFree, by decide +kernel, hAfter,
    fun hExact => ?_⟩
  have hExpected := hExact.bits hFree 1 (by omega)
  have hCleared : decide (pageOf k 0x40001000 ≤ 1 ∧
      1 < min (pageOf k 0x40001000 + 0xFFFFFFFFFFFFFFFF) k.totalPages) = true := by decide +kernel
  rw [hAfter, hCleared] at hExpected
  exact absurd hExpected (by simp)

/-- A count that is too long but does not wrap is truncated: of three used pages, the two from
the second one on are freed. -/
theorem pageFree_exact_iff_truncated :
    let k := (pageAlloc 3 (pageInit smallLayout 0x40000000 0x40000 Kernel.coldStart).2).2
    k.bit 1 = true ∧ (pageFree 0x40001000 0x100000 k).bit 1 = false ∧
      FreeExact k (0x40001000 : Word).toNat (0x100000 : Word).toNat := by
  intro k
  have hStatic := pageAlloc_static 3 (pageInit smallLayout 0x40000000 0x40000 Kernel.coldStart).2
  have hInit : AfterInit smallLayout 0x40000000 0x40000 k :=
    (AfterInit.of_pageInit (by decide)).congr hStatic
  have hExact := (pageFree_exact_iff hInit (by decide) 0x40001000 0x100000).mpr
    (Or.inr (Or.inl (by decide +kernel)))
  have hFree : Freeable k 0x40001000 := by decide +kernel
  have hCleared : decide (pageOf k 0x40001000 ≤ 1 ∧
      1 < min (pageOf k 0x40001000 + 0x100000) k.totalPages) = true := by decide +kernel
  refine ⟨by decide +kernel, ?_, hExact⟩
  refine (hExact.bits hFree 1 (by omega)).trans ?_
  exact congrArg (! · && k.bit 1) hCleared

end Kernalite
