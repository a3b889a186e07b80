import Kernalite.Allocator.Free
import Kernalite.Allocator.Pool

/-!
# Kernalite — what a reservation covers

`reserve_page` checks the bytes of its range and marks pages from the one `ptr`
lies in. A range that does not start on a page boundary reaches into one page
more than are marked.

* `bit_kept` — a page that is used stays used until a `page_free` covers it;
* `runOps_apart` — no allocation overlaps a range all pages of which are used;
* `reservePage_covers_iff` — when the pages marked cover the range.
-/

namespace Kernalite

open ByteMemory PackedBits Words Loop FirstFit

variable {L : KernelLayout} {k : Kernel}

/-- Page `i` of the pool has a byte in the extent. -/
def Overlaps (k : Kernel) (i : Nat) (e : Extent) : Prop := ¬ (pages (pageAddr k i) 1).Disjoint e

/-- The call frees page `i`, as far as its arguments go. -/
def AllocOp.FreesPage (k : Kernel) (i : Nat) : AllocOp → Prop
  | .free ptr numPages => Freeable k ptr.toNat ∧ pageOf k ptr.toNat ≤ i ∧
      i < pageOf k ptr.toNat + numPages.toNat
  | _ => False

/-- No call of the list is a `page_init` or frees a page of the extent. -/
def LeavesAlone (k : Kernel) (e : Extent) (ops : List AllocOp) : Prop :=
  ∀ op ∈ ops, op.isInit = false ∧ ∀ i, i < k.totalPages → Overlaps k i e → ¬ op.FreesPage k i

theorem overlaps_iff {i p n : Nat} :
    Overlaps k i (pages p n) ↔ pageAddr k i < p + n * pageSize ∧ p < pageAddr k (i + 1) ∧ 0 < n := by
  have hNext : pageAddr k (i + 1) = pageAddr k i + pageSize := by
    unfold pageAddr
    rw [Nat.succ_mul, Nat.add_assoc]
  unfold Overlaps Extent.Disjoint
  rw [not_forall]
  constructor
  · rintro ⟨a, hBoth⟩
    obtain ⟨⟨hPageLow, hPageHigh⟩, hLow, hHigh⟩ := Classical.not_imp.mp hBoth |>.imp_right not_not.mp
    simp only [pages] at hPageLow hPageHigh hLow hHigh
    have hPos : 0 < n := Nat.pos_of_ne_zero fun hZero => by subst hZero; omega
    exact ⟨by omega, by omega, hPos⟩
  · rintro ⟨hLow, hHigh, hPos⟩
    have hRoom : pageSize ≤ n * pageSize := Nat.le_mul_of_pos_left _ hPos
    have hSize : 0 < pageSize := by decide
    refine ⟨max (pageAddr k i) p, fun hApart => hApart ⟨?_, ?_⟩ ⟨?_, ?_⟩⟩ <;>
      simp only [pages] <;> omega

/-- Overlap reads the base address only. -/
theorem overlaps_congr {k' : Kernel} (hStatic : SameStatics k k') {i : Nat} {e : Extent} :
    Overlaps k' i e ↔ Overlaps k i e := by
  rw [Overlaps, Overlaps, pageAddr, hStatic.memBase_eq, pageAddr]

-- ---------------------------------------------------------------------------
-- Used pages stay used
-- ---------------------------------------------------------------------------

/-- A loop that sets bits clears none. -/
theorem setBits_kept {index : Nat → Nat} (hIndex : ∀ j, index j < 2 ^ 64) (lo hi : Nat) {m : Mem}
    {i : Nat} (hi64 : i < 2 ^ 64) (hSet : getBit k.bitmapByte m i = true) :
    getBit k.bitmapByte (forRange lo hi (fun j m => setBit k.bitmapByte (index j) m) m) i = true := by
  refine forRange_preserves (fun t => getBit k.bitmapByte t i = true) lo hi hSet fun j t ht => ?_
  rw [getBit_setBit k.bitmapByte_packed t (hIndex j) hi64, ht, Bool.or_true]

theorem pageDumpStatus_mem (k : Kernel) : (pageDumpStatus k).mem = k.mem := by
  simp only [pageDumpStatus]
  split_ifs
  · rfl
  · refine forRange_preserves (fun s : Kernel × Nat × Bool => s.1.mem = k.mem) _ _ rfl
      fun i s hs => ?_
    simp only [pageDumpRound]
    split_ifs <;> exact hs

/-- **A used page stays used** unless the call frees it or is a `page_init`. -/
theorem bit_kept (h : Ready L k) {op : AllocOp} (hOp : op.isInit = false) {i : Nat}
    (hi : i < k.totalPages) (hFree : ¬ op.FreesPage k i) (hUsed : k.bit i = true) :
    (op.run L k).2.bit i = true := by
  have hTotal := h.total_lt
  have hi64 : i < 2 ^ 64 := by omega
  cases op with
  | init memStart memSize => exact absurd hOp (by simp [AllocOp.isInit])
  | reserve ptr numPages =>
    change (reservePage ptr.toNat numPages.toNat k).2.bit i = true
    by_cases hRej : Rejects k ptr.toNat numPages.toNat
    · obtain ⟨c, hEq⟩ := reservePage_reject hRej
      rw [hEq]
      exact hUsed
    · obtain ⟨c, hEq⟩ := reservePage_accept hRej
      rw [hEq]
      exact setBits_kept (fun j => add64_lt _ _) _ _ hi64 hUsed
  | alloc numPages =>
    change (pageAlloc numPages.toNat k).2.bit i = true
    rcases pageAlloc_cases h numPages.toNat with ⟨-, c, hEq⟩ | ⟨s, c, -, hFirst, hEq⟩
    · rw [hEq]
      exact hUsed
    · have hTop := hFirst.fits.1
      rw [hEq, bit_markRange k (by omega) hi64, hUsed, Bool.or_true]
  | free ptr numPages =>
    change (pageFree ptr.toNat numPages.toNat k).bit i = true
    rcases pageFree_cases h ptr.isLt numPages.isLt with ⟨-, c, hEq⟩ | ⟨hFreeable, -⟩
    · rw [hEq]
      exact hUsed
    · rw [pageFree_bits h ptr.isLt numPages.isLt hFreeable hi64, hUsed, Bool.and_true,
        Bool.not_eq_true', decide_eq_false_iff_not]
      rintro ⟨hFrom, hTo⟩
      refine hFree ⟨hFreeable, hFrom, Nat.lt_of_lt_of_le hTo ?_⟩
      unfold freeEnd
      split_ifs <;> omega
  | dump =>
    change (pageDumpStatus k).bit i = true
    rw [Kernel.bit, (pageDumpStatus_static k).bitmapByte_eq, pageDumpStatus_mem]
    exact hUsed

/-- Overlap and freeing read the static variables only. -/
theorem LeavesAlone.congr {k' : Kernel} {e : Extent} {ops : List AllocOp}
    (hStatic : SameStatics k k') (h : LeavesAlone k e ops) : LeavesAlone k' e ops := by
  intro op hOp
  obtain ⟨hInit, hFree⟩ := h op hOp
  refine ⟨hInit, fun i hi hOver => ?_⟩
  have hNot := hFree i (hStatic.totalPages_eq ▸ hi) ((overlaps_congr hStatic).mp hOver)
  cases op with
  | free ptr numPages =>
    rw [AllocOp.FreesPage, Freeable, pageOf, hStatic.memBase_eq, hStatic.totalPages_eq]
    exact hNot
  | _ => exact hNot

theorem runOps_bits_kept (h : Ready L k) {e : Extent} {ops : List AllocOp}
    (hOps : LeavesAlone k e ops)
    (hUsed : ∀ i, i < k.totalPages → Overlaps k i e → k.bit i = true) {i : Nat}
    (hi : i < k.totalPages) (hOver : Overlaps k i e) : (runOps L ops k).2.bit i = true := by
  induction ops generalizing k with
  | nil => exact hUsed i hi hOver
  | cons op ops ih =>
    have hStatic := AllocOp.run_static (L := L) k (hOps op List.mem_cons_self).1
    have hReady := h.congr hStatic
    have hRest : LeavesAlone (op.run L k).2 e ops :=
      LeavesAlone.congr hStatic fun op' h => hOps op' (List.mem_cons_of_mem _ h)
    have hUsed' : ∀ j, j < (op.run L k).2.totalPages → Overlaps (op.run L k).2 j e →
        (op.run L k).2.bit j = true := by
      intro j hj hOverJ
      rw [hStatic.totalPages_eq] at hj
      rw [overlaps_congr hStatic] at hOverJ
      obtain ⟨hInit, hFree⟩ := hOps op List.mem_cons_self
      exact bit_kept h hInit hj (hFree j hj hOverJ) (hUsed j hj hOverJ)
    exact ih hReady hRest hUsed' (hStatic.totalPages_eq ▸ hi) ((overlaps_congr hStatic).mpr hOver)

/-- A block `page_alloc` returns overlaps no extent whose pages are all used. -/
theorem pageAlloc_apart (h : Ready L k) {e : Extent}
    (hUsed : ∀ i, i < k.totalPages → Overlaps k i e → k.bit i = true) {n : Nat}
    (hOk : (pageAlloc n k).1 ≠ 0) : (pages (pageAlloc n k).1 n).Disjoint e := by
  rcases pageAlloc_cases h n with ⟨-, c, hEq⟩ | ⟨s, c, -, hFirst, hEq⟩
  · rw [hEq] at hOk
    exact absurd rfl hOk
  · rw [hEq]
    rintro a ⟨hLow, hHigh⟩ hea
    have hTop := hFirst.fits.1
    simp only [pages, pageAddr] at hLow hHigh
    -- the page the address lies in
    have hPage : pageAddr k ((a - k.memBase) / pageSize) ≤ a ∧
        a < pageAddr k ((a - k.memBase) / pageSize) + 1 * pageSize ∧
        s ≤ (a - k.memBase) / pageSize ∧ (a - k.memBase) / pageSize < s + n := by
      unfold pageAddr pageSize at *
      omega
    obtain ⟨hPageLow, hPageHigh, hFrom, hTo⟩ := hPage
    have hBit := hUsed _ (by omega) fun hApart => hApart a ⟨hPageLow, hPageHigh⟩ hea
    rw [hFirst.fits.2 _ hFrom hTo] at hBit
    exact Bool.false_ne_true hBit

/-- **Used ranges are not handed out**, until a call frees one of their pages. -/
theorem runOps_apart (h : Ready L k) {e : Extent} {ops : List AllocOp}
    (hOps : LeavesAlone k e ops)
    (hUsed : ∀ i, i < k.totalPages → Overlaps k i e → k.bit i = true) {n : Nat}
    (hOk : (pageAlloc n (runOps L ops k).2).1 ≠ 0) :
    (pages (pageAlloc n (runOps L ops k).2).1 n).Disjoint e := by
  have hStatic := runOps_static (L := L) k fun op hOp => (hOps op hOp).1
  refine pageAlloc_apart (h.congr hStatic) ?_ hOk
  intro i hi hOver
  rw [hStatic.totalPages_eq] at hi
  exact runOps_bits_kept h hOps hUsed hi ((overlaps_congr hStatic).mp hOver)

-- ---------------------------------------------------------------------------
-- Coverage
-- ---------------------------------------------------------------------------

/-- What a client may expect of a successful `reserve_page(ptr, num_pages)`: every
page with a byte in the range is used, and as long as none of them is freed no
allocation reaches into the range. -/
structure ReserveCovers (L : Layout) (k : Kernel) (ptr numPages : Nat) : Prop where
  marked : (reservePage ptr numPages k).1 = true →
    ∀ i, i < k.totalPages → Overlaps k i (pages ptr numPages) →
      (reservePage ptr numPages k).2.bit i = true
  kept : (reservePage ptr numPages k).1 = true →
    ∀ ops, LeavesAlone k (pages ptr numPages) ops →
      ∀ n : Word, (pageAlloc n.toNat (runOps L ops (reservePage ptr numPages k).2).2).1 ≠ 0 →
        (pages (pageAlloc n.toNat (runOps L ops (reservePage ptr numPages k).2).2).1
          n.toNat).Disjoint (pages ptr numPages)

/-- The call is rejected or asks for nothing, the range starts on a page boundary,
or the last page it reaches into is used already. -/
def ReserveAligned (k : Kernel) (ptr numPages : Nat) : Prop :=
  Rejects k ptr numPages ∨ numPages = 0 ∨ ptr % pageSize = 0 ∨
    k.bit (pageOf k ptr + numPages) = true

/-- The pages a range of the pool reaches into. -/
theorem overlaps_inRange (h : Ready L k) {ptr numPages i : Nat} (hLow : k.memBase ≤ ptr)
    (hOver : Overlaps k i (pages ptr numPages)) :
    pageOf k ptr ≤ i ∧ (i < pageOf k ptr + numPages ∨
      i = pageOf k ptr + numPages ∧ ptr % pageSize ≠ 0) := by
  obtain ⟨hFrom, hTo, -⟩ := overlaps_iff.mp hOver
  have hBase := h.base_aligned
  unfold pageOf pageAddr pageSize at *
  omega

theorem reservePage_marked (h : Ready L k) {ptr numPages : Nat}
    (hAcc : ¬ Rejects k ptr numPages) (hFits : ptr + numPages * pageSize < 2 ^ 64) {i : Nat}
    (hi : i < 2 ^ 64) :
    (reservePage ptr numPages k).2.bit i =
      (decide (pageOf k ptr ≤ i ∧ i < pageOf k ptr + numPages) || k.bit i) := by
  have hTotal := h.total_lt
  rw [rejects_iff h, wrappedEnd, Nat.mod_eq_of_lt hFits] at hAcc
  have hLow : k.memBase ≤ ptr := by omega
  have hHigh : ptr + numPages * pageSize ≤ k.memBase + k.totalPages * pageSize := by omega
  obtain ⟨c, hEq⟩ := reservePage_inRange h (by omega) (by omega) hLow hHigh
  obtain ⟨-, hRoom⟩ := pageIndex_inRange h hLow hHigh
  rw [hEq]
  exact bit_markRange k (by omega) hi

/-- A region that reaches `2 ^ 64` makes a pool whose end wraps, in front of its start or of a
base that is null. No range that ends below `2 ^ 64` is accepted there. -/
theorem AfterInit.rejects_of_wrap {memStart memSize : Word}
    (h : AfterInit L memStart.toNat memSize.toNat k)
    (hWrap : 2 ^ 64 ≤ memStart.toNat + memSize.toNat) {ptr numPages : Nat}
    (hFits : ptr + numPages * pageSize < 2 ^ 64) : Rejects k ptr numPages := by
  obtain ⟨k₀, hOk, hBase, -, hTotal⟩ := h
  have hStart := memStart.isLt
  have hSize := memSize.isLt
  have hAligned := shiftUp_aligned memStart.toNat
  have hShift := shiftUp_lt memStart.toNat
  rcases pageInit_cases L memStart.toNat hSize k₀ with
    ⟨-, c, hEq⟩ | ⟨-, -, c, hEq⟩ | ⟨hRoom, -, c, hEq⟩
  · simp [hEq] at hOk
  · simp [hEq] at hOk
  · rw [hEq] at hBase hTotal
    simp only [managedPages] at hBase hTotal
    rw [Rejects, wrappedEnd, wrappedEnd, Nat.mod_eq_of_lt hFits]
    unfold pageSize at *
    omega

/--
**A reservation covers its range** exactly when `ReserveAligned` holds: for every
state the static variables of which come from a successful `page_init`, on any
region, every pointer and every count whose range ends below `2 ^ 64`.
-/
theorem reservePage_covers_iff {memStart memSize : Word}
    (hInit : AfterInit L memStart.toNat memSize.toNat k) (ptr numPages : Word)
    (hFits : ptr.toNat + numPages.toNat * pageSize < 2 ^ 64) :
    ReserveCovers L k ptr.toNat numPages.toNat ↔ ReserveAligned k ptr.toNat numPages.toNat := by
  by_cases hRej : Rejects k ptr.toNat numPages.toNat
  · obtain ⟨c, hEq⟩ := reservePage_reject hRej
    have hFalse : (reservePage ptr.toNat numPages.toNat k).1 ≠ true := by
      rw [hEq]
      exact Bool.false_ne_true
    exact iff_of_true ⟨fun hOk => absurd hOk hFalse, fun hOk => absurd hOk hFalse⟩ (Or.inl hRej)
  have hEnd : memStart.toNat + memSize.toNat < 2 ^ 64 := by
    by_contra hWrap
    exact hRej (hInit.rejects_of_wrap (Nat.le_of_not_lt hWrap) hFits)
  have hReady := hInit.ready hEnd
  have hTotal := hReady.total_lt
  have hRange := hRej
  rw [rejects_iff hReady, wrappedEnd, Nat.mod_eq_of_lt hFits] at hRange
  have hLow : k.memBase ≤ ptr.toNat := by omega
  obtain ⟨c, hAccept⟩ := reservePage_accept hRej
  have hOk : (reservePage ptr.toNat numPages.toNat k).1 = true := by rw [hAccept]
  constructor
  · intro hCovers
    refine Or.inr ?_
    by_contra hNot
    rw [not_or, not_or] at hNot
    obtain ⟨hSome, hUnaligned, hFree⟩ := hNot
    -- the page after the last one marked
    have hBase := hReady.base_aligned
    have hLast : pageOf k ptr.toNat + numPages.toNat < k.totalPages ∧
        pageAddr k (pageOf k ptr.toNat + numPages.toNat) <
          ptr.toNat + numPages.toNat * pageSize ∧
        ptr.toNat < pageAddr k (pageOf k ptr.toNat + numPages.toNat + 1) := by
      unfold pageOf pageAddr pageSize at *
      omega
    obtain ⟨hInside, hFrom, hTo⟩ := hLast
    have hMarked := hCovers.marked hOk _ hInside
      (overlaps_iff.mpr ⟨hFrom, hTo, Nat.pos_of_ne_zero hSome⟩)
    rw [reservePage_marked hReady hRej hFits (by omega), decide_eq_false (by omega),
      Bool.false_or] at hMarked
    exact hFree hMarked
  · intro hAligned
    have hMarked : ∀ i, i < k.totalPages → Overlaps k i (pages ptr.toNat numPages.toNat) →
        (reservePage ptr.toNat numPages.toNat k).2.bit i = true := by
      intro i hi hOver
      obtain ⟨hFrom, hTo⟩ := overlaps_inRange hReady hLow hOver
      rw [reservePage_marked hReady hRej hFits (by omega), Bool.or_eq_true, decide_eq_true_eq]
      rcases hTo with hTo | ⟨rfl, hUnaligned⟩
      · exact Or.inl ⟨hFrom, hTo⟩
      · have hPos := (overlaps_iff.mp hOver).2.2
        rcases hAligned with hRej' | hNone | hStart | hUsed
        · exact absurd hRej' hRej
        · omega
        · exact absurd hStart hUnaligned
        · exact Or.inr hUsed
    have hStatic := reservePage_static ptr.toNat numPages.toNat k
    have hReady' := hReady.congr hStatic
    refine ⟨fun _ => hMarked, fun _ ops hOps n hAlloc => ?_⟩
    refine runOps_apart hReady' (hOps.congr hStatic) (fun i hi hOver => ?_) hAlloc
    rw [hStatic.totalPages_eq] at hi
    exact hMarked i hi ((overlaps_congr hStatic).mp hOver)

/-- One page from the middle of page 0 on reaches into page 1, which is not marked:
the next allocation returns it. -/
theorem reservePage_misses_last_page :
    let k := (pageInit smallLayout 0x40000000 0x40000 Kernel.coldStart).2
    AfterInit smallLayout 0x40000000 0x40000 k ∧
      (reservePage 0x40000800 1 k).1 = true ∧
      (pageAlloc 1 (reservePage 0x40000800 1 k).2).1 = 0x40001000 ∧
      ¬ ReserveCovers smallLayout k 0x40000800 1 := by
  intro k
  have hInit : AfterInit smallLayout 0x40000000 0x40000 k :=
    .of_pageInit (by decide)
  have hOk : (reservePage 0x40000800 1 k).1 = true := by decide
  have hAlloc : (pageAlloc 1 (reservePage 0x40000800 1 k).2).1 = 0x40001000 := by decide +kernel
  have hFree : (reservePage 0x40000800 1 k).2.bit 1 = false := by decide +kernel
  refine ⟨hInit, hOk, hAlloc, fun hCovers => ?_⟩
  have hOver : Overlaps k 1 (pages 0x40000800 1) :=
    overlaps_iff.mpr ⟨by decide, by decide, Nat.one_pos⟩
  exact Bool.false_ne_true (hFree.symm.trans (hCovers.marked hOk 1 (by decide) hOver))

/-- Two whole pages. -/
theorem reservePage_covers_iff_aligned :
    ReserveCovers smallLayout (pageInit smallLayout 0x40000000 0x40000 Kernel.coldStart).2
      (0x40001000 : Word).toNat (2 : Word).toNat :=
  have hInit : AfterInit smallLayout (0x40000000 : Word).toNat (0x40000 : Word).toNat
      (pageInit smallLayout 0x40000000 0x40000 Kernel.coldStart).2 :=
    .of_pageInit (by decide)
  (reservePage_covers_iff hInit 0x40001000 2 (by decide)).mpr
    (Or.inr (Or.inr (Or.inl (by decide))))

end Kernalite
