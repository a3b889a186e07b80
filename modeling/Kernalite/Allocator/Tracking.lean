import Kernalite.Lib.Ledger
import Kernalite.Allocator.FirstFit
import Kernalite.Allocator.Reserve

/-!
# Kernalite — the bitmap tracks a ledger

`Tracks L k l` says that the bitmap of `k` is the page-by-page picture of the
ledger `l`: extents are whole pages of the pool, a bit is set exactly when its
page is owned, and the bitmap's own bytes are reserved where they lie in the
pool. Each allocator function moves the ledger by one operation
(`pageAlloc_tracks`, `pageFree_tracks`, `reservePage_tracks`), and memory
traffic outside the bitmap area does not matter (`Tracks.of_bitmap`).
-/

namespace Kernalite

open ByteMemory PackedBits Words Loop FirstFit

-- ---------------------------------------------------------------------------
-- Page extents
-- ---------------------------------------------------------------------------

/-- `n` pages from address `p`. -/
def pages (p n : Nat) : Extent := ⟨p, n * pageSize⟩

theorem pages_contains_self (p : Nat) : (pages p 1).Contains p :=
  ⟨Nat.le_refl p, Nat.lt_add_of_pos_right (show 0 < 1 * pageSize by decide)⟩

/-- The extent is made of whole pages of the pool of `k`. -/
structure InPool (k : Kernel) (e : Extent) : Prop where
  start_aligned : e.start % pageSize = 0
  len_aligned   : e.len % pageSize = 0
  low           : k.memBase ≤ e.start
  high          : e.start + e.len ≤ k.memBase + k.totalPages * pageSize

section InPool

variable {k : Kernel} {e : Extent}

/-- Pages of the pool, as a range of page indices. -/
theorem InPool.exists_index {p n : Nat} (h : InPool k (pages p n))
    (hBase : k.memBase % pageSize = 0) : ∃ s, p = pageAddr k s ∧ s + n ≤ k.totalPages := by
  obtain ⟨hStart, -, hLow, hHigh⟩ := h
  simp only [pages] at hStart hLow hHigh
  refine ⟨(p - k.memBase) / pageSize, ?_, ?_⟩
  · unfold pageAddr pageSize at *
    omega
  · unfold pageSize at *
    omega

/-- Owning the first byte of a page of the pool is owning all of it. -/
theorem InPool.contains_iff (h : InPool k e) (hBase : k.memBase % pageSize = 0) {i a : Nat}
    (hlo : pageAddr k i ≤ a) (hhi : a < pageAddr k (i + 1)) :
    e.Contains a ↔ e.Contains (pageAddr k i) := by
  obtain ⟨hStart, hLen, -, -⟩ := h
  unfold Extent.Contains
  unfold pageAddr pageSize at *
  omega

/-- Which pages an extent of pages contains. -/
theorem pages_contains_iff {s n i : Nat} :
    (pages (pageAddr k s) n).Contains (pageAddr k i) ↔ s ≤ i ∧ i < s + n := by
  simp only [Extent.Contains, pages, pageAddr]
  unfold pageSize
  omega

theorem inPool_pages (hBase : k.memBase % pageSize = 0) {s n : Nat} (hFit : s + n ≤ k.totalPages) :
    InPool k (pages (pageAddr k s) n) := by
  refine ⟨?_, ?_, ?_, ?_⟩ <;> simp only [pages, pageAddr]
  all_goals
    unfold pageSize at *
    omega

end InPool

-- ---------------------------------------------------------------------------
-- Tracking
-- ---------------------------------------------------------------------------

/-- The address lies in the bitmap area. -/
def InBitmap (L : Layout) (a : Nat) : Prop := L.bitMapStart ≤ a ∧ a < L.bitMapEnd

/-- The static variables are sound and the bitmap is the picture of the ledger. -/
structure Tracks (L : KernelLayout) (k : Kernel) (l : Ledger) : Prop where
  ready       : Ready L k
  base_pos    : 0 < k.memBase
  live_in     : ∀ e ∈ l.live, InPool k e
  reserved_in : ∀ f ∈ l.reserved, InPool k f
  bits        : ∀ i, i < k.totalPages → (k.bit i = true ↔ l.Occupied (pageAddr k i))
  bitmap_kept : ∀ a, InBitmap L a → k.memBase ≤ a → a < pageAddr k k.totalPages →
    ∃ f ∈ l.reserved, f.Contains a

section Tracks

variable {L : KernelLayout} {k k' : Kernel} {l l' : Ledger}

theorem Tracks.inPool (h : Tracks L k l) {e : Extent} (he : e ∈ l.live ∨ e ∈ l.reserved) :
    InPool k e :=
  he.elim (h.live_in e) (h.reserved_in e)

/-- A page is owned exactly when its bit is set. -/
theorem Tracks.occupied_iff (h : Tracks L k l) {i a : Nat} (hi : i < k.totalPages)
    (hlo : pageAddr k i ≤ a) (hhi : a < pageAddr k (i + 1)) :
    l.Occupied a ↔ k.bit i = true := by
  have hBase := h.ready.base_aligned
  rw [h.bits i hi]
  refine or_congr ?_ ?_
  · exact exists_congr fun e => and_congr_right fun he =>
      (h.live_in e he).contains_iff hBase hlo hhi
  · exact exists_congr fun f => and_congr_right fun hf =>
      (h.reserved_in f hf).contains_iff hBase hlo hhi

/-- No live extent reaches into the bitmap area. -/
theorem Tracks.live_not_inBitmap (h : Tracks L k l) {e : Extent} (he : e ∈ l.live) {a : Nat}
    (ha : e.Contains a) : ¬ InBitmap L a := by
  intro hIn
  have hLow := (h.live_in e he).low
  have hHigh := (h.live_in e he).high
  obtain ⟨hlo, hhi⟩ := ha
  obtain ⟨f, hf, hfa⟩ := h.bitmap_kept a hIn (by omega) (by unfold pageAddr; omega)
  exact l.live_reserved e he f hf a ⟨hlo, hhi⟩ hfa

/-- How an operation keeps the tracking: the static variables stay, nothing
reserved is given up, and the bits follow the ledger. -/
theorem Tracks.update (h : Tracks L k l) (hStatic : SameStatics k k')
    (hLive : ∀ e ∈ l'.live, InPool k e) (hReserved : ∀ f ∈ l'.reserved, InPool k f)
    (hKept : ∀ f ∈ l.reserved, f ∈ l'.reserved)
    (hBits : ∀ i, i < k.totalPages → (k'.bit i = true ↔ l'.Occupied (pageAddr k i))) :
    Tracks L k' l' := by
  have hReady := h.ready.congr hStatic
  obtain ⟨hBase, -, hTotal⟩ := hStatic
  have hAddr : ∀ i, pageAddr k' i = pageAddr k i := fun i => by rw [pageAddr, hBase, pageAddr]
  have hIn : ∀ e, InPool k e → InPool k' e := fun e he =>
    ⟨he.start_aligned, he.len_aligned, hBase ▸ he.low, by rw [hBase, hTotal]; exact he.high⟩
  refine ⟨hReady, hBase ▸ h.base_pos, fun e he => hIn e (hLive e he),
    fun f hf => hIn f (hReserved f hf), ?_, ?_⟩
  · intro i hi
    rw [hAddr]
    exact hBits i (hTotal ▸ hi)
  · intro a ha hlo hhi
    rw [hAddr, hTotal] at hhi
    obtain ⟨f, hf, hfa⟩ := h.bitmap_kept a ha (hBase ▸ hlo) hhi
    exact ⟨f, hKept f hf, hfa⟩

/-- Memory outside the bitmap area is free to change. -/
theorem Tracks.of_bitmap (h : Tracks L k l) (hStatic : SameStatics k k')
    (hMem : ∀ a, InBitmap L a → k'.mem a = k.mem a) : Tracks L k' l := by
  refine h.update hStatic h.live_in h.reserved_in (fun _ hf => hf) fun i hi => ?_
  have hByte : k'.bit i = k.bit i := by
    obtain ⟨hEq, hIn⟩ := h.ready.bitmapByte_eq hi
    rw [Kernel.bit, Kernel.bit, hStatic.bitmapByte_eq]
    exact getBit_congr (hMem _ (hEq ▸ ⟨by omega, hIn⟩))
  rw [hByte]
  exact h.bits i hi

/-- The bits of the bitmap area that stand for no page stay as they are. -/
def PaddingKept (L : Layout) (k k' : Kernel) : Prop :=
  ∀ i, k.totalPages ≤ i → i < 8 * bitmapArea L → k'.bit i = k.bit i

theorem PaddingKept.trans {L : Layout} {k k₁ k₂ : Kernel} (h : PaddingKept L k k₁)
    (hTotal : k₁.totalPages = k.totalPages) (h' : PaddingKept L k₁ k₂) : PaddingKept L k k₂ :=
  fun i hlo hhi => (h' i (hTotal ▸ hlo) hhi).trans (h i hlo hhi)

theorem Ready.paddingKept {L : Layout} (h : Ready L k) (hStatic : SameStatics k k')
    (hMem : ∀ a, InBitmap L a → k'.mem a = k.mem a) : PaddingKept L k k' := by
  intro i _ hi
  obtain ⟨hEq, hIn⟩ := h.areaByte_eq hi
  rw [Kernel.bit, Kernel.bit, hStatic.bitmapByte_eq]
  exact getBit_congr (hMem _ (hEq ▸ ⟨by omega, hIn⟩))

/-- Setting or clearing bits of the pool writes the bitmap area only. -/
theorem Ready.sameOutside_bitmap (h : Ready L k) {update : Nat → Mem → Mem}
    (hUpdate : ∀ i m a, a ≠ k.bitmapByte i → update i m a = m a) {lo hi : Nat} (hle : lo ≤ hi)
    (hTop : hi ≤ k.totalPages) :
    SameOutside (InBitmap L) k.mem (forRange lo hi update k.mem) := by
  refine (sameOutside_bits hUpdate k.mem hle).mono ?_
  rintro a ⟨i, -, hi, rfl⟩
  obtain ⟨hEq, hIn⟩ := h.bitmapByte_eq (i := i) (by omega)
  exact hEq ▸ ⟨by omega, hIn⟩

-- ---------------------------------------------------------------------------
-- The operations
-- ---------------------------------------------------------------------------

/-- A window of clear bits is an extent nobody owns. -/
theorem Tracks.fits_free (h : Tracks L k l) {n s : Nat} (hFit : Fits k.bit k.totalPages n s) :
    ∀ a, (pages (pageAddr k s) n).Contains a → ¬ l.Occupied a := by
  rintro a ⟨hlo, hhi⟩ hOcc
  simp only [pages, pageAddr] at hlo hhi
  have hTop := hFit.1
  -- the page the address lies in
  have hPage : pageAddr k ((a - k.memBase) / pageSize) ≤ a ∧
      a < pageAddr k ((a - k.memBase) / pageSize + 1) ∧
      s ≤ (a - k.memBase) / pageSize ∧ (a - k.memBase) / pageSize < s + n := by
    unfold pageAddr pageSize at *
    omega
  obtain ⟨hPageLo, hPageHi, hFrom, hTo⟩ := hPage
  have hBit := (h.occupied_iff (by omega) hPageLo hPageHi).mp hOcc
  rw [hFit.2 _ hFrom hTo] at hBit
  exact Bool.false_ne_true hBit

/-- `page_alloc` grants the first fit, or leaves memory and ledger alone. -/
theorem pageAlloc_tracks (h : Tracks L k l) (n : Nat) :
    ((∀ s, n = 0 ∨ ¬ Fits k.bit k.totalPages n s) ∧ (pageAlloc n k).1 = 0 ∧
      (pageAlloc n k).2.mem = k.mem ∧ Tracks L (pageAlloc n k).2 l) ∨
    ∃ s, IsFirstFit k.bit k.totalPages n s ∧ (pageAlloc n k).1 = pageAddr k s ∧
      ∃ hPos hFree,
        Tracks L (pageAlloc n k).2 (l.grant (pages (pageAddr k s) n) hPos hFree) := by
  rcases pageAlloc_cases h.ready n with ⟨hNone, c, hEq⟩ | ⟨s, c, hPos, hFirst, hEq⟩
  · refine Or.inl ⟨hNone, by rw [hEq], by rw [hEq], ?_⟩
    rw [hEq]
    exact h.of_bitmap ⟨rfl, rfl, rfl⟩ fun _ _ => rfl
  · have hFitTop := hFirst.fits.1
    have hTotal := h.ready.total_lt
    have hLen : 0 < (pages (pageAddr k s) n).len := Nat.mul_pos hPos (by decide)
    refine Or.inr ⟨s, hFirst, by rw [hEq], hLen, h.fits_free hFirst.fits, ?_⟩
    refine h.update (pageAlloc_static n k) ?_ h.reserved_in (fun _ hf => hf) fun i hi => ?_
    · intro e he
      rcases List.mem_cons.mp he with rfl | he
      · exact inPool_pages h.ready.base_aligned hFitTop
      · exact h.live_in e he
    · rw [Ledger.occupied_grant, pages_contains_iff, ← h.bits i hi, hEq,
        bit_markRange k (by omega) (by omega), Bool.or_eq_true, decide_eq_true_eq]

/-- `page_alloc` writes the bitmap area only. -/
theorem pageAlloc_frame (h : Ready L k) (n : Nat) :
    SameOutside (InBitmap L) k.mem (pageAlloc n k).2.mem := by
  rcases pageAlloc_cases h n with ⟨-, c, hEq⟩ | ⟨s, c, -, hFirst, hEq⟩
  · rw [hEq]
    exact SameOutside.refl _ _
  · rw [hEq]
    exact h.sameOutside_bitmap (fun i m a ha => setBit_outside ha) (Nat.le_add_right s n)
      hFirst.fits.1

/-- `page_alloc` sets no bit beyond the pool. -/
theorem pageAlloc_padding (h : Ready L k) (n : Nat) : PaddingKept L k (pageAlloc n k).2 := by
  have hTotal := h.total_lt
  have hArea := L.bitMapEnd_lt
  rcases pageAlloc_cases h n with ⟨-, c, hEq⟩ | ⟨s, c, -, hFirst, hEq⟩
  · rw [hEq]
    exact fun _ _ _ => rfl
  · intro i hlo hhi
    have hTop := hFirst.fits.1
    have hSize := L.bitMap_size
    unfold bitmapArea at hhi
    rw [hEq, bit_markRange k (by omega) (by omega), decide_eq_false (by omega), Bool.false_or]

/-- `page_free` of a block of the pool, with its own page count, clears its bits. -/
theorem pageFree_inPool (h : Ready L k) (hBase : 0 < k.memBase) {s n : Nat} (hPos : 0 < n)
    (hFit : s + n ≤ k.totalPages) :
    ∃ c, pageFree (pageAddr k s) n k =
      { k with
        mem := forRange s (s + n) (clearBit k.bitmapByte) k.mem
        console := k.console ++ c } := by
  have hTotal := h.total_le
  have hTop := h.top_lt
  have hLow : k.memBase ≤ pageAddr k s := by
    unfold pageAddr
    omega
  have hNear : pageAddr k s - k.memBase < 2 ^ 63 := by
    unfold pageAddr pageSize
    omega
  have hAddr : pageAddr k s < 2 ^ 64 := h.pageAddr_lt (by omega)
  have hIndex : pageIndex (pageAddr k s) k.memBase = s := by
    rw [pageIndex_eq hLow hAddr hNear]
    unfold pageAddr pageSize
    omega
  have hOut : ¬ (pageAddr k s < k.memBase ∨
      pageAddr k s ≥ k.memBase + k.totalPages * pageSize) := by
    unfold pageAddr pageSize
    omega
  have hNull : pageAddr k s ≠ 0 := by
    unfold pageAddr
    omega
  have hSum : add64 s n = s + n := add64_eq (by omega)
  have hRoom : ¬ s + n > k.totalPages := by omega
  refine ⟨[("PAGE: Freeing %u pages at %p\n", [.word n, .word (pageAddr k s)])], ?_⟩
  simp only [pageFree, hNull, if_false, h.memEnd_eq, hOut, hIndex, hSum, hRoom, decide_false,
    Bool.false_eq_true, Kernel.kprintf]
  rfl

/-- `page_free` of a live block releases it. -/
theorem pageFree_tracks (h : Tracks L k l) {p n : Nat} (hLive : pages p n ∈ l.live) :
    Tracks L (pageFree p n k) (l.release (pages p n)) := by
  have hIn := h.live_in _ hLive
  have hPos : 0 < n := Nat.pos_of_mul_pos_right (l.live_pos _ hLive)
  have hTotal := h.ready.total_lt
  obtain ⟨s, rfl, hFit⟩ := hIn.exists_index h.ready.base_aligned
  obtain ⟨c, hEq⟩ := pageFree_inPool h.ready h.base_pos hPos hFit
  refine h.update (pageFree_static _ n k) ?_ h.reserved_in (fun _ hf => hf) fun i hi => ?_
  · exact fun e he => h.live_in e (List.mem_of_mem_erase he)
  · rw [Ledger.occupied_release l hLive, pages_contains_iff, ← h.bits i hi, hEq]
    have hBit := getBit_clearRange k.bitmapByte_packed k.mem (Nat.le_add_right s n)
      (by omega) (show i < 2 ^ 64 by omega)
    change getBit k.bitmapByte _ i = true ↔ _
    rw [hBit, Bool.and_eq_true, Bool.not_eq_true', decide_eq_false_iff_not, and_comm]
    rfl

/-- `page_free` of a live block writes the bitmap area only. -/
theorem pageFree_frame (h : Tracks L k l) {p n : Nat} (hLive : pages p n ∈ l.live) :
    SameOutside (InBitmap L) k.mem (pageFree p n k).mem := by
  have hPos : 0 < n := Nat.pos_of_mul_pos_right (l.live_pos _ hLive)
  obtain ⟨s, rfl, hFit⟩ := (h.live_in _ hLive).exists_index h.ready.base_aligned
  obtain ⟨c, hEq⟩ := pageFree_inPool h.ready h.base_pos hPos hFit
  rw [hEq]
  exact h.ready.sameOutside_bitmap (fun i m a ha => clearBit_outside ha) (Nat.le_add_right s n)
    hFit

/-- `reserve_page` of pages of the pool that no live block overlaps. -/
theorem reservePage_tracks (h : Tracks L k l) (hTotal : k.totalPages ≠ 0) {p n : Nat}
    (hIn : InPool k (pages p n)) (hApart : ∀ e ∈ l.live, e.Disjoint (pages p n)) :
    (reservePage p n k).1 = true ∧
      SameOutside (InBitmap L) k.mem (reservePage p n k).2.mem ∧
      Tracks L (reservePage p n k).2 (l.withhold (pages p n) hApart) := by
  have hTotalLt := h.ready.total_lt
  obtain ⟨s, rfl, hFit⟩ := hIn.exists_index h.ready.base_aligned
  obtain ⟨c, hEq⟩ := reservePage_inRange h.ready (Nat.ne_of_gt h.base_pos) hTotal
    (show k.memBase ≤ pageAddr k s from hIn.low) hIn.high
  have hIndex : (pageAddr k s - k.memBase) / pageSize = s := by
    unfold pageAddr pageSize
    omega
  rw [hIndex] at hEq
  refine ⟨by rw [hEq], ?_, ?_⟩
  · rw [hEq]
    exact h.ready.sameOutside_bitmap (fun i m a ha => setBit_outside ha) (Nat.le_add_right s n)
      hFit
  · refine h.update (reservePage_static _ n k) h.live_in ?_
      (fun f hf => List.mem_cons_of_mem _ hf) fun i hi => ?_
    · intro f hf
      rcases List.mem_cons.mp hf with rfl | hf
      · exact hIn
      · exact h.reserved_in f hf
    · rw [Ledger.occupied_withhold, pages_contains_iff, ← h.bits i hi, hEq,
        bit_markRange k (by omega) (by omega), Bool.or_eq_true, decide_eq_true_eq]

end Tracks

end Kernalite
