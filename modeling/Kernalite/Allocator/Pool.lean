import Kernalite.Allocator.Tracking
import Mathlib.Logic.Relation

/-!
# Kernalite — runs of the allocator

`Pool` is the allocator together with what its clients hold: the live blocks
and the reserved ranges, kept as plain lists that record what the calls
returned. Nothing in `Pool` or `Pool.Step` says that blocks are disjoint; that
is the result. `Booted` is the state after the two calls of `main`, `page_init`
and `reserve_kerenel_img_pages`.

* `Pool.Step.sound` / `Pool.run_sound` — every step, hence every run, keeps the
  lists a ledger that the bitmap tracks;
* `pool_invariant` — alignment, containment, disjointness and the meaning of
  every bit, in every reachable state.
-/

namespace Kernalite

open ByteMemory PackedBits Words Loop FirstFit Relation

/-- The kernel, the blocks its clients hold and the ranges they reserved. -/
structure Pool where
  kernel : Kernel
  live : List Extent
  reserved : List Extent

namespace Pool

/-- A call `page_alloc(n)`. -/
def alloc (n : Nat) (σ : Pool) : Pool :=
  let (p, k) := pageAlloc n σ.kernel
  { σ with kernel := k, live := if p = 0 then σ.live else pages p n :: σ.live }

/-- A call `page_free(p, n)`. -/
def free (p n : Nat) (σ : Pool) : Pool :=
  { σ with kernel := pageFree p n σ.kernel, live := σ.live.erase (pages p n) }

/-- A call `reserve_page(p, n)`. -/
def reserve (p n : Nat) (σ : Pool) : Pool :=
  let (ok, k) := reservePage p n σ.kernel
  { σ with kernel := k, reserved := if ok then pages p n :: σ.reserved else σ.reserved }

/-- What the clients of the allocator may do: ask for any number of pages, free
a block they hold, reserve whole pages of the pool that no block overlaps. -/
inductive Step : Pool → Pool → Prop where
  | alloc (σ : Pool) (n : Nat) : Step σ (σ.alloc n)
  | free (σ : Pool) (p n : Nat) (hLive : pages p n ∈ σ.live) : Step σ (σ.free p n)
  | reserve (σ : Pool) (p n : Nat) (hIn : InPool σ.kernel (pages p n))
      (hApart : ∀ e ∈ σ.live, e.Disjoint (pages p n)) : Step σ (σ.reserve p n)

/-- The lists are a ledger, and the bitmap tracks it. -/
def Sound (L : KernelLayout) (σ : Pool) : Prop :=
  ∃ l : Ledger, l.live = σ.live ∧ l.reserved = σ.reserved ∧ Tracks L σ.kernel l

-- ---------------------------------------------------------------------------
-- One step
-- ---------------------------------------------------------------------------

variable {L : KernelLayout} {σ σ' : Pool}

theorem Sound.alloc (h : Sound L σ) (n : Nat) : Sound L (σ.alloc n) := by
  obtain ⟨l, hLive, hReserved, hTracks⟩ := h
  rcases pageAlloc_tracks hTracks n with ⟨-, hNull, -, hNext⟩ | ⟨s, -, hPtr, hPos, hFree, hNext⟩
  · refine ⟨l, ?_, hReserved, hNext⟩
    simp only [Pool.alloc, hNull, if_true]
    exact hLive
  · have hNonzero : pageAddr σ.kernel s ≠ 0 := by
      have := hTracks.base_pos
      unfold pageAddr
      omega
    refine ⟨l.grant _ hPos hFree, ?_, hReserved, hNext⟩
    simp only [Pool.alloc, hPtr, hNonzero, if_false, Ledger.grant, hLive]

theorem Sound.free (h : Sound L σ) {p n : Nat} (hMem : pages p n ∈ σ.live) :
    Sound L (σ.free p n) := by
  obtain ⟨l, hLive, hReserved, hTracks⟩ := h
  refine ⟨l.release (pages p n), ?_, hReserved, pageFree_tracks hTracks (hLive ▸ hMem)⟩
  simp only [Pool.free, Ledger.release, hLive]

theorem Sound.reserve (h : Sound L σ) {p n : Nat} (hIn : InPool σ.kernel (pages p n))
    (hApart : ∀ e ∈ σ.live, e.Disjoint (pages p n)) : Sound L (σ.reserve p n) := by
  obtain ⟨l, hLive, hReserved, hTracks⟩ := h
  by_cases hTotal : σ.kernel.totalPages = 0
  · -- an empty pool refuses every reservation
    have hRej : Rejects σ.kernel p n := Or.inr (Or.inr (Or.inl hTotal))
    obtain ⟨c, hEq⟩ := reservePage_reject hRej
    refine ⟨l, ?_, ?_, ?_⟩ <;> simp only [Pool.reserve, hEq]
    · exact hLive
    · exact hReserved
    · exact hTracks.of_bitmap ⟨rfl, rfl, rfl⟩ fun _ _ => rfl
  · obtain ⟨hOk, -, hNext⟩ := reservePage_tracks hTracks hTotal hIn (hLive ▸ hApart)
    refine ⟨l.withhold _ (hLive ▸ hApart), hLive, ?_, hNext⟩
    simp only [Pool.reserve, hOk, if_true, Ledger.withhold, hReserved]

theorem Step.sound (hStep : Step σ σ') (h : Sound L σ) : Sound L σ' := by
  cases hStep with
  | alloc n => exact h.alloc n
  | free p n hLive => exact h.free hLive
  | reserve p n hIn hApart => exact h.reserve hIn hApart

theorem Step.static (hStep : Step σ σ') : SameStatics σ.kernel σ'.kernel := by
  cases hStep with
  | alloc n => exact pageAlloc_static n σ.kernel
  | free p n hLive => exact pageFree_static p n σ.kernel
  | reserve p n hIn hApart => exact reservePage_static p n σ.kernel

/-- The allocator writes its bitmap and nothing else. -/
theorem Step.frame (hStep : Step σ σ') (h : Sound L σ) :
    SameOutside (InBitmap L) σ.kernel.mem σ'.kernel.mem := by
  obtain ⟨l, hLive, hReserved, hTracks⟩ := h
  cases hStep with
  | alloc n => exact pageAlloc_frame hTracks.ready n
  | free p n hMem => exact pageFree_frame hTracks (hLive ▸ hMem)
  | reserve p n hIn hApart =>
    by_cases hTotal : σ.kernel.totalPages = 0
    · have hRej : Rejects σ.kernel p n := Or.inr (Or.inr (Or.inl hTotal))
      obtain ⟨c, hEq⟩ := reservePage_reject hRej
      simp only [Pool.reserve, hEq]
      exact SameOutside.refl _ _
    · exact (reservePage_tracks hTracks hTotal hIn (hLive ▸ hApart)).2.1

/-- Nothing reserved is given up. -/
theorem Step.reserved_kept (hStep : Step σ σ') : ∀ f ∈ σ.reserved, f ∈ σ'.reserved := by
  intro f hf
  cases hStep with
  | alloc n => exact hf
  | free p n hLive => exact hf
  | reserve p n hIn hApart =>
    simp only [Pool.reserve]
    split_ifs
    · exact List.mem_cons_of_mem _ hf
    · exact hf

-- ---------------------------------------------------------------------------
-- Whole runs
-- ---------------------------------------------------------------------------

theorem run_sound (hRun : ReflTransGen Step σ σ') (h : Sound L σ) : Sound L σ' := by
  induction hRun with
  | refl => exact h
  | tail _ hStep ih => exact hStep.sound ih

theorem run_static (hRun : ReflTransGen Step σ σ') : SameStatics σ.kernel σ'.kernel := by
  induction hRun with
  | refl => exact ⟨rfl, rfl, rfl⟩
  | tail _ hStep ih => exact ih.trans hStep.static

theorem run_reserved_kept (hRun : ReflTransGen Step σ σ') : ∀ f ∈ σ.reserved, f ∈ σ'.reserved := by
  induction hRun with
  | refl => exact fun _ hf => hf
  | tail _ hStep ih => exact fun f hf => hStep.reserved_kept f (ih f hf)

end Pool

-- ---------------------------------------------------------------------------
-- Boot
-- ---------------------------------------------------------------------------

/-- The clearing loop of `page_init` clears every byte of the bitmap. -/
theorem clearedBitmap_byte (L : Layout) {n i : Nat} (m : Mem) (hFit : bitmapBytes n ≤ bitmapArea L)
    (hi : i < bitmapBytes n) : clearedBitmap L n m (L.bitMapStart + i) = 0 := by
  have hArea := L.bitMap_le
  have hTop := L.bitMapEnd_lt
  unfold bitmapArea at hFit
  refine forRange_inv (fun j (t : Mem) => i < j → t (L.bitMapStart + i) = 0)
    (Nat.zero_le (bitmapBytes n)) (fun h => absurd h (Nat.not_lt_zero i)) ?_ hi
  intro j t _ hj ih hij
  rw [add64_eq (by omega)]
  by_cases hEq : i = j
  · rw [hEq, store8_same]
  · rw [store8_of_ne (by omega)]
    exact ih (by omega)

/-- After a successful `page_init` every page is free. -/
theorem pageInit_bits {L : Layout} {memStart memSize : Nat} {k : Kernel}
    (hOk : (pageInit L memStart memSize k).1 = true) (hEnd : memStart + memSize < 2 ^ 64) {i : Nat}
    (hi : i < (pageInit L memStart memSize k).2.totalPages) :
    (pageInit L memStart memSize k).2.bit i = false := by
  have hReady := (AfterInit.of_pageInit hOk).ready hEnd
  obtain ⟨hByte, -⟩ := hReady.bitmapByte_eq hi
  rcases pageInit_cases L memStart (by omega : memSize < 2 ^ 64) k with
    ⟨-, c, hEq⟩ | ⟨-, -, c, hEq⟩ | ⟨-, hFit, c, hEq⟩
  · simp [hEq] at hOk
  · simp [hEq] at hOk
  · rw [hEq] at hi
    simp only at hi
    have hInside : i / 8 < bitmapBytes (managedPages memStart memSize) := by
      unfold bitmapBytes
      omega
    have hZero : (pageInit L memStart memSize k).2.mem (L.bitMapStart + i / 8) = 0 := by
      rw [hEq]
      exact clearedBitmap_byte L k.mem hFit hInside
    rw [Kernel.bit, getBit, hByte, hZero]
    simp

/-- `imagePages` rounds the image up to whole pages. -/
theorem imagePages_end (L : Layout) :
    L.imageStart + imagePages L * pageSize = L.imageEnd + shiftUp L.imageEnd := by
  have hStart := L.imageStart_pos
  have hAligned := L.imageStart_aligned
  have h1 := L.bitMapStart_ge
  have h2 := L.bitMap_le
  have h3 := L.bitMapEnd_le
  have hEnd := L.imageEnd_lt
  have hSize : getImageSize L = L.imageEnd - L.imageStart := sub64_eq (by omega) hEnd
  rw [imagePages, hSize]
  unfold pageSize at hAligned
  rw [add64_eq (by unfold pageSize; omega), sub64_eq (by unfold pageSize; omega)
    (by unfold pageSize; omega)]
  unfold shiftUp pageSize
  omega

/-- The pool after `page_init(memStart, memSize)` and the reservation of the
kernel image, both successful, with nothing allocated yet. -/
structure Booted (L : KernelLayout) (memStart memSize : Nat) (σ : Pool) : Prop where
  start_pos : 0 < memStart
  end_lt    : memStart + memSize < 2 ^ 64
  image_lt  : L.imageEnd + shiftUp L.imageEnd < 2 ^ 64
  calls     : ∃ k,
    (pageInit L memStart memSize k).1 = true ∧
    (reserveKerenelImgPages L (pageInit L memStart memSize k).2).1 = true ∧
    σ = { kernel := (reserveKerenelImgPages L (pageInit L memStart memSize k).2).2
          live := []
          reserved := [pages L.imageStart (imagePages L)] }

section Booted

variable {L : KernelLayout} {memStart memSize : Nat} {σ : Pool}

/-- A successful `reserve_kerenel_img_pages` is a successful `reserve_page`, up to
the line printed before it. -/
theorem reserveKerenelImgPages_ok {k : Kernel} (hOk : (reserveKerenelImgPages L k).1 = true) :
    ∃ c, (reservePage L.imageStart (imagePages L) { k with console := c }).1 = true ∧
      (reserveKerenelImgPages L k).2 =
        (reservePage L.imageStart (imagePages L) { k with console := c }).2 := by
  simp only [reserveKerenelImgPages] at hOk ⊢
  generalize hPrinted : k.kprintf _ _ = k₁ at hOk ⊢
  have hConsole : { k with console := k₁.console } = k₁ := by
    rw [← hPrinted]
    rfl
  refine ⟨k₁.console, ?_⟩
  rw [hConsole]
  cases hRes : reservePage L.imageStart (imagePages L) k₁ with
  | mk ok k' =>
    rw [hRes] at hOk
    cases ok with
    | false => exact absurd hOk (by simp)
    | true => exact ⟨rfl, rfl⟩

/-- One reservation that covers the bitmap, made while every page is free. -/
theorem tracks_of_reservation {k : Kernel} (hReady : Ready L k) (hBase : 0 < k.memBase)
    (hFree : ∀ i, i < k.totalPages → k.bit i = false) {p n : Nat}
    (hOk : (reservePage p n k).1 = true) (hAligned : p % pageSize = 0)
    (hFits : p + n * pageSize < 2 ^ 64) (hCover : ∀ a, InBitmap L a → (pages p n).Contains a) :
    Tracks L (reservePage p n k).2 (Ledger.ofReserved [pages p n]) ∧
      k.memBase ≤ p ∧ p + n * pageSize ≤ k.memBase + k.totalPages * pageSize := by
  have hAcc : ¬ Rejects k p n := by
    intro hRej
    obtain ⟨c, hEq⟩ := reservePage_reject hRej
    rw [hEq] at hOk
    exact Bool.false_ne_true hOk
  rw [rejects_iff hReady, wrappedEnd, Nat.mod_eq_of_lt hFits] at hAcc
  have hIn : InPool k (pages p n) :=
    ⟨hAligned, Nat.mul_mod_left n pageSize, show k.memBase ≤ p by omega,
      show p + n * pageSize ≤ _ by omega⟩
  have hTotalLt := hReady.total_lt
  obtain ⟨s, rfl, hFit⟩ := hIn.exists_index hReady.base_aligned
  obtain ⟨c, hEq⟩ := reservePage_inRange hReady (by omega) (by omega)
    (show k.memBase ≤ pageAddr k s from hIn.low) hIn.high
  have hIndex : (pageAddr k s - k.memBase) / pageSize = s := by
    unfold pageAddr pageSize
    omega
  rw [hIndex] at hEq
  refine ⟨?_, hIn.low, hIn.high⟩
  rw [hEq]
  refine ⟨hReady.congr ⟨rfl, rfl, rfl⟩, hBase, fun e he => absurd he (List.not_mem_nil), ?_, ?_, ?_⟩
  · intro f hf
    rw [List.mem_singleton.mp hf]
    exact ⟨hIn.start_aligned, hIn.len_aligned, hIn.low, hIn.high⟩
  · intro i hi
    rw [bit_markRange k (by omega) (by simp only at hi; omega), hFree i hi, Bool.or_false,
      decide_eq_true_eq]
    change _ ↔ (Ledger.ofReserved [pages (pageAddr k s) n]).Occupied (pageAddr k i)
    rw [← pages_contains_iff (k := k)]
    simp [Ledger.Occupied, Ledger.ofReserved]
  · intro a ha _ _
    exact ⟨_, List.mem_singleton_self _, hCover a ha⟩

/-- The state between the two calls of the set-up. -/
theorem Booted.exists_reservation (h : Booted L memStart memSize σ) :
    ∃ k, Ready L k ∧ memStart ≤ k.memBase ∧
      k.memBase + k.totalPages * pageSize ≤ memStart + memSize ∧
      (∀ i, i < k.totalPages → k.bit i = false) ∧
      (reservePage L.imageStart (imagePages L) k).1 = true ∧
      σ = { kernel := (reservePage L.imageStart (imagePages L) k).2
            live := []
            reserved := [pages L.imageStart (imagePages L)] } := by
  obtain ⟨k, hInit, hReserve, rfl⟩ := h.calls
  obtain ⟨c, hOk, hNext⟩ := reserveKerenelImgPages_ok hReserve
  have hAfter : AfterInit L memStart memSize
      { (pageInit L memStart memSize k).2 with console := c } := ⟨k, hInit, rfl, rfl, rfl⟩
  obtain ⟨hLow, hHigh⟩ := hAfter.inside h.end_lt
  exact ⟨_, hAfter.ready h.end_lt, hLow, hHigh, fun i hi => pageInit_bits hInit h.end_lt hi, hOk,
    by rw [hNext]⟩

theorem Booted.tracks (h : Booted L memStart memSize σ) :
    Tracks L σ.kernel (Ledger.ofReserved [pages L.imageStart (imagePages L)]) ∧
      memStart ≤ σ.kernel.memBase ∧
      pageAddr σ.kernel σ.kernel.totalPages ≤ memStart + memSize := by
  obtain ⟨k, hReady, hLow, hHigh, hFree, hOk, rfl⟩ := h.exists_reservation
  have hImage := imagePages_end L.toLayout
  have hStatic := reservePage_static L.imageStart (imagePages L) k
  have h1 := L.bitMapStart_ge
  have h2 := L.bitMapEnd_le
  have hStart := h.start_pos
  have hRound := h.image_lt
  refine ⟨(tracks_of_reservation hReady (by omega) hFree hOk L.imageStart_aligned (by omega) ?_).1,
    ?_, ?_⟩
  · rintro a ⟨hlo, hhi⟩
    exact ⟨show L.imageStart ≤ a by omega, show a < L.imageStart + imagePages L * pageSize by omega⟩
  · exact hStatic.memBase_eq ▸ hLow
  · unfold pageAddr
    rw [hStatic.memBase_eq, hStatic.totalPages_eq]
    exact hHigh

/-- Nothing is live yet, and the image is reserved. -/
theorem Booted.lists_eq (h : Booted L memStart memSize σ) :
    σ.live = [] ∧ σ.reserved = [pages L.imageStart (imagePages L)] := by
  obtain ⟨k, hInit, hReserve, rfl⟩ := h.calls
  exact ⟨rfl, rfl⟩

theorem Booted.sound (h : Booted L memStart memSize σ) : σ.Sound L :=
  ⟨_, h.lists_eq.1.symm, h.lists_eq.2.symm, h.tracks.1⟩

/-- A pool whose bitmap lies outside its region needs no reservation. -/
theorem tracks_of_apart {k : Kernel} (hInit : (pageInit L memStart memSize k).1 = true)
    (hPos : 0 < memStart) (hEnd : memStart + memSize < 2 ^ 64)
    (hApart : ∀ a, InBitmap L a → ¬ (memStart ≤ a ∧ a < memStart + memSize)) :
    Tracks L (pageInit L memStart memSize k).2 (Ledger.ofReserved []) ∧
      pageAddr (pageInit L memStart memSize k).2 (pageInit L memStart memSize k).2.totalPages ≤
        memStart + memSize := by
  have hAfter := AfterInit.of_pageInit hInit
  obtain ⟨hLow, hHigh⟩ := hAfter.inside hEnd
  refine ⟨⟨hAfter.ready hEnd, by omega, fun e he => absurd he List.not_mem_nil,
    fun f hf => absurd hf List.not_mem_nil, fun i hi => ?_, fun a ha hlo hhi => ?_⟩, hHigh⟩
  · rw [pageInit_bits hInit hEnd hi]
    simp [Ledger.Occupied, Ledger.ofReserved]
  · refine absurd ⟨?_, ?_⟩ (hApart a ha)
    · omega
    · unfold pageAddr at hhi
      omega

/--
**Allocator run invariant.** From the boot state, whatever its clients do: every
live block is page-aligned and inside the region, live blocks are pairwise
disjoint, none overlaps a reserved range or a byte of the kernel image, and a
bit below `total_pages` is set exactly when its page belongs to a live block or
a reserved range.
-/
theorem pool_invariant {σ₀ : Pool} (hBoot : Booted L memStart memSize σ₀)
    (hRun : ReflTransGen Pool.Step σ₀ σ) :
    (∀ e ∈ σ.live, e.start % pageSize = 0 ∧ memStart ≤ e.start ∧
      e.start + e.len ≤ memStart + memSize) ∧
    σ.live.Pairwise Extent.Disjoint ∧
    (∀ e ∈ σ.live, (∀ f ∈ σ.reserved, e.Disjoint f) ∧
      ∀ a, L.imageStart ≤ a → a < L.imageEnd → ¬ e.Contains a) ∧
    (∀ i, i < σ.kernel.totalPages →
      (σ.kernel.bit i = true ↔ ∃ e, (e ∈ σ.live ∨ e ∈ σ.reserved) ∧
        ∀ a, pageAddr σ.kernel i ≤ a → a < pageAddr σ.kernel (i + 1) → e.Contains a)) := by
  obtain ⟨l, hLive, hReserved, hTracks⟩ := Pool.run_sound hRun hBoot.sound
  obtain ⟨-, hLow, hHigh⟩ := hBoot.tracks
  obtain ⟨hBase, -, hTotal⟩ := Pool.run_static hRun
  have hImage := Pool.run_reserved_kept hRun (pages L.imageStart (imagePages L))
    (by rw [hBoot.lists_eq.2]; exact List.mem_singleton_self _)
  have hImageEnd := imagePages_end L.toLayout
  rw [← hLive, ← hReserved]
  rw [← hReserved] at hImage
  refine ⟨fun e he => ?_, l.live_disjoint, fun e he => ⟨l.live_reserved e he, ?_⟩, ?_⟩
  · have hIn := hTracks.live_in e he
    have hInLow := hIn.low
    have hInHigh := hIn.high
    rw [hBase] at hInLow hInHigh
    rw [hTotal] at hInHigh
    unfold pageAddr at hHigh
    exact ⟨hIn.start_aligned, by omega, by omega⟩
  · intro a hlo hhi hea
    exact l.live_reserved e he _ hImage a hea
      ⟨hlo, show a < L.imageStart + imagePages L * pageSize by omega⟩
  · intro i hi
    have hBase' := hTracks.ready.base_aligned
    rw [hTracks.bits i hi]
    constructor
    · intro hOcc
      obtain ⟨e, he, hea⟩ : ∃ e, (e ∈ l.live ∨ e ∈ l.reserved) ∧
          e.Contains (pageAddr σ.kernel i) := by
        rcases hOcc with ⟨e, he, hea⟩ | ⟨e, he, hea⟩
        · exact ⟨e, Or.inl he, hea⟩
        · exact ⟨e, Or.inr he, hea⟩
      exact ⟨e, he, fun a hlo hhi => ((hTracks.inPool he).contains_iff hBase' hlo hhi).mpr hea⟩
    · rintro ⟨e, he, hea⟩
      have hFirst := hea (pageAddr σ.kernel i) (Nat.le_refl _)
        (by unfold pageAddr pageSize; omega)
      exact he.imp (fun h => ⟨e, h, hFirst⟩) (fun h => ⟨e, h, hFirst⟩)

end Booted

/-- The small kernel, booted on 64 pages of memory. -/
def smallPool : Pool where
  kernel := (reserveKerenelImgPages smallLayout
    (pageInit smallLayout 0x40000000 0x40000 Kernel.coldStart).2).2
  live := []
  reserved := [pages smallLayout.imageStart (imagePages smallLayout)]

theorem smallPool_booted : Booted smallLayout 0x40000000 0x40000 smallPool where
  start_pos := by omega
  end_lt := by omega
  image_lt := by decide
  calls := ⟨Kernel.coldStart, by decide, by decide, rfl⟩

/-- A block of three pages, next to the image of the small kernel. -/
theorem pool_invariant_smallPool :
    (smallPool.alloc 3).live.Pairwise Extent.Disjoint ∧
      ∀ e ∈ (smallPool.alloc 3).live, (∀ f ∈ (smallPool.alloc 3).reserved, e.Disjoint f) ∧
        ∀ a, smallLayout.imageStart ≤ a → a < smallLayout.imageEnd → ¬ e.Contains a :=
  have hRun := pool_invariant smallPool_booted (.single (.alloc smallPool 3))
  ⟨hRun.2.1, hRun.2.2.1⟩

end Kernalite
