import Kernalite.Lib.FreeRuns
import Kernalite.Allocator.DumpStatus
import Kernalite.Allocator.Pool

/-!
# Kernalite — free blocks

What the free blocks of the pool promise to whoever asks for pages.

* `pageAlloc_findsBlock` — `page_alloc` answers with the first block of the printed page
  map that is free and long enough;
* `pool_fragmentation` — with few owners and many free pages it cannot fail;
* `pool_accounting` — in every reachable state each page is free, live or reserved, and
  none of them twice.
-/

namespace Kernalite

open FirstFit RunLength Relation

-- ---------------------------------------------------------------------------
-- The printed page map
-- ---------------------------------------------------------------------------

/-- A printed block with room for `n` pages. -/
def Block.offers (n : Nat) (b : Block) : Bool := !b.used && decide (n ≤ b.pages)

/--
**`page_alloc` and `page_dump_status` agree.** With the static variables of a successful
`page_init` on a region that ends below `2 ^ 64` and for every memory content: a request
for any number of pages is answered with the start of the first block that the page map
prints as free and large enough, and with a null pointer if it prints none.
-/
theorem pageAlloc_findsBlock {L : Layout} {k : Kernel} {memStart memSize : Nat}
    (hInit : AfterInit L memStart memSize k) (hEnd : memStart + memSize < 2 ^ 64)
    (hPages : 0 < k.totalPages) :
    ∃ blocks, pageDumpStatus k = k.printed (dumpCalls k blocks) ∧
      ∀ n, 0 < n →
        (pageAlloc n k).1 = ((blocks.find? (Block.offers n)).map Block.first).getD 0 := by
  have hReady := hInit.ready hEnd
  obtain ⟨runs, hCanonical, hExpand, hDump⟩ := pageDumpStatus_eq hReady hPages
  refine ⟨runBlocks k runs, hDump, fun n hPos => ?_⟩
  have hOffers : Block.offers n ∘ runBlock k = freeRun n := rfl
  rw [runBlocks, List.find?_map, hOffers]
  cases hFind : (placed 0 runs).find? (freeRun n) with
  | none =>
    rcases pageAlloc_cases hReady n with ⟨-, c, hEq⟩ | ⟨s, c, -, hFirst, hEq⟩
    · rw [hEq]
      rfl
    · exact absurd hFirst.fits (not_fits_of_find hCanonical hExpand hPos hFind)
  | some p =>
    have hRun := firstFit_of_find hCanonical hExpand hPos hFind
    rcases pageAlloc_cases hReady n with ⟨hNone, -⟩ | ⟨s, c, -, hFirst, hEq⟩
    · exact absurd hRun.fits ((hNone p.1).resolve_left (Nat.ne_of_gt hPos))
    · rw [hEq, hFirst.unique hRun]
      rfl

/-- A request next to the three pages already taken. -/
theorem pageAlloc_findsBlock_smallLayout :
    let k := (pageAlloc 3 (pageInit smallLayout 0x40000000 0x40000 Kernel.coldStart).2).2
    ∃ blocks, pageDumpStatus k = k.printed (dumpCalls k blocks) ∧
      (pageAlloc 5 k).1 = ((blocks.find? (Block.offers 5)).map Block.first).getD 0 :=
  have hInit : AfterInit smallLayout 0x40000000 0x40000
      (pageInit smallLayout 0x40000000 0x40000 Kernel.coldStart).2 :=
    .of_pageInit (by decide)
  have hAfter := hInit.congr (pageAlloc_static 3 _)
  have ⟨blocks, hDump, hFinds⟩ :=
    pageAlloc_findsBlock hAfter (by omega) (by decide)
  ⟨blocks, hDump, hFinds 5 (by omega)⟩

-- ---------------------------------------------------------------------------
-- Owners and free runs
-- ---------------------------------------------------------------------------

section Tracks

variable {L : KernelLayout} {k : Kernel} {l : Ledger}

/-- The index of the page behind an extent. -/
def endIndex (k : Kernel) (e : Extent) : Nat := (e.start + e.len - k.memBase) / pageSize

/-- An extent that ends between two pages of the pool. -/
theorem Tracks.endIndex_eq (h : Tracks L k l) {e : Extent} (he : InPool k e) {i : Nat}
    (hBefore : e.Contains (pageAddr k i)) (hBehind : ¬ e.Contains (pageAddr k (i + 1))) :
    endIndex k e = i + 1 := by
  obtain ⟨hStart, hLen, hLow, -⟩ := he
  have hBase := h.ready.base_aligned
  unfold Extent.Contains at hBefore hBehind
  unfold endIndex
  unfold pageAddr pageSize at *
  omega

/-- **Free runs lie between owners**: there is at most one more of them. -/
theorem Tracks.runStarts_card (h : Tracks L k l) :
    (runStarts k.bit k.totalPages).card ≤ l.live.length + l.reserved.length + 1 := by
  have hSubset : runStarts k.bit k.totalPages ⊆
      insert 0 ((l.live ++ l.reserved).map (endIndex k)).toFinset := by
    intro i hi
    obtain ⟨hTotal, hFree, hFirst | hUsed⟩ := mem_runStarts.mp hi
    · exact Finset.mem_insert.mpr (Or.inl hFirst)
    · obtain ⟨i, rfl⟩ := Nat.exists_eq_succ_of_ne_zero (n := i) fun hZero => by
        rw [hZero] at hUsed hFree
        exact Bool.false_ne_true (hFree.symm.trans hUsed)
      rw [Nat.succ_sub_one] at hUsed
      have hNot : ¬ l.Occupied (pageAddr k (i + 1)) := fun hOcc => by
        rw [← h.bits _ hTotal, hFree] at hOcc
        exact Bool.false_ne_true hOcc
      have hOwner : ∃ e ∈ l.live ++ l.reserved, e.Contains (pageAddr k i) := by
        rcases (h.bits i (by omega)).mp hUsed with ⟨e, he, hea⟩ | ⟨e, he, hea⟩
        · exact ⟨e, List.mem_append_left _ he, hea⟩
        · exact ⟨e, List.mem_append_right _ he, hea⟩
      obtain ⟨e, he, hea⟩ := hOwner
      have hSides := List.mem_append.mp he
      have hBehind : ¬ e.Contains (pageAddr k (i + 1)) := fun hNext =>
        hNot (hSides.imp (fun h => ⟨e, h, hNext⟩) fun h => ⟨e, h, hNext⟩)
      refine Finset.mem_insert_of_mem (List.mem_toFinset.mpr (List.mem_map.mpr ⟨e, he, ?_⟩))
      exact h.endIndex_eq (h.inPool hSides) hea hBehind
  refine (Finset.card_le_card hSubset).trans ((Finset.card_insert_le _ _).trans ?_)
  refine Nat.succ_le_succ ((List.toFinset_card_le _).trans ?_)
  rw [List.length_map, List.length_append]

-- ---------------------------------------------------------------------------
-- Counting pages
-- ---------------------------------------------------------------------------

/-- The pages of the pool that some extent of the list contains. -/
def pagesIn (k : Kernel) (extents : List Extent) : Finset Nat :=
  (Finset.range k.totalPages).filter fun i => ∃ e ∈ extents, e.Contains (pageAddr k i)

theorem mem_pagesIn {extents : List Extent} {i : Nat} :
    i ∈ pagesIn k extents ↔
      i < k.totalPages ∧ ∃ e ∈ extents, e.Contains (pageAddr k i) := by
  rw [pagesIn, Finset.mem_filter, Finset.mem_range]

theorem pagesIn_single (hBase : k.memBase % pageSize = 0) {e : Extent} (he : InPool k e) :
    (pagesIn k [e]).card = e.len / pageSize := by
  obtain ⟨start, len⟩ := e
  obtain ⟨n, rfl⟩ : ∃ n, len = n * pageSize :=
    ⟨len / pageSize, (Nat.div_mul_cancel (Nat.dvd_of_mod_eq_zero he.len_aligned)).symm⟩
  obtain ⟨s, rfl, hFit⟩ := InPool.exists_index (p := start) he hBase
  have hPages : pagesIn k [⟨pageAddr k s, n * pageSize⟩] = Finset.Ico s (s + n) := by
    ext i
    rw [mem_pagesIn, Finset.mem_Ico, ← pages_contains_iff (k := k)]
    simp only [List.mem_singleton, exists_eq_left]
    refine and_iff_right_of_imp fun hIn => ?_
    have hRange := pages_contains_iff.mp hIn
    omega
  rw [hPages, Nat.card_Ico, Nat.add_sub_cancel_left, Nat.mul_div_cancel n (by decide)]

/-- Extents that share no address share no page. -/
theorem pagesIn_cons {e : Extent} {extents : List Extent}
    (hApart : ∀ f ∈ extents, e.Disjoint f) :
    (pagesIn k (e :: extents)).card = (pagesIn k [e]).card + (pagesIn k extents).card := by
  rw [← Finset.card_union_of_disjoint]
  · congr 1
    ext i
    simp only [mem_pagesIn, Finset.mem_union, List.mem_cons, List.not_mem_nil, or_false,
      exists_eq_or_imp, exists_eq_left, and_or_left]
  · refine Finset.disjoint_left.mpr fun i hi hi' => ?_
    obtain ⟨-, f, hf, hfi⟩ := mem_pagesIn.mp hi
    obtain ⟨-, g, hg, hgi⟩ := mem_pagesIn.mp hi'
    rw [List.mem_singleton.mp hf] at hfi
    exact hApart g hg _ hfi hgi

/-- Disjoint extents take as many pages as they are long. -/
theorem pagesIn_card (hBase : k.memBase % pageSize = 0) {extents : List Extent}
    (hIn : ∀ e ∈ extents, InPool k e) (hApart : extents.Pairwise Extent.Disjoint) :
    (pagesIn k extents).card = (extents.map fun e => e.len / pageSize).sum := by
  induction extents with
  | nil =>
    refine Finset.card_eq_zero.mpr (Finset.filter_eq_empty_iff.mpr fun i _ hNone => ?_)
    obtain ⟨e, he, -⟩ := hNone
    exact List.not_mem_nil he
  | cons e extents ih =>
    obtain ⟨hHead, hTail⟩ := List.pairwise_cons.mp hApart
    rw [pagesIn_cons hHead, pagesIn_single hBase (hIn e List.mem_cons_self),
      ih (fun f hf => hIn f (List.mem_cons_of_mem _ hf)) hTail, List.map_cons, List.sum_cons]

/-- **Every page is free, live or reserved**, and none of them twice. -/
theorem Tracks.accounting (h : Tracks L k l) :
    freeCount k.bit k.totalPages + (l.live.map fun e => e.len / pageSize).sum +
      (pagesIn k l.reserved).card = k.totalPages := by
  have hBase := h.ready.base_aligned
  have hUsed : (Finset.range k.totalPages).filter (fun i => ¬ k.bit i = false) =
      pagesIn k l.live ∪ pagesIn k l.reserved := by
    ext i
    rw [Finset.mem_filter, Finset.mem_range, Finset.mem_union, mem_pagesIn, mem_pagesIn,
      Bool.not_eq_false, ← and_or_left]
    exact and_congr_right fun hi => h.bits i hi
  have hApart : Disjoint (pagesIn k l.live) (pagesIn k l.reserved) := by
    refine Finset.disjoint_left.mpr fun i hi hi' => ?_
    obtain ⟨-, e, he, hea⟩ := mem_pagesIn.mp hi
    obtain ⟨-, f, hf, hfa⟩ := mem_pagesIn.mp hi'
    exact l.live_reserved e he f hf _ hea hfa
  have hSplit := Finset.card_filter_add_card_filter_not (s := Finset.range k.totalPages)
    (fun i => k.bit i = false)
  rw [hUsed, Finset.card_union_of_disjoint hApart, pagesIn_card hBase h.live_in l.live_disjoint,
    Finset.card_range] at hSplit
  rw [freeCount, Nat.add_assoc]
  exact hSplit

end Tracks

-- ---------------------------------------------------------------------------
-- Whole runs
-- ---------------------------------------------------------------------------

section Runs

variable {L : KernelLayout} {memStart memSize : Nat} {σ₀ σ : Pool}

/--
**No page is lost.** From the boot state, over any run of allocations, frees of live blocks
and reservations apart from them: the free pages, the pages of the live blocks and the pages
of the reserved ranges add up to the pool.
-/
theorem pool_accounting (hBoot : Booted L memStart memSize σ₀)
    (hRun : ReflTransGen Pool.Step σ₀ σ) :
    freeCount σ.kernel.bit σ.kernel.totalPages + (σ.live.map fun e => e.len / pageSize).sum +
      (pagesIn σ.kernel σ.reserved).card = σ.kernel.totalPages := by
  obtain ⟨l, hLive, hReserved, hTracks⟩ := Pool.run_sound hRun hBoot.sound
  rw [← hLive, ← hReserved]
  exact hTracks.accounting

/--
**Bounded fragmentation.** From the boot state, over any run of allocations, frees of live
blocks and reservations apart from them: a request for `n` pages succeeds whenever there are
more than `n - 1` free pages for every live block, every reserved range and one more.
-/
theorem pool_fragmentation (hBoot : Booted L memStart memSize σ₀)
    (hRun : ReflTransGen Pool.Step σ₀ σ) {n : Nat} (hPos : 0 < n)
    (hFree : (σ.live.length + σ.reserved.length + 1) * (n - 1) <
      freeCount σ.kernel.bit σ.kernel.totalPages) :
    (pageAlloc n σ.kernel).1 ≠ 0 := by
  obtain ⟨l, hLive, hReserved, hTracks⟩ := Pool.run_sound hRun hBoot.sound
  rw [← hLive, ← hReserved] at hFree
  rcases pageAlloc_tracks hTracks n with ⟨hNone, -⟩ | ⟨s, -, hPtr, -⟩
  · have hNot : ∀ s, ¬ Fits σ.kernel.bit σ.kernel.totalPages n s := fun s =>
      (hNone s).resolve_left (Nat.ne_of_gt hPos)
    have hFew := (freeCount_le_of_not_fits hNot).trans
      (Nat.mul_le_mul_right (n - 1) hTracks.runStarts_card)
    exact absurd hFree (Nat.not_lt.mpr hFew)
  · have hBase := hTracks.base_pos
    rw [hPtr, pageAddr]
    omega

end Runs

/-- The small kernel after one allocation. -/
theorem pool_accounting_smallPool :
    let σ := smallPool.alloc 3
    freeCount σ.kernel.bit σ.kernel.totalPages + (σ.live.map fun e => e.len / pageSize).sum +
      (pagesIn σ.kernel σ.reserved).card = σ.kernel.totalPages :=
  pool_accounting smallPool_booted (.single (.alloc smallPool 3))

theorem pool_fragmentation_smallPool : (pageAlloc 8 smallPool.kernel).1 ≠ 0 := by
  have hFree : freeCount smallPool.kernel.bit smallPool.kernel.totalPages = 42 := by decide +kernel
  exact pool_fragmentation smallPool_booted .refl (by omega) (by rw [hFree]; decide)

end Kernalite
