import Kernalite.Allocator.Operations
import Kernalite.Lib.RunLength

/-!
# Kernalite — the printed page map

`page_dump_status` prints the bitmap block by block. The loop keeps the encoding of
the bits it has seen, with the run it is in still open; its last round, one past
the last page, closes that run.

* `pageDumpRound_scanned` — one round before the end of the bitmap;
* `pageDumpStatus_eq` — the printed lines are the canonical encoding of the bits;
* `pageDumpStatus_lossless` — what that says of the printed blocks.
-/

namespace Kernalite

open ByteMemory PackedBits Words Loop RunLength

-- ---------------------------------------------------------------------------
-- Printed blocks
-- ---------------------------------------------------------------------------

/-- One printed block: the numbers and the status of its line. -/
structure Block where
  first : Nat
  last : Nat
  used : Bool
  pages : Nat
  deriving DecidableEq, Repr

/-- The `kprintf` call that prints a block. -/
def Block.call (b : Block) : String × List Arg :=
  ("  [0x%lx - 0x%lx] %s (%u pages)\n",
    [.word b.first, .word b.last, .str (if b.used then "USED" else "FREE"), .word b.pages])

/-- What `page_dump_status` prints before the blocks. -/
def dumpHeader (k : Kernel) : List (String × List Arg) :=
  [("--- Physical Page Dump ---\n", []),
    ("Managed Range: 0x%lx - 0x%lx (%u pages)\n",
      [.word k.memBase, .word (add64 k.memBase (mul64 k.totalPages pageSize)),
        .word k.totalPages])]

/-- Everything `page_dump_status` prints. -/
def dumpCalls (k : Kernel) (blocks : List Block) : List (String × List Arg) :=
  dumpHeader k ++ blocks.map Block.call ++ [("--- End of Dump ---\n", [])]

/-- The block of a run of pages. -/
def runBlock (k : Kernel) (p : Nat × Run Bool) : Block :=
  ⟨pageAddr k p.1, pageAddr k (p.1 + p.2.count) - 1, p.2.value, p.2.count⟩

def runBlocks (k : Kernel) (runs : List (Run Bool)) : List Block :=
  (placed 0 runs).map (runBlock k)

/-- The bits of the pool. -/
def pageBits (k : Kernel) : List Bool := (List.range k.totalPages).map k.bit

-- ---------------------------------------------------------------------------
-- The loop
-- ---------------------------------------------------------------------------

/-- The loop of `page_dump_status` before its round `i`: the closed runs are printed,
the last one is still growing. -/
def Scanned (k : Kernel) (calls : List (String × List Arg)) (i : Nat)
    (s : Kernel × Nat × Bool) : Prop :=
  ∃ runs status count, Canonical (runs ++ [⟨status, count⟩]) ∧
    expand (runs ++ [⟨status, count⟩]) = (List.range i).map k.bit ∧
    s = (k.printed (calls ++ (runBlocks k runs).map Block.call), (expand runs).length, status)

variable {L : Layout} {k : Kernel} {calls : List (String × List Arg)}

/-- The open run reaches to the page the loop is at. -/
theorem expand_open_length {runs : List (Run Bool)} {status : Bool} {count i : Nat}
    (h : expand (runs ++ [⟨status, count⟩]) = (List.range i).map k.bit) :
    (expand runs).length + count = i := by
  have hLength := congrArg List.length h
  rwa [expand_append, List.length_append, length_expand_cons, expand_nil, List.length_nil,
    List.length_map, List.length_range] at hLength

/-- The line that closes a run. -/
theorem runBlock_call (hReady : Ready L k) {runs : List (Run Bool)} {status : Bool} {count i : Nat}
    (hPos : 0 < count) (hCount : (expand runs).length + count = i) (hi : i ≤ k.totalPages) :
    ("  [0x%lx - 0x%lx] %s (%u pages)\n",
      [.word (add64 k.memBase (mul64 (expand runs).length pageSize)),
        .word (sub64 (add64 k.memBase (mul64 i pageSize)) 1),
        .str (if status then "USED" else "FREE"), .word (sub64 i (expand runs).length)]) =
      Block.call (runBlock k ((expand runs).length, ⟨status, count⟩)) := by
  have hTop := hReady.pageAddr_lt hi
  have hTotal := hReady.total_lt
  have hEnd : 1 ≤ pageAddr k i := by
    unfold pageAddr pageSize
    omega
  rw [hReady.pageAddr_eq (by omega), hReady.pageAddr_eq hi, sub64_eq hEnd hTop,
    sub64_eq (by omega) (by omega), show i - (expand runs).length = count by omega, ← hCount]
  rfl

theorem runBlocks_snoc (k : Kernel) (runs : List (Run Bool)) (r : Run Bool) :
    runBlocks k (runs ++ [r]) = runBlocks k runs ++ [runBlock k ((expand runs).length, r)] := by
  rw [runBlocks, placed_append, Nat.zero_add, List.map_append]
  rfl

/-- **A round before the end of the bitmap**: the open run grows, or it is printed and
another one starts. -/
theorem pageDumpRound_scanned (hReady : Ready L k) {i : Nat} {s : Kernel × Nat × Bool}
    (hi : i < k.totalPages) (h : Scanned k calls i s) :
    Scanned k calls (i + 1) (pageDumpRound i s) := by
  obtain ⟨runs, status, count, hCanonical, hExpand, rfl⟩ := h
  have hCount := expand_open_length hExpand
  have hBit : (k.printed (calls ++ (runBlocks k runs).map Block.call)).bit i = k.bit i := rfl
  have hRow : (List.range (i + 1)).map k.bit = (List.range i).map k.bit ++ [k.bit i] := by
    rw [List.range_succ, List.map_append, List.map_singleton]
  have hNotLast : i ≠ k.totalPages := Nat.ne_of_lt hi
  simp only [pageDumpRound, Kernel.printed_totalPages, if_pos hi, hBit]
  by_cases hSame : k.bit i = status
  · rw [if_neg (by simp [hSame, hNotLast])]
    exact ⟨runs, status, count + 1, hCanonical.longer,
      by rw [expand_longer, hExpand, hRow, hSame], rfl⟩
  · rw [if_pos (Or.inl hSame)]
    have hPos : 0 < count := hCanonical.pos ⟨status, count⟩ (by simp)
    refine ⟨runs ++ [⟨status, count⟩], k.bit i, 1, hCanonical.next hSame,
      by rw [expand_next, hExpand, hRow], ?_⟩
    rw [Kernel.kprintf_eq, Kernel.printed_printed]
    simp only [Kernel.printed_memBase]
    rw [runBlock_call hReady hPos hCount (Nat.le_of_lt hi), runBlocks_snoc, List.map_append,
      List.append_assoc, hExpand, List.length_map, List.length_range]
    rfl

/-- The round past the last page prints the run that is still open. -/
theorem pageDumpRound_last (hReady : Ready L k) {s : Kernel × Nat × Bool}
    (h : Scanned k calls k.totalPages s) :
    ∃ runs, Canonical runs ∧ expand runs = pageBits k ∧
      (pageDumpRound k.totalPages s).1 =
        k.printed (calls ++ (runBlocks k runs).map Block.call) := by
  obtain ⟨runs, status, count, hCanonical, hExpand, rfl⟩ := h
  have hPos : 0 < count := hCanonical.pos ⟨status, count⟩ (by simp)
  refine ⟨runs ++ [⟨status, count⟩], hCanonical, hExpand, ?_⟩
  simp only [pageDumpRound, Kernel.printed_totalPages, Kernel.printed_memBase, or_true, if_true]
  rw [Kernel.kprintf_eq, Kernel.printed_printed,
    runBlock_call hReady hPos (expand_open_length hExpand) (Nat.le_refl _), runBlocks_snoc,
    List.map_append, List.append_assoc]
  rfl

/-- **`page_dump_status`** prints the canonical encoding of the bits of the pool. -/
theorem pageDumpStatus_eq (hReady : Ready L k) (hPages : 0 < k.totalPages) :
    ∃ runs, Canonical runs ∧ expand runs = pageBits k ∧
      pageDumpStatus k = k.printed (dumpCalls k (runBlocks k runs)) := by
  have hOne : 1 ≤ k.totalPages := hPages
  have hInit : Scanned k (dumpHeader k) 1 (k.printed (dumpHeader k), 0, k.bit 0) :=
    ⟨[], k.bit 0, 1, Canonical.single _ Nat.one_pos, rfl, rfl⟩
  have hScan : Scanned k (dumpHeader k) k.totalPages
      (forRange 1 k.totalPages pageDumpRound (k.printed (dumpHeader k), 0, k.bit 0)) :=
    forRange_inv (Scanned k (dumpHeader k)) hOne hInit
      fun i s _ hi => pageDumpRound_scanned hReady hi
  obtain ⟨runs, hCanonical, hExpand, hLast⟩ := pageDumpRound_last hReady hScan
  refine ⟨runs, hCanonical, hExpand, ?_⟩
  rw [dumpCalls, ← Kernel.printed_printed, ← hLast, ← forRange_succ pageDumpRound hOne,
    pageDumpStatus, if_neg (Nat.ne_of_gt hPages)]
  simp only [Kernel.kprintf_eq, Kernel.printed_printed]
  rfl

-- ---------------------------------------------------------------------------
-- The printed blocks
-- ---------------------------------------------------------------------------

/-- The blocks lie end to end over the pool, neighbours differ in status, and every
block shows the bits of its pages. -/
structure EncodesPool (k : Kernel) (blocks : List Block) : Prop where
  nonempty    : ∀ b ∈ blocks, b.first ≤ b.last
  starts      : blocks.head?.map Block.first = some k.memBase
  consecutive : blocks.IsChain fun b b' => b'.first = b.last + 1
  ends        : blocks.getLast?.map Block.last = some (k.memBase + pageSize * k.totalPages - 1)
  alternate   : blocks.IsChain fun b b' => b'.used ≠ b.used
  whole       : ∀ b ∈ blocks, pageSize ∣ b.last + 1 - b.first
  pages_eq    : ∀ b ∈ blocks, b.pages = (b.last + 1 - b.first) / pageSize
  status      : ∀ b ∈ blocks, ∀ i, i < k.totalPages → b.first ≤ pageAddr k i →
                  pageAddr k i ≤ b.last → k.bit i = b.used
  expand_eq   : blocks.flatMap (fun b => List.replicate b.pages b.used) =
                  (List.range k.totalPages).map k.bit

section EncodesPool

variable {runs : List (Run Bool)} {p : Nat × Run Bool}

/-- The end of a block that is not empty. -/
theorem runBlock_last (k : Kernel) (hPos : 0 < p.2.count) :
    (runBlock k p).last + 1 = pageAddr k (p.1 + p.2.count) := by
  have hEnd : 1 ≤ pageAddr k (p.1 + p.2.count) := by
    unfold pageAddr pageSize
    omega
  exact Nat.sub_add_cancel hEnd

theorem runBlock_size (k : Kernel) (hPos : 0 < p.2.count) :
    (runBlock k p).last + 1 = (runBlock k p).first + pageSize * p.2.count := by
  rw [runBlock_last k hPos, runBlock, pageAddr, pageAddr, Nat.add_mul, Nat.mul_comm pageSize,
    Nat.add_assoc]

theorem placed_pos (hCanonical : Canonical runs) (hp : p ∈ placed 0 runs) : 0 < p.2.count :=
  hCanonical.pos p.2 (placed_map_snd 0 runs ▸ List.mem_map_of_mem hp)

/-- The pages whose addresses lie in a block are those of its run. -/
theorem runBlock_page (k : Kernel) {i : Nat} (hPos : 0 < p.2.count)
    (hFirst : (runBlock k p).first ≤ pageAddr k i) (hLast : pageAddr k i ≤ (runBlock k p).last) :
    p.1 ≤ i ∧ i < p.1 + p.2.count := by
  have hEnd := runBlock_last k hPos
  simp only [runBlock, pageAddr, pageSize] at hFirst hLast hEnd
  omega

/-- **The printed blocks** of the canonical encoding. -/
theorem runBlocks_encodes (hCanonical : Canonical runs) (hExpand : expand runs = pageBits k)
    (hPages : 0 < k.totalPages) : EncodesPool k (runBlocks k runs) := by
  have hLength : (expand runs).length = k.totalPages := by
    rw [hExpand, pageBits, List.length_map, List.length_range]
  have hNe : runs ≠ [] := by
    rintro rfl
    exact absurd hLength (Nat.ne_of_lt hPages)
  have hMem : ∀ b ∈ runBlocks k runs, ∃ p ∈ placed 0 runs, runBlock k p = b :=
    fun b hb => List.mem_map.mp hb
  constructor
  case nonempty =>
    intro b hb
    obtain ⟨p, hp, rfl⟩ := hMem b hb
    have hPos := placed_pos hCanonical hp
    have hSize := runBlock_size k hPos
    unfold pageSize at hSize
    omega
  case starts =>
    obtain ⟨r, runs, rfl⟩ := List.exists_cons_of_ne_nil hNe
    simp [runBlocks, placed, runBlock, pageAddr]
  case consecutive =>
    refine (List.isChain_map _).mpr ((placed_chain 0 runs).imp_of_mem_imp ?_)
    intro p p' hp _ hNext
    rw [runBlock_last k (placed_pos hCanonical hp), ← hNext]
    rfl
  case ends =>
    obtain ⟨p, hp, hEnd⟩ := Option.map_eq_some_iff.mp (placed_last (i := 0) hNe)
    rw [runBlocks, List.getLast?_map, hp, Option.map_some, Option.map_some, runBlock, hEnd,
      hLength, Nat.zero_add, Nat.mul_comm pageSize]
    rfl
  case alternate =>
    have hAlternate := hCanonical.alternate
    rw [← placed_map_snd 0 runs, List.isChain_map] at hAlternate
    exact (List.isChain_map _).mpr hAlternate
  case whole =>
    intro b hb
    obtain ⟨p, hp, rfl⟩ := hMem b hb
    rw [runBlock_size k (placed_pos hCanonical hp), Nat.add_sub_cancel_left]
    exact Nat.dvd_mul_right _ _
  case pages_eq =>
    intro b hb
    obtain ⟨p, hp, rfl⟩ := hMem b hb
    rw [runBlock_size k (placed_pos hCanonical hp), Nat.add_sub_cancel_left,
      Nat.mul_div_cancel_left _ (by decide)]
    rfl
  case status =>
    intro b hb i hi hFirst hLast
    obtain ⟨p, hp, rfl⟩ := hMem b hb
    obtain ⟨hlo, hhi⟩ := runBlock_page k (placed_pos hCanonical hp) hFirst hLast
    have hValue := (placed_mem hp).2.2 i hlo hhi
    rw [hExpand, pageBits, List.getElem?_map, Nat.sub_zero, List.getElem?_range hi] at hValue
    exact Option.some.inj hValue
  case expand_eq =>
    have hRuns : (placed 0 runs).flatMap (fun p => List.replicate p.2.count p.2.value) =
        expand runs := by
      rw [← List.flatMap_map Prod.snd fun r : Run Bool => List.replicate r.count r.value,
        placed_map_snd, expand]
    rw [runBlocks, List.flatMap_map, ← pageBits, ← hExpand, ← hRuns]
    rfl

end EncodesPool

/--
**The printed page map is a lossless run-length encoding of the bitmap.** With the
static variables of a successful `page_init` on a region that ends below `2 ^ 64`
and for every memory content, the blocks `page_dump_status` prints encode the pool.
States that agree on the bits below `total_pages` print the same.
-/
theorem pageDumpStatus_lossless {memStart memSize : Nat} (hInit : AfterInit L memStart memSize k)
    (hEnd : memStart + memSize < 2 ^ 64) (hPages : 0 < k.totalPages) :
    ∃ blocks, EncodesPool k blocks ∧
      pageDumpStatus k = k.printed (dumpCalls k blocks) ∧
      ∀ k', SameStatics k k' → (∀ i, i < k.totalPages → k'.bit i = k.bit i) →
        pageDumpStatus k' = k'.printed (dumpCalls k blocks) := by
  have hReady := hInit.ready hEnd
  obtain ⟨runs, hCanonical, hExpand, hDump⟩ := pageDumpStatus_eq hReady hPages
  refine ⟨runBlocks k runs, runBlocks_encodes hCanonical hExpand hPages, hDump, ?_⟩
  intro k' hStatic hBits
  obtain ⟨runs', hCanonical', hExpand', hDump'⟩ :=
    pageDumpStatus_eq (hReady.congr hStatic) (hStatic.totalPages_eq ▸ hPages)
  have hSameBits : pageBits k' = pageBits k := by
    rw [pageBits, pageBits, hStatic.totalPages_eq]
    exact List.map_congr_left fun i hi => hBits i (List.mem_range.mp hi)
  -- a row has one canonical encoding, so the two dumps have the same runs
  have hRuns : runs' = runs :=
    hCanonical'.unique hCanonical (hExpand'.trans (hSameBits.trans hExpand.symm))
  have hBlock : runBlock k' = runBlock k := by
    funext p
    rw [runBlock, runBlock, pageAddr, pageAddr, pageAddr, pageAddr, hStatic.memBase_eq]
  rw [hDump', hRuns, dumpCalls, dumpCalls, runBlocks, runBlocks, hBlock, dumpHeader, dumpHeader,
    hStatic.memBase_eq, hStatic.totalPages_eq]

/-- The map of a pool of sixty-four pages, three of them in use. -/
theorem pageDumpStatus_lossless_smallLayout :
    let k := (pageAlloc 3 (pageInit smallLayout 0x40000000 0x40000 Kernel.coldStart).2).2
    ∃ blocks, EncodesPool k blocks ∧ pageDumpStatus k = k.printed (dumpCalls k blocks) :=
  have hInit : AfterInit smallLayout 0x40000000 0x40000
      (pageInit smallLayout 0x40000000 0x40000 Kernel.coldStart).2 :=
    .of_pageInit (by decide)
  have hAfter := hInit.congr (pageAlloc_static 3 _)
  have ⟨blocks, hEncodes, hDump, _⟩ := pageDumpStatus_lossless hAfter (by decide) (by decide)
  ⟨blocks, hEncodes, hDump⟩

end Kernalite
