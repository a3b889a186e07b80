import Kernalite.Allocator.FirstFit
import Kernalite.Allocator.Reserve
import Kernalite.Allocator.Pool

/-!
# Kernalite — the null pointer as a page

`page_alloc` returns `NULL` when it fails, and `reserve_page` takes a null
`mem_base` for an allocator without a pool. A pool whose first page is page 0 of
physical memory breaks both: the address of that page is the null pointer.

* `pageAlloc_null` — away from address 0, `NULL` means that nothing fits;
* `nullMeansFailure_iff` — which regions keep the two meanings apart.
-/

namespace Kernalite

open ByteMemory FirstFit

variable {L : KernelLayout} {k : Kernel}

/-- In this state a null result of `page_alloc` is a failure that changed
nothing, and `reserve_page` accepts what lies in a pool that is not empty. -/
structure NullIsFailure (k : Kernel) : Prop where
  alloc : ∀ numPages : Word, numPages ≠ 0 → (pageAlloc numPages.toNat k).1 = 0 →
    (∀ s, ¬ Fits k.bit k.totalPages numPages.toNat s) ∧ (pageAlloc numPages.toNat k).2.mem = k.mem
  reserve : ∀ ptr numPages : Word, ptr ≠ 0 → ptr.toNat % pageSize = 0 → 0 < k.totalPages →
    k.memBase ≤ ptr.toNat →
    ptr.toNat + numPages.toNat * pageSize ≤ k.memBase + k.totalPages * pageSize →
    (reservePage ptr.toNat numPages.toNat k).1 = true

/-- Whatever calls follow `page_init(memStart, memSize)`, null means failure. -/
def NullMeansFailure (L : Layout) (memStart memSize : Word) (k₀ : Kernel) : Prop :=
  ∀ ops : List AllocOp, (∀ op ∈ ops, op.isInit = false) →
    NullIsFailure (runOps L ops (pageInit L memStart.toNat memSize.toNat k₀).2).2

theorem pageAlloc_null (h : Ready L k) (hBase : k.memBase ≠ 0) {n : Nat} (hPos : 0 < n)
    (hNull : (pageAlloc n k).1 = 0) :
    (∀ s, ¬ Fits k.bit k.totalPages n s) ∧ (pageAlloc n k).2.mem = k.mem := by
  rcases pageAlloc_cases h n with ⟨hNone, c, hEq⟩ | ⟨s, c, -, -, hEq⟩
  · rw [hEq]
    exact ⟨fun s => (hNone s).resolve_left (Nat.ne_of_gt hPos), rfl⟩
  · rw [hEq] at hNull
    have hAddr : k.memBase + s * pageSize = 0 := hNull
    omega

/-- A pool away from address 0, or with no page at all. -/
theorem nullIsFailure_of_base (h : Ready L k) (hBase : k.memBase ≠ 0 ∨ k.totalPages = 0) :
    NullIsFailure k := by
  rcases hBase with hBase | hEmpty
  · refine ⟨fun numPages hNonzero hNull => ?_, fun ptr numPages _ _ hTotal hLow hHigh => ?_⟩
    · have hPos : 0 < numPages.toNat :=
        Nat.pos_of_ne_zero fun hZero => hNonzero (BitVec.eq_of_toNat_eq hZero)
      exact pageAlloc_null h hBase hPos hNull
    · obtain ⟨c, hEq⟩ := reservePage_inRange h hBase (Nat.ne_of_gt hTotal) hLow hHigh
      rw [hEq]
  · refine ⟨fun numPages hNonzero hNull => ?_, fun ptr numPages _ _ hTotal _ _ => ?_⟩
    · have hPos : 0 < numPages.toNat :=
        Nat.pos_of_ne_zero fun hZero => hNonzero (BitVec.eq_of_toNat_eq hZero)
      refine ⟨fun s hFit => ?_, ?_⟩
      · have hTop := hFit.1
        omega
      · rw [pageAlloc, if_neg (Nat.ne_of_gt hPos), if_pos (hEmpty ▸ hPos)]
        rfl
    · omega

/-- A pool that starts at address 0: the first page handed out is `NULL`. -/
theorem not_nullIsFailure_of_zero (h : Ready L k) (hBase : k.memBase = 0) (hTotal : 0 < k.totalPages)
    (hFree : ∀ i, i < k.totalPages → k.bit i = false) : ¬ NullIsFailure k := by
  intro hNull
  have hFit : Fits k.bit k.totalPages 1 0 :=
    ⟨by omega, fun j _ hj => hFree j (by omega)⟩
  rcases pageAlloc_cases h 1 with ⟨hNone, -⟩ | ⟨s, c, -, hFirst, hEq⟩
  · exact (hNone 0).elim Nat.one_ne_zero fun hNot => hNot hFit
  · have hLeast : s = 0 := Nat.le_zero.mp (hFirst.least 0 hFit)
    have hZero : (pageAlloc 1 k).1 = 0 := by
      rw [hEq, hLeast, pageAddr, hBase]
      rfl
    exact (hNull.alloc 1 (by decide) hZero).1 0 hFit

/--
**Null means failure exactly away from address 0.** For every region that
`page_init` accepts and that ends below `2 ^ 64`: in every state reached by
allocator calls, a null result of `page_alloc` means that nothing fits and
changes nothing, and `reserve_page` accepts every range of a pool that is not
empty, if and only if the region does not start at address 0 or has no whole
page.
-/
theorem nullMeansFailure_iff (L : KernelLayout) (memStart memSize : Word) (k₀ : Kernel)
    (hOk : (pageInit L memStart.toNat memSize.toNat k₀).1 = true)
    (hEnd : memStart.toNat + memSize.toNat < 2 ^ 64) :
    NullMeansFailure L memStart memSize k₀ ↔ memStart ≠ 0 ∨ memSize.toNat < pageSize := by
  have hInit := AfterInit.of_pageInit hOk
  obtain ⟨hBase, -, hTotal, -⟩ := hInit.fields hEnd
  constructor
  · intro hNull
    by_contra hNot
    rw [not_or, not_not, Nat.not_lt] at hNot
    obtain ⟨rfl, hSize⟩ := hNot
    have hPages : 0 < managedPages 0 memSize.toNat := Nat.div_pos hSize (by decide)
    refine not_nullIsFailure_of_zero (hInit.ready hEnd) hBase ?_
      (fun i hi => pageInit_bits hOk hEnd hi) (hNull [] fun op hOp => absurd hOp List.not_mem_nil)
    rw [hTotal]
    exact hPages
  · intro hRegion ops hOps
    have hRun := runOps_static (L := L) (pageInit L memStart.toNat memSize.toNat k₀).2 hOps
    refine nullIsFailure_of_base ((hInit.congr hRun).ready hEnd) ?_
    rw [hRun.memBase_eq, hRun.totalPages_eq, hBase, hTotal]
    rcases hRegion with hStart | hSmall
    · have hNonzero : memStart.toNat ≠ 0 := fun hZero => hStart (BitVec.eq_of_toNat_eq hZero)
      exact Or.inl (by omega)
    · refine Or.inr (Nat.div_eq_of_lt ?_)
      omega

/-- 64 pages from address 0: the call that marks page 0 returns the null pointer,
and page 1 cannot be reserved. -/
theorem pageAlloc_returns_page_zero :
    let k := (pageInit smallLayout 0 0x40000 Kernel.coldStart).2
    (pageInit smallLayout 0 0x40000 Kernel.coldStart).1 = true ∧
      (pageAlloc 1 k).1 = 0 ∧ (pageAlloc 1 k).2.bit 0 = true ∧ k.bit 0 = false ∧
      (reservePage 0x1000 1 k).1 = false ∧
      ¬ NullMeansFailure smallLayout 0 0x40000 Kernel.coldStart := by
  intro k
  have hOk : (pageInit smallLayout (0 : Word).toNat (0x40000 : Word).toNat Kernel.coldStart).1 =
      true := by decide
  have hInit : AfterInit smallLayout 0 0x40000 k := .of_pageInit hOk
  refine ⟨hOk, by decide +kernel, by decide +kernel, by decide +kernel, by decide +kernel,
    fun hNull => ?_⟩
  refine not_nullIsFailure_of_zero (hInit.ready (by decide)) (by decide) (by decide)
    (fun i hi => pageInit_bits hOk (by decide) hi)
    (hNull [] fun op hOp => absurd hOp List.not_mem_nil)

/-- The region of the small kernel. -/
theorem nullMeansFailure_iff_smallLayout :
    NullMeansFailure smallLayout 0x40000000 0x40000 Kernel.coldStart ↔
      (0x40000000 : Word) ≠ 0 ∨ (0x40000 : Word).toNat < pageSize :=
  nullMeansFailure_iff smallLayout 0x40000000 0x40000 Kernel.coldStart (by decide) (by decide)

end Kernalite
