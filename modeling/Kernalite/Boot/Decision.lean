import Kernalite.Allocator.DumpStatus
import Kernalite.Boot.Main
import Kernalite.Fdt.Errors

/-!
# Kernalite — when the kernel boots

`main` boots on one kind of memory: a single region that holds the image, with no more
pages than the bitmap area has bits. `bootFailure` is the decision as a function of the
device tree; `main` checks one thing after the other, with wrapping arithmetic in
`page_init` and `reserve_page`.

* `reserveImage_iff` — the reservation of the image, without wrapping;
* `main_decides` — the result of `main`, its last words, and the pool it leaves behind.
-/

namespace Kernalite

open ByteMemory Words Loop

-- ---------------------------------------------------------------------------
-- The decision
-- ---------------------------------------------------------------------------

/-- Why `main` gives up. -/
inductive BootFailure where
  | fdt
  | memoryMap
  | regions
  | allocator
  | image
  deriving DecidableEq, Repr

/-- The last line it prints then. -/
def BootFailure.line : BootFailure → String
  | .fdt => "FDT validation failed. Halting.\n"
  | .memoryMap => "Failed to parse memory map from FDT. Halting.\n"
  | .regions => "Current implementation only supports a single memory region. Halting.\n"
  | .allocator => "Failed to initialize page allocator. Halting.\n"
  | .image => "Error while reserving kernel binary pages\n"

/-- The region reaches into a page behind its start, and the bitmap area has a bit for
each of its pages. -/
def Manageable (L : Layout) (r : MemoryRegion) : Prop :=
  shiftUp r.base.toNat < r.size.toNat ∧
    bitmapBytes (managedPages r.base.toNat r.size.toNat) ≤ bitmapArea L

instance (L : Layout) (r : MemoryRegion) : Decidable (Manageable L r) :=
  inferInstanceAs (Decidable (_ ∧ _))

/-- The region starts above the null pointer, holds the pages of the image, and ends below
`2 ^ 64`. -/
def HoldsImage (L : Layout) (r : MemoryRegion) : Prop :=
  0 < r.base.toNat ∧ r.base.toNat ≤ L.imageStart ∧
    L.imageStart + imagePages L * pageSize ≤ r.base.toNat + r.size.toNat ∧
    r.base.toNat + r.size.toNat < 2 ^ 64

instance (L : Layout) (r : MemoryRegion) : Decidable (HoldsImage L r) :=
  inferInstanceAs (Decidable (_ ∧ _))

instance (a b : Int) (nodes : List (Nat × Option (List (BitVec 8)))) :
    Decidable (RegsWellSized a b nodes) :=
  inferInstanceAs (Decidable (∀ node ∈ nodes, ∀ reg ∈ node.2, reg ≠ [] → entrySize a b ∣ reg.length))

/-- The decision on a single region. -/
def regionFailure (L : Layout) (r : MemoryRegion) : Option BootFailure :=
  if Manageable L r then if HoldsImage L r then none else some .image
  else some .allocator

/-- The decision, from the address of the tree, the result of its header check, the cell
counts of its root and its memory nodes. -/
def bootFailure (L : Layout) (fdt : Nat) (err a b : Int)
    (nodes : List (Nat × Option (List (BitVec 8)))) : Option BootFailure :=
  if fdt = 0 ∨ err ≠ 0 then some .fdt
  else if CellsOk a b ∧ RegsWellSized a b nodes then
    match decodeNodes a.toNat b.toNat nodes with
    | [r] => regionFailure L r
    | _ => some .regions
  else some .memoryMap

-- ---------------------------------------------------------------------------
-- The allocator
-- ---------------------------------------------------------------------------

section Allocator

variable {L : KernelLayout} {k : Kernel} {r : MemoryRegion}

theorem pageInit_ok_iff (L : Layout) (r : MemoryRegion) (k : Kernel) :
    (pageInit L r.base.toNat r.size.toNat k).1 = true ↔ Manageable L r := by
  rcases pageInit_cases L r.base.toNat r.size.isLt k with
    ⟨hShift, c, hEq⟩ | ⟨-, hBig, c, hEq⟩ | ⟨hShift, hFit, c, hEq⟩
  · rw [hEq]
    exact iff_of_false Bool.false_ne_true fun h => absurd h.1 (by omega)
  · rw [hEq]
    exact iff_of_false Bool.false_ne_true fun h => absurd h.2 (by omega)
  · rw [hEq]
    exact iff_of_true rfl ⟨hShift, hFit⟩

/-- What `reserve_page` checks, on any state. -/
theorem reservePage_ok_iff (ptr numPages : Nat) (k : Kernel) :
    (reservePage ptr numPages k).1 = true ↔
      (ptr ≠ 0 ∧ k.memBase ≠ 0 ∧ k.totalPages ≠ 0 ∧ k.bitmap ≠ 0) ∧ k.memBase ≤ ptr ∧
        (ptr + numPages * pageSize) % 2 ^ 64 ≤ (k.memBase + k.totalPages * pageSize) % 2 ^ 64 := by
  simp only [reservePage, add64_mul64]
  split_ifs with hNull hRange
  · exact iff_of_false not_false fun h => by omega
  · exact iff_of_false not_false fun h => by omega
  · exact iff_of_true rfl (by omega)

/-- The check of the image against the pool of a region, without wrapping: a pool that
runs over the end of the address space is refused. -/
theorem imageCheck_iff {base size image pages : Nat} (hBase : base < 2 ^ 64) (hSize : size < 2 ^ 64)
    (hShift : shiftUp base < size) (hPos : 0 < image) (hAligned : image % pageSize = 0)
    (hEnd : image + pages * pageSize < 2 ^ 64) (hPages : 0 < pages) :
    ((base + shiftUp base) % 2 ^ 64 ≠ 0 ∧ managedPages base size ≠ 0 ∧
        (base + shiftUp base) % 2 ^ 64 ≤ image ∧
        (image + pages * pageSize) % 2 ^ 64 ≤
          ((base + shiftUp base) % 2 ^ 64 + managedPages base size * pageSize) % 2 ^ 64) ↔
      0 < base ∧ base ≤ image ∧ image + pages * pageSize ≤ base + size ∧ base + size < 2 ^ 64 := by
  unfold managedPages shiftUp pageSize at *
  omega

/-- The call `reserve_page` inside `reserve_kerenel_img_pages`. -/
theorem reserveKerenelImgPages_fst (L : Layout) (k : Kernel) :
    (reserveKerenelImgPages L k).1 = (reservePage L.imageStart (imagePages L)
      (k.kprintf "Reserving kernel image pages: start=%p, size=0x%lx bytes, pages=%u\n"
        [.word L.imageStart, .word (getImageSize L), .word (imagePages L)])).1 := by
  rw [reserveKerenelImgPages]
  generalize reservePage L.imageStart (imagePages L) _ = result
  obtain ⟨_ | _, k'⟩ := result <;> rfl

/-- **The image is reserved** exactly if the region holds it. -/
theorem reserveImage_iff (hImage : L.imageEnd + shiftUp L.imageEnd < 2 ^ 64)
    (hManageable : Manageable L r) (k : Kernel) :
    (reserveKerenelImgPages L (pageInit L r.base.toNat r.size.toNat k).2).1 = true ↔
      HoldsImage L r := by
  have hEnd := imagePages_end L.toLayout
  have hArea := L.bitMap_size
  have hStart := L.bitMapStart_ge
  have hInside := L.bitMapEnd_le
  have hBitmap := L.toLayout.bitMapStart_pos
  have hPos := L.imageStart_pos
  have hPages : 0 < imagePages L := by
    unfold shiftUp pageSize at hEnd
    omega
  obtain ⟨hShift, hFit⟩ := hManageable
  rcases pageInit_cases L r.base.toNat r.size.isLt k with
    ⟨hNot, -⟩ | ⟨-, hBig, -⟩ | ⟨-, -, c, hEq⟩
  · omega
  · omega
  · rw [hEq, reserveKerenelImgPages_fst, reservePage_ok_iff, HoldsImage,
      ← imageCheck_iff r.base.isLt r.size.isLt hShift hPos L.imageStart_aligned (by omega) hPages]
    change (L.imageStart ≠ 0 ∧ (r.base.toNat + shiftUp r.base.toNat) % 2 ^ 64 ≠ 0 ∧
      managedPages r.base.toNat r.size.toNat ≠ 0 ∧ L.bitMapStart ≠ 0) ∧ _ ↔ _
    constructor
    · rintro ⟨⟨-, hBase, hTotal, -⟩, hLow, hHigh⟩
      exact ⟨hBase, hTotal, hLow, hHigh⟩
    · rintro ⟨hBase, hTotal, hLow, hHigh⟩
      exact ⟨⟨by omega, hBase, hTotal, by omega⟩, hLow, hHigh⟩

/-- The kernel is up on a region: the pool of the region with the image reserved, and on
the console last the map of that pool and the greeting. -/
def KernelUp (L : KernelLayout) (r : MemoryRegion) (k : Kernel) : Prop :=
  ∃ pool, Booted L r.base.toNat r.size.toNat pool ∧ ∃ blocks, EncodesPool pool.kernel blocks ∧
    k = pool.kernel.printed (dumpCalls pool.kernel blocks ++ [("Hello World!\n", [])])

/-- After both calls of the set-up. -/
theorem kernelUp_of_booted {pool : Pool} (hBooted : Booted L r.base.toNat r.size.toNat pool) :
    KernelUp L r ((pageDumpStatus pool.kernel).kprintf "Hello World!\n" []) := by
  have hReady := hBooted.tracks.1.ready
  have hPages : 0 < pool.kernel.totalPages := by
    obtain ⟨k, -, -, -, -, hOk, rfl⟩ := hBooted.exists_reservation
    have hTotal := ((reservePage_ok_iff _ _ k).mp hOk).1.2.2.1
    rw [(reservePage_static L.imageStart (imagePages L) k).totalPages_eq]
    omega
  obtain ⟨runs, hCanonical, hExpand, hDump⟩ := pageDumpStatus_eq hReady hPages
  refine ⟨pool, hBooted, runBlocks pool.kernel runs, runBlocks_encodes hCanonical hExpand hPages, ?_⟩
  rw [hDump, Kernel.kprintf_eq, Kernel.printed_printed]

end Allocator

-- ---------------------------------------------------------------------------
-- `main`
-- ---------------------------------------------------------------------------

section Main

variable {σ : Type} {L : KernelLayout} {lib : Libfdt σ} {fns : Functions}
  {fuel frame bootArgsPtr : Nat} {s : Machine σ} {a b : Int}
  {nodes : List (Nat × Option (List (BitVec 8)))}

theorem printMemoryMap_printed (mmap : MemoryMap) (k : Kernel) :
    ∃ calls, printMemoryMap mmap k = k.printed calls := by
  refine forRange_inv (fun _ (t : Kernel) => ∃ calls, t = k.printed calls) (Nat.zero_le mmap.count)
    ⟨_, rfl⟩ ?_
  rintro i _ - - ⟨calls, rfl⟩
  exact ⟨calls ++ _, by rw [Kernel.kprintf_eq, Kernel.printed_printed]⟩

/-- The end of `main`, with the region the map lists first. -/
theorem mainAllocator_decides (hImage : L.imageEnd + shiftUp L.imageEnd < 2 ^ 64) {r : MemoryRegion}
    (hRegion : s.fdt.mmap.regions 0 = r) :
    (¬ Manageable L r → (mainAllocator L s).1 = 1 ∧
      (mainAllocator L s).2.fdt.kernel.console.getLast? = some (BootFailure.allocator.line, [])) ∧
    (Manageable L r → ¬ HoldsImage L r → (mainAllocator L s).1 = 1 ∧
      (mainAllocator L s).2.fdt.kernel.console.getLast? = some (BootFailure.image.line, [])) ∧
    (Manageable L r → HoldsImage L r → (mainAllocator L s).1 = 0 ∧
      KernelUp L r (mainAllocator L s).2.fdt.kernel) := by
  obtain ⟨calls, hPrinted⟩ := printMemoryMap_printed s.fdt.mmap s.fdt.kernel
  have hInit := pageInit_ok_iff L r (s.fdt.kernel.printed calls)
  have hReserve := fun hManageable : Manageable L r => reserveImage_iff hImage hManageable
    (s.fdt.kernel.printed calls)
  simp only [mainAllocator, Machine.withKernel, hPrinted, hRegion]
  rcases hCall : pageInit L r.base.toNat r.size.toNat (s.fdt.kernel.printed calls) with ⟨_ | _, k₁⟩
  · rw [hCall] at hInit
    have hNot : ¬ Manageable L r := fun h => Bool.false_ne_true (hInit.mpr h)
    exact ⟨fun _ => ⟨rfl, List.getLast?_concat⟩, fun h => absurd h hNot, fun h => absurd h hNot⟩
  · rw [hCall] at hInit hReserve
    have hManageable : Manageable L r := hInit.mp rfl
    have hHolds := hReserve hManageable
    simp only at hHolds ⊢
    rcases hCall' : reserveKerenelImgPages L k₁ with ⟨_ | _, k₂⟩
    · rw [hCall'] at hHolds
      have hNot : ¬ HoldsImage L r := fun h => Bool.false_ne_true (hHolds.mpr h)
      exact ⟨fun h => absurd hManageable h, fun _ _ => ⟨rfl, List.getLast?_concat⟩,
        fun _ h => absurd h hNot⟩
    · rw [hCall'] at hHolds
      have hIn : HoldsImage L r := hHolds.mp rfl
      refine ⟨fun h => absurd hManageable h, fun _ h => absurd hIn h, fun _ _ => ⟨rfl, ?_⟩⟩
      have hBooted : Booted L r.base.toNat r.size.toNat
          ⟨k₂, [], [pages L.imageStart (imagePages L)]⟩ :=
        ⟨hIn.1, hIn.2.2.2, hImage, _, by rw [hCall], by rw [hCall, hCall'], by rw [hCall, hCall']⟩
      exact kernelUp_of_booted hBooted

/-- What `main` has done when it reads the device tree. -/
def Machine.started (fns : Functions) (s : Machine σ) : Machine σ :=
  { s with uart0 := pl011Init fns uart0Base, serialConsole := mainConsole fns }

/-- The check of the tree fails. -/
theorem main_fdt (hCheck : (checkFdt lib (bootArg0 bootArgsPtr s) s.fdt).1 = false) (fuel : Nat) :
    main L lib fns fuel frame bootArgsPtr s = some (1, ({ s.started fns with
      fdt := (checkFdt lib (bootArg0 bootArgsPtr s) s.fdt).2 }).kprintf BootFailure.fdt.line) := by
  have hCheck' : (checkFdt lib (bootArg0 bootArgsPtr (s.started fns)) s.fdt).1 = false := hCheck
  simp only [main]
  change (if !(checkFdt lib (bootArg0 bootArgsPtr (s.started fns)) s.fdt).1 then _ else _) = _
  rw [hCheck']
  rfl

/-- There is a tree to read. -/
theorem main_valid (hCheck : (checkFdt lib (bootArg0 bootArgsPtr s) s.fdt).1 = true) (fuel : Nat) :
    main L lib fns fuel frame bootArgsPtr s =
      (getMem lib fuel (bootArg0 bootArgsPtr s) frame
        (checkFdt lib (bootArg0 bootArgsPtr s) s.fdt).2).map fun p =>
        if p.1 < 0 then (1, ({ s.started fns with fdt := p.2 }).kprintf BootFailure.memoryMap.line)
        else if p.2.mmap.count ≠ 1 then
          (1, ({ s.started fns with fdt := p.2 }).kprintf BootFailure.regions.line)
        else mainAllocator L { s.started fns with fdt := p.2 } := by
  have hCheck' : (checkFdt lib (bootArg0 bootArgsPtr (s.started fns)) s.fdt).1 = true := hCheck
  simp only [main]
  change (if !(checkFdt lib (bootArg0 bootArgsPtr (s.started fns)) s.fdt).1 then _ else
    (getMem lib fuel (bootArg0 bootArgsPtr (s.started fns)) frame
      (checkFdt lib (bootArg0 bootArgsPtr (s.started fns)) s.fdt).2).map _) = _
  rw [hCheck']
  rfl

/-- The tree is read. -/
theorem main_getMem (hCheck : (checkFdt lib (bootArg0 bootArgsPtr s) s.fdt).1 = true) {ret : Int}
    {fdt : FdtState σ} (hRun : getMem lib fuel (bootArg0 bootArgsPtr s) frame
      (checkFdt lib (bootArg0 bootArgsPtr s) s.fdt).2 = some (ret, fdt)) :
    main L lib fns fuel frame bootArgsPtr s =
      some (if ret < 0 then (1, ({ s.started fns with fdt := fdt }).kprintf BootFailure.memoryMap.line)
        else if fdt.mmap.count ≠ 1 then
          (1, ({ s.started fns with fdt := fdt }).kprintf BootFailure.regions.line)
        else mainAllocator L { s.started fns with fdt := fdt }) := by
  rw [main_valid hCheck, hRun, Option.map_some]

/-- What a decision comes to: the result of `main`, and the kernel's state from `k` to `k'`.
With 1 the last line names what is wrong, and unless that is the allocator or the image,
nothing was done but printing. -/
structure Decided (L : KernelLayout) (regions : List MemoryRegion) (decision : Option BootFailure)
    (code : Nat) (k k' : Kernel) : Prop where
  failed : ∀ failure, decision = some failure →
    code = 1 ∧ k'.console.getLast? = some (failure.line, []) ∧
      (failure ∉ [.allocator, .image] → ∃ calls, k' = k.printed calls)
  booted : decision = none → code = 0 ∧ ∃ r, regions = [r] ∧ KernelUp L r k'

theorem Decided.of_printed {regions : List MemoryRegion} {decision : Option BootFailure}
    {failure : BootFailure} (hDecision : decision = some failure) {k k' : Kernel}
    {calls : List (String × List Arg)} (hPrinted : k' = k.printed (calls ++ [(failure.line, [])])) :
    Decided L regions decision 1 k k' := by
  subst hDecision hPrinted
  refine ⟨fun failure' hSome => ?_, fun hNone => by cases hNone⟩
  cases hSome
  refine ⟨rfl, ?_, fun _ => ⟨_, rfl⟩⟩
  rw [Kernel.printed, ← List.append_assoc]
  exact List.getLast?_concat

/-- A single region. -/
theorem Decided.of_region (hImage : L.imageEnd + shiftUp L.imageEnd < 2 ^ 64) {r : MemoryRegion}
    (hRegion : s.fdt.mmap.regions 0 = r) (k : Kernel) :
    Decided L [r] (regionFailure L r) (mainAllocator L s).1 k (mainAllocator L s).2.fdt.kernel := by
  obtain ⟨hAllocator, hReserve, hUp⟩ := mainAllocator_decides hImage hRegion
  rw [regionFailure]
  split_ifs with hManageable hHolds
  · obtain ⟨hCode, hKernel⟩ := hUp hManageable hHolds
    refine ⟨fun failure hSome => ?_, fun _ => ⟨hCode, r, rfl, hKernel⟩⟩
    cases hSome
  · obtain ⟨hCode, hLast⟩ := hReserve hManageable hHolds
    refine ⟨fun failure hSome => ?_, fun hNone => by cases hNone⟩
    cases hSome
    exact ⟨hCode, hLast, fun hNot => absurd (List.mem_cons_of_mem _ List.mem_cons_self) hNot⟩
  · obtain ⟨hCode, hLast⟩ := hAllocator hManageable
    refine ⟨fun failure hSome => ?_, fun hNone => by cases hNone⟩
    cases hSome
    exact ⟨hCode, hLast, fun hNot => absurd List.mem_cons_self hNot⟩

/-- A map that lists one region. -/
theorem Listed.region {mmap : MemoryMap} {r : MemoryRegion} (h : Listed mmap [r]) :
    mmap.count = 1 ∧ mmap.regions 0 = r := by
  have hCount : mmap.count = 1 := h.count_eq
  rw [Listed, MemoryMap.listed, hCount] at h
  exact ⟨hCount, List.singleton_inj.mp h⟩

/--
**When the kernel boots.** For every libfdt, and every device tree it reads without errors:
`main` returns, 0 if `bootFailure` finds nothing wrong, and 1 otherwise. With 0 the kernel is
up on the one region of the tree; with 1 the last line on the console names the first thing
that is wrong.
-/
theorem main_decides (hImage : L.imageEnd + shiftUp L.imageEnd < 2 ^ 64) (hFrame : frame ≠ 0)
    {err : Int} {st : σ} (hHeader : lib.checkHeader (bootArg0 bootArgsPtr s) s.fdt.lib = (err, st))
    (hTree : bootArg0 bootArgsPtr s ≠ 0 → err = 0 →
      ShowsTree lib (bootArg0 bootArgsPtr s) st a b nodes) :
    ∃ fuel₀ code s',
      (∀ fuel, fuel₀ ≤ fuel → main L lib fns fuel frame bootArgsPtr s = some (code, s')) ∧
        Decided L (decodeNodes a.toNat b.toNat nodes)
          (bootFailure L (bootArg0 bootArgsPtr s) err a b nodes) code s.fdt.kernel
          s'.fdt.kernel := by
  have hCheck := checkFdt_iff lib (bootArg0 bootArgsPtr s) s.fdt
  rw [hHeader] at hCheck
  obtain ⟨checked, hChecked⟩ := checkFdt_kernel lib (bootArg0 bootArgsPtr s) s.fdt
  by_cases hFdt : bootArg0 bootArgsPtr s = 0 ∨ err ≠ 0
  · -- there is no tree
    have hInvalid : (checkFdt lib (bootArg0 bootArgsPtr s) s.fdt).1 = false :=
      Bool.eq_false_iff.mpr fun hValid => by
        obtain ⟨hPtr, hErr⟩ := hCheck.mp hValid
        exact hFdt.elim hPtr fun hNot => hNot hErr
    have hDecision : bootFailure L (bootArg0 bootArgsPtr s) err a b nodes = some .fdt := if_pos hFdt
    refine ⟨0, 1, _, fun fuel _ => main_fdt hInvalid fuel,
      .of_printed hDecision (show _ = s.fdt.kernel.printed (checked ++ _) from ?_)⟩
    rw [← Kernel.printed_printed, ← hChecked]
    rfl
  obtain ⟨hPtr, hErr⟩ : bootArg0 bootArgsPtr s ≠ 0 ∧ err = 0 := by tauto
  have hValid := hCheck.mpr ⟨hPtr, hErr⟩
  have hLib : (checkFdt lib (bootArg0 bootArgsPtr s) s.fdt).2.lib = st := by
    rw [checkFdt_lib lib hPtr, hHeader]
  have hShows := hTree hPtr hErr
  rw [← hLib] at hShows
  obtain ⟨fuel₀, ret, fdt, hRun, hZero, hListed⟩ := getMem_tree hShows hFrame
  obtain ⟨read, hRead⟩ := getMem_kernel (hRun fuel₀ (Nat.le_refl _))
  rw [hChecked, Kernel.printed_printed] at hRead
  rcases getMem_ret (hRun fuel₀ (Nat.le_refl _)) with ⟨-, e, rfl⟩ | ⟨-, rfl, -⟩
  · -- the memory nodes are no memory map
    have hPos := lib.code_pos e
    have hNot := mt hZero.mpr (lib.code_ne_zero e)
    have hDecision : bootFailure L (bootArg0 bootArgsPtr s) err a b nodes = some .memoryMap :=
      (if_neg hFdt).trans (if_neg hNot)
    refine ⟨fuel₀, 1, ({ s.started fns with fdt := fdt }).kprintf BootFailure.memoryMap.line,
      fun fuel hFuel => ?_,
      .of_printed hDecision (show _ = s.fdt.kernel.printed (checked ++ read ++ _) from ?_)⟩
    · rw [main_getMem hValid (hRun fuel hFuel), if_pos (by omega)]
    · rw [← Kernel.printed_printed, ← hRead]
      rfl
  · have hBoth := hZero.mp rfl
    have hMap := hListed rfl
    have hNotNeg : ¬ (0 : Int) < 0 := by omega
    have hDecision : bootFailure L (bootArg0 bootArgsPtr s) err a b nodes =
        match decodeNodes a.toNat b.toNat nodes with
        | [r] => regionFailure L r
        | _ => some .regions := (if_neg hFdt).trans (if_pos hBoth)
    by_cases hOne : (decodeNodes a.toNat b.toNat nodes).length = 1
    · obtain ⟨r, hRegions⟩ := List.length_eq_one_iff.mp hOne
      rw [hRegions] at hMap hDecision
      obtain ⟨hCount, hRegion⟩ := hMap.region
      refine ⟨fuel₀, (mainAllocator L { s.started fns with fdt := fdt }).1,
        (mainAllocator L { s.started fns with fdt := fdt }).2, fun fuel hFuel => ?_, ?_⟩
      · rw [main_getMem hValid (hRun fuel hFuel), if_neg hNotNeg, if_neg (not_not_intro hCount)]
      · rw [hRegions, hDecision]
        exact Decided.of_region hImage hRegion s.fdt.kernel
    · -- no region, or several
      have hCount : fdt.mmap.count ≠ 1 := by
        have hMin := hMap.count_eq
        unfold maxMemRegions at hMin
        omega
      have hRegions : bootFailure L (bootArg0 bootArgsPtr s) err a b nodes = some .regions := by
        rw [hDecision]
        rcases hList : decodeNodes a.toNat b.toNat nodes with _ | ⟨r, _ | ⟨r', rest⟩⟩
        · rfl
        · rw [hList] at hOne
          exact absurd rfl hOne
        · rfl
      refine ⟨fuel₀, 1, ({ s.started fns with fdt := fdt }).kprintf BootFailure.regions.line,
        fun fuel hFuel => ?_,
        .of_printed hRegions (show _ = s.fdt.kernel.printed (checked ++ read ++ _) from ?_)⟩
      · rw [main_getMem hValid (hRun fuel hFuel), if_neg hNotNeg, if_pos hCount]
      · rw [← Kernel.printed_printed, ← hRead]
        rfl

end Main

/-- A boot argument that points to a tree. -/
def machineWithTree : Machine Unit where
  fdt := { emptyFdtState with
    kernel := { Kernel.coldStart with mem := store64 (fun _ => 0) 0x2000 0x1000 } }
  serialConsole := ⟨0, 0⟩
  uart0 := ⟨0, 0, 0⟩

/-- The small kernel boots on 128 MiB of memory. -/
theorem main_decides_smallLayout :
    let lib := twoNodeTree (.error .notfound) .notfound
    let fns : Functions := ⟨0x40001000, 0x40001010, 0x40001020⟩
    ∃ fuel₀ s', (∀ fuel, fuel₀ ≤ fuel →
        main smallLayout lib fns fuel 0x3000 0x2000 machineWithTree = some (0, s')) ∧
      KernelUp smallLayout ⟨0x40000000, 0x8000000⟩ s'.fdt.kernel := by
  intro lib fns
  have hPtr : bootArg0 0x2000 machineWithTree = 0x1000 := by
    rw [bootArg0, machineWithTree, load64_store64_same]
    rfl
  have hTree : ShowsTree lib 0x1000 () 2 2
      [(8, some (encodeReg 2 2 [⟨0x40000000, 0x8000000⟩])), (64, none)] :=
    ⟨by decide, ⟨0, rfl⟩, rfl, rfl, 3, by decide⟩
  have hHeader : lib.checkHeader (bootArg0 0x2000 machineWithTree) machineWithTree.fdt.lib = (0, ()) :=
    rfl
  have hNodes : decodeNodes 2 2 [(8, some (encodeReg 2 2 [⟨0x40000000, 0x8000000⟩])), (64, none)] =
      [⟨0x40000000, 0x8000000⟩] := by
    decide +kernel
  have hDecision : bootFailure smallLayout 0x1000 0 2 2
      [(8, some (encodeReg 2 2 [⟨0x40000000, 0x8000000⟩])), (64, none)] = none := by
    decide +kernel
  have hFrame : 0x3000 ≠ 0 := by decide
  have hDecides : ∃ fuel₀ code s', (∀ fuel, fuel₀ ≤ fuel →
        main smallLayout lib fns fuel 0x3000 0x2000 machineWithTree = some (code, s')) ∧
      Decided smallLayout _ _ code _ s'.fdt.kernel :=
    main_decides (by decide) hFrame hHeader (fun _ _ => hPtr ▸ hTree)
  obtain ⟨fuel₀, code, s', hRun, hDecided⟩ := hDecides
  rw [hPtr, hDecision] at hDecided
  obtain ⟨rfl, r, hRegion, hUp⟩ := hDecided.booted rfl
  have hNodes' : decodeNodes (2 : Int).toNat (2 : Int).toNat
      [(8, some (encodeReg 2 2 [⟨0x40000000, 0x8000000⟩])), (64, none)] =
        [⟨0x40000000, 0x8000000⟩] := hNodes
  rw [hNodes'] at hRegion
  obtain rfl := List.singleton_inj.mp hRegion
  exact ⟨fuel₀, s', hRun, hUp⟩

end Kernalite
