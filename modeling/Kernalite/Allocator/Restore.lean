import Kernalite.Allocator.Free
import Kernalite.Allocator.Operations

/-!
# Kernalite — freeing undoes allocating

A row of successful `page_alloc` calls sets the bits of pairwise disjoint windows
that were clear; freeing the blocks in any order clears them again. Neither the
order nor the bytes the windows share matter, since the result is known bit by
bit: a bit is set if it was set before or lies in a window (`Allocated`).

* `pageAllocs_allocated` — what a row of allocations does to the bitmap;
* `pageFrees_bit` — what freeing blocks in some order does to it;
* `pageFrees_restores` — together they leave memory as it was.
-/

namespace Kernalite

open ByteMemory PackedBits Words Loop FirstFit

variable {L : KernelLayout} {k k' : Kernel}

/-- `page_alloc` calls one after the other, with what they returned. -/
def pageAllocs : List Nat → Kernel → List Nat × Kernel
  | [], k => ([], k)
  | n :: ns, k =>
    let (p, k) := pageAlloc n k
    let (ps, k) := pageAllocs ns k
    (p :: ps, k)

/-- `page_free` calls one after the other, on pointers with page counts. -/
def pageFrees : List (Nat × Nat) → Kernel → Kernel
  | [], k => k
  | (p, n) :: blocks, k => pageFrees blocks (pageFree p n k)

/-- Some window of the list contains the index; a window is a start and a
length. -/
def InWindow (windows : List (Nat × Nat)) (i : Nat) : Prop :=
  ∃ w ∈ windows, w.1 ≤ i ∧ i < w.1 + w.2

instance (windows : List (Nat × Nat)) (i : Nat) : Decidable (InWindow windows i) :=
  inferInstanceAs (Decidable (∃ w ∈ windows, _))

theorem inWindow_cons {w : Nat × Nat} {windows : List (Nat × Nat)} {i : Nat} :
    InWindow (w :: windows) i ↔ (w.1 ≤ i ∧ i < w.1 + w.2) ∨ InWindow windows i := by
  simp only [InWindow, List.exists_mem_cons_iff]

/-- The order of the windows does not matter. -/
theorem InWindow.perm {windows windows' : List (Nat × Nat)} (h : windows.Perm windows') (i : Nat) :
    InWindow windows i ↔ InWindow windows' i := by
  simp only [InWindow, h.mem_iff]

/-- The window as a pointer and a page count. -/
def block (k : Kernel) (w : Nat × Nat) : Nat × Nat := (pageAddr k w.1, w.2)

/-- From `k` to `k'` by marking windows of the pool that were clear. -/
structure Allocated (k k' : Kernel) (windows : List (Nat × Nat)) : Prop where
  static  : SameStatics k k'
  in_pool : ∀ w ∈ windows, 0 < w.2 ∧ w.1 + w.2 ≤ k.totalPages
  clear   : ∀ i, InWindow windows i → k.bit i = false
  bits    : ∀ i, i < 2 ^ 64 → k'.bit i = (decide (InWindow windows i) || k.bit i)
  frame   : SameOutside (fun a => ∃ i, i < k.totalPages ∧ a = k.bitmapByte i) k.mem k'.mem

theorem pageAddr_congr (hStatic : SameStatics k k') (i : Nat) : pageAddr k' i = pageAddr k i := by
  rw [pageAddr, hStatic.memBase_eq, pageAddr]

-- ---------------------------------------------------------------------------
-- Allocating
-- ---------------------------------------------------------------------------

/-- One successful call marks one window. -/
theorem pageAlloc_allocated (h : Ready L k) {n : Nat} (hOk : (pageAlloc n k).1 ≠ 0) :
    ∃ s, (pageAlloc n k).1 = pageAddr k s ∧ Allocated k (pageAlloc n k).2 [(s, n)] := by
  have hStatic := pageAlloc_static n k
  rcases pageAlloc_cases h n with ⟨-, c, hEq⟩ | ⟨s, c, hPos, hFirst, hEq⟩
  · rw [hEq] at hOk
    exact absurd rfl hOk
  · obtain ⟨hTop, hClear⟩ := hFirst.fits
    have hTotal := h.total_lt
    have hIn : ∀ i, InWindow [(s, n)] i ↔ s ≤ i ∧ i < s + n := by simp [InWindow]
    refine ⟨s, by rw [hEq], hStatic, ?_, ?_, ?_, ?_⟩
    · rintro w hw
      rw [List.mem_singleton.mp hw]
      exact ⟨hPos, hTop⟩
    · intro i hi
      obtain ⟨hFrom, hTo⟩ := (hIn i).mp hi
      exact hClear i hFrom hTo
    · intro i hi
      rw [hEq, bit_markRange k (by omega) hi]
      simp only [hIn]
    · rw [hEq]
      refine (sameOutside_bits (fun i m a ha => setBit_outside ha) k.mem
        (Nat.le_add_right s n)).mono ?_
      rintro a ⟨i, -, hi, rfl⟩
      exact ⟨i, by omega, rfl⟩

theorem Allocated.refl (k : Kernel) : Allocated k k [] where
  static := ⟨rfl, rfl, rfl⟩
  in_pool := fun w hw => absurd hw List.not_mem_nil
  clear := fun i ⟨w, hw, _⟩ => absurd hw List.not_mem_nil
  bits := fun i _ => by simp [InWindow]
  frame := SameOutside.refl _ _

/-- A first window, and windows that were clear after it. -/
theorem Allocated.cons {k₁ : Kernel} {w : Nat × Nat} {windows : List (Nat × Nat)}
    (hTotal : k.totalPages ≤ 2 ^ 64) (hFirst : Allocated k k₁ [w])
    (hRest : Allocated k₁ k' windows) : Allocated k k' (w :: windows) := by
  have hBytes : k₁.bitmapByte = k.bitmapByte := hFirst.static.bitmapByte_eq
  have hInFirst : ∀ i, InWindow [w] i ↔ w.1 ≤ i ∧ i < w.1 + w.2 := by simp [InWindow]
  have hPool : ∀ v ∈ w :: windows, 0 < v.2 ∧ v.1 + v.2 ≤ k.totalPages := by
    intro v hv
    rcases List.mem_cons.mp hv with rfl | hv
    · exact hFirst.in_pool v (List.mem_singleton_self v)
    · have hIn := hRest.in_pool v hv
      rwa [hFirst.static.totalPages_eq] at hIn
  refine ⟨hFirst.static.trans hRest.static, hPool, fun i hi => ?_, fun i hi => ?_, ?_⟩
  · rcases inWindow_cons.mp hi with hIn | hIn
    · exact hFirst.clear i ((hInFirst i).mpr hIn)
    · -- clear after the first call, hence before it
      have hAfter := hRest.clear i hIn
      obtain ⟨v, hv, -, hTo⟩ := hIn
      have hTop := (hPool v (List.mem_cons_of_mem _ hv)).2
      rw [hFirst.bits i (by omega), Bool.or_eq_false_iff] at hAfter
      exact hAfter.2
  · rw [hRest.bits i hi, hFirst.bits i hi, ← Bool.or_assoc, ← Bool.decide_or]
    congr 2
    rw [eq_iff_iff, hInFirst, or_comm]
    exact inWindow_cons.symm
  · refine hFirst.frame.trans (hRest.frame.mono ?_)
    rintro a ⟨i, hi, rfl⟩
    exact ⟨i, hFirst.static.totalPages_eq ▸ hi, by rw [hBytes]⟩

/-- **A row of successful allocations** marks the windows of its blocks. -/
theorem pageAllocs_allocated (h : Ready L k) {ns : List Nat}
    (hOk : ∀ p ∈ (pageAllocs ns k).1, p ≠ 0) :
    ∃ windows, (pageAllocs ns k).1.zip ns = windows.map (block k) ∧
      Allocated k (pageAllocs ns k).2 windows := by
  induction ns generalizing k with
  | nil => exact ⟨[], rfl, Allocated.refl k⟩
  | cons n ns ih =>
    have hTotal := h.total_lt
    obtain ⟨s, hPtr, hFirst⟩ := pageAlloc_allocated h (hOk _ List.mem_cons_self)
    have hStatic := hFirst.static
    obtain ⟨windows, hZip, hRest⟩ := ih
      (h.congr hStatic)
      fun p hp => hOk p (List.mem_cons_of_mem _ hp)
    refine ⟨(s, n) :: windows, ?_, Allocated.cons (by omega) hFirst hRest⟩
    have hBlock : block (pageAlloc n k).2 = block k := by
      funext w
      rw [block, block, pageAddr_congr hStatic]
    rw [hBlock] at hZip
    rw [List.map_cons, ← hZip, block, ← hPtr]
    rfl

-- ---------------------------------------------------------------------------
-- Freeing
-- ---------------------------------------------------------------------------

/-- **Freeing blocks of the pool**, in the order given, clears their bits. -/
theorem pageFrees_bit (h : Ready L k) (hBase : 0 < k.memBase) {windows : List (Nat × Nat)}
    (hPool : ∀ w ∈ windows, 0 < w.2 ∧ w.1 + w.2 ≤ k.totalPages) :
    SameStatics k (pageFrees (windows.map (block k)) k) ∧
      (∀ i, i < 2 ^ 64 → (pageFrees (windows.map (block k)) k).bit i =
        (!decide (InWindow windows i) && k.bit i)) ∧
      SameOutside (fun a => ∃ i, i < k.totalPages ∧ a = k.bitmapByte i) k.mem
        (pageFrees (windows.map (block k)) k).mem := by
  induction windows generalizing k with
  | nil => exact ⟨⟨rfl, rfl, rfl⟩, fun i _ => by simp [InWindow, pageFrees], SameOutside.refl _ _⟩
  | cons w windows ih =>
    have hTotal := h.total_lt
    obtain ⟨hPos, hTop⟩ := hPool w List.mem_cons_self
    obtain ⟨c, hEq⟩ := pageFree_inPool h hBase hPos hTop
    have hStatic := pageFree_static (pageAddr k w.1) w.2 k
    have hBlock : block (pageFree (pageAddr k w.1) w.2 k) = block k := by
      funext v
      rw [block, block, pageAddr_congr hStatic]
    have hReady := h.congr hStatic
    obtain ⟨hStaticRest, hBits, hFrame⟩ := ih hReady (hStatic.memBase_eq ▸ hBase)
      fun v hv => hStatic.totalPages_eq ▸ hPool v (List.mem_cons_of_mem _ hv)
    rw [hBlock] at hStaticRest hBits hFrame
    refine ⟨hStatic.trans hStaticRest, fun i hi => ?_, ?_⟩
    · have hFirst : (pageFree (pageAddr k w.1) w.2 k).bit i =
          (!decide (w.1 ≤ i ∧ i < w.1 + w.2) && k.bit i) := by
        rw [hEq]
        exact getBit_clearRange k.bitmapByte_packed k.mem (Nat.le_add_right _ _) (by omega) hi
      refine (hBits i hi).trans ?_
      rw [hFirst, ← Bool.and_assoc, ← Bool.not_or, ← Bool.decide_or]
      congr 3
      rw [eq_iff_iff, inWindow_cons, or_comm]
    · have hFirst : SameOutside (fun a => ∃ i, i < k.totalPages ∧ a = k.bitmapByte i) k.mem
          (pageFree (pageAddr k w.1) w.2 k).mem := by
        rw [hEq]
        refine (sameOutside_bits (fun i m a ha => clearBit_outside ha) k.mem
          (Nat.le_add_right _ _)).mono ?_
        rintro a ⟨i, -, hi, rfl⟩
        exact ⟨i, by omega, rfl⟩
      refine hFirst.trans (hFrame.mono ?_)
      rintro a ⟨i, hi, rfl⟩
      exact ⟨i, hStatic.totalPages_eq ▸ hi, by rw [hStatic.bitmapByte_eq]⟩

/-- **Allocating and freeing in any order** leaves every byte as it was. -/
theorem pageFrees_restores (h : Ready L k) (hBase : 0 < k.memBase) {windows windows' : List (Nat × Nat)}
    (hAllocated : Allocated k k' windows) (hPerm : windows'.Perm windows) :
    (pageFrees (windows'.map (block k)) k').mem = k.mem ∧
      SameStatics k (pageFrees (windows'.map (block k)) k') := by
  have hTotal := h.total_lt
  have hStatic := hAllocated.static
  have hBlock : block k' = block k := by
    funext v
    rw [block, block, pageAddr_congr hStatic]
  obtain ⟨hStaticFree, hBits, hFrame⟩ := pageFrees_bit
    (h.congr hStatic)
    (hStatic.memBase_eq ▸ hBase) fun w hw => hStatic.totalPages_eq ▸
      hAllocated.in_pool w (hPerm.mem_iff.mp hw)
  rw [hBlock] at hStaticFree hBits hFrame
  have hBoth := hStatic.trans hStaticFree
  refine ⟨?_, hBoth⟩
  generalize pageFrees (windows'.map (block k)) k' = k'' at *
  -- every bit is what it was
  have hBit : ∀ i, i < 2 ^ 64 → getBit k.bitmapByte k''.mem i = getBit k.bitmapByte k.mem i := by
    intro i hi
    have hAfter := hBits i hi
    rw [hAllocated.bits i hi, Kernel.bit, hBoth.bitmapByte_eq] at hAfter
    rw [hAfter]
    by_cases hIn : InWindow windows i
    · have hClear : getBit k.bitmapByte k.mem i = false := hAllocated.clear i hIn
      rw [decide_eq_true ((InWindow.perm hPerm i).mpr hIn), hClear]
      rfl
    · rw [decide_eq_false fun hIn' => hIn ((InWindow.perm hPerm i).mp hIn'), decide_eq_false hIn]
      rfl
  funext a
  by_cases hByte : ∃ i, i < k.totalPages ∧ a = k.bitmapByte i
  · obtain ⟨i, hi, rfl⟩ := hByte
    exact byte_eq_of_bits k.bitmapByte_packed (by omega) hBit
  · have hOutside : ¬ ∃ i, i < k'.totalPages ∧ a = k'.bitmapByte i := by
      rwa [hStatic.totalPages_eq, hStatic.bitmapByte_eq]
    exact (hFrame a hOutside).trans (hAllocated.frame a hByte)

/-- What was printed does not matter to a row of allocations. -/
theorem pageAllocs_relogged {c c' : List (String × List Arg)} (ns : List Nat)
    (h : Relogged c c' k k') : (pageAllocs ns k').1 = (pageAllocs ns k).1 := by
  induction ns generalizing k k' with
  | nil => rfl
  | cons n ns ih =>
    obtain ⟨hPtr, hNext⟩ := pageAlloc_relogged n h
    simp only [pageAllocs, hPtr, ih hNext]

/--
**Freeing undoes allocating, in any order.** In every state the static variables
of which come from a successful `page_init` on a region that ends below `2 ^ 64`,
with `mem_base` non-zero, whatever the bitmap: after a row of successful
allocations, freeing the blocks with their counts in any order restores every
byte, and the same allocations then return the same pointers.
-/
theorem pageFrees_pageAllocs {memStart memSize : Nat} (hInit : AfterInit L memStart memSize k)
    (hEnd : memStart + memSize < 2 ^ 64) (hBase : k.memBase ≠ 0) {ns : List Nat}
    (hOk : ∀ p ∈ (pageAllocs ns k).1, p ≠ 0) {blocks : List (Nat × Nat)}
    (hPerm : blocks.Perm ((pageAllocs ns k).1.zip ns)) :
    (pageFrees blocks (pageAllocs ns k).2).mem = k.mem ∧
      (pageAllocs ns (pageFrees blocks (pageAllocs ns k).2)).1 = (pageAllocs ns k).1 := by
  have hReady := hInit.ready hEnd
  obtain ⟨windows, hZip, hAllocated⟩ := pageAllocs_allocated hReady hOk
  rw [hZip] at hPerm
  -- a permutation of the blocks is one of the windows
  obtain ⟨windows', hPerm', rfl⟩ : ∃ windows', List.Perm windows' windows ∧
      blocks = windows'.map (block k) := by
    obtain ⟨windows', hBlocks, hPerm'⟩ :
        Relation.Comp (· = List.map (block k) ·) List.Perm blocks windows := by
      rw [List.eq_map_comp_perm]
      exact hPerm
    exact ⟨windows', hPerm', hBlocks⟩
  obtain ⟨hMem, hStatic⟩ := pageFrees_restores hReady (Nat.pos_of_ne_zero hBase) hAllocated hPerm'
  refine ⟨hMem, ?_⟩
  generalize pageFrees (windows'.map (block k)) (pageAllocs ns k).2 = k'' at *
  have hRelogged : Relogged k.console k''.console k k'' := by
    refine ⟨[], (List.append_nil _).symm, ?_⟩
    obtain ⟨mem, memBase, bitmap, totalPages, console⟩ := k''
    obtain ⟨hMemBase, hBitmap, hTotal⟩ := hStatic
    simp only at hMem hMemBase hBitmap hTotal
    rw [hMem, hMemBase, hBitmap, hTotal, List.append_nil]
  exact pageAllocs_relogged ns hRelogged

/-- Three blocks, freed last to first. -/
theorem pageFrees_pageAllocs_smallLayout :
    let k := (pageInit smallLayout 0x40000000 0x40000 Kernel.coldStart).2
    (pageFrees ((pageAllocs [3, 1, 7] k).1.zip [3, 1, 7]).reverse (pageAllocs [3, 1, 7] k).2).mem =
      k.mem :=
  have hInit : AfterInit smallLayout 0x40000000 0x40000
      (pageInit smallLayout 0x40000000 0x40000 Kernel.coldStart).2 :=
    .of_pageInit (by decide)
  (pageFrees_pageAllocs hInit (by decide) (by decide) (by decide +kernel) (List.reverse_perm _)).1

end Kernalite
