import Kernalite.Allocator.Init

/-!
# Kernalite — `page_alloc` is first fit

`page_alloc` scans the bitmap once, with a run counter and a remembered start.
The scan invariant (`ScanInv`) says what the two variables mean at index `i`:
the last `found` bits are clear, and no start before them works, because each
such window meets a set bit below `i`. It gives

* `pageAllocScan_spec` — the scan finds the first fit, or there is none;
* `pageAlloc_cases` — the two outcomes of `page_alloc` in a `Ready` state;
* `pageAlloc_firstFit` — the functional specification over every bitmap.
-/

namespace Kernalite

open ByteMemory PackedBits Words Loop FirstFit

-- ---------------------------------------------------------------------------
-- The scan
-- ---------------------------------------------------------------------------

/-- The loop variables `continuous_found` and `start_index` at index `i`, in a
search for `n` clear bits. -/
structure ScanInv (bit : Nat → Bool) (n i found start : Nat) : Prop where
  found_lt : found < n
  found_le : found ≤ i
  start_eq : 0 < found → start = i - found
  run_free : ∀ j, i - found ≤ j → j < i → bit j = false
  no_start : ∀ t, t < i - found → ∃ j, t ≤ j ∧ j < t + n ∧ bit j = true

section Scan

variable {bit : Nat → Bool} {n i found start : Nat}

theorem ScanInv.zero (hn : 0 < n) : ScanInv bit n 0 0 0 where
  found_lt := hn
  found_le := Nat.le_refl 0
  start_eq := fun h => absurd h (Nat.lt_irrefl 0)
  run_free := fun j _ hj => absurd hj (Nat.not_lt_zero j)
  no_start := fun t ht => absurd ht (Nat.not_lt_zero t)

/-- A set bit ends the run: every window that starts inside it contains `i`. -/
theorem ScanInv.reset (h : ScanInv bit n i found start) (hUsed : bit i = true) :
    ScanInv bit n (i + 1) 0 start where
  found_lt := Nat.lt_of_le_of_lt (Nat.zero_le _) h.found_lt
  found_le := Nat.zero_le _
  start_eq := fun h => absurd h (Nat.lt_irrefl 0)
  run_free := fun j hlo hhi => absurd hhi (by omega)
  no_start := by
    intro t ht
    rcases Nat.lt_or_ge t (i - found) with hBefore | hInside
    · exact h.no_start t hBefore
    · have := h.found_lt
      exact ⟨i, by omega, by omega, hUsed⟩

/-- A clear bit makes the run one longer. -/
theorem ScanInv.grow (h : ScanInv bit n i found start) (hFree : bit i = false)
    (hMore : found + 1 ≠ n) :
    ScanInv bit n (i + 1) (found + 1) (if found = 0 then i else start) where
  found_lt := by
    have := h.found_lt
    omega
  found_le := Nat.succ_le_succ h.found_le
  start_eq := by
    intro _
    have hle := h.found_le
    by_cases hZero : found = 0
    · rw [if_pos hZero]
      omega
    · rw [if_neg hZero, h.start_eq (by omega)]
      omega
  run_free := by
    intro j hlo hhi
    rcases Nat.lt_or_ge j i with hj | hj
    · exact h.run_free j (by omega) hj
    · rwa [show j = i by omega]
  no_start := fun t ht => h.no_start t (by omega)

/-- The clear bit that completes the run: `start_index` is the first fit. -/
theorem ScanInv.done {total : Nat} (h : ScanInv bit n i found start) (hFree : bit i = false)
    (hDone : found + 1 = n) (hi : i < total) :
    IsFirstFit bit total n (if found = 0 then i else start) := by
  have hle := h.found_le
  have hStart : (if found = 0 then i else start) = i - found := by
    by_cases hZero : found = 0
    · rw [if_pos hZero]
      omega
    · rw [if_neg hZero, h.start_eq (by omega)]
  rw [hStart]
  refine ⟨⟨by omega, fun j hlo hhi => ?_⟩, fun t ht => ?_⟩
  · rcases Nat.lt_or_ge j i with hj | hj
    · exact h.run_free j hlo hj
    · rwa [show j = i by omega]
  · by_contra hlt
    obtain ⟨j, hlo, hhi, hUsed⟩ := h.no_start t (by omega)
    rw [ht.2 j hlo hhi] at hUsed
    exact Bool.false_ne_true hUsed

/-- At the end of the bitmap the run is too short and no start is left. -/
theorem ScanInv.exhausted (h : ScanInv bit n i found start) (s : Nat) : ¬ Fits bit i n s := by
  rintro ⟨hle, hFree⟩
  have := h.found_lt
  obtain ⟨j, hlo, hhi, hUsed⟩ := h.no_start s (by omega)
  rw [hFree j hlo hhi] at hUsed
  exact Bool.false_ne_true hUsed

end Scan

/-- From any state of the scan, what remains of it finds the first fit, or there
is none. -/
theorem pageAllocScan_inv {k : Kernel} {n i found start : Nat}
    (h : ScanInv k.bit n i found start) (left : Nat) :
    match pageAllocScan k n left i found start with
    | some s => IsFirstFit k.bit (i + left) n s
    | none => ∀ s, ¬ Fits k.bit (i + left) n s := by
  induction left generalizing i found start with
  | zero => exact h.exhausted
  | succ left ih =>
    rw [show i + (left + 1) = i + 1 + left by omega]
    rw [pageAllocScan]
    by_cases hFree : k.bit i = false
    · simp only [hFree, Bool.not_false, if_true]
      by_cases hDone : found + 1 = n
      · rw [if_pos hDone]
        exact h.done hFree hDone (by omega)
      · rw [if_neg hDone]
        exact ih (h.grow hFree hDone)
    · have hUsed : k.bit i = true := Bool.eq_true_of_not_eq_false hFree
      simp only [hUsed, Bool.not_true, Bool.false_eq_true, if_false]
      exact ih (h.reset hUsed)

theorem pageAllocScan_spec {k : Kernel} {n : Nat} (hn : 0 < n) :
    match pageAllocScan k n k.totalPages 0 0 0 with
    | some s => IsFirstFit k.bit k.totalPages n s
    | none => ∀ s, ¬ Fits k.bit k.totalPages n s := by
  have h := pageAllocScan_inv (k := k) (ScanInv.zero hn) k.totalPages
  rwa [Nat.zero_add] at h

-- ---------------------------------------------------------------------------
-- The two outcomes
-- ---------------------------------------------------------------------------

variable {L : Layout} {k : Kernel}

/-- **Outcomes of `page_alloc`.** Either nothing fits and only the console
changes, or the first fit is marked and its address returned. -/
theorem pageAlloc_cases (h : Ready L k) (n : Nat) :
    ((∀ s, n = 0 ∨ ¬ Fits k.bit k.totalPages n s) ∧
      ∃ c, pageAlloc n k = (0, { k with console := k.console ++ c })) ∨
    ∃ s c, 0 < n ∧ IsFirstFit k.bit k.totalPages n s ∧
      pageAlloc n k =
        (pageAddr k s,
          { k with
            mem := forRange s (s + n) (setBit k.bitmapByte) k.mem
            console := k.console ++ c }) := by
  rw [pageAlloc]
  by_cases hZero : n = 0
  · rw [if_pos hZero]
    exact Or.inl ⟨fun s => Or.inl hZero, [], by simp⟩
  rw [if_neg hZero]
  by_cases hBig : n > k.totalPages
  · rw [if_pos hBig]
    exact Or.inl ⟨fun s => Or.inr fun hFit => by have := hFit.1; omega, _, rfl⟩
  rw [if_neg hBig]
  have hScan := pageAllocScan_spec (k := k) (Nat.pos_of_ne_zero hZero)
  cases hRes : pageAllocScan k n k.totalPages 0 0 0 with
  | none =>
    rw [hRes] at hScan
    exact Or.inl ⟨fun s => Or.inr (hScan s), _, rfl⟩
  | some s =>
    rw [hRes] at hScan
    have hEnd := hScan.fits.1
    have hTotal := h.total_lt
    have hAdd : add64 s n = s + n := add64_eq (by omega)
    have hPtr := h.pageAddr_eq (i := s) (by omega)
    refine Or.inr ⟨s, [("PAGE: Allocated %u pages at %p\n",
      [.word n, .word (pageAddr k s)])], Nat.pos_of_ne_zero hZero, hScan, ?_⟩
    simp only [hAdd, hPtr, Kernel.kprintf]

/-- The bits after marking `s .. s + n - 1`, at and beyond `total_pages` too. -/
theorem bit_markRange (k : Kernel) {s n : Nat} (hTop : s + n ≤ 2 ^ 64)
    {c : List (String × List Arg)} {i : Nat} (hi : i < 2 ^ 64) :
    ({ k with
        mem := forRange s (s + n) (setBit k.bitmapByte) k.mem
        console := k.console ++ c } : Kernel).bit i =
      (decide (s ≤ i ∧ i < s + n) || k.bit i) :=
  getBit_setRange k.bitmapByte_packed k.mem (Nat.le_add_right s n) hTop hi

/--
**`page_alloc` is exactly first-fit.** With the static variables of a successful
`page_init` on a region that ends below `2 ^ 64`, for every memory content and
every request: it returns non-null if and only if some window of `n` clear bits
exists below `total_pages`; then it returns the address of the lowest one, sets
exactly its bits and writes no byte but theirs. A null result changes no memory.
-/
theorem pageAlloc_firstFit {memStart memSize : Nat} (hInit : AfterInit L memStart memSize k)
    (hEnd : memStart + memSize < 2 ^ 64) (hBase : k.memBase ≠ 0) (n : Nat) :
    ((pageAlloc n k).1 ≠ 0 ↔ 0 < n ∧ ∃ s, Fits k.bit k.totalPages n s) ∧
    ((pageAlloc n k).1 ≠ 0 → ∃ s, IsFirstFit k.bit k.totalPages n s ∧
      (pageAlloc n k).1 = pageAddr k s ∧
      (∀ i, i < 2 ^ 64 →
        (pageAlloc n k).2.bit i = (decide (s ≤ i ∧ i < s + n) || k.bit i)) ∧
      SameOutside (fun a => ∃ i, s ≤ i ∧ i < s + n ∧ a = k.bitmapByte i)
        k.mem (pageAlloc n k).2.mem) ∧
    ((pageAlloc n k).1 = 0 → (pageAlloc n k).2.mem = k.mem) := by
  have hReady := hInit.ready hEnd
  rcases pageAlloc_cases hReady n with ⟨hNone, c, hEq⟩ | ⟨s, c, hPos, hFirst, hEq⟩
  · rw [hEq]
    refine ⟨iff_of_false (fun h => h rfl) ?_, fun h => absurd rfl h, fun _ => rfl⟩
    rintro ⟨hPos, s, hFit⟩
    rcases hNone s with hZero | hNot
    · omega
    · exact hNot hFit
  · have hNonzero : pageAddr k s ≠ 0 := by
      unfold pageAddr
      omega
    have hTop : s + n ≤ 2 ^ 64 := by
      have hFitEnd := hFirst.fits.1
      have hTotal := hReady.total_lt
      omega
    rw [hEq]
    refine ⟨iff_of_true hNonzero ⟨hPos, s, hFirst.fits⟩, fun _ => ⟨s, hFirst, rfl, ?_, ?_⟩,
      fun h => absurd h hNonzero⟩
    · exact fun i hi => bit_markRange k hTop hi
    · exact sameOutside_bits (fun i m a ha => setBit_outside ha) k.mem (Nat.le_add_right s n)

/-- The first allocation after `page_init`. -/
theorem pageAlloc_firstFit_smallLayout :
    let k := (pageInit smallLayout 0x40000000 0x8000000 Kernel.coldStart).2
    ((pageAlloc 3 k).1 ≠ 0 ↔ 0 < 3 ∧ ∃ s, Fits k.bit k.totalPages 3 s) :=
  have hInit : AfterInit smallLayout 0x40000000 0x8000000
      (pageInit smallLayout 0x40000000 0x8000000 Kernel.coldStart).2 :=
    .of_pageInit (by decide)
  (pageAlloc_firstFit hInit (by decide) (by decide) 3).1

end Kernalite
