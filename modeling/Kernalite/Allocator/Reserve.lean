import Kernalite.Allocator.Operations

/-!
# Kernalite — `reserve_page` and its bounds check

`reserve_page` compares `ptr + num_pages * PAGE_SIZE`, reduced modulo `2 ^ 64`,
with the end of the pool, and then marks `num_pages` bits, unreduced. The two
agree as long as the sum stays below `2 ^ 64`:

* `reservePage_inRange` — a range inside the pool is marked, bit for bit;
* `reservePage_reject` — a rejected call changes no memory;
* `reservePage_sound_iff` — the call is sound exactly when the sum does not wrap
  or the call is rejected anyway.
-/

namespace Kernalite

open ByteMemory PackedBits Words Loop

variable {L : KernelLayout} {k : Kernel}

/-- The end of a range of pages, as the check of `reserve_page` computes `end_addr` and
`mem_end`. -/
def wrappedEnd (ptr numPages : Nat) : Nat := (ptr + numPages * pageSize) % 2 ^ 64

/-- What `reserve_page` checks before it marks anything. -/
def Rejects (k : Kernel) (ptr numPages : Nat) : Prop :=
  ptr = 0 ∨ k.memBase = 0 ∨ k.totalPages = 0 ∨ k.bitmap = 0 ∨ ptr < k.memBase ∨
    wrappedEnd k.memBase k.totalPages < wrappedEnd ptr numPages

instance (k : Kernel) (ptr numPages : Nat) : Decidable (Rejects k ptr numPages) :=
  inferInstanceAs (Decidable (_ ∨ _))

/-- A pool that ends below `2 ^ 64` is compared with its end. -/
theorem rejects_iff (h : Ready L k) {ptr numPages : Nat} :
    Rejects k ptr numPages ↔ ptr = 0 ∨ k.memBase = 0 ∨ k.totalPages = 0 ∨ k.bitmap = 0 ∨
      ptr < k.memBase ∨ k.memBase + k.totalPages * pageSize < wrappedEnd ptr numPages := by
  have hEnd : wrappedEnd k.memBase k.totalPages = k.memBase + k.totalPages * pageSize :=
    Nat.mod_eq_of_lt h.top_lt
  rw [Rejects, hEnd]

/-- A rejected call changes the console at most. -/
theorem reservePage_reject {ptr numPages : Nat} (hRej : Rejects k ptr numPages) :
    ∃ c, reservePage ptr numPages k = (false, { k with console := k.console ++ c }) := by
  simp only [reservePage, add64_mul64]
  by_cases hNull : ptr = 0 ∨ k.memBase = 0 ∨ k.totalPages = 0 ∨ k.bitmap = 0
  · exact ⟨[], by rw [if_pos hNull]; simp⟩
  · have hRange : ptr < k.memBase ∨ (ptr + numPages * pageSize) % 2 ^ 64 >
        (k.memBase + k.totalPages * pageSize) % 2 ^ 64 := by
      unfold Rejects wrappedEnd at hRej
      tauto
    rw [if_neg hNull, if_pos hRange]
    exact ⟨_, rfl⟩

/-- An accepted call marks the `num_pages` bits from that of `ptr` on. -/
theorem reservePage_accept {ptr numPages : Nat} (hAcc : ¬ Rejects k ptr numPages) :
    ∃ c, reservePage ptr numPages k =
      (true, { k with
        mem := forRange 0 numPages
          (fun i m => setBit k.bitmapByte (add64 (pageIndex ptr k.memBase) i) m) k.mem
        console := k.console ++ c }) := by
  simp only [reservePage, add64_mul64]
  unfold Rejects wrappedEnd at hAcc
  rw [if_neg (by tauto), if_neg (by omega)]
  exact ⟨_, rfl⟩

/-- The page index of a range that lies inside the pool. -/
theorem pageIndex_inRange (h : Ready L k) {ptr numPages : Nat} (hLow : k.memBase ≤ ptr)
    (hHigh : ptr + numPages * pageSize ≤ k.memBase + k.totalPages * pageSize) :
    pageIndex ptr k.memBase = (ptr - k.memBase) / pageSize ∧
      (ptr - k.memBase) / pageSize + numPages ≤ k.totalPages := by
  have hTotal := h.total_le
  have hTop := h.top_lt
  refine ⟨pageIndex_eq hLow ?_ ?_, ?_⟩
  all_goals
    unfold pageSize at *
    omega

/-- **A range inside the pool is reserved**: its bits are set one by one. -/
theorem reservePage_inRange (h : Ready L k) {ptr numPages : Nat} (hBase : k.memBase ≠ 0)
    (hTotal : k.totalPages ≠ 0) (hLow : k.memBase ≤ ptr)
    (hHigh : ptr + numPages * pageSize ≤ k.memBase + k.totalPages * pageSize) :
    ∃ c, reservePage ptr numPages k =
      (true, { k with
        mem := forRange ((ptr - k.memBase) / pageSize) ((ptr - k.memBase) / pageSize + numPages)
          (setBit k.bitmapByte) k.mem
        console := k.console ++ c }) := by
  have hTop := h.top_lt
  have hBitmap : k.bitmap ≠ 0 := by
    have := L.toLayout.bitMapStart_pos
    rw [h.bitmap_eq]
    omega
  have hAcc : ¬ Rejects k ptr numPages := by
    rw [rejects_iff h, wrappedEnd, Nat.mod_eq_of_lt (by omega)]
    omega
  obtain ⟨c, hEq⟩ := reservePage_accept hAcc
  obtain ⟨hIndex, hRoom⟩ := pageIndex_inRange h hLow hHigh
  refine ⟨c, ?_⟩
  have hTotalLt := h.total_lt
  rw [hEq, hIndex]
  generalize (ptr - k.memBase) / pageSize = startIndex at hRoom ⊢
  have hLoop : forRange 0 numPages (fun i m => setBit k.bitmapByte (add64 startIndex i) m) k.mem =
      forRange 0 numPages (fun i => setBit k.bitmapByte (startIndex + i)) k.mem :=
    forRange_congr k.mem fun i t _ hi => by rw [add64_eq (by omega)]
  rw [hLoop, forRange_offset]

-- ---------------------------------------------------------------------------
-- Soundness of the bounds check
-- ---------------------------------------------------------------------------

/-- What a client may expect of `reserve_page(ptr, num_pages)`: true only for a
range of addresses inside the pool, with every bit it marks below `total_pages`;
false only with memory as it was. -/
structure ReserveSound (k : Kernel) (ptr numPages : Nat) : Prop where
  inside : (reservePage ptr numPages k).1 = true →
    k.memBase ≤ ptr ∧ ptr + numPages * pageSize ≤ k.memBase + k.totalPages * pageSize
  bits_lt : (reservePage ptr numPages k).1 = true →
    ∀ i, i < numPages → add64 (pageIndex ptr k.memBase) i < k.totalPages
  bits_kept : ∀ i, i < 2 ^ 64 → k.totalPages ≤ i →
    (reservePage ptr numPages k).2.bit i = k.bit i
  mem_kept : (reservePage ptr numPages k).1 = false → (reservePage ptr numPages k).2.mem = k.mem

/-- The sum in the bounds check does not wrap, or the call is rejected all the
same. -/
def ReserveInRange (k : Kernel) (ptr numPages : Nat) : Prop :=
  ptr + numPages * pageSize < 2 ^ 64 ∨ Rejects k ptr numPages

instance (k : Kernel) (ptr numPages : Nat) : Decidable (ReserveInRange k ptr numPages) :=
  inferInstanceAs (Decidable (_ ∨ _))

theorem reserveSound_of_rejects {ptr numPages : Nat} (hRej : Rejects k ptr numPages) :
    ReserveSound k ptr numPages := by
  obtain ⟨c, hEq⟩ := reservePage_reject hRej
  refine ⟨?_, ?_, ?_, ?_⟩ <;> rw [hEq]
  · exact fun h => absurd h Bool.false_ne_true
  · exact fun h => absurd h Bool.false_ne_true
  · exact fun i _ _ => rfl
  · exact fun _ => rfl

theorem reserveSound_of_inRange (h : Ready L k) {ptr numPages : Nat}
    (hAcc : ¬ Rejects k ptr numPages) (hFits : ptr + numPages * pageSize < 2 ^ 64) :
    ReserveSound k ptr numPages := by
  have hAcc' := hAcc
  rw [rejects_iff h, wrappedEnd, Nat.mod_eq_of_lt hFits] at hAcc'
  have hLow : k.memBase ≤ ptr := by omega
  have hHigh : ptr + numPages * pageSize ≤ k.memBase + k.totalPages * pageSize := by omega
  obtain ⟨hIndex, hRoom⟩ := pageIndex_inRange h hLow hHigh
  obtain ⟨c, hEq⟩ := reservePage_inRange h (by omega) (by omega) hLow hHigh
  have hTotal := h.total_lt
  refine ⟨fun _ => ⟨hLow, hHigh⟩, fun _ i hi => ?_, fun i hTop hi => ?_, ?_⟩
  · rw [hIndex, add64_eq (by omega)]
    omega
  · rw [hEq]
    exact (getBit_setRange k.bitmapByte_packed k.mem (Nat.le_add_right _ _) (by omega) hTop).trans
      (by rw [decide_eq_false (by omega), Bool.false_or]; rfl)
  · rw [hEq]
    exact fun h => absurd h (by simp)

/--
**`reserve_page` is sound exactly when its sum does not wrap**, or the call is
rejected anyway: for every state the static variables of which come from a
successful `page_init` on a region that ends below `2 ^ 64`, every pointer and
every page count.
-/
theorem reservePage_sound_iff {memStart memSize : Nat} (hInit : AfterInit L memStart memSize k)
    (hEnd : memStart + memSize < 2 ^ 64) (ptr numPages : Word) :
    ReserveSound k ptr.toNat numPages.toNat ↔ ReserveInRange k ptr.toNat numPages.toNat := by
  have hReady := hInit.ready hEnd
  by_cases hRej : Rejects k ptr.toNat numPages.toNat
  · exact iff_of_true (reserveSound_of_rejects hRej) (Or.inr hRej)
  · constructor
    · intro hSound
      obtain ⟨c, hEq⟩ := reservePage_accept hRej
      have hInside := hSound.inside (by rw [hEq])
      have hTop := hReady.top_lt
      exact Or.inl (by omega)
    · rintro (hFits | hRej')
      · exact reserveSound_of_inRange hReady hRej hFits
      · exact absurd hRej' hRej

/-- `2 ^ 52` pages are `2 ^ 64` bytes, which the check sees as none: the call is
accepted. -/
theorem reservePage_accepts_wrap :
    let k := (pageInit smallLayout 0x40000000 0x8000000 Kernel.coldStart).2
    AfterInit smallLayout 0x40000000 0x8000000 k ∧
      (reservePage 0x40000000 0x10000000000000 k).1 = true ∧
      k.memBase + k.totalPages * pageSize < 0x40000000 + 0x10000000000000 * pageSize ∧
      ¬ ReserveSound k 0x40000000 0x10000000000000 := by
  intro k
  have hTrue : (reservePage 0x40000000 0x10000000000000 k).1 = true := by decide
  have hPast : k.memBase + k.totalPages * pageSize < 0x40000000 + 0x10000000000000 * pageSize := by
    decide
  refine ⟨.of_pageInit (by decide), hTrue, hPast, fun hSound => ?_⟩
  have hInside := (hSound.inside hTrue).2
  omega

/-- One page of the image, reserved. -/
theorem reservePage_sound_iff_smallLayout :
    ReserveSound (pageInit smallLayout 0x40000000 0x8000000 Kernel.coldStart).2
      0x40001000 1 :=
  have hInit : AfterInit smallLayout 0x40000000 0x8000000
      (pageInit smallLayout 0x40000000 0x8000000 Kernel.coldStart).2 :=
    .of_pageInit (by decide)
  (reservePage_sound_iff hInit (by decide) 0x40001000 1).mpr (by decide)

end Kernalite
