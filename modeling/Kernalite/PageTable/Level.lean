import Kernalite.PageTable.Update

/-!
# Kernalite — one level of tables

`get_next_level_table` in a state that shows a forest, in three cases:

* `getNextLevelTable_present` — the table is there: nothing changes;
* `getNextLevelTable_full` — it is missing and no page is free: null, and only
  the console changes;
* `getNextLevelTable_link` — it is missing and the lowest free page becomes it:
  the forest grows by one node, and memory changes in the bitmap, in the new
  page and in the entry that links it.
-/

namespace Kernalite

open ByteMemory Words FirstFit PageTableEntry

variable {L : KernelLayout} {k : Kernel} {F : Forest} {l : Ledger}
  {root t : Nat} {path : List (Fin 512)} {i : Fin 512}

/-- The eight bytes of an entry. -/
def slotBytes (entry : Nat) : Extent := ⟨entry, 8⟩

theorem getNextLevelTable_present (h : PageTables L k F l) (hNode : F.node root path = some t)
    {next : Nat} (hNext : F.node root (path ++ [i]) = some next) :
    getNextLevelTable (entryAddr t i) k = (next, k) := by
  obtain ⟨hValid, hAddr⟩ := h.entry_some hNode hNext
  unfold entryAt at hValid hAddr
  rw [getNextLevelTable, if_pos hValid, paToVa_eq]
  exact congrArg (·, k) hAddr

/-- A missing table makes `get_next_level_table` allocate. -/
theorem getNextLevelTable_absent (h : PageTables L k F l) (hNode : F.node root path = some t)
    (hLen : path.length < 3) (hAbsent : F.node root (path ++ [i]) = none) :
    getNextLevelTable (entryAddr t i) k =
      match allocateNewTable (entryAddr t i) k with
      | (false, k') => (0, k')
      | (true, k') => (nextTable (entryAt k'.mem t i), k') := by
  have hZero := h.entry_none hNode hLen hAbsent
  unfold entryAt at hZero
  rw [getNextLevelTable, hZero, isValid_zero]
  simp only [Bool.false_eq_true, if_false, paToVa_eq]
  rcases allocateNewTable (entryAddr t i) k with ⟨ok, k'⟩
  cases ok <;> rfl

theorem getNextLevelTable_full (h : PageTables L k F l) (hNode : F.node root path = some t)
    (hLen : path.length < 3) (hAbsent : F.node root (path ++ [i]) = none)
    (hFull : firstFree k.used k.totalPages = none) :
    (getNextLevelTable (entryAddr t i) k).1 = 0 ∧
      SameStatics k (getNextLevelTable (entryAddr t i) k).2 ∧
      (getNextLevelTable (entryAddr t i) k).2.mem = k.mem := by
  have hStatic := pageAlloc_static 1 k
  rcases pageAlloc_one h.tracks with ⟨-, hNull, hMem, -⟩ | ⟨s, hFree, -⟩
  · rw [getNextLevelTable_absent h hNode hLen hAbsent, allocateNewTable]
    simp only [hNull, if_true]
    exact ⟨trivial, hStatic.trans ⟨rfl, rfl, rfl⟩, hMem⟩
  · rw [hFull] at hFree
    exact absurd hFree (by simp)

/--
**A new table.** The lowest free page is granted, cleared and linked; the
pointer returned is that page.
-/
theorem getNextLevelTable_link (h : PageTables L k F l) (hNode : F.node root path = some t)
    (hLen : path.length < 3) (hAbsent : F.node root (path ++ [i]) = none) {s : Nat}
    (hFree : firstFree k.used k.totalPages = some s) :
    (getNextLevelTable (entryAddr t i) k).1 = pageAddr k s ∧
      SameStatics k (getNextLevelTable (entryAddr t i) k).2 ∧
      (getNextLevelTable (entryAddr t i) k).2.used = take k.used s ∧
      PaddingKept L k (getNextLevelTable (entryAddr t i) k).2 ∧
      SameOutside (fun a => InBitmap L a ∨ (pages (pageAddr k s) 1).Contains a ∨
          (slotBytes (entryAddr t i)).Contains a)
        k.mem (getNextLevelTable (entryAddr t i) k).2.mem ∧
      ∃ hPos hUnowned hNew,
        PageTables L (getNextLevelTable (entryAddr t i) k).2
          (F.link root path i (pageAddr k s) ⟨t, hNode⟩ (Nat.succ_lt_succ hLen) hNew)
          (l.grant (pages (pageAddr k s) 1) hPos hUnowned) := by
  rcases pageAlloc_one h.tracks with ⟨hFull, -⟩ | ⟨s', hFree', hPtr, hUsed, hPos, hUnowned, hTracks⟩
  · rw [hFree] at hFull
    exact absurd hFull (by simp)
  rw [hFree] at hFree'
  obtain rfl : s = s' := Option.some.inj hFree'
  have hAllocStatic := pageAlloc_static 1 k
  have hAllocFrame := pageAlloc_frame h.tracks.ready 1
  have hNew : ¬ F.Has (pageAddr k s) := h.not_has_of_unowned hUnowned
  -- granted
  have hGranted := h.frame_pageAlloc 1 hTracks fun e he => List.mem_cons_of_mem _ he
  have hLive : pages (pageAddr k s) 1 ∈ (l.grant (pages (pageAddr k s) 1) hPos hUnowned).live :=
    List.mem_cons_self
  -- cleared
  obtain ⟨hCleared, hInitStatic, hInitUsed, hInitFrame, hZero⟩ :=
    pageTableInit_keeps hGranted hLive hNew
  generalize hInit : pageTableInit (pageAddr k s) (pageAlloc 1 k).2 = k₂ at *
  -- linked
  have hLinked := hCleared.link hNode (Nat.succ_lt_succ hLen) hAbsent hLive hNew hZero
  have hBounds := hCleared.tracks.page_bounds hCleared.top_le hLive
  have hEntry := hCleared.entry_none hNode hLen hAbsent
  have hCall : getNextLevelTable (entryAddr t i) k =
      (pageAddr k s, { k₂ with
        mem := store64 k₂.mem (entryAddr t i) (tableEntry (BitVec.ofNat 64 (pageAddr k s))) }) := by
    rw [getNextLevelTable_absent h hNode hLen hAbsent, allocateNewTable]
    simp only [hPtr, Nat.ne_of_gt hBounds.2.1, if_false, vaToPa_eq, hInit]
    rw [setNextLevelTable_eq _ _ _ hEntry, entryAt, load64_store64_same]
    have hTop := hBounds.2.2
    unfold pageSize at hTop
    exact congrArg (·, _) (getAddress_tableEntry hBounds.1 (by omega))
  rw [hCall]
  refine ⟨rfl, (hAllocStatic.trans hInitStatic).trans ⟨rfl, rfl, rfl⟩, ?_, ?_, ?_, hPos, hUnowned,
    hNew, hLinked⟩
  · rw [hCleared.used_store ⟨root, path, hNode⟩, hInitUsed, hUsed]
  · refine (pageAlloc_padding h.tracks.ready 1).trans hAllocStatic.totalPages_eq
      (hTracks.ready.paddingKept (hInitStatic.trans ⟨rfl, rfl, rfl⟩) fun a ha => ?_)
    have hStored := hCleared.store_bitmap (i := i) ⟨root, path, hNode⟩
      (tableEntry (BitVec.ofNat 64 (pageAddr k s))) a ha
    exact hStored.trans (hInitFrame a fun hIn => hTracks.live_not_inBitmap hLive hIn ha)
  · have hStore := sameOutside_store64 k₂.mem (entryAddr t i)
      (tableEntry (BitVec.ofNat 64 (pageAddr k s)))
    exact ((hAllocFrame.mono fun a ha => Or.inl ha).trans
      (hInitFrame.mono fun a ha => Or.inr (Or.inl ha))).trans
      (hStore.mono fun a ha => Or.inr (Or.inr ha))

end Kernalite
