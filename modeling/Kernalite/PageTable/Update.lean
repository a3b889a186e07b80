import Kernalite.Lib.FirstFit
import Kernalite.PageTable.Forest

/-!
# Kernalite — changing the tables

The four things that happen to page tables in memory, each with the forest it
leaves: a page is granted (`PageTables.pageAlloc`), a live page is cleared
(`pageTableInit_keeps`), a cleared page becomes a root or is linked below a
table (`PageTables.plant`, `PageTables.link`), and a leaf is written
(`PageTables.setLeaf`). All functions of `page_table.c` are made of these.
-/

namespace Kernalite

open ByteMemory PackedBits Words FirstFit PageTableEntry

variable {L : KernelLayout} {k k' : Kernel} {F : Forest} {l : Ledger}

-- ---------------------------------------------------------------------------
-- Single pages
-- ---------------------------------------------------------------------------

/-- Below `total_pages` the used row is the bitmap. -/
theorem used_of_lt {i : Nat} (hi : i < k.totalPages) : k.used i = k.bit i := by
  rw [Kernel.used, decide_eq_true hi, Bool.true_and]

/-- Two kernels whose bitmaps agree on the pool have the same used row. -/
theorem used_congr (hTotal : k'.totalPages = k.totalPages)
    (hBits : ∀ i, i < k.totalPages → k'.bit i = k.bit i) : k'.used = k.used := by
  funext i
  by_cases hi : i < k.totalPages
  · rw [used_of_lt hi, used_of_lt (hTotal ▸ hi), hBits i hi]
  · simp [Kernel.used, hTotal, hi]

/-- The used row follows the memory of the bitmap area. -/
theorem Tracks.used_eq (h : Tracks L k l) (hStatic : SameStatics k k')
    (hMem : ∀ a, InBitmap L a → k'.mem a = k.mem a) : k'.used = k.used := by
  refine used_congr hStatic.totalPages_eq fun i hi => ?_
  obtain ⟨hEq, hIn⟩ := h.ready.bitmapByte_eq hi
  rw [Kernel.bit, Kernel.bit, hStatic.bitmapByte_eq]
  exact getBit_congr (hMem _ (hEq ▸ ⟨by omega, hIn⟩))

/-- `page_alloc(1)` takes the lowest free page, as long as there is one. -/
theorem pageAlloc_one (h : Tracks L k l) :
    (firstFree k.used k.totalPages = none ∧ (pageAlloc 1 k).1 = 0 ∧
      (pageAlloc 1 k).2.mem = k.mem ∧ Tracks L (pageAlloc 1 k).2 l) ∨
    ∃ s, firstFree k.used k.totalPages = some s ∧ (pageAlloc 1 k).1 = pageAddr k s ∧
      (pageAlloc 1 k).2.used = take k.used s ∧
      ∃ hPos hFree,
        Tracks L (pageAlloc 1 k).2 (l.grant (pages (pageAddr k s) 1) hPos hFree) := by
  have hRow : ∀ j, j < k.totalPages → k.used j = k.bit j := fun j hj => used_of_lt hj
  have hStatic := pageAlloc_static 1 k
  rcases pageAlloc_tracks h 1 with ⟨hNone, hNull, hMem, hNext⟩ | ⟨s, hFirst, hPtr, hPos, hFree, hNext⟩
  · refine Or.inl ⟨?_, hNull, hMem, hNext⟩
    cases hCase : firstFree k.used k.totalPages with
    | none => rfl
    | some s =>
      have hFit := ((firstFree_isFirstFit hCase).congr fun j hj => (hRow j hj).symm).fits
      exact absurd hFit ((hNone s).resolve_left Nat.one_ne_zero)
  · refine Or.inr ⟨s, firstFree_of_isFirstFit (hFirst.congr hRow), hPtr, ?_, hPos, hFree, hNext⟩
    have hTop := hFirst.fits.1
    funext i
    by_cases hi : i < k.totalPages
    · have hAddr : pageAddr (pageAlloc 1 k).2 i = pageAddr k i := by
        rw [pageAddr, hStatic.memBase_eq, pageAddr]
      have hi' : i < (pageAlloc 1 k).2.totalPages := hStatic.totalPages_eq ▸ hi
      rw [take, used_of_lt hi, used_of_lt hi', Bool.eq_iff_iff, hNext.bits i hi', hAddr,
        Ledger.occupied_grant, pages_contains_iff, ← h.bits i hi, Bool.or_eq_true, decide_eq_true_eq]
      have hOne : s ≤ i ∧ i < s + 1 ↔ i = s := by omega
      rw [hOne]
    · have hne : i ≠ s := by omega
      simp [Kernel.used, take, hStatic.totalPages_eq, hi, hne]

-- ---------------------------------------------------------------------------
-- Slots
-- ---------------------------------------------------------------------------

/-- Different slots do not overlap. -/
theorem PageTables.slot_apart (h : PageTables L k F l) {t u : Nat} (ht : F.Has t) (hu : F.Has u)
    {i j : Fin 512} (hne : ¬ (u = t ∧ j = i)) :
    entryAddr t i + 8 ≤ entryAddr u j ∨ entryAddr u j + 8 ≤ entryAddr t i := by
  have hAlignedT := (h.table_bounds ht).1
  have hAlignedU := (h.table_bounds hu).1
  have hi := i.isLt
  have hj := j.isLt
  have hDiffers : u ≠ t ∨ j.val ≠ i.val := by
    by_cases hTable : u = t
    · exact Or.inr fun hIdx => hne ⟨hTable, Fin.ext hIdx⟩
    · exact Or.inl hTable
  rw [h.entryAddr_eq ht, h.entryAddr_eq hu]
  unfold pageSize at *
  omega

/-- Entries other than the one written stay as they are. -/
theorem PageTables.entryAt_store (h : PageTables L k F l) {t u : Nat} (ht : F.Has t)
    (hu : F.Has u) {i j : Fin 512} (v : PageTableEntry) (m : Mem) :
    entryAt (store64 m (entryAddr t i) v) u j = if u = t ∧ j = i then v else entryAt m u j := by
  split_ifs with hSame
  · rw [entryAt, hSame.1, hSame.2, load64_store64_same]
  · exact load64_store64_apart (h.slot_apart ht hu hSame).symm

-- ---------------------------------------------------------------------------
-- Pages
-- ---------------------------------------------------------------------------

/-- A granted page is not a table yet. -/
theorem PageTables.not_has_of_unowned (h : PageTables L k F l) {p : Nat}
    (hUnowned : ∀ a, (pages p 1).Contains a → ¬ l.Occupied a) : ¬ F.Has p := by
  intro hHas
  have hSelf := pages_contains_self p
  exact hUnowned p hSelf (Or.inl ⟨_, h.node_live p hHas, hSelf⟩)

/-- `page_alloc` by anyone keeps the tables. -/
theorem PageTables.frame_pageAlloc (h : PageTables L k F l) (n : Nat) {l' : Ledger}
    (hTracks : Tracks L (pageAlloc n k).2 l') (hKept : ∀ e ∈ l.live, e ∈ l'.live) :
    PageTables L (pageAlloc n k).2 F l' :=
  h.frame hTracks (pageAlloc_static n k) (fun table hHas => hKept _ (h.node_live table hHas))
    fun a ha => pageAlloc_frame h.tracks.ready n a (h.inTables_not_inBitmap ha)

/-- Clearing a live page that is not a table keeps the tables. -/
theorem pageTableInit_keeps (h : PageTables L k F l) {p : Nat} (hLive : pages p 1 ∈ l.live)
    (hNew : ¬ F.Has p) :
    PageTables L (pageTableInit p k) F l ∧ SameStatics k (pageTableInit p k) ∧
      (pageTableInit p k).used = k.used ∧
      SameOutside (pages p 1).Contains k.mem (pageTableInit p k).mem ∧
      ∀ a, (pages p 1).Contains a → (pageTableInit p k).mem a = 0 := by
  obtain ⟨-, -, hTop⟩ := h.tracks.page_bounds h.top_le hLive
  have hStatic : SameStatics k (pageTableInit p k) := by
    constructor <;> simp only [pageTableInit]
  have hRoom : p + pageSize ≤ 2 ^ 64 := by omega
  have hMem := pageTableInit_mem k hRoom
  have hContains : ∀ a, (pages p 1).Contains a ↔ p ≤ a ∧ a < p + pageSize := by
    intro a
    rw [Extent.Contains, pages, Nat.one_mul]
  have hFrame : SameOutside (pages p 1).Contains k.mem (pageTableInit p k).mem := by
    intro a ha
    rw [hMem, if_neg (fun hIn => ha ((hContains a).mpr hIn))]
  have hBitmap : ∀ a, InBitmap L a → (pageTableInit p k).mem a = k.mem a := fun a ha =>
    hFrame a fun hIn => h.tracks.live_not_inBitmap hLive hIn ha
  refine ⟨h.frame (h.tracks.of_bitmap hStatic hBitmap) hStatic h.node_live ?_, hStatic,
    h.tracks.used_eq hStatic hBitmap, hFrame, fun a ha => ?_⟩
  · rintro a ⟨table, hHas, hIn⟩
    refine hFrame a fun hIn' => hNew ?_
    by_contra hNot
    refine l.disjoint_of_ne (h.node_live table hHas) hLive ?_ a hIn hIn'
    intro hEq
    have hSame : table = p := congrArg Extent.start hEq
    exact hNot (hSame ▸ hHas)
  · rw [hMem, if_pos ((hContains a).mp ha)]

/-- The entries of a cleared page. -/
theorem entryAt_cleared {m : Mem} {p : Nat} (hTop : p + pageSize ≤ 2 ^ 64)
    (hZero : ∀ a, (pages p 1).Contains a → m a = 0) (idx : Fin 512) : entryAt m p idx = 0 := by
  have hIdx := idx.isLt
  refine load64_of_zero fun a hlo hhi => hZero a ?_
  rw [entryAddr_eq hTop] at hlo hhi
  refine ⟨show p ≤ a by omega, ?_⟩
  change a < p + 1 * pageSize
  unfold pageSize
  omega

-- ---------------------------------------------------------------------------
-- The forest grows
-- ---------------------------------------------------------------------------

/-- A cleared live page becomes a root. -/
theorem PageTables.plant (h : PageTables L k F l) {p : Nat} (hLive : pages p 1 ∈ l.live)
    (hNew : ¬ F.Has p) (hZero : ∀ a, (pages p 1).Contains a → k.mem a = 0) :
    PageTables L k (F.plant p (by decide) hNew) l := by
  obtain ⟨-, -, hTop⟩ := h.tracks.page_bounds h.top_le hLive
  refine ⟨h.tracks, h.top_le, ?_, ?_⟩
  · rintro table ⟨root, path, hNode⟩
    rw [RadixForest.node_plant] at hNode
    split_ifs at hNode with hCase
    · rw [← Option.some.inj hNode]
      exact hLive
    · exact h.node_live table ⟨root, path, hNode⟩
  · intro root path table hNode idx
    have hEntry : Forest.entry (F.plant p (by omega) hNew) root path idx =
        F.entry root path idx := by
      rw [Forest.entry, Forest.entry, RadixForest.node_plant, if_neg (by simp)]
      rfl
    rw [hEntry]
    rw [RadixForest.node_plant] at hNode
    split_ifs at hNode with hCase
    · -- nothing hangs below the new root
      obtain ⟨rfl, rfl⟩ := hCase
      rw [← Option.some.inj hNode, entryAt_cleared (by omega) hZero]
      have hNone : F.node root [] = none := by
        cases hRoot : F.node root [] with
        | none => rfl
        | some m =>
          rw [F.node_root _ _ hRoot] at hRoot
          exact absurd ⟨root, [], hRoot⟩ hNew
      rw [Forest.entry, F.node_append_eq_none hNone, F.leaf_append_eq_none hNone (by simp)]
      rfl
    · exact h.represents root path table hNode idx

section Store

variable {root t : Nat} {path : List (Fin 512)} {i : Fin 512}

/-- A write to an entry of a table does not reach the bitmap. -/
theorem PageTables.store_bitmap (h : PageTables L k F l) (hHas : F.Has t) (v : PageTableEntry) :
    ∀ a, InBitmap L a → store64 k.mem (entryAddr t i) v a = k.mem a := by
  intro a ha
  refine store64_outside ?_
  by_contra hSlot
  have hIn : (pages t 1).Contains a :=
    h.slot_inTables hHas (show entryAddr t i ≤ a by omega) (by omega)
  exact h.inTables_not_inBitmap ⟨t, hHas, hIn⟩ ha

theorem PageTables.tracks_store (h : PageTables L k F l) (hHas : F.Has t) (v : PageTableEntry) :
    Tracks L { k with mem := store64 k.mem (entryAddr t i) v } l :=
  h.tracks.of_bitmap ⟨rfl, rfl, rfl⟩ (h.store_bitmap hHas v)

theorem PageTables.used_store (h : PageTables L k F l) (hHas : F.Has t) (v : PageTableEntry) :
    ({ k with mem := store64 k.mem (entryAddr t i) v } : Kernel).used = k.used :=
  h.tracks.used_eq ⟨rfl, rfl, rfl⟩ (h.store_bitmap hHas v)

/-- A cleared live page is linked below a table. -/
theorem PageTables.link (h : PageTables L k F l) {p : Nat} (hNode : F.node root path = some t)
    (hLen : path.length + 1 < 4) (hAbsent : F.node root (path ++ [i]) = none)
    (hLive : pages p 1 ∈ l.live) (hNew : ¬ F.Has p)
    (hZero : ∀ a, (pages p 1).Contains a → k.mem a = 0) :
    PageTables L
      { k with mem := store64 k.mem (entryAddr t i) (tableEntry (BitVec.ofNat 64 p)) }
      (F.link root path i p ⟨t, hNode⟩ hLen hNew) l := by
  obtain ⟨-, -, hTop⟩ := h.tracks.page_bounds h.top_le hLive
  have hHas : F.Has t := ⟨root, path, hNode⟩
  refine ⟨h.tracks_store hHas _, h.top_le, ?_, ?_⟩
  · rintro table ⟨root', path', hNode'⟩
    rw [RadixForest.node_link] at hNode'
    split_ifs at hNode' with hCase
    · rw [← Option.some.inj hNode']
      exact hLive
    · exact h.node_live table ⟨root', path', hNode'⟩
  · intro root' path' u hNode' j
    rw [RadixForest.node_link] at hNode'
    split_ifs at hNode' with hCase
    · -- the new table is still all zero
      obtain ⟨rfl, rfl⟩ := hCase
      obtain rfl : p = u := Option.some.inj hNode'
      have hEntry : entryAt (store64 k.mem (entryAddr t i) (tableEntry (BitVec.ofNat 64 p))) p j
          = 0 := by
        refine entryAt_cleared (by omega) (fun a ha => ?_) j
        rw [store64_outside, hZero a ha]
        by_contra hSlot
        have hIn : (pages t 1).Contains a :=
          h.slot_inTables hHas (show entryAddr t i ≤ a by omega) (by omega)
        refine l.disjoint_of_ne (h.node_live t hHas) hLive ?_ a hIn ha
        intro hEq
        have hSame : t = p := congrArg Extent.start hEq
        exact hNew (hSame ▸ hHas)
      rw [hEntry, Forest.entry, RadixForest.node_link, if_neg (by simp),
        F.node_append_eq_none hAbsent]
      change 0 = (F.leaf root' (path ++ [i] ++ [j])).elim 0 Mapping.entry
      rw [F.leaf_append_eq_none hAbsent (by simp)]
      rfl
    · have hHas' : F.Has u := ⟨root', path', hNode'⟩
      rw [h.entryAt_store hHas hHas', Forest.entry, RadixForest.node_link]
      by_cases hSlot : root' = root ∧ path' ++ [j] = path ++ [i]
      · -- the entry that was written
        obtain ⟨rfl, hPath⟩ := hSlot
        obtain ⟨rfl, hIdx⟩ := List.append_inj' hPath rfl
        obtain rfl : u = t := Option.some.inj (hNode'.symm.trans hNode)
        obtain rfl : j = i := List.singleton_inj.mp hIdx
        rw [if_pos ⟨rfl, rfl⟩, if_pos ⟨rfl, rfl⟩]
      · rw [if_neg hSlot, if_neg]
        · exact h.represents root' path' u hNode' j
        · rintro ⟨rfl, rfl⟩
          obtain ⟨hRoot, hPath⟩ := F.node_inj _ _ _ _ _ hNode' hNode
          exact hSlot ⟨hRoot, by rw [hPath]⟩

/-- A leaf is written into a level 3 table. -/
theorem PageTables.setLeaf (h : PageTables L k F l) (hNode : F.node root path = some t)
    (hLen : path.length + 1 = 4) (mapping : Mapping) :
    PageTables L { k with mem := store64 k.mem (entryAddr t i) mapping.entry }
      (F.setLeaf root path i mapping ⟨t, hNode⟩ hLen) l := by
  have hHas : F.Has t := ⟨root, path, hNode⟩
  refine ⟨h.tracks_store hHas _, h.top_le, h.node_live, ?_⟩
  intro root' path' u hNode' j
  have hHas' : F.Has u := ⟨root', path', hNode'⟩
  rw [h.entryAt_store hHas hHas', Forest.entry_setLeaf]
  by_cases hSlot : root' = root ∧ path' ++ [j] = path ++ [i]
  · obtain ⟨rfl, hPath⟩ := hSlot
    obtain ⟨rfl, hIdx⟩ := List.append_inj' hPath rfl
    obtain rfl : u = t := Option.some.inj (hNode'.symm.trans hNode)
    obtain rfl : j = i := List.singleton_inj.mp hIdx
    rw [if_pos ⟨rfl, rfl⟩, if_pos ⟨rfl, rfl⟩]
  · rw [if_neg hSlot, if_neg]
    · exact h.represents root' path' u hNode' j
    · rintro ⟨rfl, rfl⟩
      obtain ⟨hRoot, hPath⟩ := F.node_inj _ _ _ _ _ hNode' hNode
      exact hSlot ⟨hRoot, by rw [hPath]⟩

end Store

end Kernalite
