import Kernalite.Lib.RadixForest
import Kernalite.Allocator.Tracking
import Kernalite.PageTable.Walk

/-!
# Kernalite — page tables as a forest

The abstract picture of all page tables: a `RadixForest` of depth four whose
nodes are the addresses of tables and whose leaves are the mappings asked for.
`PageTables L k F l` says that memory shows this forest entry by entry, and that
every table is a page of its own in the allocator's ledger. From it:

* `PageTables.tableAt_eq`, `PageTables.walk_eq` — what a walk through memory
  finds is what the forest says;
* `PageTables.frame` — memory traffic outside the tables and the bitmap does not
  matter.
-/

namespace Kernalite

open ByteMemory Words PageTableEntry

/-- What a `map_page` call asked for. -/
structure Mapping where
  phyAddr : BitVec 64
  perms : PagePermissions
  deriving DecidableEq

/-- The level 3 descriptor of a mapping. -/
def Mapping.entry (mapping : Mapping) : PageTableEntry := leafEntry mapping.phyAddr mapping.perms

/-- The four-level tables of all roots. -/
abbrev Forest := RadixForest Nat (Fin 512) Mapping 4

/-- The entry in slot `idx` of the table at `path`. -/
def Forest.entry (F : Forest) (root : Nat) (path : List (Fin 512)) (idx : Fin 512) :
    PageTableEntry :=
  match F.node root (path ++ [idx]) with
  | some table => tableEntry (BitVec.ofNat 64 table)
  | none => (F.leaf root (path ++ [idx])).elim 0 Mapping.entry

theorem Forest.entry_of_node_none {F : Forest} {root : Nat} {path : List (Fin 512)} {idx : Fin 512}
    (h : F.node root (path ++ [idx]) = none) :
    F.entry root path idx = (F.leaf root (path ++ [idx])).elim 0 Mapping.entry := by
  rw [Forest.entry, h]

/-- Writing a leaf changes the entry in its slot and no other. -/
theorem Forest.entry_setLeaf {F : Forest} {root : Nat} {path : List (Fin 512)} {i : Fin 512}
    {mapping : Mapping} {hParent : ∃ m, F.node root path = some m} {hLen : path.length + 1 = 4}
    (root' : Nat) (path' : List (Fin 512)) (j : Fin 512) :
    Forest.entry (F.setLeaf root path i mapping hParent hLen) root' path' j =
      if root' = root ∧ path' ++ [j] = path ++ [i] then mapping.entry
      else F.entry root' path' j := by
  by_cases hSlot : root' = root ∧ path' ++ [j] = path ++ [i]
  · have hDeep : 4 ≤ (path' ++ [j]).length := by
      rw [hSlot.2, List.length_append, List.length_singleton, hLen]
    rw [if_pos hSlot, Forest.entry_of_node_none (RadixForest.node_eq_none_of_length _ hDeep root'),
      RadixForest.leaf_setLeaf, if_pos hSlot]
    rfl
  · rw [if_neg hSlot, Forest.entry, Forest.entry, RadixForest.leaf_setLeaf, if_neg hSlot]
    rfl

/-- Memory shows every entry of every table of the forest. -/
def Represents (m : Mem) (F : Forest) : Prop :=
  ∀ root path table, F.node root path = some table →
    ∀ idx, entryAt m table idx = F.entry root path idx

/-- The address lies in a table of the forest. -/
def InTables (F : Forest) (a : Nat) : Prop := ∃ table, F.Has table ∧ (pages table 1).Contains a

/-- The allocator is sound, every table is a page granted by it below `2 ^ 48`,
and memory shows the forest. -/
structure PageTables (L : KernelLayout) (k : Kernel) (F : Forest) (l : Ledger) : Prop where
  tracks     : Tracks L k l
  top_le     : pageAddr k k.totalPages ≤ 2 ^ 48
  node_live  : ∀ table, F.Has table → pages table 1 ∈ l.live
  represents : Represents k.mem F

section PageTables

variable {L : KernelLayout} {k k' : Kernel} {F : Forest} {l : Ledger}

/-- A live page is aligned, non-null and below `2 ^ 48`. -/
theorem Tracks.page_bounds (h : Tracks L k l) (hTop : pageAddr k k.totalPages ≤ 2 ^ 48) {p : Nat}
    (hLive : pages p 1 ∈ l.live) : p % pageSize = 0 ∧ 0 < p ∧ p + pageSize ≤ 2 ^ 48 := by
  have hIn := h.live_in _ hLive
  have hBase := h.base_pos
  have hLow : k.memBase ≤ p := hIn.low
  have hHigh : p + 1 * pageSize ≤ pageAddr k k.totalPages := hIn.high
  exact ⟨hIn.start_aligned, by omega, by omega⟩

theorem PageTables.table_bounds (h : PageTables L k F l) {table : Nat} (hHas : F.Has table) :
    table % pageSize = 0 ∧ 0 < table ∧ table + pageSize ≤ 2 ^ 48 :=
  h.tracks.page_bounds h.top_le (h.node_live table hHas)

/-- Slot addresses do not wrap. -/
theorem PageTables.entryAddr_eq (h : PageTables L k F l) {table : Nat} (hHas : F.Has table)
    (idx : Fin 512) : entryAddr table idx = table + 8 * idx := by
  have hTop := (h.table_bounds hHas).2.2
  exact Kernalite.entryAddr_eq (by omega) idx

/-- Each of the eight bytes of a slot lies in its table. -/
theorem PageTables.slot_inTables (h : PageTables L k F l) {table : Nat} (hHas : F.Has table)
    {idx : Fin 512} {a : Nat} (hlo : entryAddr table idx ≤ a) (hhi : a < entryAddr table idx + 8) :
    (pages table 1).Contains a := by
  rw [h.entryAddr_eq hHas] at hlo hhi
  have := idx.isLt
  refine ⟨show table ≤ a by omega, ?_⟩
  change a < table + 1 * pageSize
  unfold pageSize
  omega

theorem PageTables.inTables_live (h : PageTables L k F l) {a : Nat} (ha : InTables F a) :
    ∃ e ∈ l.live, e.Contains a := by
  obtain ⟨table, hHas, hIn⟩ := ha
  exact ⟨_, h.node_live table hHas, hIn⟩

theorem PageTables.inTables_not_inBitmap (h : PageTables L k F l) {a : Nat} (ha : InTables F a) :
    ¬ InBitmap L a := by
  obtain ⟨e, he, hea⟩ := h.inTables_live ha
  exact h.tracks.live_not_inBitmap he hea

-- ---------------------------------------------------------------------------
-- Walks
-- ---------------------------------------------------------------------------

/-- An entry that links a table of the forest is valid and leads to it. -/
theorem PageTables.tableEntry_spec (h : PageTables L k F l) {table : Nat} (hHas : F.Has table) :
    isValid (tableEntry (BitVec.ofNat 64 table)) = true ∧
      nextTable (tableEntry (BitVec.ofNat 64 table)) = table := by
  obtain ⟨hAligned, -, hTop⟩ := h.table_bounds hHas
  unfold pageSize at hTop
  exact ⟨tableEntry_valid _, getAddress_tableEntry hAligned (by omega)⟩

/-- The entry of a present table. -/
theorem PageTables.entry_some (h : PageTables L k F l) {root table next : Nat}
    {path : List (Fin 512)} {idx : Fin 512} (hNode : F.node root path = some table)
    (hNext : F.node root (path ++ [idx]) = some next) :
    isValid (entryAt k.mem table idx) = true ∧ nextTable (entryAt k.mem table idx) = next := by
  rw [h.represents root path table hNode idx, Forest.entry, hNext]
  exact h.tableEntry_spec ⟨root, _, hNext⟩

/-- Above level 3 the entry of an absent table is zero. -/
theorem PageTables.entry_none (h : PageTables L k F l) {root table : Nat}
    {path : List (Fin 512)} {idx : Fin 512} (hNode : F.node root path = some table)
    (hLen : path.length < 3) (hNext : F.node root (path ++ [idx]) = none) :
    entryAt k.mem table idx = 0 := by
  have hLeaf : F.leaf root (path ++ [idx]) = none := by
    cases hCase : F.leaf root (path ++ [idx]) with
    | none => rfl
    | some v =>
      have := (F.leaf_parent _ _ _ _ hCase).1
      omega
  rw [h.represents root path table hNode idx, Forest.entry, hNext, hLeaf]
  rfl

/-- **Following valid entries is following the forest.** -/
theorem PageTables.tableAt_eq (h : PageTables L k F l) {root table : Nat} {path : List (Fin 512)}
    (hNode : F.node root path = some table) (rest : List (Fin 512))
    (hLen : path.length + rest.length < 4) :
    tableAt k.mem table rest = F.node root (path ++ rest) := by
  induction rest generalizing path table with
  | nil => rw [tableAt, List.append_nil, hNode]
  | cons idx rest ih =>
    rw [List.length_cons] at hLen
    rw [tableAt, List.append_cons]
    cases hNext : F.node root (path ++ [idx]) with
    | some next =>
      obtain ⟨hValid, hAddr⟩ := h.entry_some hNode hNext
      rw [if_pos hValid, hAddr]
      exact ih hNext (by rw [List.length_append, List.length_singleton]; omega)
    | none =>
      rw [h.entry_none hNode (by omega) hNext, isValid_zero, F.node_append_eq_none hNext]
      rfl

/-- **A walk finds the mapping of the forest.** -/
theorem PageTables.walk_eq (h : PageTables L k F l) {root : Nat}
    (hNode : F.node root [] = some root) (vAddr : BitVec 64) :
    walk k.mem root vAddr = (F.leaf root (vaPath vAddr)).map Mapping.entry := by
  rw [walk, h.tableAt_eq hNode (tablePath vAddr) (by simp [tablePath]), List.nil_append, vaPath]
  cases hTable : F.node root (tablePath vAddr) with
  | none =>
    rw [F.leaf_append_eq_none hTable (by simp)]
    rfl
  | some level3 =>
    have hBelow : F.node root (tablePath vAddr ++ [l3Idx vAddr]) = none :=
      F.node_eq_none_of_length (by simp [tablePath]) root
    rw [Option.bind_some, h.represents _ _ _ hTable, Forest.entry, hBelow]
    cases F.leaf root (tablePath vAddr ++ [l3Idx vAddr]) with
    | none =>
      change (if isValid 0 then _ else _) = _
      rw [isValid_zero]
      rfl
    | some mapping =>
      change (if isValid mapping.entry then _ else _) = _
      rw [Mapping.entry, leafEntry_valid]
      rfl

-- ---------------------------------------------------------------------------
-- Frames
-- ---------------------------------------------------------------------------

theorem Represents.congr {m m' : Mem} (h : Represents m F)
    (hSlot : ∀ table, F.Has table → ∀ idx, entryAt m' table idx = entryAt m table idx) :
    Represents m' F := by
  intro root path table hNode idx
  rw [hSlot table ⟨root, path, hNode⟩ idx]
  exact h root path table hNode idx

/-- Entries do not change when no byte of a table does. -/
theorem PageTables.entryAt_eq (h : PageTables L k F l) {m : Mem}
    (hMem : ∀ a, InTables F a → m a = k.mem a) {table : Nat} (hHas : F.Has table) (idx : Fin 512) :
    entryAt m table idx = entryAt k.mem table idx :=
  load64_congr fun a hlo hhi => hMem a ⟨table, hHas, h.slot_inTables hHas hlo hhi⟩

/-- **Frame rule.** Whatever leaves the tables alone and moves the allocator to a
ledger that still holds them keeps the picture. -/
theorem PageTables.frame (h : PageTables L k F l) {l' : Ledger} (hTracks : Tracks L k' l')
    (hStatic : SameStatics k k') (hLive : ∀ table, F.Has table → pages table 1 ∈ l'.live)
    (hMem : ∀ a, InTables F a → k'.mem a = k.mem a) : PageTables L k' F l' := by
  refine ⟨hTracks, ?_, hLive, h.represents.congr fun table hHas idx => h.entryAt_eq hMem hHas idx⟩
  have hTop := h.top_le
  unfold pageAddr at *
  rwa [hStatic.memBase_eq, hStatic.totalPages_eq]

/-- The console is no part of the picture. -/
theorem PageTables.printed (h : PageTables L k F l) (calls : List (String × List Arg)) :
    PageTables L (k.printed calls) F l := by
  have hStatic : SameStatics k (k.printed calls) := ⟨rfl, rfl, rfl⟩
  exact h.frame (h.tracks.of_bitmap hStatic fun _ _ => rfl) hStatic h.node_live fun _ _ => rfl

end PageTables

end Kernalite
