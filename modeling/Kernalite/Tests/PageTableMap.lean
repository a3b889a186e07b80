import Kernalite.PageTable.Order
import Kernalite.PageTable.Truncation

/-!
# Kernalite — the page table test

`tests/page_table_map_test.c` maps pages and walks the tables with code of its own
(`verify_map`). Here the walk and one mapping test are compared with what `map_page` does
in a running system.

* `verifyMap_iff` — what the walk accepts;
* `testPageTableMapping_iff` — when a mapping test passes: the walk finds nothing wrong
  with a mapping that succeeds, except an address a descriptor has no room for.
-/

namespace Kernalite

open ByteMemory Words FirstFit PageTableEntry

/-- `EXPECT(cond)`, with the text of `cond`; `rest` is the function's remainder. -/
def expect (text : String) (cond : Bool) (k : Kernel) (rest : Bool × Kernel) : Bool × Kernel :=
  if cond then rest else (false, k.kprintf "Test failed: %s\n" [.str text])

/-- `get_next_level_table(entry)` of the test. -/
def nextLevelTable (entry : PageTableEntry) : Nat :=
  if !isValid entry then 0 else (getPageTableEntryAddress entry).toNat

/-- `verify_map(root, v_addr, expected_pa, expected_perms)`; the permissions are not looked at. -/
def verifyMap (root : Nat) (vAddr expectedPa : BitVec 64) (_expectedPerms : PagePermissions)
    (k : Kernel) : Bool × Kernel :=
  let entry0 := entryAt k.mem root (l0Idx vAddr)
  expect "root->entries[l0_idx].value" (entry0 != 0) k <|
  let level1 := nextLevelTable entry0
  expect "level1 != NULL" (level1 != 0) k <|
  let entry1 := entryAt k.mem level1 (l1Idx vAddr)
  expect "level1->entries[l1_idx].value" (entry1 != 0) k <|
  let level2 := nextLevelTable entry1
  expect "level2 != NULL" (level2 != 0) k <|
  let entry2 := entryAt k.mem level2 (l2Idx vAddr)
  expect "level2->entries[l2_idx].value" (entry2 != 0) k <|
  let level3 := nextLevelTable entry2
  expect "level3 != NULL" (level3 != 0) k <|
  let actualPa := getPageTableEntryAddress (entryAt k.mem level3 (l3Idx vAddr))
  expect "actual_pa == expected_pa" (actualPa == expectedPa) k (true, k)

/-- `test_page_table_mapping(root, v_addr, phy_addr, test_perms)` -/
def testPageTableMapping (root : Nat) (vAddr phyAddr : BitVec 64) (testPerms : PagePermissions)
    (k : Kernel) : Bool × Kernel :=
  expect "root != NULL" (root != 0) k <|
  let (mapped, k) := mapPage root vAddr phyAddr testPerms k
  expect "map_page(root, v_addr, phy_addr, test_perms)" mapped k <|
  let (verified, k) := verifyMap root vAddr phyAddr testPerms k
  expect "verify_map(root, v_addr, phy_addr, test_perms)" verified k (true, k)

variable {L : KernelLayout} {memStart memSize : Nat} {k : Kernel} {s : System} {F : Forest}
  {l : Ledger} {root t : Nat} {path : List (Fin 512)} {text : String} {cond : Bool}
  {rest : Bool × Kernel}

theorem expect_fst : (expect text cond k rest).1 = true ↔ cond = true ∧ rest.1 = true := by
  cases cond <;> simp [expect]

/-- An `EXPECT` that holds does nothing. -/
theorem expect_true : expect text true k rest = rest := rfl

-- ---------------------------------------------------------------------------
-- `verify_map`
-- ---------------------------------------------------------------------------

/-- One level of the walk: both checks pass exactly when the table is there. -/
theorem PageTables.nextLevelTable_iff (h : PageTables L k F l) (hNode : F.node root path = some t)
    (hLen : path.length < 3) (idx : Fin 512) (next : Nat) :
    (entryAt k.mem t idx ≠ 0 ∧ nextLevelTable (entryAt k.mem t idx) ≠ 0 ∧
        nextLevelTable (entryAt k.mem t idx) = next) ↔ F.node root (path ++ [idx]) = some next := by
  cases hNext : F.node root (path ++ [idx]) with
  | none =>
    rw [h.entry_none hNode hLen hNext]
    simp
  | some u =>
    obtain ⟨hValid, hTable⟩ := h.entry_some hNode hNext
    have hEq : nextLevelTable (entryAt k.mem t idx) = u := by
      rw [nextLevelTable, hValid]
      exact hTable
    have hNonzero : entryAt k.mem t idx ≠ 0 := by
      intro hZero
      rw [hZero, isValid_zero] at hValid
      exact Bool.false_ne_true hValid
    have hPos := (h.table_bounds ⟨root, _, hNext⟩).2.1
    rw [hEq, Option.some_inj]
    exact ⟨fun hAll => hAll.2.2, fun hSame => ⟨hNonzero, by omega, hSame⟩⟩

/-- The whole walk, over the forest. -/
theorem PageTables.verifyMap_node (h : PageTables L k F l) (hRoot : F.node root [] = some root)
    (vAddr expectedPa : BitVec 64) (perms : PagePermissions) :
    (verifyMap root vAddr expectedPa perms k).1 = true ↔
      ∃ level3, F.node root (tablePath vAddr) = some level3 ∧
        getPageTableEntryAddress (entryAt k.mem level3 (l3Idx vAddr)) = expectedPa := by
  simp only [verifyMap, expect_fst, bne_iff_ne, beq_iff_eq, and_true]
  constructor
  · rintro ⟨h0, h1, h2, h3, h4, h5, hPa⟩
    have hLevel1 := (h.nextLevelTable_iff hRoot (by simp) _ _).mp ⟨h0, h1, rfl⟩
    have hLevel2 := (h.nextLevelTable_iff hLevel1 (by simp) _ _).mp ⟨h2, h3, rfl⟩
    have hLevel3 := (h.nextLevelTable_iff hLevel2 (by simp) _ _).mp ⟨h4, h5, rfl⟩
    exact ⟨_, hLevel3, hPa⟩
  · rintro ⟨level3, hLevel3, hPa⟩
    -- a table at level 3 hangs below tables at levels 1 and 2
    obtain ⟨level2, hLevel2⟩ := F.node_parent root [l0Idx vAddr, l1Idx vAddr] _ _ hLevel3
    obtain ⟨level1, hLevel1⟩ := F.node_parent root [l0Idx vAddr] _ _ hLevel2
    obtain ⟨h0, h1, rfl⟩ := (h.nextLevelTable_iff hRoot (by simp) _ _).mpr hLevel1
    obtain ⟨h2, h3, rfl⟩ := (h.nextLevelTable_iff hLevel1 (by simp) _ _).mpr hLevel2
    obtain ⟨h4, h5, rfl⟩ := (h.nextLevelTable_iff hLevel2 (by simp) _ _).mpr hLevel3
    exact ⟨h0, h1, h2, h3, h4, h5, hPa⟩

/-- A walk that accepts leaves the kernel as it was. -/
theorem verifyMap_snd {vAddr expectedPa : BitVec 64} {perms : PagePermissions}
    (hOk : (verifyMap root vAddr expectedPa perms k).1 = true) :
    (verifyMap root vAddr expectedPa perms k).2 = k := by
  simp only [verifyMap, expect_fst, and_true] at hOk
  obtain ⟨h0, h1, h2, h3, h4, h5, hPa⟩ := hOk
  simp only [verifyMap, h0, h1, h2, h3, h4, h5, hPa, expect_true]

/-- What the test's walk takes for the physical address of a page. -/
def shownAddress (entry : Option PageTableEntry) : BitVec 64 := entry.elim 0 getPageTableEntryAddress

theorem PageTables.shownAddress_walk (h : PageTables L k F l) (hRoot : F.node root [] = some root)
    {vAddr : BitVec 64} {level3 : Nat} (hLevel3 : F.node root (tablePath vAddr) = some level3) :
    shownAddress (walk k.mem root vAddr) =
      getPageTableEntryAddress (entryAt k.mem level3 (l3Idx vAddr)) := by
  have hBelow : F.node root (tablePath vAddr ++ [l3Idx vAddr]) = none :=
    F.node_eq_none_of_length (by simp [tablePath]) root
  rw [h.walk_eq hRoot, h.represents _ _ _ hLevel3, Forest.entry_of_node_none hBelow, vaPath]
  cases F.leaf root (tablePath vAddr ++ [l3Idx vAddr]) with
  | none => decide
  | some mapping => rfl

/-- A page that is mapped has all its tables. -/
theorem levelsMissing_of_walk {m : Mem} {vAddr : BitVec 64} {entry : PageTableEntry}
    (h : walk m root vAddr = some entry) : levelsMissing m root (tablePath vAddr) = 0 := by
  obtain ⟨level3, hLevel3, -⟩ := Option.bind_eq_some_iff.mp h
  exact levelsMissing_eq_zero_iff.mpr ⟨level3, hLevel3⟩

theorem System.Sound.verifyMap_spec (h : s.Sound L F l) (hRoot : root ∈ s.roots)
    (vAddr expectedPa : BitVec 64) (perms : PagePermissions) :
    (verifyMap root vAddr expectedPa perms s.kernel).1 = true ↔
      levelsMissing s.kernel.mem root (tablePath vAddr) = 0 ∧
        shownAddress (walk s.kernel.mem root vAddr) = expectedPa := by
  have hNode := (h.roots_iff root).mp hRoot
  have hTable := h.tableAt_eq hRoot (Nat.lt_of_succ_le (tablePath_length vAddr).le)
  rw [h.page_tables.verifyMap_node hNode, levelsMissing_eq_zero_iff, hTable, ← exists_and_right]
  refine exists_congr fun level3 => and_congr_right fun hLevel3 => ?_
  rw [h.page_tables.shownAddress_walk hNode hLevel3]

/--
**What `verify_map` accepts.** In every reachable state, for every root, virtual address,
expected address and permissions: it returns true exactly when the level 3 table of the address
exists and the physical address mapped there is the expected one, a page that is not mapped
counting as mapped to 0. It then changes nothing.
-/
theorem verifyMap_iff (hReach : Reachable L memStart memSize s) (hRoot : root ∈ s.roots)
    (vAddr expectedPa : BitVec 64) (perms : PagePermissions) :
    ((verifyMap root vAddr expectedPa perms s.kernel).1 = true ↔
      levelsMissing s.kernel.mem root (tablePath vAddr) = 0 ∧
        shownAddress (walk s.kernel.mem root vAddr) = expectedPa) ∧
    ((verifyMap root vAddr expectedPa perms s.kernel).1 = true →
      (verifyMap root vAddr expectedPa perms s.kernel).2 = s.kernel) := by
  obtain ⟨F, l, hSound⟩ := reachable_sound hReach
  exact ⟨hSound.verifyMap_spec hRoot vAddr expectedPa perms, verifyMap_snd⟩

/-- The page of a successful request, as a walk sees it. -/
theorem System.Sound.walk_map (h : s.Sound L F l) {q : MapRequest} (hRoot : q.root ∈ s.roots)
    (hOk : s.succeeds q = true) :
    walk (s.map q).kernel.mem q.root q.vAddr = some q.mapping.entry := by
  obtain ⟨F', l', hMapped⟩ := h.map_succeeded hRoot hOk
  have hRoot' : q.root ∈ (s.map q).roots := hRoot
  rw [hMapped.sound.walk_eq hRoot', hMapped.sound.leaf_eq, System.mapped_map hOk, lastMapped_cons,
    if_pos ⟨rfl, rfl⟩]
  rfl

/-- After the first mapping: a page without one, below the same tables. -/
theorem System.Sound.verifyMap_beside (h : s.Sound L F l) {q : MapRequest} (hRoot : q.root ∈ s.roots)
    (hOk : s.succeeds q = true) (hFirst : s.mapped = []) {vAddr : BitVec 64}
    (hTables : tablePath vAddr = tablePath q.vAddr) (hPage : vaPath vAddr ≠ vaPath q.vAddr) :
    levelsMissing (s.map q).kernel.mem q.root (tablePath vAddr) = 0 ∧
      shownAddress (walk (s.map q).kernel.mem q.root vAddr) = 0 := by
  have hWalk := h.walk_map hRoot hOk
  obtain ⟨F', l', hMapped⟩ := h.map_succeeded hRoot hOk
  have hRoot' : q.root ∈ (s.map q).roots := hRoot
  refine ⟨hTables ▸ levelsMissing_of_walk hWalk, ?_⟩
  rw [hMapped.sound.walk_eq hRoot', hMapped.sound.leaf_eq, System.mapped_map hOk, hFirst,
    lastMapped_cons, if_neg fun hBoth => hPage hBoth.2]
  rfl

/-- On the small kernel a page next to a mapped one passes for a mapping to 0. -/
theorem verifyMap_iff_smallSystem :
    (verifyMap smallRoot 0x2000 0 ⟨true, false, false⟩
      (smallSystem.map ⟨smallRoot, 0x1000, ⟨0x5000, ⟨true, true, false⟩⟩⟩).kernel).1 = true := by
  let q : MapRequest := ⟨smallRoot, 0x1000, ⟨0x5000, ⟨true, true, false⟩⟩⟩
  have hRoot : q.root ∈ smallSystem.roots := List.mem_cons_self
  have hOk : smallSystem.succeeds q = true := by
    rw [System.succeeds]
    exact smallSystem_maps 0x1000 ⟨true, true, false⟩ (by decide)
  have hFirst : smallSystem.mapped = [] := by
    simp only [smallSystem, System.initRoot, smallGranted]
  obtain ⟨F, l, hSound⟩ := reachable_sound smallSystem_reachable
  have hReach : Reachable smallLayout 0x40000000 0x40000 (smallSystem.map q) :=
    smallSystem_reachable.step (.map smallSystem q hRoot)
  have hRoot' : q.root ∈ (smallSystem.map q).roots := by
    rw [System.map_roots]
    exact hRoot
  exact (verifyMap_iff hReach hRoot' 0x2000 0 ⟨true, false, false⟩).1.mpr
    (hSound.verifyMap_beside hRoot hOk hFirst (by decide) (by decide))

-- ---------------------------------------------------------------------------
-- One mapping test
-- ---------------------------------------------------------------------------

/-- A mapping test in a sound state. -/
theorem System.Sound.testPageTableMapping_spec (h : s.Sound L F l) {q : MapRequest}
    (hRoot : q.root ∈ s.roots) :
    ((testPageTableMapping q.root q.vAddr q.mapping.phyAddr q.mapping.perms s.kernel).1 = true ↔
      s.succeeds q = true ∧ q.mapping.phyAddr.toNat < 2 ^ 48) ∧
    ((testPageTableMapping q.root q.vAddr q.mapping.phyAddr q.mapping.perms s.kernel).1 = true →
      (testPageTableMapping q.root q.vAddr q.mapping.phyAddr q.mapping.perms s.kernel).2 =
        (s.map q).kernel) := by
  have hPos := (h.page_tables.table_bounds ⟨q.root, [], (h.roots_iff _).mp hRoot⟩).2.1
  have hFst : (testPageTableMapping q.root q.vAddr q.mapping.phyAddr q.mapping.perms
      s.kernel).1 = true ↔ s.succeeds q = true ∧
        (verifyMap q.root q.vAddr q.mapping.phyAddr q.mapping.perms (s.map q).kernel).1 = true := by
    simp only [testPageTableMapping, expect_fst, bne_iff_ne, and_true]
    exact and_iff_right hPos.ne'
  refine ⟨hFst.trans (and_congr_right fun hOk => ?_), fun hPass => ?_⟩
  · have hWalk := h.walk_map hRoot hOk
    obtain ⟨F', l', hMapped⟩ := h.map_succeeded hRoot hOk
    have hAligned := ((h.succeeds_iff hRoot).mp hOk).1
    have hRoot' : q.root ∈ (s.map q).roots := hRoot
    rw [hMapped.sound.verifyMap_spec hRoot', and_iff_right (levelsMissing_of_walk hWalk), hWalk,
      shownAddress, Option.elim_some, Mapping.entry, leafEntry_address, and_addrMask_eq_iff,
      and_iff_right hAligned]
  · obtain ⟨hOk, hVerified⟩ := hFst.mp hPass
    have hSnd := verifyMap_snd hVerified
    have hMapped : (mapPage q.root q.vAddr q.mapping.phyAddr q.mapping.perms s.kernel).1 = true :=
      hOk
    have hNonzero : (q.root != 0) = true := bne_iff_ne.mpr hPos.ne'
    simp only [testPageTableMapping, hNonzero, hMapped, expect_true]
    change (verifyMap q.root q.vAddr q.mapping.phyAddr q.mapping.perms (s.map q).kernel).1 = true
      at hVerified
    change (expect _ (verifyMap q.root q.vAddr q.mapping.phyAddr q.mapping.perms
      (s.map q).kernel).1 _ (true, _)).2 = _
    rw [hVerified]
    exact hSnd

/--
**When a mapping test passes.** In every reachable state, for every root and all arguments of
`map_page`: `test_page_table_mapping` returns true exactly when the physical address is
page-aligned and below `2 ^ 48` and the free pages reach for the missing tables, and then it has
done what `map_page` does. What it finds wrong with a mapping that `map_page` accepts is an
address from `2 ^ 48` on, and nothing else.
-/
theorem testPageTableMapping_iff (hReach : Reachable L memStart memSize s) (hRoot : root ∈ s.roots)
    (vAddr phyAddr : BitVec 64) (perms : PagePermissions) :
    ((testPageTableMapping root vAddr phyAddr perms s.kernel).1 = true ↔
      phyAddr.toNat % 4096 = 0 ∧ phyAddr.toNat < 2 ^ 48 ∧
        levelsMissing s.kernel.mem root (tablePath vAddr) ≤ s.freePages) ∧
    ((testPageTableMapping root vAddr phyAddr perms s.kernel).1 = true →
      (testPageTableMapping root vAddr phyAddr perms s.kernel).2 =
        (mapPage root vAddr phyAddr perms s.kernel).2) ∧
    ((mapPage root vAddr phyAddr perms s.kernel).1 = true →
      ((testPageTableMapping root vAddr phyAddr perms s.kernel).1 = false ↔
        2 ^ 48 ≤ phyAddr.toNat)) := by
  obtain ⟨F, l, hSound⟩ := reachable_sound hReach
  let q : MapRequest := ⟨root, vAddr, ⟨phyAddr, perms⟩⟩
  obtain ⟨hIff, hSame⟩ := hSound.testPageTableMapping_spec (q := q) hRoot
  refine ⟨?_, hSame, fun hOk => ?_⟩
  · rw [hIff, hSound.succeeds_iff (q := q) hRoot, and_assoc]
    exact and_congr_right fun _ => and_comm
  · have hSucceeds : s.succeeds q = true := hOk
    rw [← Bool.not_eq_true, hIff, and_iff_right hSucceeds, Nat.not_lt]

/-- An address above `2 ^ 48` on the small kernel. -/
theorem testPageTableMapping_iff_smallSystem :
    (testPageTableMapping smallRoot 0x1000 0x1000000005000 ⟨true, true, false⟩
      smallSystem.kernel).1 = false :=
  ((testPageTableMapping_iff smallSystem_reachable List.mem_cons_self 0x1000 0x1000000005000
    ⟨true, true, false⟩).2.2 (smallSystem_maps 0x1000 ⟨true, true, false⟩ (by decide))).mpr
    (by decide)

end Kernalite
