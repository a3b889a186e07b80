import Kernalite.Boot.Shutdown
import Kernalite.Tests.PageTableMap

/-!
# Kernalite — the internal tests

`page_table_map` of `tests/page_table_map_test.c` and the runner in
`tests/test_runner.c`, up to the semihosting call that reports the result.

* `System.Sound.freshRoot` — a page from `page_alloc` as the root of a tree, without
  `page_table_init`;
* `System.Sound.expectMappings_spec` — a list of mapping tests is a list of requests;
* `runInternalTests_status` — when the tests pass.
-/

namespace Kernalite

open ByteMemory Words FirstFit PageTableEntry Relation

/-- One `EXPECT(test_page_table_mapping(root, ...))`, with its text. -/
structure MappingTest where
  text : String
  vAddr : BitVec 64
  mapping : Mapping

/-- The text and the arguments of one, from its two addresses as they are spelled. -/
def mappingTest (vAddrText phyAddrText : String) (vAddr phyAddr : BitVec 64)
    (read write execute : Bool) : MappingTest :=
  let bit (b : Bool) : String := if b then "1" else "0"
  { text := "test_page_table_mapping( root, " ++ vAddrText ++ ", " ++ phyAddrText ++
      ", (page_permissions_t)\x7b .read = " ++ bit read ++ ", .write = " ++ bit write ++
      ", .execute = " ++ bit execute ++ " \x7d)"
    vAddr := vAddr
    mapping := ⟨phyAddr, ⟨read, write, execute⟩⟩ }

/-- The mappings of `page_table_map`, in three groups. -/
def mappingTests : List MappingTest :=
  [ -- share levels 0 to 2, only level 3 entries differ
    mappingTest "0xFFFFF00000001000" "0x1000" 0xFFFFF00000001000 0x1000 true false false,
    mappingTest "0xFFFFF00000002000" "0x2000" 0xFFFFF00000002000 0x2000 true true false,
    mappingTest "0xFFFFF00000003000" "0x3000" 0xFFFFF00000003000 0x3000 true false true,
    mappingTest "0xFFFFF00000004000" "0x4000" 0xFFFFF00000004000 0x4000 true true true,
    -- different level 1 regions
    mappingTest "0xFFFFF00040000000" "0x5000" 0xFFFFF00040000000 0x5000 false false true,
    mappingTest "0xFFFFF00080000000" "0x6000" 0xFFFFF00080000000 0x6000 true false false,
    mappingTest "0xFFFFF000C0000000" "0x7000" 0xFFFFF000C0000000 0x7000 false true false,
    mappingTest "0xFFFFF00100000000" "0x8000" 0xFFFFF00100000000 0x8000 true true false,
    -- different level 0 regions
    mappingTest "0xFFFFF08000000000" "0x9000" 0xFFFFF08000000000 0x9000 false false true,
    mappingTest "0xFFFFF10000000000" "0xA000" 0xFFFFF10000000000 0xA000 true false true,
    mappingTest "0xFFFFF18000000000" "0xB000" 0xFFFFF18000000000 0xB000 false true true,
    mappingTest "0xFFFFF20000000000" "0xC000" 0xFFFFF20000000000 0xC000 true true true ]

def expectMappings (root : Nat) : List MappingTest → Kernel → Bool × Kernel
  | [], k => (true, k)
  | t :: ts, k =>
    let (passed, k) :=
      testPageTableMapping root t.vAddr t.mapping.phyAddr t.mapping.perms k
    expect t.text passed k (expectMappings root ts k)

/-- `page_table_map()` -/
def pageTableMap (k : Kernel) : Bool × Kernel :=
  let (root, k) := pageAlloc 1 k
  expectMappings root mappingTests k

-- ---------------------------------------------------------------------------
-- The runner
-- ---------------------------------------------------------------------------

/-- `test_t` -/
structure Test where
  testName : String
  testFn : Kernel → Bool × Kernel

/-- `test_suite_t`, without the unused part of its array. -/
structure TestSuite where
  suiteName : String
  tests : List Test

def getPageTableTestSuite : TestSuite :=
  { suiteName := "page_table", tests := [{ testName := "page_table_map", testFn := pageTableMap }] }

/-- `qemu_exit(code)` -/
def qemuExit (code : BitVec 32) : Semihosting :=
  { operation := 0x18, block := [0x20026, code.setWidth 64] }

/-- One round of the inner loop, on `failed` and the kernel. -/
def runTest (st : Bool × Kernel) (t : Test) : Bool × Kernel :=
  let (failed, k) := st
  let k := k.kprintf "  Running test: %s\n" [.str t.testName]
  let (passed, k) := t.testFn k
  if passed then (failed, k.kprintf "    Result: %s PASSED\n" [.str t.testName])
  else (true, k.kprintf "    Result: %s FAILED\n" [.str t.testName])

/-- One round of the outer loop. -/
def runSuite (st : Bool × Kernel) (suite : TestSuite) : Bool × Kernel :=
  let (failed, k) := st
  let k := k.kprintf "Running test suite: %s\n" [.str suite.suiteName]
  suite.tests.foldl runTest (failed, k)

def runInternalTests (k : Kernel) : Kernel × Semihosting :=
  let k := k.kprintf "Running internal tests...\n" []
  let (failed, k) := [getPageTableTestSuite].foldl runSuite (false, k)
  (k, qemuExit (if failed then 1 else 0))

/-- What a mapping test asks of `map_page`. -/
def MappingTest.request (root : Nat) (t : MappingTest) : MapRequest := ⟨root, t.vAddr, t.mapping⟩

/-- The physical addresses survive in a descriptor. -/
def MappingTest.Fits (t : MappingTest) : Prop :=
  t.mapping.phyAddr.toNat % pageSize = 0 ∧ t.mapping.phyAddr.toNat < 2 ^ 48

variable {L : KernelLayout} {memStart memSize : Nat} {k : Kernel} {s s' : System} {F F' : Forest}
  {l l' : Ledger} {root : Nat} {tests : List MappingTest} {q : MapRequest} {qs : List MapRequest}

-- ---------------------------------------------------------------------------
-- The log of mappings
-- ---------------------------------------------------------------------------

/-- A mapping is found in the log when no other request of the list is for its page. -/
theorem lastMapped_of_mem {mapped : List MapRequest} (hMem : q ∈ qs)
    (hDistinct : (qs.map fun q => pageNumber q.vAddr).Nodup) :
    lastMapped (qs.reverse ++ mapped) q.root (vaPath q.vAddr) = some q.mapping := by
  obtain ⟨before, after, rfl⟩ := List.append_of_mem hMem
  have hPerm : (before ++ q :: after).Perm ((before ++ after) ++ [q]) :=
    List.perm_middle.trans (List.perm_append_singleton q _).symm
  rw [lastMapped_perm hPerm hDistinct, List.reverse_append, List.reverse_singleton,
    List.singleton_append, List.cons_append, lastMapped_cons, if_pos ⟨rfl, rfl⟩]

/-- Requests on one root say nothing about another. -/
theorem lastMapped_other {mapped : List MapRequest} {r : Nat} (hOther : ∀ q ∈ qs, q.root ≠ r)
    (p : List (Fin 512)) : lastMapped (qs.reverse ++ mapped) r p = lastMapped mapped r p := by
  have hNone : (qs.reverse.find? fun q => decide (q.root = r ∧ vaPath q.vAddr = p)) = none := by
    refine List.find?_eq_none.mpr fun q hq => ?_
    have hRoot := hOther q (List.mem_reverse.mp hq)
    simp [hRoot]
  rw [lastMapped, List.find?_append, hNone, Option.none_or, lastMapped]

-- ---------------------------------------------------------------------------
-- A root that was not initialised
-- ---------------------------------------------------------------------------

/-- Clearing a clear page changes nothing. -/
theorem pageTableInit_clear {p : Nat} (hTop : p + pageSize ≤ 2 ^ 64)
    (hClear : ∀ a, (pages p 1).Contains a → k.mem a = 0) : pageTableInit p k = k := by
  have hMem : (pageTableInit p k).mem = k.mem := by
    funext a
    rw [pageTableInit_mem k hTop]
    split_ifs with hIn
    · refine (hClear a ⟨hIn.1, ?_⟩).symm
      rw [pages, Nat.one_mul]
      exact hIn.2
    · rfl
  calc pageTableInit p k = { k with mem := (pageTableInit p k).mem } := by
        simp only [pageTableInit]
    _ = k := by rw [hMem]

theorem System.kernel_initRoot (p : Nat) (s : System) :
    (s.initRoot p).kernel = pageTableInit p s.kernel := by
  simp only [System.initRoot, System.kernel]

/-- The state after a clear page has become a root. -/
structure FreshRoot (L : KernelLayout) (s : System) (p : Nat) (s' : System) (F' : Forest)
    (l' : Ledger) : Prop where
  sound      : s'.Sound L F' l'
  kernel_eq  : s'.kernel = (pageAlloc 1 s.kernel).2
  roots_eq   : s'.roots = p :: s.roots
  mapped_eq  : s'.mapped = s.mapped
  fresh      : p ∉ s.roots
  node_none  : ∀ path, path ≠ [] → F'.node p path = none
  free_pages : s'.freePages + 1 = s.freePages

/-- **A page of `page_alloc` as a root**, provided it is clear. -/
theorem System.Sound.freshRoot (h : s.Sound L F l) (hPage : (pageAlloc 1 s.kernel).1 ≠ 0)
    (hClear : ∀ a, (pages (pageAlloc 1 s.kernel).1 1).Contains a → s.kernel.mem a = 0) :
    ∃ s' F' l', FreshRoot L s (pageAlloc 1 s.kernel).1 s' F' l' := by
  let p := (pageAlloc 1 s.kernel).1
  let s₁ : System := { s with pool := s.pool.alloc 1 }
  obtain ⟨l₁, h₁⟩ := (EnvStep.alloc (L := L) s 1).sound h
  have hLive : pages p 1 ∈ s₁.pool.live := by
    change pages p 1 ∈ if p = 0 then s.pool.live else pages p 1 :: s.pool.live
    rw [if_neg hPage]
    exact List.mem_cons_self
  obtain ⟨-, hNull, -⟩ | ⟨i, hFirst, hPtr, hUsed, hPos, hFree, -⟩ :=
    pageAlloc_one h.page_tables.tracks
  · exact absurd hNull hPage
  have hNew : ¬ F.Has p := h.page_tables.not_has_of_unowned fun a ha => hFree a (hPtr ▸ ha)
  have hRoot : p ∉ s₁.roots := fun hMem => hNew ((h.has_iff p).mpr (Or.inl hMem))
  have hTable : p ∉ s₁.tables := fun hMem => hNew ((h.has_iff p).mpr (Or.inr hMem))
  obtain ⟨hNew', hSound⟩ := System.initRoot_sound h₁ hLive hRoot hTable
  -- `page_table_init` would not have changed the page
  have hTop : p + pageSize ≤ 2 ^ 64 := by
    have hBounds := h₁.page_tables.tracks.page_bounds h₁.page_tables.top_le (h₁.live_eq ▸ hLive)
    omega
  have hKernel : (s₁.initRoot p).kernel = (pageAlloc 1 s.kernel).2 := by
    have hGranted : s₁.kernel = (pageAlloc 1 s.kernel).2 := rfl
    rw [System.kernel_initRoot, hGranted]
    refine pageTableInit_clear hTop fun a ha => ?_
    rw [pageAlloc_frame h.page_tables.tracks.ready 1 a, hClear a ha]
    exact h₁.page_tables.tracks.live_not_inBitmap (h₁.live_eq ▸ hLive) ha
  refine ⟨_, _, _, hSound, hKernel, ?_, ?_, hRoot, fun path hPath => ?_, ?_⟩
  · simp only [System.initRoot, p]
  · simp only [System.initRoot]
  · rw [RadixForest.node_plant, if_neg fun hBoth => hPath hBoth.2]
    cases hCase : F.node p path with
    | none => rfl
    | some t => exact absurd ⟨p, [], F.root_of_node hCase⟩ hNew
  · obtain ⟨hTotal, hFreeBit, -⟩ := firstFree_eq_some_iff.mp hFirst
    rw [System.freePages, hKernel, hUsed, (pageAlloc_static 1 s.kernel).totalPages_eq,
      freeCount_take hTotal hFreeBit, System.freePages]

-- ---------------------------------------------------------------------------
-- A list of mapping tests
-- ---------------------------------------------------------------------------

/-- **A list of mapping tests** on one root passes exactly when the requests succeed, and does
what they do. -/
theorem System.Sound.expectMappings_spec (h : s.Sound L F l) (hRoot : root ∈ s.roots)
    (hFits : ∀ t ∈ tests, t.Fits) :
    ((expectMappings root tests s.kernel).1 = true ↔
      s.allSucceed (tests.map (MappingTest.request root)) = true) ∧
    ((expectMappings root tests s.kernel).1 = true →
      (expectMappings root tests s.kernel).2 =
        (s.mapAll (tests.map (MappingTest.request root))).kernel) := by
  induction tests generalizing s F l with
  | nil => exact ⟨Iff.rfl, fun _ => rfl⟩
  | cons t ts ih =>
    have hFitsAll := fun t' ht' => hFits t' (List.mem_cons_of_mem _ ht')
    have hTop : (t.request root).mapping.phyAddr.toNat < 2 ^ 48 :=
      (hFits t List.mem_cons_self).2
    obtain ⟨hIff, hSame⟩ := h.testPageTableMapping_spec (q := t.request root) hRoot
    rw [and_iff_left hTop] at hIff
    rw [List.map_cons, System.allSucceed, System.mapAll, Bool.and_eq_true, expectMappings]
    generalize hRun : testPageTableMapping root t.vAddr t.mapping.phyAddr t.mapping.perms
      s.kernel = run
    have hRun' : testPageTableMapping (t.request root).root (t.request root).vAddr
        (t.request root).mapping.phyAddr (t.request root).mapping.perms s.kernel = run := hRun
    rw [hRun'] at hIff hSame
    obtain ⟨passed, k⟩ := run
    cases passed with
    | false =>
      have hNot : ¬ s.succeeds (t.request root) = true := fun hOk =>
        Bool.false_ne_true (hIff.mpr hOk)
      exact ⟨iff_of_false Bool.false_ne_true fun hBoth => hNot hBoth.1,
        fun hPass => absurd hPass Bool.false_ne_true⟩
    | true =>
      have hOk := hIff.mp rfl
      obtain ⟨F', l', hMapped⟩ := h.map_succeeded hRoot hOk
      obtain rfl : k = (s.map (t.request root)).kernel := hSame rfl
      rw [and_iff_right hOk]
      exact ih hMapped.sound hRoot hFitsAll

/-- The tables the mappings of `page_table_map` take below a new root. -/
theorem mappingTests_tables :
    (mappingTests.flatMap fun t => tablePrefixes t.vAddr).toFinset.card = 23 := by
  decide +kernel

theorem mappingTests_fits : ∀ t ∈ mappingTests, t.Fits := by
  unfold MappingTest.Fits
  decide

theorem mappingTests_distinct (root : Nat) :
    ((mappingTests.map (MappingTest.request root)).map fun q => pageNumber q.vAddr).Nodup := by
  have hPages : (fun q : MapRequest => pageNumber q.vAddr) ∘ MappingTest.request root =
      fun t => pageNumber t.vAddr := rfl
  rw [List.map_map, hPages]
  decide +kernel

/-- The tables of a list of tests below a root without any. -/
theorem FreshRoot.card_newPrefixes {p : Nat} (h : FreshRoot L s p s' F' l')
    (tests : List MappingTest) :
    s'.newPrefixes p (tests.map (MappingTest.request p)) =
      (tests.flatMap fun t => tablePrefixes t.vAddr).toFinset := by
  have hRoot : p ∈ s'.roots := h.roots_eq ▸ List.mem_cons_self
  ext path
  rw [h.sound.mem_newPrefixes hRoot, List.mem_toFinset, List.mem_flatMap]
  simp only [List.mem_map, MappingTest.request, exists_exists_and_eq_and]
  exact and_iff_left_of_imp fun ⟨t, _, hPath⟩ => h.node_none path (mem_tablePrefixes.mp hPath).1

/-- A null pointer means that no page is free. -/
theorem System.Sound.freePages_of_null (h : s.Sound L F l) (hPage : (pageAlloc 1 s.kernel).1 = 0) :
    s.freePages = 0 := by
  obtain ⟨hNone, -⟩ | ⟨i, -, hPtr, -, hPos, hFree, hTracks⟩ := pageAlloc_one h.page_tables.tracks
  · exact freeCount_eq_zero_iff.mpr (firstFree_eq_none_iff.mp hNone)
  · have hBase := h.page_tables.tracks.base_pos
    rw [hPtr, pageAddr] at hPage
    omega

/-- What the mappings of `page_table_map` leave when they succeed: a translation each from the
new root, the translations there were from all other roots, and 24 pages less. -/
structure MapsPassed (s : System) (p : Nat) (k : Kernel) : Prop where
  mappings   : ∀ t ∈ mappingTests, walk k.mem p t.vAddr = some t.mapping.entry
  others     : ∀ root ∈ s.roots, ∀ vAddr, walk k.mem root vAddr = walk s.kernel.mem root vAddr
  free_pages : freeCount k.used k.totalPages + 24 = s.freePages

theorem FreshRoot.mapsPassed {p : Nat} {s'' : System} {F'' : Forest} {l'' : Ledger}
    (hFresh : FreshRoot L s p s' F' l') (h : s.Sound L F l) (hRoom : 23 ≤ s'.freePages)
    (hAll : MappedAll L s' F' p (mappingTests.map (MappingTest.request p)) s'' F'' l'') :
    MapsPassed s p s''.kernel := by
  refine ⟨fun t ht => ?_, fun root hOther vAddr => ?_, ?_⟩
  · have hRoot : p ∈ s''.roots := hAll.roots_eq ▸ hFresh.roots_eq ▸ List.mem_cons_self
    have hMem := List.mem_map_of_mem (f := MappingTest.request p) ht
    rw [hAll.sound.walk_eq hRoot, hAll.sound.leaf_eq, hAll.mapped_eq]
    exact congrArg (Option.map Mapping.entry) (lastMapped_of_mem hMem (mappingTests_distinct p))
  · have hKept : root ∈ s''.roots :=
      hAll.roots_eq ▸ hFresh.roots_eq ▸ List.mem_cons_of_mem _ hOther
    rw [hAll.sound.walk_eq hKept, h.walk_eq hOther, hAll.sound.leaf_eq, h.leaf_eq, hAll.mapped_eq,
      hFresh.mapped_eq]
    refine congrArg (Option.map Mapping.entry) (lastMapped_other (fun q hq hEq => ?_) _)
    obtain ⟨t, -, rfl⟩ := List.mem_map.mp hq
    have hSame : p = root := hEq
    exact hFresh.fresh (hSame ▸ hOther)
  · have hFree := hAll.freePages_eq
    have hTaken := hFresh.free_pages
    rw [hFresh.card_newPrefixes, mappingTests_tables] at hFree
    change s''.freePages + 24 = _
    omega

/-- **`page_table_map` in a sound state**, where the lowest free page is clear. -/
theorem System.Sound.pageTableMap_spec (h : s.Sound L F l)
    (hClear : (pageAlloc 1 s.kernel).1 ≠ 0 →
      ∀ a, (pages (pageAlloc 1 s.kernel).1 1).Contains a → s.kernel.mem a = 0) :
    ((pageTableMap s.kernel).1 = true ↔ 24 ≤ s.freePages) ∧
      ((pageTableMap s.kernel).1 = true →
        MapsPassed s (pageAlloc 1 s.kernel).1 (pageTableMap s.kernel).2) := by
  rw [pageTableMap]
  by_cases hPage : (pageAlloc 1 s.kernel).1 = 0
  · have hFail : (expectMappings (pageAlloc 1 s.kernel).1 mappingTests
        (pageAlloc 1 s.kernel).2).1 = false := by
      rw [hPage]
      rfl
    have hNone : s.freePages = 0 := h.freePages_of_null hPage
    rw [hFail, hNone]
    exact ⟨by decide, fun hPass => absurd hPass Bool.false_ne_true⟩
  obtain ⟨s', F', l', hFresh⟩ := h.freshRoot hPage (hClear hPage)
  have hRoot : (pageAlloc 1 s.kernel).1 ∈ s'.roots := hFresh.roots_eq ▸ List.mem_cons_self
  have hRequests : ∀ q ∈ mappingTests.map (MappingTest.request (pageAlloc 1 s.kernel).1),
      q.root = (pageAlloc 1 s.kernel).1 ∧ q.mapping.phyAddr.toNat % pageSize = 0 := by
    intro q hq
    obtain ⟨t, ht, rfl⟩ := List.mem_map.mp hq
    exact ⟨rfl, (mappingTests_fits t ht).1⟩
  obtain ⟨hPass, hSame⟩ := hFresh.sound.expectMappings_spec hRoot mappingTests_fits
  obtain ⟨hRoom, hRun⟩ := hFresh.sound.mapAll_spec hRoot hRequests
  rw [hFresh.kernel_eq] at hPass hSame
  rw [hFresh.card_newPrefixes, mappingTests_tables] at hRoom
  have hTaken := hFresh.free_pages
  refine ⟨by rw [hPass, hRoom]; omega, fun hOk => ?_⟩
  obtain ⟨F'', l'', hAll⟩ := hRun (hPass.mp hOk)
  rw [hSame hOk]
  exact hFresh.mapsPassed h (hRoom.mp (hPass.mp hOk)) hAll

-- ---------------------------------------------------------------------------
-- The run
-- ---------------------------------------------------------------------------

/-- After further `kprintf` calls. -/
def System.printed (calls : List (String × List Arg)) (s : System) : System :=
  { s with pool := { s.pool with kernel := s.kernel.printed calls } }

/-- Printing keeps a state sound. -/
theorem System.Sound.printed (h : s.Sound L F l) (calls : List (String × List Arg)) :
    (s.printed calls).Sound L F l where
  page_tables := h.page_tables.printed calls
  live_eq := h.live_eq
  reserved_eq := h.reserved_eq
  roots_iff := h.roots_iff
  roots_nodup := h.roots_nodup
  tables_iff := h.tables_iff
  tables_nodup := h.tables_nodup
  leaf_eq := h.leaf_eq

/-- The page handed out does not depend on the console. -/
theorem System.Sound.pageAlloc_printed (h : s.Sound L F l) (calls : List (String × List Arg)) :
    (pageAlloc 1 (s.kernel.printed calls)).1 = (pageAlloc 1 s.kernel).1 := by
  have hPrinted := (h.printed calls).page_tables.tracks
  obtain ⟨hNone, hPtr, -⟩ | ⟨i, hFirst, hPtr, -⟩ := pageAlloc_one h.page_tables.tracks
  · obtain ⟨-, hPtr', -⟩ | ⟨j, hFirst', -⟩ := pageAlloc_one hPrinted
    · exact hPtr'.trans hPtr.symm
    · exact absurd (hNone.symm.trans hFirst') (by simp)
  · obtain ⟨hNone', -⟩ | ⟨j, hFirst', hPtr', -⟩ := pageAlloc_one hPrinted
    · exact absurd (hNone'.symm.trans hFirst) (by simp)
    · obtain rfl : i = j := Option.some.inj (hFirst.symm.trans hFirst')
      exact hPtr'.trans hPtr.symm

/-- `page_table_map` after some output. -/
theorem System.Sound.pageTableMap_printed (h : s.Sound L F l) (calls : List (String × List Arg))
    (hClear : (pageAlloc 1 s.kernel).1 ≠ 0 →
      ∀ a, (pages (pageAlloc 1 s.kernel).1 1).Contains a → s.kernel.mem a = 0) :
    ((pageTableMap (s.kernel.printed calls)).1 = true ↔ 24 ≤ s.freePages) ∧
      ((pageTableMap (s.kernel.printed calls)).1 = true →
        MapsPassed s (pageAlloc 1 s.kernel).1 (pageTableMap (s.kernel.printed calls)).2) := by
  have hKernel : (s.printed calls).kernel = s.kernel.printed calls := rfl
  have hPage := h.pageAlloc_printed calls
  have hSpec := (h.printed calls).pageTableMap_spec
  rw [hKernel, hPage] at hSpec
  obtain ⟨hIff, hMaps⟩ := hSpec hClear
  exact ⟨hIff, fun hOk =>
    ⟨(hMaps hOk).mappings, (hMaps hOk).others, (hMaps hOk).free_pages⟩⟩

/-- The run with one suite of one test, in one piece. -/
theorem runInternalTests_eq (k : Kernel) : ∃ titles : List (String × List Arg),
    runInternalTests k =
      ((pageTableMap (k.printed titles)).2.kprintf
        (if (pageTableMap (k.printed titles)).1 then "    Result: %s PASSED\n"
          else "    Result: %s FAILED\n") [.str "page_table_map"],
        qemuExit (if (pageTableMap (k.printed titles)).1 then 0 else 1)) := by
  refine ⟨[("Running internal tests...\n", []), ("Running test suite: %s\n", [.str "page_table"]),
    ("  Running test: %s\n", [.str "page_table_map"])], ?_⟩
  have hTitles : ((k.kprintf "Running internal tests...\n" []).kprintf
      "Running test suite: %s\n" [.str "page_table"]).kprintf "  Running test: %s\n"
        [.str "page_table_map"] = k.printed [("Running internal tests...\n", []),
          ("Running test suite: %s\n", [.str "page_table"]),
          ("  Running test: %s\n", [.str "page_table_map"])] := by
    simp only [Kernel.kprintf_eq, Kernel.printed_printed, List.cons_append, List.nil_append]
  simp only [runInternalTests, List.foldl_cons, List.foldl_nil, runSuite, getPageTableTestSuite,
    runTest, hTitles]
  generalize pageTableMap _ = r
  obtain ⟨passed, k'⟩ := r
  cases passed <;> rfl

/--
**When the internal tests pass.** In every reachable state whose lowest free page is clear (the
test does not call `page_table_init` on it): `run_internal_tests` ends the machine with status 0
exactly when 24 pages are free, and with status 1 otherwise. When it passes, the twelve mappings
are there with their permissions, no translation from another root has changed, and 24 pages
are gone.
-/
theorem runInternalTests_status (hReach : Reachable L memStart memSize s)
    (hClear : (pageAlloc 1 s.kernel).1 ≠ 0 →
      ∀ a, (pages (pageAlloc 1 s.kernel).1 1).Contains a → s.kernel.mem a = 0) :
    (runInternalTests s.kernel).2 =
        { operation := 0x18, block := [0x20026, if 24 ≤ s.freePages then 0 else 1] } ∧
      (24 ≤ s.freePages →
        MapsPassed s (pageAlloc 1 s.kernel).1 (runInternalTests s.kernel).1) := by
  obtain ⟨F, l, hSound⟩ := reachable_sound hReach
  obtain ⟨titles, hRun⟩ := runInternalTests_eq s.kernel
  obtain ⟨hIff, hMaps⟩ := hSound.pageTableMap_printed titles hClear
  rw [hRun]
  by_cases hEnough : 24 ≤ s.freePages
  · have hPassed := hMaps (hIff.mpr hEnough)
    rw [if_pos hEnough, hIff.mpr hEnough]
    exact ⟨rfl, fun _ => ⟨hPassed.mappings, hPassed.others, hPassed.free_pages⟩⟩
  · have hFailed := Bool.eq_false_iff.mpr fun hOk => hEnough (hIff.mp hOk)
    rw [if_neg hEnough, hFailed]
    exact ⟨rfl, fun hNot => absurd hNot hEnough⟩

/-- The small kernel with everything outside the bitmap cleared. -/
def smallCleared : System :=
  let m : Mem := fun a =>
    if smallLayout.bitMapStart ≤ a ∧ a < smallLayout.bitMapEnd then smallPool.kernel.mem a else 0
  ⟨{ smallPool with kernel := { smallPool.kernel with mem := m } }, [], [], []⟩

theorem smallCleared_reachable : Reachable smallLayout 0x40000000 0x40000 smallCleared := by
  refine ⟨⟨smallPool, [], [], []⟩, ⟨by omega, by omega, Or.inl smallPool_booted, rfl, rfl, rfl⟩,
    .single (.env _ _ (.write ⟨smallPool, [], [], []⟩ _ fun a ha => ?_))⟩
  rcases ha with hBitmap | ⟨t, hNone | hNone, -⟩
  · exact if_pos hBitmap
  · exact absurd hNone List.not_mem_nil
  · exact absurd hNone List.not_mem_nil

theorem runInternalTests_status_smallCleared :
    (runInternalTests smallCleared.kernel).2 =
      { operation := 0x18, block := [0x20026, 0] } := by
  have hPage : (pageAlloc 1 smallCleared.kernel).1 = 0x40016000 := by decide +kernel
  have hFree : smallCleared.freePages = 42 := by decide +kernel
  have hStatus := (runInternalTests_status smallCleared_reachable fun _ a ha => ?_).1
  · rwa [hFree] at hStatus
  · rw [hPage] at ha
    have hAbove : 0x40016000 ≤ a := ha.1
    have hEnd : smallLayout.bitMapEnd ≤ 0x40016000 := by decide
    exact if_neg fun hIn => by omega

end Kernalite
