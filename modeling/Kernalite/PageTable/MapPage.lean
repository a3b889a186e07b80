import Kernalite.PageTable.Descent

/-!
# Kernalite — `map_page`

`map_page` is a descent followed by the write of one leaf. `MapResult` collects
what a call does to memory, allocator and forest, whether it succeeds or not.

* `mapPage_descend` — the function as a descent and a write;
* `mapPage_spec` — every call yields a `MapResult`. In particular it succeeds
  exactly when the physical address is page aligned and as many pages are free
  as levels are missing (`MapResult.ok_iff`).
-/

namespace Kernalite

open ByteMemory Words FirstFit PageTableEntry

variable {L : KernelLayout} {k : Kernel} {F : Forest} {l : Ledger} {root : Nat}

-- ---------------------------------------------------------------------------
-- `map_page` as a descent
-- ---------------------------------------------------------------------------

theorem pageAligned_iff (phyAddr : BitVec 64) :
    phyAddr &&& 0xFFF = 0 ↔ phyAddr.toNat % pageSize = 0 := by
  have hMask : (phyAddr &&& 0xFFF).toNat = phyAddr.toNat % pageSize := by
    rw [BitVec.toNat_and]
    exact Nat.and_two_pow_sub_one_eq_mod phyAddr.toNat 12
  rw [← hMask]
  exact BitVec.toNat_inj.symm

theorem mapPage_misaligned (root : Nat) (vAddr : BitVec 64) {phyAddr : BitVec 64}
    (perms : PagePermissions) (k : Kernel) (h : phyAddr.toNat % pageSize ≠ 0) :
    mapPage root vAddr phyAddr perms k =
      (false, k.kprintf "Error: Physical address 0x%lx is not page aligned\n"
        [.word phyAddr.toNat]) := by
  rw [mapPage, if_pos (fun hZero => h ((pageAligned_iff phyAddr).mp hZero))]

/-- For an aligned address: descend, then write the leaf. -/
theorem mapPage_descend (vAddr : BitVec 64) {phyAddr : BitVec 64} (perms : PagePermissions)
    (k : Kernel) (h : phyAddr.toNat % pageSize = 0) :
    ((descend root (tablePath vAddr) k).1 = 0 ∧
      ∃ c, mapPage root vAddr phyAddr perms k =
        (false, { (descend root (tablePath vAddr) k).2 with console := c })) ∨
    ((descend root (tablePath vAddr) k).1 ≠ 0 ∧
      mapPage root vAddr phyAddr perms k =
        (true, writeLeaf (entryAddr (descend root (tablePath vAddr) k).1 (l3Idx vAddr))
          phyAddr perms (descend root (tablePath vAddr) k).2)) := by
  have hAligned : ¬ phyAddr &&& 0xFFF ≠ 0 := not_not_intro ((pageAligned_iff phyAddr).mpr h)
  simp only [mapPage, hAligned, if_false, tablePath, descend]
  rcases getNextLevelTable (entryAddr root (l0Idx vAddr)) k with ⟨level1, k₁⟩
  by_cases h1 : level1 = 0
  · simp only [h1, if_true]
    exact Or.inl ⟨trivial, _, rfl⟩
  simp only [h1, if_false]
  rcases getNextLevelTable (entryAddr level1 (l1Idx vAddr)) k₁ with ⟨level2, k₂⟩
  by_cases h2 : level2 = 0
  · simp only [h2, if_true]
    exact Or.inl ⟨trivial, _, rfl⟩
  simp only [h2, if_false]
  rcases getNextLevelTable (entryAddr level2 (l2Idx vAddr)) k₂ with ⟨level3, k₃⟩
  by_cases h3 : level3 = 0
  · simp only [h3, if_true]
    exact Or.inl ⟨trivial, _, rfl⟩
  simp only [h3, if_false]
  exact Or.inr ⟨h3, trivial⟩

-- ---------------------------------------------------------------------------
-- What a call does
-- ---------------------------------------------------------------------------

/-- Where a `map_page` call may write: the bitmap, the pages it takes, and one
entry. -/
def MapWrites (L : Layout) (m : Mem) (root : Nat) (vAddr : BitVec 64) (taken : List Nat)
    (a : Nat) : Prop :=
  InBitmap L a ∨ (∃ u ∈ taken, (pages u 1).Contains a) ∨
    ∃ slot, writtenSlot m root vAddr = some slot ∧ (slotBytes slot).Contains a

/-- What `map_page(root, vAddr, mapping)` does: `ok` is its result, `taken` are
the pages it allocated. -/
structure MapResult (L : KernelLayout) (k : Kernel) (F : Forest) (l : Ledger) (root : Nat)
    (vAddr : BitVec 64) (mapping : Mapping) (ok : Bool) (k' : Kernel) (F' : Forest) (l' : Ledger)
    (taken : List Nat) : Prop where
  tables      : PageTables L k' F' l'
  static      : SameStatics k k'
  live_eq     : l'.live = taken.map (pages · 1) ++ l.live
  reserved_eq : l'.reserved = l.reserved
  used_eq     : k'.used = grab k.used k.totalPages taken.length
  padding     : PaddingKept L k k'
  count       : taken.length = if mapping.phyAddr.toNat % pageSize = 0 then
    min (levelsMissing k.mem root (tablePath vAddr)) (freeCount k.used k.totalPages) else 0
  ok_iff      : ok = true ↔ mapping.phyAddr.toNat % pageSize = 0 ∧
    levelsMissing k.mem root (tablePath vAddr) ≤ freeCount k.used k.totalPages
  kept        : ∀ r p u, F.node r p = some u → F'.node r p = some u
  new         : ∀ r p u, F'.node r p = some u →
    F.node r p = some u ∨ u ∈ taken ∧ r = root ∧ Continues [] (tablePath vAddr) p
  linked      : ∀ u ∈ taken, ¬ F.Has u ∧
    ∃ p, Continues [] (tablePath vAddr) p ∧ F'.node root p = some u
  leaf_eq     : ∀ r p, F'.leaf r p =
    if ok = true ∧ r = root ∧ p = vaPath vAddr then some mapping else F.leaf r p
  missing     : levelsMissing k'.mem root (tablePath vAddr) + taken.length =
    levelsMissing k.mem root (tablePath vAddr)
  frame       : SameOutside (MapWrites L k.mem root vAddr taken) k.mem k'.mem

/-- A call that fails, with what its descent left behind. -/
theorem MapResult.failed {k₁ : Kernel} {F' : Forest} {l' : Ledger} {taken : List Nat}
    {vAddr : BitVec 64} {mapping : Mapping} (c : List (String × List Arg))
    (hGrown : Grown L k F l root [] root (tablePath vAddr) k₁ F' l' taken)
    (hCount : taken.length = if mapping.phyAddr.toNat % pageSize = 0 then
      min (levelsMissing k.mem root (tablePath vAddr)) (freeCount k.used k.totalPages) else 0)
    (hNot : ¬ (mapping.phyAddr.toNat % pageSize = 0 ∧
      levelsMissing k.mem root (tablePath vAddr) ≤ freeCount k.used k.totalPages)) :
    MapResult L k F l root vAddr mapping false { k₁ with console := c } F' l' taken where
  tables := hGrown.tables.frame (hGrown.tables.tracks.of_bitmap ⟨rfl, rfl, rfl⟩ fun _ _ => rfl)
    ⟨rfl, rfl, rfl⟩ hGrown.tables.node_live fun _ _ => rfl
  static := hGrown.static.trans ⟨rfl, rfl, rfl⟩
  live_eq := hGrown.live_eq
  reserved_eq := hGrown.reserved_eq
  used_eq := hGrown.used_eq
  padding := hGrown.padding
  count := hCount
  ok_iff := iff_of_false Bool.false_ne_true hNot
  kept := hGrown.kept
  new := hGrown.new
  linked := hGrown.linked
  leaf_eq := by
    intro r p
    rw [if_neg (fun h => Bool.false_ne_true h.1), hGrown.leaf_eq]
  missing := hGrown.missing
  frame := by
    refine hGrown.frame.mono ?_
    rintro a (ha | ha | ⟨-, slot, hSlot, ha⟩)
    · exact Or.inl ha
    · exact Or.inr (Or.inl ha)
    · refine Or.inr (Or.inr ⟨slot, ?_, ha⟩)
      rw [writtenSlot, tableAt_eq_none_iff.mpr ⟨slot, hSlot⟩]
      exact hSlot

/-- A call that succeeds writes one leaf into the table its descent reached. -/
theorem MapResult.succeeded (h : PageTables L k F l) (hRoot : F.node root [] = some root)
    {k₁ : Kernel} {F' : Forest} {l' : Ledger} {taken : List Nat} {vAddr : BitVec 64}
    (mapping : Mapping) {level3 : Nat}
    (hGrown : Grown L k F l root [] root (tablePath vAddr) k₁ F' l' taken)
    (hCount : taken.length = levelsMissing k.mem root (tablePath vAddr))
    (hAligned : mapping.phyAddr.toNat % pageSize = 0)
    (hRoom : levelsMissing k.mem root (tablePath vAddr) ≤ freeCount k.used k.totalPages)
    (hAt : F'.node root (tablePath vAddr) = some level3) :
    MapResult L k F l root vAddr mapping true
      { k₁ with mem := store64 k₁.mem (entryAddr level3 (l3Idx vAddr)) mapping.entry }
      (F'.setLeaf root (tablePath vAddr) (l3Idx vAddr) mapping ⟨level3, hAt⟩
        (tablePath_length vAddr)) l' taken := by
  have hHas : F'.Has level3 := ⟨root, _, hAt⟩
  have hTables := hGrown.tables.setLeaf (i := l3Idx vAddr) hAt (tablePath_length vAddr) mapping
  have hTable := hTables.tableAt_eq (hGrown.kept _ _ _ hRoot) (tablePath vAddr) (by simp [tablePath])
  have hNone : levelsMissing (store64 k₁.mem (entryAddr level3 (l3Idx vAddr)) mapping.entry) root
      (tablePath vAddr) = 0 := levelsMissing_eq_zero_iff.mpr ⟨level3, hTable.trans hAt⟩
  refine
    { tables := hTables
      static := hGrown.static.trans ⟨rfl, rfl, rfl⟩
      live_eq := hGrown.live_eq
      reserved_eq := hGrown.reserved_eq
      used_eq := (hGrown.tables.used_store hHas _).trans hGrown.used_eq
      padding := hGrown.padding.trans hGrown.static.totalPages_eq
        (hGrown.tables.tracks.ready.paddingKept ⟨rfl, rfl, rfl⟩ (hGrown.tables.store_bitmap hHas _))
      count := ?_
      ok_iff := iff_of_true rfl ⟨hAligned, hRoom⟩
      kept := hGrown.kept
      new := hGrown.new
      linked := hGrown.linked
      leaf_eq := ?_
      missing := ?_
      frame := ?_ }
  · rw [if_pos hAligned, hCount, Nat.min_eq_left hRoom]
  · intro r p
    rw [RadixForest.leaf_setLeaf, hGrown.leaf_eq]
    simp only [true_and, vaPath]
  · rw [hNone, hCount, Nat.zero_add]
  · refine (hGrown.frame.mono ?_).trans ((sameOutside_store64 k₁.mem _ _).mono ?_)
    · rintro a (ha | ha | ⟨-, slot, hSlot, ha⟩)
      · exact Or.inl ha
      · exact Or.inr (Or.inl ha)
      · refine Or.inr (Or.inr ⟨slot, ?_, ha⟩)
        rw [writtenSlot, tableAt_eq_none_iff.mpr ⟨slot, hSlot⟩]
        exact hSlot
    · rintro a ⟨hlo, hhi⟩
      have hOld := h.tableAt_eq hRoot (tablePath vAddr) (by simp [tablePath])
      rw [List.nil_append] at hOld
      cases hCase : F.node root (tablePath vAddr) with
      | some t =>
        -- the level 3 table was there: the leaf is the one slot
        obtain rfl : t = level3 :=
          Option.some.inj ((hGrown.kept _ _ _ hCase).symm.trans hAt)
        exact Or.inr (Or.inr ⟨entryAddr t (l3Idx vAddr), by rw [writtenSlot, hOld, hCase],
          hlo, hhi⟩)
      | none =>
        -- the level 3 table is one of the new pages
        rcases hGrown.new _ _ _ hAt with hKept | ⟨hTaken, -, -⟩
        · rw [hCase] at hKept
          exact absurd hKept (by simp)
        · exact Or.inr (Or.inl ⟨level3, hTaken, hGrown.tables.slot_inTables hHas hlo hhi⟩)

/-- **Every call of `map_page` yields a `MapResult`.** -/
theorem mapPage_spec (h : PageTables L k F l) (hRoot : F.node root [] = some root)
    (vAddr phyAddr : BitVec 64) (perms : PagePermissions) :
    ∃ F' l' taken, MapResult L k F l root vAddr ⟨phyAddr, perms⟩
      (mapPage root vAddr phyAddr perms k).1 (mapPage root vAddr phyAddr perms k).2 F' l' taken := by
  by_cases hAligned : phyAddr.toNat % pageSize = 0
  · obtain ⟨F', l', taken, hGrown, hOutcome⟩ := descend_spec h hRoot (tablePath vAddr)
      (by simp [tablePath])
    by_cases hRoom : levelsMissing k.mem root (tablePath vAddr) ≤ freeCount k.used k.totalPages
    · rw [if_pos hRoom, List.nil_append] at hOutcome
      obtain ⟨hAt, hCount⟩ := hOutcome
      have hNonzero := Nat.ne_of_gt (hGrown.tables.table_bounds ⟨root, _, hAt⟩).2.1
      rcases mapPage_descend vAddr perms k hAligned with ⟨hNull, -⟩ | ⟨-, hEq⟩
      · exact absurd hNull hNonzero
      · rw [hEq, writeLeaf_eq]
        exact ⟨_, l', taken, MapResult.succeeded h hRoot ⟨phyAddr, perms⟩ hGrown hCount hAligned
          hRoom hAt⟩
    · rw [if_neg hRoom] at hOutcome
      obtain ⟨hNull, hCount⟩ := hOutcome
      rcases mapPage_descend vAddr perms k hAligned with ⟨-, c, hEq⟩ | ⟨hNonzero, -⟩
      · rw [hEq]
        refine ⟨F', l', taken, MapResult.failed c hGrown ?_ fun hBoth => hRoom hBoth.2⟩
        rw [if_pos hAligned, hCount, Nat.min_eq_right (by omega)]
      · exact absurd hNull hNonzero
  · rw [mapPage_misaligned root vAddr perms k hAligned]
    refine ⟨F, l, [], MapResult.failed _ (Grown.nothing h ⟨rfl, rfl, rfl⟩ rfl) ?_
      fun hBoth => hAligned hBoth.1⟩
    rw [if_neg hAligned]
    rfl

end Kernalite
