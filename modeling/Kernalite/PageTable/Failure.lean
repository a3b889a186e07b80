import Kernalite.PageTable.Translation

/-!
# Kernalite — when `map_page` fails

The exact condition under which a call succeeds, and what a failed call leaves
behind: nothing when the physical address is misaligned, and when the pages run
out a longer path of empty tables, which the next attempt continues.

* `System.Sound.failed_map` — the state after running out of pages (`FailedMap`);
* `mapPage_failureSafe` — both kinds of failure, in every reachable state.
-/

namespace Kernalite

open ByteMemory Words FirstFit PageTableEntry Relation

variable {L : KernelLayout} {memStart memSize : Nat} {s s' : System} {F : Forest} {l : Ledger}
  {q : MapRequest}

/-- Other owners free blocks of `n` pages altogether. -/
inductive Freed : System → Nat → System → Prop where
  | nothing (s : System) : Freed s 0 s
  | free (s s' : System) (m p n : Nat) (hBefore : Freed s m s') (hLive : pages p n ∈ s'.pool.live)
      (hRoot : p ∉ s'.roots) (hTable : p ∉ s'.tables) :
      Freed s (m + n) { s' with pool := s'.pool.free p n }

/-- The state a call leaves when the free pages do not reach for its path. -/
structure FailedMap (L : KernelLayout) (s : System) (q : MapRequest) : Prop where
  /-- no translation changes, from any root -/
  walks : ∀ root ∈ s.roots, ∀ vAddr,
    walk (s.map q).kernel.mem root vAddr = walk s.kernel.mem root vAddr
  /-- the level 3 tables are those there were, with the entries they had -/
  leaves : ∀ root ∈ s.roots, ∀ path, path.length = 3 →
    tableAt (s.map q).kernel.mem root path = tableAt s.kernel.mem root path ∧
      ∀ t, tableAt s.kernel.mem root path = some t → ∀ idx,
        entryAt (s.map q).kernel.mem t idx = entryAt s.kernel.mem t idx
  /-- the pages taken are tables on the path of the address, with no leaf beneath -/
  linked : ∀ u ∈ takenPages s.kernel (s.map q).kernel, ∃ p, p ∈ tablePrefixes q.vAddr ∧
    tableAt (s.map q).kernel.mem q.root p = some u ∧
    ∀ vAddr, p <+: tablePath vAddr → walk (s.map q).kernel.mem q.root vAddr = none
  /-- each of them is a level less to build -/
  missing_eq : (s.map q).missing q + (takenPages s.kernel (s.map q).kernel).length = s.missing q
  /-- whatever others do meanwhile, a retry needs the levels still missing -/
  retry_iff : ∀ s', ReflTransGen (EnvStep L) (s.map q) s' →
    (s'.succeeds q = true ↔ (s.map q).missing q ≤ s'.freePages)
  /-- and succeeds once others have freed as many pages -/
  retry_freed : ∀ n s', Freed (s.map q) n s' → (s.map q).missing q ≤ n → s'.succeeds q = true

-- ---------------------------------------------------------------------------
-- Pages freed by others
-- ---------------------------------------------------------------------------

/-- Freeing a live block of `n` pages makes `n` more pages free. -/
theorem pageFree_freeCount {k : Kernel} (h : Tracks L k l) {p n : Nat} (hLive : pages p n ∈ l.live) :
    freeCount (pageFree p n k).used (pageFree p n k).totalPages =
      freeCount k.used k.totalPages + n := by
  have hNext := pageFree_tracks h hLive
  obtain ⟨hBase, hBitmap, hTotal⟩ := pageFree_static p n k
  obtain ⟨t, rfl, hFit⟩ := (h.live_in _ hLive).exists_index h.ready.base_aligned
  have hAddr : ∀ i, pageAddr (pageFree (pageAddr k t) n k) i = pageAddr k i := fun i => by
    rw [pageAddr, hBase, pageAddr]
  rw [hTotal]
  refine freeCount_release hFit ?_ ?_
  · intro i hlo hhi
    rw [used_of_lt (by omega), h.bits i (by omega)]
    exact Or.inl ⟨_, hLive, pages_contains_iff.mpr ⟨hlo, hhi⟩⟩
  · intro i hi
    rw [used_of_lt (hTotal ▸ hi), used_of_lt hi, hNext.bits i (hTotal ▸ hi), hAddr, h.bits i hi,
      Ledger.occupied_release l hLive, pages_contains_iff]

theorem Freed.env_run {n : Nat} (h : Freed s n s') : ReflTransGen (EnvStep L) s s' := by
  induction h with
  | nothing => exact .refl
  | free s' m p n _ hLive hRoot hTable ih => exact ih.tail (.free s' p n hLive hRoot hTable)

theorem Freed.freePages_eq {n : Nat} (h : Freed s n s') (hSound : s.Sound L F l) :
    s'.freePages = s.freePages + n := by
  induction h with
  | nothing => rfl
  | free s' m p n hBefore hLive hRoot hTable ih =>
    obtain ⟨l', hSound'⟩ := env_run_sound (L := L) hBefore.env_run hSound
    have hStep := pageFree_freeCount hSound'.page_tables.tracks (hSound'.live_eq ▸ hLive)
    have hFree : ({ s' with pool := s'.pool.free p n } : System).freePages = s'.freePages + n :=
      hStep
    rw [hFree, ih, Nat.add_assoc]

-- ---------------------------------------------------------------------------
-- Success and failure
-- ---------------------------------------------------------------------------

/-- A call succeeds exactly when its address is aligned and its levels fit. -/
theorem System.Sound.succeeds_iff (h : s.Sound L F l) (hRoot : q.root ∈ s.roots) :
    s.succeeds q = true ↔ q.mapping.phyAddr.toNat % pageSize = 0 ∧ s.missing q ≤ s.freePages := by
  obtain ⟨F', l', taken, hResult, -⟩ := System.map_sound h hRoot
  exact hResult.ok_iff

/-- The levels missing are a matter of the forest. -/
theorem System.Sound.missing_eq (h : s.Sound L F l) (hRoot : q.root ∈ s.roots) :
    s.missing q = (tablePrefixes q.vAddr).countP fun p => F.node q.root p = none := by
  rw [System.missing, levelsMissing_eq_countP]
  refine List.countP_congr fun p hp => ?_
  have hLen := (mem_tablePrefixes.mp hp).2.length_le
  rw [h.tableAt_eq hRoot (Nat.lt_succ_of_le hLen)]

/-- A call that leaves a level missing adds no level 3 table. -/
theorem MapResult.level3_kept {k k' : Kernel} {F' : Forest} {l' : Ledger} {taken : List Nat}
    {root : Nat} {vAddr : BitVec 64} {mapping : Mapping} {ok : Bool}
    (hResult : MapResult L k F l root vAddr mapping ok k' F' l' taken)
    (hRoot : F.node root [] = some root)
    (hShort : levelsMissing k'.mem root (tablePath vAddr) ≠ 0) (r : Nat) {path : List (Fin 512)}
    (hLen : path.length = 3) : F'.node r path = F.node r path := by
  cases hBefore : F.node r path with
  | some t => exact hResult.kept _ _ _ hBefore
  | none =>
    cases hAfter : F'.node r path with
    | none => rfl
    | some t =>
      rcases hResult.new _ _ _ hAfter with hOld | ⟨-, rfl, _, -, hPrefix, rfl⟩
      · rw [hBefore] at hOld
        exact absurd hOld (by simp)
      · -- the new table would end the path of the address
        obtain rfl : path = tablePath vAddr := hPrefix.eq_of_length hLen
        refine absurd (levelsMissing_eq_zero_iff.mpr ⟨t, ?_⟩) hShort
        rw [hResult.tables.tableAt_eq (hResult.kept _ _ _ hRoot) _ (by simp [tablePath])]
        exact hAfter

/-- The entries of a level 3 table are a matter of the leaves. -/
theorem PageTables.level3_entries {k k' : Kernel} {F' : Forest} {l' : Ledger}
    (h' : PageTables L k' F' l') (h : PageTables L k F l) {root t : Nat} {path : List (Fin 512)}
    (hNode' : F'.node root path = some t) (hNode : F.node root path = some t)
    (hLen : path.length = 3) (hLeaf : F'.leaf = F.leaf) (idx : Fin 512) :
    entryAt k'.mem t idx = entryAt k.mem t idx := by
  have hDeep : 4 ≤ (path ++ [idx]).length := by simp [hLen]
  rw [h'.represents _ _ _ hNode', h.represents _ _ _ hNode, Forest.entry, Forest.entry, hLeaf,
    F.node_eq_none_of_length hDeep, F'.node_eq_none_of_length hDeep]

/-- **Running out of pages.** -/
theorem System.Sound.failed_map (h : s.Sound L F l) (hRoot : q.root ∈ s.roots)
    (hAligned : q.mapping.phyAddr.toNat % pageSize = 0) (hShort : s.freePages < s.missing q) :
    FailedMap L s q := by
  obtain ⟨F', l', taken, hResult, hPerm, l'', hSound'⟩ := System.map_sound h hRoot
  have hFailed : ¬ s.succeeds q = true := fun hOk =>
    absurd ((h.succeeds_iff hRoot).mp hOk).2 (by omega)
  have hLeaf : F'.leaf = F.leaf := by
    funext r p
    rw [hResult.leaf_eq, if_neg fun hHit => hFailed hHit.1]
  have hMissing : (s.map q).missing q + taken.length = s.missing q := hResult.missing
  have hAll : taken.length = s.freePages := by
    rw [hResult.count, if_pos hAligned]
    exact Nat.min_eq_right (Nat.le_of_lt hShort)
  have hRetry : ∀ s', ReflTransGen (EnvStep L) (s.map q) s' → q.root ∈ s'.roots →
      (s'.succeeds q = true ↔ (s.map q).missing q ≤ s'.freePages) := by
    intro s' hRun hRoot'
    obtain ⟨l₂, hSound₂⟩ := env_run_sound hRun hSound'
    rw [hSound₂.succeeds_iff hRoot', hSound₂.missing_eq hRoot', hSound'.missing_eq hRoot]
    exact and_iff_right hAligned
  have hRoots : ∀ s', ReflTransGen (EnvStep L) (s.map q) s' → q.root ∈ s'.roots := by
    intro s' hRun
    obtain ⟨l₂, hSound₂⟩ := env_run_sound hRun hSound'
    exact (hSound₂.roots_iff _).mpr ((hSound'.roots_iff _).mp hRoot)
  refine ⟨?_, ?_, ?_, ?_, fun s' hRun => hRetry s' hRun (hRoots s' hRun), ?_⟩
  · intro root hMem vAddr
    rw [h.walk_eq hMem, hSound'.walk_eq (show root ∈ (s.map q).roots from hMem), hLeaf]
  · intro root hMem path hLen
    have hMem' : root ∈ (s.map q).roots := hMem
    have hKept := hResult.level3_kept ((h.roots_iff _).mp hRoot)
      (show (s.map q).missing q ≠ 0 by omega) root hLen
    have hTable : tableAt (s.map q).kernel.mem root path = tableAt s.kernel.mem root path := by
      rw [h.tableAt_eq hMem (by omega), hSound'.tableAt_eq hMem' (by omega), hKept]
    refine ⟨hTable, fun t hAt idx => ?_⟩
    have hNode : F.node root path = some t := by rw [← hAt, h.tableAt_eq hMem (by omega)]
    exact hSound'.page_tables.level3_entries h.page_tables (hKept.trans hNode) hNode hLen hLeaf idx
  · intro u hu
    obtain ⟨hFresh, p, ⟨_, hNil, hPrefix, rfl⟩, hNode⟩ := hResult.linked u (hPerm.mem_iff.mp hu)
    have hLen := hPrefix.length_le
    refine ⟨p, mem_tablePrefixes.mpr ⟨hNil, hPrefix⟩, ?_, ?_⟩
    · rw [hSound'.tableAt_eq hRoot (Nat.lt_succ_of_le hLen)]
      exact hNode
    · rintro vAddr ⟨rest, hRest⟩
      -- the table is new, so the forest had nothing below it
      have hBefore : F.node q.root p = none := by
        cases hCase : F.node q.root p with
        | none => rfl
        | some t =>
          rw [hResult.kept _ _ _ hCase] at hNode
          exact absurd ⟨_, _, Option.some.inj hNode ▸ hCase⟩ hFresh
      rw [hSound'.walk_eq hRoot, hLeaf, vaPath, ← hRest, List.append_assoc,
        F.leaf_append_eq_none hBefore (by simp)]
      rfl
  · rw [hPerm.length_eq]
    exact hMissing
  · intro n s' hFreed hEnough
    refine (hRetry s' hFreed.env_run (hRoots s' hFreed.env_run)).mpr ?_
    rw [hFreed.freePages_eq hSound']
    omega

/--
**When `map_page` succeeds, and what it leaves when it fails.** In every
reachable state at most three levels are missing on a path, and a call succeeds
exactly when the physical address is a multiple of 4096 and as many pages are
free as levels are missing. With a misaligned address no byte of memory changes,
the bitmap included; without enough pages the state is that of `FailedMap`.
-/
theorem mapPage_failureSafe (hReach : Reachable L memStart memSize s) (hRoot : q.root ∈ s.roots) :
    s.missing q ≤ 3 ∧
    (s.succeeds q = true ↔
      q.mapping.phyAddr.toNat % 4096 = 0 ∧ s.missing q ≤ s.freePages) ∧
    (q.mapping.phyAddr.toNat % 4096 ≠ 0 →
      (s.map q).kernel.mem = s.kernel.mem ∧ (s.map q).kernel.used = s.kernel.used) ∧
    (q.mapping.phyAddr.toNat % 4096 = 0 → s.freePages < s.missing q → FailedMap L s q) := by
  obtain ⟨F, l, hSound⟩ := reachable_sound hReach
  refine ⟨levelsMissing_le _ _ _, hSound.succeeds_iff hRoot, fun hMisaligned => ?_,
    fun hAligned hShort => hSound.failed_map hRoot hAligned hShort⟩
  have hCall := mapPage_misaligned q.root q.vAddr q.mapping.perms s.kernel hMisaligned
  simp only [System.map, System.kernel] at hCall ⊢
  rw [hCall]
  exact ⟨rfl, rfl⟩

/-- The small kernel when one page is left besides the root. -/
def tightGranted : System := { smallGranted with pool := smallGranted.pool.alloc 40 }

def tightSystem : System := tightGranted.initRoot smallRoot

theorem tightRoot_live : pages smallRoot 1 ∈ tightGranted.pool.live := by
  decide +kernel

theorem tightGranted_reachable : Reachable smallLayout 0x40000000 0x40000 tightGranted :=
  smallGranted_reachable.step (.env _ _ (.alloc smallGranted 40))

theorem tightSystem_reachable : Reachable smallLayout 0x40000000 0x40000 tightSystem :=
  tightGranted_reachable.step
    (.initRoot tightGranted smallRoot tightRoot_live List.not_mem_nil List.not_mem_nil)

/-- There a request runs out of pages behind the first of its three tables, and a misaligned
one takes none. -/
theorem mapPage_failureSafe_tightSystem :
    let q : MapRequest := ⟨smallRoot, 0x1000, ⟨0x5000, ⟨true, true, false⟩⟩⟩
    let misaligned : MapRequest := ⟨smallRoot, 0x1000, ⟨0x5008, ⟨true, true, false⟩⟩⟩
    tightSystem.missing q = 3 ∧ tightSystem.freePages = 1 ∧
      ¬ tightSystem.succeeds q = true ∧ FailedMap smallLayout tightSystem q ∧
      (tightSystem.map misaligned).kernel.mem = tightSystem.kernel.mem := by
  intro q misaligned
  obtain ⟨F, l, hSound⟩ := reachable_sound tightGranted_reachable
  obtain ⟨hKept, hBare⟩ := hSound.bareRoot tightRoot_live List.not_mem_nil List.not_mem_nil
  have hMissing : tightSystem.missing q = 3 := hBare q rfl
  have hFree : tightSystem.freePages = 1 :=
    hKept.trans (show tightGranted.freePages = 1 by decide +kernel)
  obtain ⟨-, hSucceeds, -, hFailed⟩ :=
    mapPage_failureSafe (q := q) tightSystem_reachable List.mem_cons_self
  obtain ⟨-, -, hMisaligned, -⟩ :=
    mapPage_failureSafe (q := misaligned) tightSystem_reachable List.mem_cons_self
  refine ⟨hMissing, hFree, fun hOk => ?_, hFailed (by decide) (by omega),
    (hMisaligned (by decide)).1⟩
  have hEnough := (hSucceeds.mp hOk).2
  omega

end Kernalite
