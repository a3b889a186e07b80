import Kernalite.PageTable.System

/-!
# Kernalite — ownership of the tables

Who owns the pages below the roots, and what a `map_page` call may touch.

* `pageTables_linked` — a descriptor above level 3 is valid exactly when it links
  a page `map_page` took, and each such page is linked once;
* `mapPage_isolated` — a call writes in the bitmap, in the pages it takes and in
  one entry of the tables its root has;
* `pageTables_isolated` — both, in every reachable state.
-/

namespace Kernalite

open ByteMemory Words FirstFit PageTableEntry

variable {L : KernelLayout} {memStart memSize : Nat} {s : System} {F : Forest} {l : Ledger}

/-- Where a level 0, 1 or 2 descriptor is: the root, the path to its table, its
slot there. -/
structure Descriptor where
  root : Nat
  path : List (Fin 512)
  idx : Fin 512

/-- The descriptor is reached from its root through valid entries, is itself
valid, and reads `entry`. -/
structure System.Links (s : System) (d : Descriptor) (entry : PageTableEntry) : Prop where
  root_mem  : d.root ∈ s.roots
  above     : d.path.length < 3
  reached   : ∃ table, tableAt s.kernel.mem d.root d.path = some table ∧
    entryAt s.kernel.mem table d.idx = entry
  isValid_eq : isValid entry = true

/-- Where a `map_page` call may write, by the records of the system. -/
def System.MapWrites (L : Layout) (s : System) (q : MapRequest) (a : Nat) : Prop :=
  Kernalite.MapWrites L s.kernel.mem q.root q.vAddr (takenPages s.kernel (s.map q).kernel) a

/-- A block that is neither a root nor a page `map_page` took. -/
def System.OwnedByOthers (s : System) (e : Extent) : Prop :=
  e ∈ s.pool.live ∧ ∀ t, t ∈ s.roots ∨ t ∈ s.tables → e ≠ pages t 1

-- ---------------------------------------------------------------------------
-- Links
-- ---------------------------------------------------------------------------

/-- A valid descriptor above level 3 links a node of the forest. -/
theorem System.Sound.links (h : s.Sound L F l) {d : Descriptor} {entry : PageTableEntry}
    (hLink : s.Links d entry) :
    F.node d.root (d.path ++ [d.idx]) = some (nextTable entry) ∧ table.get entry = 1 := by
  obtain ⟨t, hReached, rfl⟩ := hLink.reached
  have hAbove := hLink.above
  rw [h.tableAt_eq hLink.root_mem (by omega)] at hReached
  have hValid := hLink.isValid_eq
  cases hNext : F.node d.root (d.path ++ [d.idx]) with
  | none =>
    rw [h.page_tables.entry_none hReached hAbove hNext, isValid_zero] at hValid
    exact absurd hValid Bool.false_ne_true
  | some next =>
    rw [(h.page_tables.entry_some hReached hNext).2]
    refine ⟨rfl, ?_⟩
    rw [h.page_tables.represents _ _ _ hReached, Forest.entry, hNext]
    exact tableEntry_table _

/-- A node below a root is linked by the entry at the end of its path. -/
theorem System.Sound.links_of_node (h : s.Sound L F l) {root next : Nat} {path : List (Fin 512)}
    {idx : Fin 512} (hNode : F.node root (path ++ [idx]) = some next) :
    ∃ entry, s.Links ⟨root, path, idx⟩ entry ∧ nextTable entry = next := by
  have hLen := F.node_length _ _ _ hNode
  rw [List.length_append, List.length_singleton] at hLen
  obtain ⟨t, hParent⟩ := F.node_parent _ _ _ _ hNode
  obtain ⟨hValid, hNext⟩ := h.page_tables.entry_some hParent hNode
  have hRoot := (h.roots_iff root).mpr (F.root_of_node hNode)
  refine ⟨_, ⟨hRoot, show path.length < 3 by omega, ⟨t, ?_, rfl⟩, hValid⟩, hNext⟩
  rw [h.tableAt_eq hRoot (show path.length < 4 by omega)]
  exact hParent

/-- The valid bit of a valid entry. -/
theorem valid_of_isValid {entry : PageTableEntry} (h : isValid entry = true) :
    valid.get entry = 1 := by
  have hBit : ∀ x : BitVec 1, (x != 0) = true → x = 1 := by decide
  exact hBit _ h

/-- **Links and taken pages correspond.** Every valid descriptor above level 3
links a page `map_page` took, and every such page is linked by one descriptor. -/
theorem System.Sound.linked (h : s.Sound L F l) :
    (∀ d entry, s.Links d entry →
      valid.get entry = 1 ∧ table.get entry = 1 ∧ nextTable entry ∈ s.tables) ∧
    ∀ t ∈ s.tables, ∃! d, ∃ entry, s.Links d entry ∧ nextTable entry = t := by
  constructor
  · intro d entry hLink
    obtain ⟨hNode, hTable⟩ := h.links hLink
    exact ⟨valid_of_isValid hLink.isValid_eq, hTable,
      (h.tables_iff _).mpr ⟨d.root, _, by simp, hNode⟩⟩
  · intro t ht
    obtain ⟨root, p, hp, hNode⟩ := (h.tables_iff t).mp ht
    obtain ⟨path, idx, rfl⟩ := List.eq_nil_or_concat p |>.resolve_left hp
    rw [List.concat_eq_append] at hNode
    refine ⟨⟨root, path, idx⟩, h.links_of_node hNode, ?_⟩
    rintro ⟨root', path', idx'⟩ ⟨entry, hLink, rfl⟩
    obtain ⟨hRoot, hPath⟩ := F.node_inj _ _ _ _ _ (h.links hLink).1 hNode
    obtain ⟨hPath, hIdx⟩ := List.append_inj' hPath rfl
    simp only [List.cons.injEq, and_true] at hIdx
    exact (Descriptor.mk.injEq ..).mpr ⟨hRoot, hPath, hIdx⟩

-- ---------------------------------------------------------------------------
-- What a call writes
-- ---------------------------------------------------------------------------

/-- The first invalid entry of a path lies in a table the path reaches. -/
theorem firstInvalidSlot_reached {m : Mem} {t slot : Nat} {rest : List (Fin 512)}
    (h : firstInvalidSlot m t rest = some slot) :
    ∃ p i, p ++ [i] <+: rest ∧ ∃ u, tableAt m t p = some u ∧ slot = entryAddr u i := by
  induction rest generalizing t with
  | nil => exact absurd h (by simp [firstInvalidSlot])
  | cons j rest ih =>
    rw [firstInvalidSlot] at h
    split_ifs at h with hValid
    · obtain ⟨p, i, hPrefix, u, hAt, hSlot⟩ := ih h
      refine ⟨j :: p, i, List.cons_prefix_cons.mpr ⟨rfl, hPrefix⟩, u, ?_, hSlot⟩
      rw [tableAt, if_pos hValid, hAt]
    · exact ⟨[], j, List.cons_prefix_cons.mpr ⟨rfl, List.nil_prefix⟩, t, rfl, (Option.some.inj h).symm⟩

/-- The entry a call writes lies in a table its root has, on the path of the
address. -/
theorem writtenSlot_reached {m : Mem} {root slot : Nat} {vAddr : BitVec 64}
    (h : writtenSlot m root vAddr = some slot) :
    ∃ p i, p ++ [i] <+: vaPath vAddr ∧ ∃ u, tableAt m root p = some u ∧ slot = entryAddr u i := by
  rw [writtenSlot] at h
  split at h
  · next u hAt =>
    exact ⟨_, _, List.prefix_rfl, u, hAt, (Option.some.inj h).symm⟩
  · obtain ⟨p, i, hPrefix, hAt⟩ := firstInvalidSlot_reached h
    exact ⟨p, i, hPrefix.trans (List.prefix_append _ _), hAt⟩

/-- **A call writes where it may.** Other blocks and the reserved ranges outside
the bitmap keep their bytes, and the pages taken were nobody's. -/
theorem System.Sound.mapPage_isolated (h : s.Sound L F l) {q : MapRequest}
    (hRoot : q.root ∈ s.roots) :
    SameOutside (s.MapWrites L q) s.kernel.mem (s.map q).kernel.mem ∧
    (∀ e, s.OwnedByOthers e → ∀ a, e.Contains a → ¬ s.MapWrites L q a) ∧
    ∀ e ∈ s.pool.reserved, ∀ a, e.Contains a → s.MapWrites L q a → InBitmap L a := by
  obtain ⟨F', l', taken, hResult, hPerm, -⟩ := System.map_sound h hRoot
  have hTaken : ∀ u ∈ takenPages s.kernel (s.map q).kernel, pages u 1 ∈ l'.live ∧
      ∀ e ∈ s.pool.live, (pages u 1).Disjoint e := by
    intro u hu
    have hMem := List.mem_map_of_mem (f := (pages · 1)) (hPerm.mem_iff.mp hu)
    have hPair := l'.live_disjoint
    rw [hResult.live_eq, List.pairwise_append] at hPair
    refine ⟨?_, fun e he => hPair.2.2 _ hMem e (h.live_eq ▸ he)⟩
    rw [hResult.live_eq]
    exact List.mem_append_left _ hMem
  -- the one entry lies in a root or a taken page
  have hSlot : ∀ slot a, writtenSlot s.kernel.mem q.root q.vAddr = some slot →
      (slotBytes slot).Contains a → s.OwnedByTables a := by
    intro slot a hWritten ha
    obtain ⟨p, i, hPrefix, u, hAt, rfl⟩ := writtenSlot_reached hWritten
    have hLen := hPrefix.length_le
    rw [List.length_append, List.length_singleton] at hLen
    rw [h.tableAt_eq hRoot (Nat.lt_of_succ_le hLen)] at hAt
    exact (h.inTables_iff a).mp
      ⟨u, ⟨_, _, hAt⟩, h.page_tables.slot_inTables ⟨_, _, hAt⟩ ha.1 ha.2⟩
  refine ⟨hResult.frame.mono ?_, ?_, ?_⟩
  · rintro a (ha | ⟨u, hu, ha⟩ | ha)
    · exact Or.inl ha
    · exact Or.inr (Or.inl ⟨u, hPerm.mem_iff.mpr hu, ha⟩)
    · exact Or.inr (Or.inr ha)
  · rintro e ⟨hLive, hOther⟩ a hea (ha | ⟨u, hu, ha⟩ | ⟨slot, hWritten, ha⟩)
    · exact h.page_tables.tracks.live_not_inBitmap (h.live_eq ▸ hLive) hea ha
    · exact (hTaken u hu).2 e hLive a ha hea
    · obtain ⟨t, ht, hta⟩ := hSlot slot a hWritten ha
      have hNode := h.page_tables.node_live t ((h.has_iff t).mpr ht)
      exact l.disjoint_of_ne (h.live_eq ▸ hLive) hNode (hOther t ht) a hea hta
  · rintro e hReserved a hea (ha | ⟨u, hu, ha⟩ | ⟨slot, hWritten, ha⟩)
    · exact ha
    · refine absurd hea (l'.live_reserved _ (hTaken u hu).1 e ?_ a ha)
      rw [hResult.reserved_eq, h.reserved_eq]
      exact hReserved
    · obtain ⟨t, ht, hta⟩ := hSlot slot a hWritten ha
      have hNode := h.page_tables.node_live t ((h.has_iff t).mpr ht)
      exact absurd hea (l.live_reserved _ hNode e (h.reserved_eq ▸ hReserved) a hta)

/--
**Ownership and isolation.** In every reachable state: a valid descriptor of
level 0, 1 or 2 reachable from a root has its valid and table bits set and links
a page `map_page` took; each page `map_page` took is linked by exactly one
descriptor of exactly one root; and a further `map_page` call on a root changes
bytes only in the bitmap, in the pages it takes and in one entry, which lies in
a table its root already had. The blocks of other owners keep every byte, the
reserved ranges every byte outside the bitmap.
-/
theorem pageTables_isolated (hReach : Reachable L memStart memSize s) :
    ((∀ d entry, s.Links d entry →
        valid.get entry = 1 ∧ table.get entry = 1 ∧ nextTable entry ∈ s.tables) ∧
      ∀ t ∈ s.tables, ∃! d, ∃ entry, s.Links d entry ∧ nextTable entry = t) ∧
    ∀ q : MapRequest, q.root ∈ s.roots →
      SameOutside (s.MapWrites L q) s.kernel.mem (s.map q).kernel.mem ∧
      (∀ slot, writtenSlot s.kernel.mem q.root q.vAddr = some slot →
        ∃ p i, p ++ [i] <+: vaPath q.vAddr ∧
          ∃ t, tableAt s.kernel.mem q.root p = some t ∧ slot = entryAddr t i) ∧
      (∀ e, s.OwnedByOthers e → ∀ a, e.Contains a → ¬ s.MapWrites L q a) ∧
      ∀ e ∈ s.pool.reserved, ∀ a, e.Contains a → s.MapWrites L q a → InBitmap L a := by
  obtain ⟨F, l, hSound⟩ := reachable_sound hReach
  refine ⟨hSound.linked, fun q hRoot => ?_⟩
  obtain ⟨hFrame, hOthers, hReserved⟩ := hSound.mapPage_isolated hRoot
  exact ⟨hFrame, fun slot hSlot => writtenSlot_reached hSlot, hOthers, hReserved⟩

/-- What a call on the small kernel may write. -/
theorem pageTables_isolated_smallSystem :
    SameOutside
      (smallSystem.MapWrites smallLayout ⟨smallRoot, 0x1000, ⟨0x5000, ⟨true, true, false⟩⟩⟩)
      smallSystem.kernel.mem
      (smallSystem.map ⟨smallRoot, 0x1000, ⟨0x5000, ⟨true, true, false⟩⟩⟩).kernel.mem :=
  ((pageTables_isolated smallSystem_reachable).2 ⟨smallRoot, 0x1000, ⟨0x5000, ⟨true, true, false⟩⟩⟩
    List.mem_cons_self).1

end Kernalite
