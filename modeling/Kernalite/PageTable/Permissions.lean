import Kernalite.Lib.Vmsa
import Kernalite.PageTable.Translation

/-!
# Kernalite — permissions as the hardware sees them

`map_page` writes the permissions of a page through the fields of the level 0-2
layout, bits 59 to 62. At level 3 these bits are no permissions, and the bits
that are stay zero, as does the access flag.

* `leafEntry_unrestricted` — the level 3 descriptor restricts nothing at EL1 and
  has its access flag clear;
* `PageTables.translate_eq` — the architectural walk of a mapped page;
* `mapPage_permissions_iff` — the hardware honours a request exactly when it asks
  for everything and hardware manages the access flag.
-/

namespace Kernalite

open ByteMemory Words PageTableEntry Vmsa

variable {L : KernelLayout} {memStart memSize : Nat} {k : Kernel} {s : System} {F : Forest}
  {l : Ledger}

/-- The architectural walk lets EL1 read the page, and write and execute it
exactly as the permissions say. -/
def HonoursPermissions (m : Mem) (hwAf : Bool) (root : Nat) (vAddr : BitVec 64)
    (perms : PagePermissions) : Prop :=
  ∃ t, translate (load64 m) root vAddr = some t ∧
    t.permitsEl1 hwAf .read = true ∧
    (t.permitsEl1 hwAf .write = true ↔ perms.write = true) ∧
    (t.permitsEl1 hwAf .fetch = true ↔ perms.execute = true)

-- ---------------------------------------------------------------------------
-- The bits of the descriptors
-- ---------------------------------------------------------------------------

/-- A table descriptor sets bits 0 and 1 and the address. -/
theorem tableEntry_bit (addr : BitVec 64) {i : Nat} (hi : i < 64) (hOut : i < 12 ∨ 48 ≤ i) :
    (tableEntry addr).getLsbD i = decide (i < 2) := by
  rw [tableEntry, BitField.getLsbD_set _ _ _ hi, BitField.getLsbD_set _ _ _ hi,
    setAddress_bit _ _ hi hOut]
  split_ifs with hTable hValid
  · obtain rfl : i = 1 := by simp only at hTable; omega
    rfl
  · obtain rfl : i = 0 := by simp only at hValid; omega
    rfl
  · rw [decide_eq_false (by simp only at hTable hValid; omega)]
    exact BitVec.getLsbD_zero

/-- A table descriptor is valid and restricts nothing. -/
theorem tableEntry_open (addr : BitVec 64) :
    present (tableEntry addr) = true ∧ (tableEntry addr).getLsbD 59 = false ∧
      (tableEntry addr).getLsbD 62 = false := by
  rw [present, tableEntry_bit addr (by omega) (by omega), tableEntry_bit addr (by omega) (by omega),
    tableEntry_bit addr (by omega) (by omega), tableEntry_bit addr (by omega) (by omega)]
  exact ⟨rfl, rfl, rfl⟩

/-- Below its permission fields, bits 59 to 62, the descriptor `map_page` writes
is the table descriptor of the same address. -/
theorem leafEntry_bit (phyAddr : BitVec 64) (perms : PagePermissions) {i : Nat} (hi : i < 59) :
    (leafEntry phyAddr perms).getLsbD i = (tableEntry phyAddr).getLsbD i := by
  simp only [leafEntry, tableEntry]
  rw [BitField.getLsbD_set apTable _ _ (by omega), if_neg (by simp only; omega),
    BitField.getLsbD_set pxnTable _ _ (by omega), if_neg (by simp only; omega),
    BitField.getLsbD_set xnTable _ _ (by omega), if_neg (by simp only; omega)]

/-- **The level 3 controls stay at zero**: access flag, AP[2] and PXN. -/
theorem leafEntry_unrestricted (phyAddr : BitVec 64) (perms : PagePermissions) :
    present (leafEntry phyAddr perms) = true ∧ (leafEntry phyAddr perms).getLsbD 10 = false ∧
      (leafEntry phyAddr perms).getLsbD 7 = false ∧
      (leafEntry phyAddr perms).getLsbD 53 = false := by
  have hBit : ∀ i, i < 59 → i < 12 ∨ 48 ≤ i →
      (leafEntry phyAddr perms).getLsbD i = decide (i < 2) := fun i hi hOut =>
    (leafEntry_bit phyAddr perms hi).trans (tableEntry_bit phyAddr (by omega) hOut)
  rw [present, hBit 0 (by omega) (by omega), hBit 1 (by omega) (by omega),
    hBit 10 (by omega) (by omega), hBit 7 (by omega) (by omega), hBit 53 (by omega) (by omega)]
  exact ⟨rfl, rfl, rfl, rfl⟩

/-- `get_page_table_entry_address` reads the bits the hardware reads. -/
theorem outputAddress_eq (entry : PageTableEntry) : outputAddress entry = nextTable entry := by
  have hBits : getPageTableEntryAddress entry = entry &&& addrMask := by
    apply BitVec.eq_of_getLsbD_eq
    intro i hi
    rw [BitVec.getLsbD_and, addrMask_bit hi, getPageTableEntryAddress, BitField.get]
    simp only [BitVec.getLsbD_shiftLeft, BitVec.getLsbD_setWidth, BitVec.getLsbD_extractLsb']
    by_cases hlo : 12 ≤ i
    · rw [Nat.add_sub_cancel' hlo]
      by_cases hhi : i < 48
      · simp [hlo, hhi, hi, show ¬ i < 12 by omega, show i - 12 < 36 by omega,
          show i - 12 < 64 by omega]
      · simp [hhi, show ¬ i - 12 < 36 by omega]
    · simp [hlo, show i < 12 by omega]
  rw [nextTable, hBits]
  rfl

/-- `map_page` and the hardware select the same entries. -/
theorem tableIdx_eq (n : Nat) (vAddr : BitVec 64) : (tableIdx n vAddr).val = index vAddr n := by
  rw [index, BitVec.extractLsb'_toNat, tableIdx]
  change ((vAddr >>> n) &&& idxMask).toNat = _
  rw [BitVec.toNat_and, BitVec.toNat_ushiftRight]
  exact Nat.and_two_pow_sub_one_eq_mod _ 9

-- ---------------------------------------------------------------------------
-- The architectural walk
-- ---------------------------------------------------------------------------

/-- Along the nodes of the forest the hardware passes open table descriptors. -/
theorem PageTables.descend_eq (h : PageTables L k F l) {root table t : Nat} {path : List (Fin 512)}
    (hNode : F.node root path = some table) (rest : List (Fin 512))
    (hLast : F.node root (path ++ rest) = some t) :
    ∃ descs, Vmsa.descend (load64 k.mem) table (rest.map Fin.val) = some (descs, t) ∧
      ∀ d ∈ descs, d.getLsbD 59 = false ∧ d.getLsbD 62 = false := by
  induction rest generalizing path table with
  | nil =>
    rw [List.append_nil, hNode] at hLast
    obtain rfl := Option.some.inj hLast
    exact ⟨[], rfl, fun d hd => absurd hd List.not_mem_nil⟩
  | cons idx rest ih =>
    rw [List.append_cons] at hLast
    cases hNext : F.node root (path ++ [idx]) with
    | none =>
      rw [F.node_append_eq_none hNext] at hLast
      exact absurd hLast (by simp)
    | some next =>
      obtain ⟨descs, hDescend, hOpen⟩ := ih hNext hLast
      have hHas : F.Has table := ⟨root, path, hNode⟩
      have hEntry : load64 k.mem (table + 8 * idx.val) = tableEntry (BitVec.ofNat 64 next) := by
        rw [← h.entryAddr_eq hHas]
        change entryAt k.mem table idx = _
        rw [h.represents _ _ _ hNode, Forest.entry, hNext]
      obtain ⟨hPresent, hClear⟩ := tableEntry_open (BitVec.ofNat 64 next)
      refine ⟨tableEntry (BitVec.ofNat 64 next) :: descs, ?_, ?_⟩
      · rw [List.map_cons, Vmsa.descend, hEntry, if_pos hPresent, outputAddress_eq,
          (h.tableEntry_spec ⟨root, _, hNext⟩).2, hDescend]
        rfl
      · intro d hd
        rcases List.mem_cons.mp hd with rfl | hd
        · exact hClear
        · exact hOpen d hd

/-- The hardware translates a mapped page through open tables to its leaf. -/
theorem PageTables.translate_eq (h : PageTables L k F l) {root : Nat} {vAddr : BitVec 64}
    {mapping : Mapping} (hLeaf : F.leaf root (vaPath vAddr) = some mapping) :
    ∃ descs, translate (load64 k.mem) root vAddr = some ⟨descs, mapping.entry⟩ ∧
      ∀ d ∈ descs, d.getLsbD 59 = false ∧ d.getLsbD 62 = false := by
  obtain ⟨-, level3, hNode⟩ := F.leaf_parent root (tablePath vAddr) (l3Idx vAddr) mapping hLeaf
  obtain ⟨descs, hDescend, hOpen⟩ := h.descend_eq (F.root_of_node hNode) (tablePath vAddr) hNode
  have hEntry : load64 k.mem (level3 + 8 * (l3Idx vAddr).val) = mapping.entry := by
    rw [← h.entryAddr_eq ⟨root, _, hNode⟩]
    change entryAt k.mem level3 (l3Idx vAddr) = _
    have hDeep : F.node root (tablePath vAddr ++ [l3Idx vAddr]) = none :=
      F.node_eq_none_of_length (by simp [tablePath]) root
    have hLeaf' : F.leaf root (tablePath vAddr ++ [l3Idx vAddr]) = some mapping := hLeaf
    rw [h.represents _ _ _ hNode, Forest.entry, hDeep, hLeaf']
    rfl
  have hPath : (tablePath vAddr).map Fin.val = [index vAddr 39, index vAddr 30, index vAddr 21] := by
    simp only [tablePath, List.map_cons, List.map_nil, l0Idx, l1Idx, l2Idx, tableIdx_eq]
  have hLast : (l3Idx vAddr).val = index vAddr 12 := tableIdx_eq 12 vAddr
  refine ⟨descs, ?_, hOpen⟩
  rw [Vmsa.translate, ← hPath, hDescend, Option.bind_some, ← hLast]
  simp only [hEntry]
  rw [if_pos]
  exact (leafEntry_unrestricted mapping.phyAddr mapping.perms).1

/-- **What the hardware makes of a mapped page**: EL1 may do everything with it if
hardware manages the access flag, and nothing otherwise. -/
theorem PageTables.permitsEl1_eq (h : PageTables L k F l) {root : Nat} {vAddr : BitVec 64}
    {mapping : Mapping} (hLeaf : F.leaf root (vaPath vAddr) = some mapping) (hwAf : Bool) :
    ∃ t, translate (load64 k.mem) root vAddr = some t ∧
      ∀ access, t.permitsEl1 hwAf access = hwAf := by
  obtain ⟨descs, hTranslate, hOpen⟩ := h.translate_eq hLeaf
  obtain ⟨-, hAf, hAp, hPxn⟩ := leafEntry_unrestricted mapping.phyAddr mapping.perms
  refine ⟨_, hTranslate, fun access => ?_⟩
  generalize hEq : (⟨descs, mapping.entry⟩ : Vmsa.Translation) = t
  have hTables : ∀ d ∈ t.tables, d.getLsbD 59 = false ∧ d.getLsbD 62 = false := hEq ▸ hOpen
  have hPage : t.page = leafEntry mapping.phyAddr mapping.perms := hEq ▸ rfl
  have hAccessible : t.accessible hwAf = hwAf := by
    rw [Translation.accessible, hPage, hAf, Bool.or_false]
  have hReadOnly : t.readOnly = false := by
    rw [(Translation.permitsEl1_of_open hTables).1, hPage, hAp]
  have hNever : t.pxn = false := by
    rw [(Translation.permitsEl1_of_open hTables).2, hPage, hPxn]
  cases access <;> simp [Translation.permitsEl1, hAccessible, hReadOnly, hNever]

theorem PageTables.honours_iff (h : PageTables L k F l) {root : Nat} {vAddr : BitVec 64}
    {mapping : Mapping} (hLeaf : F.leaf root (vaPath vAddr) = some mapping) (hwAf : Bool) :
    HonoursPermissions k.mem hwAf root vAddr mapping.perms ↔
      hwAf = true ∧ mapping.perms.write = true ∧ mapping.perms.execute = true := by
  obtain ⟨t, hTranslate, hPermits⟩ := h.permitsEl1_eq hLeaf hwAf
  simp only [HonoursPermissions, hTranslate, Option.some.injEq, exists_eq_left', hPermits]
  constructor
  · rintro ⟨rfl, hWrite, hExecute⟩
    exact ⟨rfl, hWrite.mp rfl, hExecute.mp rfl⟩
  · rintro ⟨rfl, hWrite, hExecute⟩
    exact ⟨rfl, iff_of_true rfl hWrite, iff_of_true rfl hExecute⟩

/--
**When the hardware honours the permissions.** In every reachable state, for
every page and the permissions its last successful `map_page` asked for: the
hardware lets EL1 read it, and write and execute it exactly as asked, if and only
if both were asked for and the access flag is managed by hardware. The walk takes bits
[47:12] of the address: which of the ranges of addresses bits [63:48] select is up to
`TCR_EL1`, and they are not looked at.
-/
theorem mapPage_permissions_iff (hReach : Reachable L memStart memSize s) {root : Nat}
    {vAddr phyAddr : BitVec 64} {perms : PagePermissions}
    (hMapped : lastMapped s.mapped root (vaPath vAddr) = some ⟨phyAddr, perms⟩)
    (hwAf : Bool) :
    HonoursPermissions s.kernel.mem hwAf root vAddr perms ↔
      hwAf = true ∧ perms.write = true ∧ perms.execute = true := by
  obtain ⟨F, l, hSound⟩ := reachable_sound hReach
  exact hSound.page_tables.honours_iff ((hSound.leaf_eq root _).trans hMapped) hwAf

-- ---------------------------------------------------------------------------
-- A read-only page
-- ---------------------------------------------------------------------------

/-- A read-only page that is not executable. -/
def readOnlyRequest : MapRequest := ⟨smallRoot, 0x1000, ⟨0x5000, ⟨true, false, false⟩⟩⟩

theorem readOnlyRequest_reachable :
    Reachable smallLayout 0x40000000 0x40000 (smallSystem.map readOnlyRequest) :=
  smallSystem_reachable.step (.map smallSystem readOnlyRequest List.mem_cons_self)

/-- It is the only page that is mapped. -/
theorem readOnlyRequest_mapped_iff {path : List (Fin 512)} {mapping : Mapping} :
    lastMapped (smallSystem.map readOnlyRequest).mapped smallRoot path = some mapping ↔
      path = vaPath 0x1000 ∧ mapping = readOnlyRequest.mapping := by
  have hOk : smallSystem.succeeds readOnlyRequest = true := by
    rw [System.succeeds]
    exact smallSystem_maps 0x1000 ⟨true, false, false⟩ (by decide)
  have hFirst : smallSystem.mapped = [] := by
    simp only [smallSystem, System.initRoot, smallGranted]
  rw [System.mapped_map hOk, hFirst, lastMapped_cons]
  split_ifs with hHit
  · rw [Option.some.injEq, eq_comm]
    exact ⟨fun hEq => ⟨hHit.2, hEq⟩, And.right⟩
  · exact iff_of_false (fun hEq => by cases hEq) fun hBoth => hHit ⟨rfl, hBoth.1⟩

theorem readOnlyRequest_mapped :
    lastMapped (smallSystem.map readOnlyRequest).mapped smallRoot (vaPath 0x1000) =
      some ⟨0x5000, ⟨true, false, false⟩⟩ := readOnlyRequest_mapped_iff.mpr ⟨rfl, rfl⟩

/-- With the access flag managed by hardware, the page would have to be writable
and executable. -/
theorem mapPage_permissions_iff_readOnly :
    HonoursPermissions (smallSystem.map readOnlyRequest).kernel.mem true smallRoot 0x1000
        ⟨true, false, false⟩ ↔
      true = true ∧ false = true ∧ false = true :=
  mapPage_permissions_iff readOnlyRequest_reachable readOnlyRequest_mapped true

/-- **A page mapped read-only** in a reachable state: with the access flag managed
by hardware EL1 may write and execute it, without it EL1 may not even read it. -/
theorem readOnlyRequest_not_honoured :
    Reachable smallLayout 0x40000000 0x40000 (smallSystem.map readOnlyRequest) ∧
      lastMapped (smallSystem.map readOnlyRequest).mapped smallRoot (vaPath 0x1000) =
        some ⟨0x5000, ⟨true, false, false⟩⟩ ∧
      ¬ HonoursPermissions (smallSystem.map readOnlyRequest).kernel.mem true smallRoot 0x1000
        ⟨true, false, false⟩ ∧
      ¬ HonoursPermissions (smallSystem.map readOnlyRequest).kernel.mem false smallRoot 0x1000
        ⟨true, false, false⟩ := by
  obtain ⟨F, l, hSound⟩ := reachable_sound readOnlyRequest_reachable
  have hIff := hSound.page_tables.honours_iff
    ((hSound.leaf_eq smallRoot _).trans readOnlyRequest_mapped)
  refine ⟨readOnlyRequest_reachable, readOnlyRequest_mapped, fun hHonours => ?_,
    fun hHonours => ?_⟩
  · exact Bool.false_ne_true ((hIff true).mp hHonours).2.1
  · exact Bool.false_ne_true ((hIff false).mp hHonours).1

end Kernalite
