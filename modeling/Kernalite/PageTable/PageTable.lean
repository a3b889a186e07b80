import Kernalite.PageTable.Entry
import Kernalite.Allocator.PageAllocator

/-!
# Kernalite — page tables

`src/kernel/page_table/page_table.c`: building tables in memory taken from the
page allocator. A pointer to an entry is its address; a write to a field of the
entry is a read-modify-write of the doubleword there.
-/

namespace Kernalite

open ByteMemory Words Loop PageTableEntry

/-- `*entry = f(*entry)`. -/
def Kernel.updateEntry (entry : Nat) (f : PageTableEntry → PageTableEntry) (k : Kernel) : Kernel :=
  { k with mem := store64 k.mem entry (f (load64 k.mem entry)) }

/-- `&table->entries[idx]` -/
def entryAddr (table : Nat) (idx : Fin 512) : Nat := add64 table (8 * idx)

/-- `IDX_MASK` -/
def idxMask : BitVec 64 := 0x1FF

/-- `(v_addr >> start_bit) & idx_mask` -/
def tableIdx (startBit : Nat) (vAddr : BitVec 64) : Fin 512 :=
  ⟨((vAddr >>> startBit) &&& idxMask).toNat, by
    rw [BitVec.toNat_and]
    exact Nat.lt_of_le_of_lt Nat.and_le_right (by decide)⟩

def l0Idx : BitVec 64 → Fin 512 := tableIdx 39
def l1Idx : BitVec 64 → Fin 512 := tableIdx 30
def l2Idx : BitVec 64 → Fin 512 := tableIdx 21
def l3Idx : BitVec 64 → Fin 512 := tableIdx 12

def setNextLevelTable (entry : Nat) (nextTableAddr : BitVec 64) (k : Kernel) : Kernel :=
  let k := k.updateEntry entry (setPageTableEntryAddress · nextTableAddr)
  let k := k.updateEntry entry (valid.set · 1)
  k.updateEntry entry (table.set · 1)

def pageTableInit (table : Nat) (k : Kernel) : Kernel :=
  { k with mem := forRange 0 512 (fun i m => store64 m (add64 table (8 * i)) 0) k.mem }

def allocateNewTable (entry : Nat) (k : Kernel) : Bool × Kernel :=
  let (newTable, k) := pageAlloc 1 k
  if newTable = 0 then (false, k.kprintf "Failed to allocate new page table\n" [])
  else
    let k := pageTableInit newTable k
    let physAddr := vaToPa (BitVec.ofNat 64 newTable)
    (true, setNextLevelTable entry physAddr k)

def getNextLevelTable (entry : Nat) (k : Kernel) : Nat × Kernel :=
  if isValid (load64 k.mem entry) then
    ((paToVa (getPageTableEntryAddress (load64 k.mem entry))).toNat, k)
  else
    let (ok, k) := allocateNewTable entry k
    if !ok then (0, k)
    else ((paToVa (getPageTableEntryAddress (load64 k.mem entry))).toNat, k)

/-- The end of `map_page`: the level 3 entry, field by field. -/
def writeLeaf (entry : Nat) (phyAddr : BitVec 64) (perms : PagePermissions) (k : Kernel) : Kernel :=
  let k := k.updateEntry entry (fun _ => 0)
  let k := k.updateEntry entry (setPageTableEntryAddress · phyAddr)
  let k := k.updateEntry entry (valid.set · 1)
  let k := k.updateEntry entry (table.set · 1)
  let k :=
    if perms.execute then
      (k.updateEntry entry (xnTable.set · 0)).updateEntry entry (pxnTable.set · 0)
    else
      (k.updateEntry entry (xnTable.set · 1)).updateEntry entry (pxnTable.set · 1)
  let k :=
    if perms.write then
      k.updateEntry entry (apTable.set · AptableValues.el0NoRestrictionEl1NoRestriction.bits)
    else
      k.updateEntry entry (apTable.set · AptableValues.el0NoWriteEl1NoWrite.bits)
  -- unreadable pages override the write permission
  if !perms.read then
    k.updateEntry entry (apTable.set · AptableValues.el0NoAccessEl1NoWrite.bits)
  else k

def mapPage (root : Nat) (vAddr phyAddr : BitVec 64) (perms : PagePermissions) (k : Kernel) :
    Bool × Kernel :=
  if phyAddr &&& 0xFFF ≠ 0 then
    (false, k.kprintf "Error: Physical address 0x%lx is not page aligned\n" [.word phyAddr.toNat])
  else
    let (level1, k) := getNextLevelTable (entryAddr root (l0Idx vAddr)) k
    if level1 = 0 then
      (false, k.kprintf "Failed to get level 1 page table for VA 0x%lx\n" [.word vAddr.toNat])
    else
      let (level2, k) := getNextLevelTable (entryAddr level1 (l1Idx vAddr)) k
      if level2 = 0 then
        (false, k.kprintf "Failed to get level 2 page table for VA 0x%lx\n" [.word vAddr.toNat])
      else
        let (level3, k) := getNextLevelTable (entryAddr level2 (l2Idx vAddr)) k
        if level3 = 0 then
          (false, k.kprintf "Failed to get level 3 page table for VA 0x%lx\n" [.word vAddr.toNat])
        else (true, writeLeaf (entryAddr level3 (l3Idx vAddr)) phyAddr perms k)

-- ---------------------------------------------------------------------------
-- `dump_memory_map`
-- ---------------------------------------------------------------------------

/-- `allocate_new_table(&entry)` for a local copy of an entry; the second result is
the copy as the call leaves it. -/
def allocateNewTableLocal (entry : PageTableEntry) (k : Kernel) : Bool × PageTableEntry × Kernel :=
  let (newTable, k) := pageAlloc 1 k
  if newTable = 0 then (false, entry, k.kprintf "Failed to allocate new page table\n" [])
  else
    let k := pageTableInit newTable k
    let physAddr := vaToPa (BitVec.ofNat 64 newTable)
    (true, table.set (valid.set (setPageTableEntryAddress entry physAddr) 1) 1, k)

/-- `get_next_level_table(&entry)` for a local copy of an entry. -/
def getNextLevelTableLocal (entry : PageTableEntry) (k : Kernel) : Nat × Kernel :=
  if isValid entry then ((paToVa (getPageTableEntryAddress entry)).toNat, k)
  else
    let (ok, entry, k) := allocateNewTableLocal entry k
    if !ok then (0, k)
    else ((paToVa (getPageTableEntryAddress entry)).toNat, k)

/-- `(9 * (3 - level)) + 12`, a `uint8_t`. -/
def levelShift (level : Nat) : Nat := (9 * (3 - level) + 12) % 2 ^ 8

/-- What the dump prints for an entry of a level 3 table. -/
def dumpLeaf (entry : PageTableEntry) (partialVAddr : BitVec 64) (k : Kernel) : Kernel :=
  let physAddr := getPageTableEntryAddress entry
  let k := k.kprintf "VA 0x%lx -> PA 0x%lx [Flags: 0x%lx]"
    [.word partialVAddr.toNat, .word physAddr.toNat, .word (entry &&& 0xFFF).toNat]
  let k := if xnTable.get entry ≠ 0 then k.kprintf " XN" [] else k
  let k := if pxnTable.get entry ≠ 0 then k.kprintf " PXN" [] else k
  let k :=
    if apTable.get entry = AptableValues.el0NoRestrictionEl1NoRestriction.bits then
      k.kprintf " RW(EL0) RW(EL1)" []
    else if apTable.get entry = AptableValues.el0NoWriteEl1NoWrite.bits then
      k.kprintf " RO(EL0) RO(EL1)" []
    else if apTable.get entry = AptableValues.el0NoAccessEl1NoRestriction.bits then
      k.kprintf " NO-ACCESS(EL0) RW(EL1)" []
    else if apTable.get entry = AptableValues.el0NoAccessEl1NoWrite.bits then
      k.kprintf " NO-ACCESS(EL0) RO(EL1)" []
    else k
  k.kprintf "\n" []

def dumpMemoryMapRecursive (root level : Nat) (vAddrPrefix : BitVec 64) (k : Kernel) : Kernel :=
  -- 9 bits mask for the current level index
  let levelMask := idxMask <<< levelShift level
  forRange 0 512 (fun i k =>
    let entry : PageTableEntry := load64 k.mem (add64 root (8 * i))
    if !isValid entry then k
    else
      let partialVAddr := (BitVec.ofNat 64 i <<< levelShift level) ||| (vAddrPrefix &&& ~~~levelMask)
      if level < 3 then
        let (nextTable, k) := getNextLevelTableLocal entry k
        dumpMemoryMapRecursive nextTable (level + 1) partialVAddr k
      else dumpLeaf entry partialVAddr k) k
termination_by 3 - level

def dumpMemoryMap (root : Nat) (k : Kernel) : Kernel :=
  let k := k.kprintf "--- Memory Map Dump Start ---\n" []
  let k := dumpMemoryMapRecursive root 0 0 k
  k.kprintf "--- Memory Map Dump End ---\n" []

-- ---------------------------------------------------------------------------
-- Writing an entry
-- ---------------------------------------------------------------------------

section Entries

variable (k : Kernel) (entry : Nat)

theorem updateEntry_updateEntry (f g : PageTableEntry → PageTableEntry) :
    (k.updateEntry entry f).updateEntry entry g = k.updateEntry entry (fun e => g (f e)) := by
  simp only [Kernel.updateEntry, load64_store64_same, store64_store64_same]

/-- The six to eight field writes of `map_page` leave one descriptor. -/
theorem writeLeaf_eq (phyAddr : BitVec 64) (perms : PagePermissions) :
    writeLeaf entry phyAddr perms k =
      { k with mem := store64 k.mem entry (leafEntry phyAddr perms) } := by
  obtain ⟨read, write, execute⟩ := perms
  cases read <;> cases write <;> cases execute <;>
    simp only [writeLeaf, leafEntry, executeNever, accessPermissions, updateEntry_updateEntry,
      BitField.set_set_same, Bool.false_eq_true, Bool.not_true, Bool.not_false, if_true,
      if_false] <;>
    rfl

/-- Linking a table into an empty entry. -/
theorem setNextLevelTable_eq (addr : BitVec 64) (hZero : load64 k.mem entry = 0) :
    setNextLevelTable entry addr k =
      { k with mem := store64 k.mem entry (tableEntry addr) } := by
  rw [setNextLevelTable, updateEntry_updateEntry, updateEntry_updateEntry, Kernel.updateEntry, hZero,
    tableEntry]

end Entries

-- ---------------------------------------------------------------------------
-- `page_table_init`
-- ---------------------------------------------------------------------------

/-- An address that leaves room for a page above it. -/
theorem entryAddr_eq {table : Nat} (hTop : table + pageSize ≤ 2 ^ 64) (idx : Fin 512) :
    entryAddr table idx = table + 8 * idx := by
  have := idx.isLt
  unfold pageSize at hTop
  exact add64_eq (by omega)

/-- Clearing `n` doublewords one after the other. -/
theorem clearEntries_mem (m : Mem) {table n : Nat} (hTop : table + 8 * n ≤ 2 ^ 64) (a : Nat) :
    forRange 0 n (fun i m => store64 m (add64 table (8 * i)) 0) m a =
      if table ≤ a ∧ a < table + 8 * n then 0 else m a := by
  refine forRange_inv
    (fun j (t : Mem) => j ≤ n → t a = if table ≤ a ∧ a < table + 8 * j then 0 else m a)
    (Nat.zero_le n) (fun _ => by rw [if_neg (by omega)]) ?_ (Nat.le_refl n)
  intro i t _ hi ih _
  rw [add64_eq (by omega)]
  by_cases hIn : table + 8 * i ≤ a ∧ a < table + 8 * i + 8
  · rw [store64_zero_inside hIn.1 hIn.2, if_pos (by omega)]
  · rw [store64_outside (by omega), ih (by omega)]
    by_cases hOld : table ≤ a ∧ a < table + 8 * i
    · rw [if_pos hOld, if_pos (by omega)]
    · rw [if_neg hOld, if_neg (by omega)]

/-- `page_table_init` clears the page and nothing else. -/
theorem pageTableInit_mem (k : Kernel) {table : Nat} (hTop : table + pageSize ≤ 2 ^ 64) (a : Nat) :
    (pageTableInit table k).mem a =
      if table ≤ a ∧ a < table + pageSize then 0 else k.mem a := by
  have hSize : pageSize = 8 * 512 := rfl
  rw [hSize] at hTop ⊢
  simp only [pageTableInit]
  exact clearEntries_mem k.mem hTop a

end Kernalite
