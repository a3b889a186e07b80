import Kernalite.Lib.BitField
import Kernalite.Linker

/-!
# Kernalite — page table entries

`page_table_entry_t` of `page_table.h` and the functions of `page_table.c` that
work on one descriptor. The struct documents itself as the level 0-2 layout;
`map_page` uses the same fields for level 3.

* `getAddress_tableEntry` — a linked table is found again at its own address;
* `leafEntry_valid`, `leafEntry_address`, `leafEntry_permissions` — the fields
  of the level 3 descriptor `map_page` writes.
-/

namespace Kernalite

/-- `page_table_entry_t`, as its raw value. -/
abbrev PageTableEntry := BitVec 64

namespace PageTableEntry

abbrev valid : BitField := ⟨0, 1⟩
abbrev table : BitField := ⟨1, 1⟩
abbrev nlta47_12 : BitField := ⟨12, 36⟩
abbrev pxnTable : BitField := ⟨59, 1⟩
abbrev xnTable : BitField := ⟨60, 1⟩
abbrev apTable : BitField := ⟨61, 2⟩

end PageTableEntry

open PageTableEntry

/-- `aptable_values_t`. -/
inductive AptableValues where
  | el0NoRestrictionEl1NoRestriction
  | el0NoWriteEl1NoWrite
  | el0NoAccessEl1NoRestriction
  | el0NoAccessEl1NoWrite
  deriving DecidableEq, Repr

def AptableValues.bits : AptableValues → BitVec 2
  | .el0NoRestrictionEl1NoRestriction => 0b00
  | .el0NoWriteEl1NoWrite => 0b01
  | .el0NoAccessEl1NoRestriction => 0b10
  | .el0NoAccessEl1NoWrite => 0b11

/-- `page_permissions_t`. -/
structure PagePermissions where
  read : Bool
  write : Bool
  execute : Bool
  deriving DecidableEq, Repr

/-- Mask for bits [47:12]. -/
def addrMask : BitVec 64 := 0xFFFFFFFFF000

def setPageTableEntryAddress (entry : PageTableEntry) (addr : BitVec 64) : PageTableEntry :=
  nlta47_12.set entry (((addr &&& addrMask) >>> 12).setWidth 36)

def getPageTableEntryAddress (entry : PageTableEntry) : BitVec 64 :=
  (nlta47_12.get entry).setWidth 64 <<< 12

/-- `KERNEL_BASE_VA`. -/
def kernelBaseVa : BitVec 64 := 0

def vaToPa (vAddr : BitVec 64) : BitVec 64 := vAddr - kernelBaseVa

def paToVa (pAddr : BitVec 64) : BitVec 64 := kernelBaseVa + pAddr

/-- The condition `entry->valid`. -/
def isValid (entry : PageTableEntry) : Bool := valid.get entry != 0

/-- The descriptor `set_next_level_table` makes of a zero entry. -/
def tableEntry (nextTableAddr : BitVec 64) : PageTableEntry :=
  table.set (valid.set (setPageTableEntryAddress 0 nextTableAddr) 1) 1

/-- `xn_table` and `pxn_table` for a permission. -/
def executeNever (perms : PagePermissions) : BitVec 1 :=
  if perms.execute then 0 else 1

/-- `ap_table` for a permission: the write bit first, then the override for
unreadable pages. -/
def accessPermissions (perms : PagePermissions) : AptableValues :=
  if !perms.read then .el0NoAccessEl1NoWrite
  else if perms.write then .el0NoRestrictionEl1NoRestriction
  else .el0NoWriteEl1NoWrite

/-- The level 3 descriptor `map_page` builds field by field from a zero entry. -/
def leafEntry (phyAddr : BitVec 64) (perms : PagePermissions) : PageTableEntry :=
  let entry := table.set (valid.set (setPageTableEntryAddress 0 phyAddr) 1) 1
  let entry := pxnTable.set (xnTable.set entry (executeNever perms)) (executeNever perms)
  apTable.set entry (accessPermissions perms).bits

-- ---------------------------------------------------------------------------
-- Addresses
-- ---------------------------------------------------------------------------

theorem addrMask_bit {i : Nat} (hi : i < 64) : addrMask.getLsbD i = decide (12 ≤ i ∧ i < 48) := by
  have hAll : ∀ j : Fin 64, addrMask.getLsbD j = decide (12 ≤ j.val ∧ j.val < 48) := by decide
  exact hAll ⟨i, hi⟩

/-- Writing an address and reading it back keeps bits [47:12]. -/
theorem getAddress_setAddress (entry : PageTableEntry) (addr : BitVec 64) :
    getPageTableEntryAddress (setPageTableEntryAddress entry addr) = addr &&& addrMask := by
  rw [getPageTableEntryAddress, setPageTableEntryAddress, BitField.get_set_same _ (by decide)]
  apply BitVec.eq_of_getLsbD_eq
  intro i hi
  simp only [BitVec.getLsbD_shiftLeft, BitVec.getLsbD_setWidth, BitVec.getLsbD_ushiftRight,
    BitVec.getLsbD_and]
  by_cases hlo : 12 ≤ i
  · rw [Nat.add_sub_cancel' hlo, addrMask_bit hi]
    by_cases hhi : i < 48
    · simp [hlo, hhi, hi, show ¬ i < 12 by omega, show i - 12 < 36 by omega,
        show i - 12 < 64 by omega]
    · simp [hhi]
  · rw [addrMask_bit hi]
    simp [hlo, show i < 12 by omega]

/-- Outside bits [47:12] an address leaves a descriptor alone. -/
theorem setAddress_bit (entry : PageTableEntry) (addr : BitVec 64) {i : Nat} (hi : i < 64)
    (hOut : i < 12 ∨ 48 ≤ i) :
    (setPageTableEntryAddress entry addr).getLsbD i = entry.getLsbD i := by
  rw [setPageTableEntryAddress, BitField.getLsbD_set _ _ _ hi, if_neg (by simp only; omega)]

/-- A page address below `2 ^ 48` has no bits outside [47:12]. -/
theorem pageAddress_and_addrMask {p : Nat} (hAligned : p % pageSize = 0) (hTop : p < 2 ^ 48) :
    BitVec.ofNat 64 p &&& addrMask = BitVec.ofNat 64 p := by
  obtain ⟨q, rfl⟩ : ∃ q, p = q * 2 ^ 12 := ⟨p / 2 ^ 12, by unfold pageSize at hAligned; omega⟩
  apply BitVec.eq_of_getLsbD_eq
  intro i hi
  rw [BitVec.getLsbD_and, addrMask_bit hi, BitVec.getLsbD_ofNat, Nat.testBit_mul_two_pow]
  by_cases hlo : 12 ≤ i
  · by_cases hhi : i < 48
    · simp [hlo, hhi]
    · have hZero : q.testBit (i - 12) = false :=
        Nat.testBit_lt_two_pow
          (Nat.lt_of_lt_of_le (by omega : q < 2 ^ 36) (Nat.pow_le_pow_right (by omega) (by omega)))
      simp [hZero]
  · simp [hlo]

@[simp] theorem vaToPa_eq (vAddr : BitVec 64) : vaToPa vAddr = vAddr := BitVec.sub_zero vAddr

@[simp] theorem paToVa_eq (pAddr : BitVec 64) : paToVa pAddr = pAddr := BitVec.zero_add pAddr

/-- Linking a table stores its address. -/
theorem getAddress_linked (entry : PageTableEntry) (addr : BitVec 64) :
    getPageTableEntryAddress (table.set (valid.set (setPageTableEntryAddress entry addr) 1) 1) =
      addr &&& addrMask := by
  rw [getPageTableEntryAddress, BitField.get_set_apart (by decide) (by decide),
    BitField.get_set_apart (by decide) (by decide)]
  exact getAddress_setAddress entry addr

/-- The address read back from an entry that links the table at `p`. -/
theorem getAddress_tableEntry {p : Nat} (hAligned : p % pageSize = 0) (hTop : p < 2 ^ 48) :
    (getPageTableEntryAddress (tableEntry (BitVec.ofNat 64 p))).toNat = p := by
  have hAddr : getPageTableEntryAddress (tableEntry (BitVec.ofNat 64 p)) = BitVec.ofNat 64 p :=
    (getAddress_linked 0 _).trans (pageAddress_and_addrMask hAligned hTop)
  rw [hAddr, BitVec.toNat_ofNat]
  omega

theorem tableEntry_valid (addr : BitVec 64) : isValid (tableEntry addr) = true := by
  rw [isValid, tableEntry, BitField.get_set_apart (by decide) (by decide),
    BitField.get_set_same _ (by decide)]
  rfl

theorem tableEntry_table (addr : BitVec 64) : table.get (tableEntry addr) = 1 :=
  BitField.get_set_same _ (by decide) _ _

theorem isValid_zero : isValid 0 = false := by
  decide

-- ---------------------------------------------------------------------------
-- The level 3 descriptor
-- ---------------------------------------------------------------------------

/-- Below its permission fields the descriptor is that of a table at the address. -/
theorem get_leafEntry {f : BitField} (hBelow : f.off + f.len ≤ pxnTable.off)
    (phyAddr : BitVec 64) (perms : PagePermissions) :
    f.get (leafEntry phyAddr perms) = f.get (tableEntry phyAddr) := by
  have hWord : f.off + f.len ≤ 64 := Nat.le_trans hBelow (by decide)
  have hXn : f.Apart xnTable := Or.inl (Nat.le_trans hBelow (by decide))
  have hAp : f.Apart apTable := Or.inl (Nat.le_trans hBelow (by decide))
  simp only [leafEntry]
  rw [BitField.get_set_apart hAp hWord, BitField.get_set_apart (Or.inl hBelow) hWord,
    BitField.get_set_apart hXn hWord, tableEntry]

theorem leafEntry_valid (phyAddr : BitVec 64) (perms : PagePermissions) :
    isValid (leafEntry phyAddr perms) = true := by
  rw [isValid, get_leafEntry (by decide)]
  exact tableEntry_valid phyAddr

theorem leafEntry_table (phyAddr : BitVec 64) (perms : PagePermissions) :
    table.get (leafEntry phyAddr perms) = 1 :=
  (get_leafEntry (by decide) phyAddr perms).trans (tableEntry_table phyAddr)

theorem leafEntry_address (phyAddr : BitVec 64) (perms : PagePermissions) :
    getPageTableEntryAddress (leafEntry phyAddr perms) = phyAddr &&& addrMask := by
  rw [getPageTableEntryAddress, get_leafEntry (by decide)]
  exact getAddress_linked 0 phyAddr

theorem leafEntry_permissions (phyAddr : BitVec 64) (perms : PagePermissions) :
    xnTable.get (leafEntry phyAddr perms) = executeNever perms ∧
      pxnTable.get (leafEntry phyAddr perms) = executeNever perms ∧
      apTable.get (leafEntry phyAddr perms) = (accessPermissions perms).bits := by
  refine ⟨?_, ?_, BitField.get_set_same _ (by decide) _ _⟩ <;> simp only [leafEntry]
  · rw [BitField.get_set_apart (by decide) (by decide),
      BitField.get_set_apart (by decide) (by decide), BitField.get_set_same _ (by decide)]
  · rw [BitField.get_set_apart (by decide) (by decide), BitField.get_set_same _ (by decide)]

end Kernalite
