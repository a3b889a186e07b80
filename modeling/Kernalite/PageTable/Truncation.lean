import Kernalite.PageTable.System

/-!
# Kernalite — addresses that do not fit a descriptor

A descriptor has room for bits [47:12] of an address. `map_page` checks the low
12 bits only, and `page_init` takes regions anywhere, so from `2 ^ 48` on both
accept addresses of which a descriptor keeps a part.

* `mapPage_leaf_address`, `getNextLevelTable_fresh` — what the descriptor written
  and the table pointer read back from it designate: the address masked;
* `AfterInit.pageAlloc_aligned` — pages of every pool are aligned, wherever its
  region lies;
* `acceptedAddress_exact_iff` — an accepted address comes through exactly when it
  is below `2 ^ 48`.
-/

namespace Kernalite

open ByteMemory Words PageTableEntry

variable {L : Layout} {memStart memSize : Nat} {k : Kernel} {a : BitVec 64}

/-- `map_page` returns true for the address, or `allocate_new_table` gets it from
`page_alloc` for an entry without a table. -/
inductive Accepted (k : Kernel) (a : BitVec 64) : Prop where
  | leaf (root : Nat) (vAddr : BitVec 64) (perms : PagePermissions) :
      (mapPage root vAddr a perms k).1 = true → Accepted k a
  | table (entry : Nat) : isValid (load64 k.mem entry) = false → (pageAlloc 1 k).1 ≠ 0 →
      (pageAlloc 1 k).1 = a.toNat → Accepted k a

/-- The level 3 descriptor `map_page` writes: an entry of the table its descent
reaches, in the memory it leaves. -/
def installedLeaf (root : Nat) (vAddr phyAddr : BitVec 64) (perms : PagePermissions)
    (k : Kernel) : PageTableEntry :=
  entryAt (mapPage root vAddr phyAddr perms k).2.mem (descend root (tablePath vAddr) k).1
    (l3Idx vAddr)

/-- No bit of the address is lost: in any descriptor, in the leaf of a `map_page`
call that returns true, and in the pointer to a table just allocated. -/
structure StoredExactly (k : Kernel) (a : BitVec 64) : Prop where
  read_back : ∀ e, getPageTableEntryAddress (setPageTableEntryAddress e a) = a
  outside   : ∀ e i, i < 64 → i < 12 ∨ 48 ≤ i →
    (setPageTableEntryAddress e a).getLsbD i = e.getLsbD i
  leaf      : ∀ root vAddr perms, (mapPage root vAddr a perms k).1 = true →
    getPageTableEntryAddress (installedLeaf root vAddr a perms k) = a
  table     : ∀ entry, isValid (load64 k.mem entry) = false → (pageAlloc 1 k).1 ≠ 0 →
    (pageAlloc 1 k).1 = a.toNat → (getNextLevelTable entry k).1 = a.toNat

-- ---------------------------------------------------------------------------
-- What a descriptor keeps
-- ---------------------------------------------------------------------------

/-- The mask keeps exactly the aligned addresses below `2 ^ 48`. -/
theorem and_addrMask_eq_iff : a &&& addrMask = a ↔ a.toNat % pageSize = 0 ∧ a.toNat < 2 ^ 48 := by
  constructor
  · intro hKeep
    have hBits : ∀ i, i < 64 → ¬ (12 ≤ i ∧ i < 48) → a.getLsbD i = false := by
      intro i hi hOut
      rw [← hKeep, BitVec.getLsbD_and, addrMask_bit hi, decide_eq_false hOut, Bool.and_false]
    constructor
    · -- bits 0 to 11
      refine Nat.eq_of_testBit_eq fun i => ?_
      rw [show pageSize = 2 ^ 12 from rfl, Nat.testBit_mod_two_pow, Nat.zero_testBit]
      by_cases hLow : i < 12
      · have hBit : a.toNat.testBit i = false := hBits i (by omega) (by omega)
        rw [hBit, Bool.and_false]
      · rw [decide_eq_false hLow, Bool.false_and]
    · -- bits 48 to 63
      refine Nat.lt_pow_two_of_testBit _ fun i hi => ?_
      rcases Nat.lt_or_ge i 64 with hTop | hTop
      · exact hBits i hTop (by omega)
      · exact Nat.testBit_lt_two_pow
          (Nat.lt_of_lt_of_le a.isLt (Nat.pow_le_pow_right (by omega) hTop))
  · rintro ⟨hAligned, hTop⟩
    have hKeep := pageAddress_and_addrMask hAligned hTop
    rwa [BitVec.ofNat_toNat, BitVec.setWidth_eq] at hKeep

/-- A call that returns true had an aligned address, and its leaf designates the
masked address. -/
theorem mapPage_leaf_address {root : Nat} {vAddr : BitVec 64} {perms : PagePermissions}
    (hOk : (mapPage root vAddr a perms k).1 = true) :
    a.toNat % pageSize = 0 ∧
      getPageTableEntryAddress (installedLeaf root vAddr a perms k) = a &&& addrMask := by
  by_cases hAligned : a.toNat % pageSize = 0
  · refine ⟨hAligned, ?_⟩
    rcases mapPage_descend vAddr perms k hAligned with ⟨-, c, hEq⟩ | ⟨-, hEq⟩
    · rw [hEq] at hOk
      exact absurd hOk Bool.false_ne_true
    · rw [installedLeaf, hEq, writeLeaf_eq, entryAt, load64_store64_same]
      exact leafEntry_address a perms
  · rw [mapPage_misaligned root vAddr perms k hAligned] at hOk
    exact absurd hOk Bool.false_ne_true

/-- The pointer to a table just allocated is the masked address of its page. -/
theorem getNextLevelTable_fresh {entry : Nat} (hInvalid : isValid (load64 k.mem entry) = false)
    (hPage : (pageAlloc 1 k).1 ≠ 0) :
    (getNextLevelTable entry k).1 = (BitVec.ofNat 64 (pageAlloc 1 k).1 &&& addrMask).toNat := by
  rw [getNextLevelTable, hInvalid, allocateNewTable]
  generalize pageAlloc 1 k = r at hPage ⊢
  obtain ⟨page, k₁⟩ := r
  simp only at hPage
  simp only [Bool.false_eq_true, if_false, if_neg hPage, Bool.not_true, paToVa_eq, vaToPa_eq,
    setNextLevelTable, updateEntry_updateEntry]
  rw [Kernel.updateEntry, load64_store64_same, getAddress_linked]

-- ---------------------------------------------------------------------------
-- The pages of a pool
-- ---------------------------------------------------------------------------

/-- Also where the alignment wraps around. -/
theorem pageInit_memBase_aligned (hOk : (pageInit L memStart memSize k).1 = true) :
    (pageInit L memStart memSize k).2.memBase % pageSize = 0 := by
  have hAligned := shiftUp_aligned memStart
  have hBase : (memStart + shiftUp memStart) % 2 ^ 64 % pageSize = 0 := by
    unfold pageSize at *
    omega
  simp only [pageInit, alignedStart_eq] at hOk ⊢
  split_ifs at hOk ⊢ <;> exact hBase

/-- What `page_alloc` returns is a page boundary, wherever the region lies. -/
theorem AfterInit.pageAlloc_aligned (h : AfterInit L memStart memSize k) (n : Nat) :
    (pageAlloc n k).1 % pageSize = 0 := by
  obtain ⟨k₀, hOk, hBase, -, -⟩ := h
  have hAligned := pageInit_memBase_aligned hOk
  rw [← hBase] at hAligned
  rw [pageAlloc]
  split_ifs
  · rfl
  · rfl
  · split
    · simp only [add64_mul64]
      unfold pageSize at *
      omega
    · rfl

theorem Accepted.aligned (h : AfterInit L memStart memSize k) (hAccepted : Accepted k a) :
    a.toNat % pageSize = 0 := by
  cases hAccepted with
  | leaf root vAddr perms hOk => exact (mapPage_leaf_address hOk).1
  | table entry hInvalid hNonzero hPage => exact hPage ▸ h.pageAlloc_aligned 1

/--
**Addresses come through exactly below `2 ^ 48`.** For every state the static
variables of which come from a successful `page_init` on any region, and every
address the code accepts for a leaf or a table: it is stored without loss, and the
leaf and the table pointer designate it, if and only if it is below `2 ^ 48`.
-/
theorem acceptedAddress_exact_iff (hInit : AfterInit L memStart memSize k)
    (hAccepted : Accepted k a) : StoredExactly k a ↔ a.toNat < 2 ^ 48 := by
  constructor
  · intro hExact
    exact (and_addrMask_eq_iff.mp ((getAddress_setAddress 0 a).symm.trans (hExact.read_back 0))).2
  · intro hTop
    have hKeep := and_addrMask_eq_iff.mpr ⟨hAccepted.aligned hInit, hTop⟩
    refine ⟨fun e => (getAddress_setAddress e a).trans hKeep,
      fun e i hi hOut => setAddress_bit e a hi hOut,
      fun root vAddr perms hOk => (mapPage_leaf_address hOk).2.trans hKeep,
      fun entry hInvalid hNonzero hPage => ?_⟩
    rw [getNextLevelTable_fresh hInvalid hNonzero, hPage, BitVec.ofNat_toNat, BitVec.setWidth_eq,
      hKeep]

/-- Each way of storing an address from `2 ^ 48` on designates another page. -/
theorem accepted_truncates (hTop : 2 ^ 48 ≤ a.toNat) :
    (∀ e, getPageTableEntryAddress (setPageTableEntryAddress e a) ≠ a) ∧
      (∀ root vAddr perms, (mapPage root vAddr a perms k).1 = true →
        getPageTableEntryAddress (installedLeaf root vAddr a perms k) ≠ a) ∧
      (∀ entry, isValid (load64 k.mem entry) = false → (pageAlloc 1 k).1 ≠ 0 →
        (pageAlloc 1 k).1 = a.toNat → (getNextLevelTable entry k).1 ≠ a.toNat) := by
  have hLoss : a &&& addrMask ≠ a := fun hKeep => by
    have := (and_addrMask_eq_iff.mp hKeep).2
    omega
  refine ⟨fun e hBack => hLoss ((getAddress_setAddress e a).symm.trans hBack),
    fun root vAddr perms hOk hLeaf => hLoss ((mapPage_leaf_address hOk).2.symm.trans hLeaf),
    fun entry hInvalid hNonzero hPage hTable => hLoss (BitVec.eq_of_toNat_eq ?_)⟩
  rw [getNextLevelTable_fresh hInvalid hNonzero, hPage, BitVec.ofNat_toNat,
    BitVec.setWidth_eq] at hTable
  exact hTable

/-- The page at `2 ^ 48`: `map_page` returns true, and the leaf designates page 0.
In a pool that starts there, the first table is looked for at address 0. -/
theorem mapPage_loses_address :
    let high : BitVec 64 := 0x1000000000000
    let perms : PagePermissions := ⟨true, true, false⟩
    let pool := (pageInit smallLayout high.toNat 0x40000 Kernel.coldStart).2
    (mapPage smallRoot 0x1000 high perms smallSystem.kernel).1 = true ∧
      getPageTableEntryAddress (installedLeaf smallRoot 0x1000 high perms smallSystem.kernel) = 0 ∧
      ¬ StoredExactly smallSystem.kernel high ∧
      AfterInit smallLayout high.toNat 0x40000 pool ∧ Accepted pool high ∧
      (getNextLevelTable 0x1000 pool).1 = 0 ∧ ¬ StoredExactly pool high := by
  intro high perms pool
  have hOk : (mapPage smallRoot 0x1000 high perms smallSystem.kernel).1 = true :=
    smallSystem_maps 0x1000 perms (by decide)
  have hInvalid : isValid (load64 pool.mem 0x1000) = false := by decide +kernel
  have hPage : (pageAlloc 1 pool).1 = high.toNat := by decide +kernel
  have hNonzero : (pageAlloc 1 pool).1 ≠ 0 := hPage ▸ by decide
  have hLoss : ∀ k, ¬ StoredExactly k high := fun k hExact =>
    (accepted_truncates (k := k) (by decide)).1 0 (hExact.read_back 0)
  refine ⟨hOk, (mapPage_leaf_address hOk).2.trans (by decide), hLoss _,
    .of_pageInit (by decide +kernel), .table 0x1000 hInvalid hNonzero hPage, ?_, hLoss _⟩
  rw [getNextLevelTable_fresh hInvalid hNonzero, hPage]
  decide

/-- The first page of the small kernel as a table. -/
theorem acceptedAddress_exact_iff_smallLayout :
    let pool := (pageInit smallLayout 0x40000000 0x40000 Kernel.coldStart).2
    StoredExactly pool 0x40000000 ↔ (0x40000000 : BitVec 64).toNat < 2 ^ 48 :=
  have hInit : AfterInit smallLayout 0x40000000 0x40000
      (pageInit smallLayout 0x40000000 0x40000 Kernel.coldStart).2 :=
    .of_pageInit (by decide)
  acceptedAddress_exact_iff hInit
    (.table 0x1000 (by decide +kernel) (by decide +kernel) (by decide +kernel))

end Kernalite
