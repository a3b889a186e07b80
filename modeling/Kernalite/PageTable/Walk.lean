import Kernalite.PageTable.PageTable
import Mathlib.Data.List.Infix

/-!
# Kernalite — walking the tables

What the tables in memory mean. `walk` follows the entries a virtual address
selects, as a reader of the tables would, and returns the level 3 descriptor;
`tableAt` stops at the table a prefix of the address leads to. `levelsMissing`
and `firstInvalidSlot` describe where such a walk ends early.

`vaPath_inj` — the four indices determine bits [47:12] of the address.
-/

namespace Kernalite

open ByteMemory Words PageTableEntry

/-- The table a valid entry points to. -/
def nextTable (entry : PageTableEntry) : Nat := (getPageTableEntryAddress entry).toNat

/-- `table->entries[idx]` -/
def entryAt (m : Mem) (table : Nat) (idx : Fin 512) : PageTableEntry :=
  load64 m (entryAddr table idx)

/-- The indices of an address at levels 0 to 2, which lead to a level 3 table. -/
def tablePath (vAddr : BitVec 64) : List (Fin 512) := [l0Idx vAddr, l1Idx vAddr, l2Idx vAddr]

theorem tablePath_length (vAddr : BitVec 64) : (tablePath vAddr).length + 1 = 4 := rfl

/-- All four indices of an address. -/
def vaPath (vAddr : BitVec 64) : List (Fin 512) := tablePath vAddr ++ [l3Idx vAddr]

/-- Follow valid entries from `table`. -/
def tableAt (m : Mem) (table : Nat) : List (Fin 512) → Option Nat
  | [] => some table
  | idx :: path =>
    if isValid (entryAt m table idx) then tableAt m (nextTable (entryAt m table idx)) path
    else none

/-- The level 3 descriptor of an address, if every entry on the way is valid. -/
def walk (m : Mem) (root : Nat) (vAddr : BitVec 64) : Option PageTableEntry :=
  (tableAt m root (tablePath vAddr)).bind fun level3 =>
    if isValid (entryAt m level3 (l3Idx vAddr)) then some (entryAt m level3 (l3Idx vAddr)) else none

/-- How many tables are missing on a path from `table` on. -/
def levelsMissing (m : Mem) (table : Nat) : List (Fin 512) → Nat
  | [] => 0
  | idx :: path =>
    if isValid (entryAt m table idx) then levelsMissing m (nextTable (entryAt m table idx)) path
    else path.length + 1

/-- The first entry on a path that links no table. -/
def firstInvalidSlot (m : Mem) (table : Nat) : List (Fin 512) → Option Nat
  | [] => none
  | idx :: path =>
    if isValid (entryAt m table idx) then firstInvalidSlot m (nextTable (entryAt m table idx)) path
    else some (entryAddr table idx)

/-- Bits [47:12] of an address. -/
def pageNumber (vAddr : BitVec 64) : BitVec 36 := vAddr.extractLsb' 12 36

theorem levelsMissing_le (m : Mem) (table : Nat) (path : List (Fin 512)) :
    levelsMissing m table path ≤ path.length := by
  induction path generalizing table with
  | nil => exact Nat.le_refl 0
  | cons idx path ih =>
    rw [levelsMissing, List.length_cons]
    split_ifs
    · exact Nat.le_succ_of_le (ih _)
    · exact Nat.le_refl _

/-- No level is missing exactly when the walk reaches a table. -/
theorem levelsMissing_eq_zero_iff {m : Mem} {table : Nat} {path : List (Fin 512)} :
    levelsMissing m table path = 0 ↔ ∃ t, tableAt m table path = some t := by
  induction path generalizing table with
  | nil => simp [levelsMissing, tableAt]
  | cons idx path ih =>
    rw [levelsMissing, tableAt]
    split_ifs
    · exact ih
    · simp

/-- A level is missing exactly when some entry on the way is invalid. -/
theorem tableAt_eq_none_iff {m : Mem} {table : Nat} {path : List (Fin 512)} :
    tableAt m table path = none ↔ ∃ slot, firstInvalidSlot m table path = some slot := by
  induction path generalizing table with
  | nil => simp [tableAt, firstInvalidSlot]
  | cons idx path ih =>
    rw [tableAt, firstInvalidSlot]
    split_ifs
    · exact ih
    · simp

/-- The paths to the level 1, 2 and 3 tables of an address. -/
def tablePrefixes (vAddr : BitVec 64) : List (List (Fin 512)) := (tablePath vAddr).inits.tail

theorem mem_tablePrefixes {vAddr : BitVec 64} {p : List (Fin 512)} :
    p ∈ tablePrefixes vAddr ↔ p ≠ [] ∧ p <+: tablePath vAddr := by
  have hNodup : ([] : List (Fin 512)) ∉ tablePrefixes vAddr := by
    simp [tablePrefixes, tablePath, List.inits]
  rw [← List.mem_inits]
  change _ ↔ p ≠ [] ∧ p ∈ [] :: tablePrefixes vAddr
  rw [List.mem_cons]
  constructor
  · exact fun h => ⟨fun hNil => hNodup (hNil ▸ h), Or.inr h⟩
  · exact fun h => h.2.resolve_left h.1

/-- The levels missing are the prefixes that lead to no table. -/
theorem levelsMissing_eq_countP (m : Mem) (table : Nat) (path : List (Fin 512)) :
    levelsMissing m table path = path.inits.tail.countP fun p => tableAt m table p = none := by
  induction path generalizing table with
  | nil => rfl
  | cons idx path ih =>
    rw [levelsMissing, List.inits_cons, List.tail_cons, List.countP_map]
    split_ifs with hValid
    · have hBelow : ((fun p => decide (tableAt m table p = none)) ∘ fun p => idx :: p) =
          fun p => decide (tableAt m (nextTable (entryAt m table idx)) p = none) := by
        funext p
        simp [tableAt, hValid]
      rw [hBelow, ih]
      -- the empty path is not missing
      cases path <;> simp [tableAt]
    · have hBelow : ((fun p => decide (tableAt m table p = none)) ∘ fun p => idx :: p) =
          fun _ => true := by
        funext p
        simp [tableAt, hValid]
      rw [hBelow, List.countP_true, List.length_inits]

/-- The one entry a `map_page` call may write in tables that exist: the link of
the first missing level, or the leaf when none is missing. -/
def writtenSlot (m : Mem) (root : Nat) (vAddr : BitVec 64) : Option Nat :=
  match tableAt m root (tablePath vAddr) with
  | some level3 => some (entryAddr level3 (l3Idx vAddr))
  | none => firstInvalidSlot m root (tablePath vAddr)

-- ---------------------------------------------------------------------------
-- The indices determine the page number
-- ---------------------------------------------------------------------------

/-- Bit `j` of an index is bit `startBit + j` of the address. -/
theorem tableIdx_testBit (startBit : Nat) (vAddr : BitVec 64) (j : Nat) :
    (tableIdx startBit vAddr).val.testBit j = (decide (j < 9) && vAddr.getLsbD (startBit + j)) := by
  have hMask : (511 : Nat).testBit j = decide (j < 9) := Nat.testBit_two_pow_sub_one 9 j
  simp only [tableIdx, BitVec.toNat_and, Nat.testBit_and, BitVec.testBit_toNat,
    BitVec.getLsbD_ushiftRight]
  rw [Bool.and_comm, ← hMask]
  rfl

/-- Two addresses have the same index at a level exactly when the nine bits agree. -/
theorem tableIdx_inj {startBit : Nat} {v w : BitVec 64} :
    tableIdx startBit v = tableIdx startBit w ↔
      ∀ j, j < 9 → v.getLsbD (startBit + j) = w.getLsbD (startBit + j) := by
  constructor
  · intro h j hj
    have hBit := congrArg (fun i : Fin 512 => i.val.testBit j) h
    simpa only [tableIdx_testBit, hj, decide_true, Bool.true_and] using hBit
  · intro h
    apply Fin.ext
    apply Nat.eq_of_testBit_eq
    intro j
    rw [tableIdx_testBit, tableIdx_testBit]
    by_cases hj : j < 9
    · rw [h j hj]
    · simp [hj]

/-- **The four indices determine bits [47:12]**, and are determined by them. -/
theorem vaPath_inj {v w : BitVec 64} : vaPath v = vaPath w ↔ pageNumber v = pageNumber w := by
  have hBits : pageNumber v = pageNumber w ↔
      ∀ j, j < 36 → v.getLsbD (12 + j) = w.getLsbD (12 + j) := by
    constructor
    · intro h j hj
      have hBit := congrArg (fun x => x.getLsbD j) h
      simpa only [pageNumber, BitVec.getLsbD_extractLsb', hj, decide_true, Bool.true_and] using hBit
    · intro h
      apply BitVec.eq_of_getLsbD_eq
      intro j hj
      rw [pageNumber, pageNumber, BitVec.getLsbD_extractLsb', BitVec.getLsbD_extractLsb', h j hj]
  simp only [vaPath, tablePath, List.cons_append, List.nil_append, List.cons.injEq, and_true,
    l0Idx, l1Idx, l2Idx, l3Idx, tableIdx_inj, hBits]
  constructor
  · rintro ⟨h0, h1, h2, h3⟩ j hj
    -- the level whose index holds bit 12 + j
    rcases Nat.lt_or_ge j 9 with hj3 | hj3
    · exact h3 j hj3
    rcases Nat.lt_or_ge j 18 with hj2 | hj2
    · have hBit := h2 (j - 9) (by omega)
      rwa [show 21 + (j - 9) = 12 + j by omega] at hBit
    rcases Nat.lt_or_ge j 27 with hj1 | hj1
    · have hBit := h1 (j - 18) (by omega)
      rwa [show 30 + (j - 18) = 12 + j by omega] at hBit
    · have hBit := h0 (j - 27) (by omega)
      rwa [show 39 + (j - 27) = 12 + j by omega] at hBit
  · intro h
    refine ⟨?_, ?_, ?_, ?_⟩ <;> intro j hj
    · have hBit := h (27 + j) (by omega)
      rwa [show 12 + (27 + j) = 39 + j by omega] at hBit
    · have hBit := h (18 + j) (by omega)
      rwa [show 12 + (18 + j) = 30 + j by omega] at hBit
    · have hBit := h (9 + j) (by omega)
      rwa [show 12 + (9 + j) = 21 + j by omega] at hBit
    · exact h j (by omega)

end Kernalite
