import Kernalite.Lib.Traversal
import Kernalite.PageTable.Permissions

/-!
# Kernalite — the memory map dump

`dump_memory_map` prints a line for every valid entry of every level 3 table. It
rebuilds the virtual address from the indices on its way down, and follows links
through `get_next_level_table`, which would allocate on an invalid entry.

* `prefixAddr_append`, `prefixAddr_vaPath` — the shifts and masks of the dump are
  the inverse of the indices `map_page` takes;
* `dumpMemoryMapRecursive_spec` — a subtree of tables is printed as the traversal
  of the forest below it, and nothing but the console changes;
* `dumpMemoryMap_lists` — the lines are the pages that are mapped, in the order
  of their addresses, with what the last `map_page` call wrote.
-/

namespace Kernalite

open ByteMemory Words Loop PageTableEntry RadixForest

-- ---------------------------------------------------------------------------
-- Lines
-- ---------------------------------------------------------------------------

/-- The value of an `ap_table` field. -/
def AptableValues.ofBits (ap : BitVec 2) : AptableValues :=
  if ap = 0b00 then .el0NoRestrictionEl1NoRestriction
  else if ap = 0b01 then .el0NoWriteEl1NoWrite
  else if ap = 0b10 then .el0NoAccessEl1NoRestriction
  else .el0NoAccessEl1NoWrite

def AptableValues.text : AptableValues → String
  | .el0NoRestrictionEl1NoRestriction => " RW(EL0) RW(EL1)"
  | .el0NoWriteEl1NoWrite => " RO(EL0) RO(EL1)"
  | .el0NoAccessEl1NoRestriction => " NO-ACCESS(EL0) RW(EL1)"
  | .el0NoAccessEl1NoWrite => " NO-ACCESS(EL0) RO(EL1)"

/-- A line of the dump. -/
structure DumpLine where
  vAddr : BitVec 64
  phyAddr : BitVec 64
  flags : BitVec 64
  xn : Bool
  pxn : Bool
  access : AptableValues
  deriving DecidableEq

namespace DumpLine

/-- The line for a level 3 descriptor at an address. -/
def of (vAddr : BitVec 64) (entry : PageTableEntry) : DumpLine where
  vAddr := vAddr
  phyAddr := getPageTableEntryAddress entry
  flags := entry &&& 0xFFF
  xn := xnTable.get entry != 0
  pxn := pxnTable.get entry != 0
  access := .ofBits (apTable.get entry)

/-- The `kprintf` calls that print the line. -/
def calls (line : DumpLine) : List (String × List Arg) :=
  [("VA 0x%lx -> PA 0x%lx [Flags: 0x%lx]",
      [.word line.vAddr.toNat, .word line.phyAddr.toNat, .word line.flags.toNat])] ++
    (if line.xn then [(" XN", [])] else []) ++ (if line.pxn then [(" PXN", [])] else []) ++
    [(line.access.text, []), ("\n", [])]

end DumpLine

theorem AptableValues.bits_ofBits : ∀ ap, (AptableValues.ofBits ap).bits = ap := by
  decide

theorem AptableValues.ofBits_bits (value : AptableValues) : ofBits value.bits = value := by
  cases value <;> rfl

/-- Text printed when a bit is set. -/
theorem printed_flag {w : Nat} (bit : BitVec w) (text : String) (k : Kernel) :
    (if bit ≠ 0 then k.kprintf text [] else k) =
      k.printed (if bit != 0 then [(text, [])] else []) := by
  by_cases hBit : bit = 0
  · rw [if_neg (not_not_intro hBit), hBit]
    exact k.printed_nil.symm
  · rw [if_pos hBit, if_pos (bne_iff_ne.mpr hBit)]
    rfl

/-- The text for an `ap_table` field. -/
theorem printed_access (ap : BitVec 2) (k : Kernel) :
    (if ap = AptableValues.el0NoRestrictionEl1NoRestriction.bits then
        k.kprintf " RW(EL0) RW(EL1)" []
      else if ap = AptableValues.el0NoWriteEl1NoWrite.bits then k.kprintf " RO(EL0) RO(EL1)" []
      else if ap = AptableValues.el0NoAccessEl1NoRestriction.bits then
        k.kprintf " NO-ACCESS(EL0) RW(EL1)" []
      else if ap = AptableValues.el0NoAccessEl1NoWrite.bits then
        k.kprintf " NO-ACCESS(EL0) RO(EL1)" []
      else k) = k.printed [((AptableValues.ofBits ap).text, [])] := by
  obtain ⟨value, rfl⟩ : ∃ value, ap = AptableValues.bits value :=
    ⟨_, (AptableValues.bits_ofBits ap).symm⟩
  rw [AptableValues.ofBits_bits]
  cases value <;> rfl

/-- What the dump prints for a descriptor is its line. -/
theorem dumpLeaf_eq (entry : PageTableEntry) (vAddr : BitVec 64) (k : Kernel) :
    dumpLeaf entry vAddr k = k.printed (DumpLine.of vAddr entry).calls := by
  rw [dumpLeaf, printed_access, printed_flag, printed_flag]
  simp only [Kernel.kprintf_eq, Kernel.printed_printed, DumpLine.calls, DumpLine.of,
    List.append_assoc, List.cons_append, List.nil_append]
  rfl

/-- The low 12 bits of a descriptor `map_page` wrote: valid, and a page. -/
theorem leafEntry_flags (phyAddr : BitVec 64) (perms : PagePermissions) :
    leafEntry phyAddr perms &&& 0xFFF = 3 := by
  apply BitVec.eq_of_getLsbD_eq
  intro i hi
  have hMask : BitVec.getLsbD (0xFFF : BitVec 64) i = decide (i < 12) :=
    Nat.testBit_two_pow_sub_one 12 i
  have hBits : BitVec.getLsbD (3 : BitVec 64) i = decide (i < 2) :=
    Nat.testBit_two_pow_sub_one 2 i
  rw [BitVec.getLsbD_and, hMask, hBits]
  by_cases hLow : i < 12
  · rw [leafEntry_bit phyAddr perms (by omega), tableEntry_bit phyAddr hi (Or.inl hLow),
      decide_eq_true hLow, Bool.and_true]
  · rw [decide_eq_false hLow, Bool.and_false, decide_eq_false (by omega)]

/-- **The line of a descriptor `map_page` wrote** says what the call asked for. -/
theorem DumpLine.of_leafEntry (vAddr phyAddr : BitVec 64) (perms : PagePermissions) :
    DumpLine.of vAddr (leafEntry phyAddr perms) =
      ⟨vAddr, phyAddr &&& addrMask, 3, !perms.execute, !perms.execute,
        accessPermissions perms⟩ := by
  obtain ⟨hXn, hPxn, hAp⟩ := leafEntry_permissions phyAddr perms
  have hNever : (executeNever perms != 0) = !perms.execute := by
    unfold executeNever
    cases perms.execute <;> rfl
  rw [DumpLine.of, leafEntry_address, leafEntry_flags, hXn, hPxn, hAp, AptableValues.ofBits_bits,
    hNever]

-- ---------------------------------------------------------------------------
-- Addresses
-- ---------------------------------------------------------------------------

/-- The virtual address with these indices at the first levels, and zeros below. -/
def prefixAddr (path : List (Fin 512)) : BitVec 64 :=
  BitVec.ofNat 64 (number path * 2 ^ (9 * (4 - path.length) + 12))

@[simp] theorem prefixAddr_nil : prefixAddr [] = 0 := by
  decide

theorem levelShift_eq {level : Nat} (hLevel : level < 4) :
    9 * (4 - level) + 12 = levelShift level + 9 := by
  unfold levelShift
  omega

/-- **The dump's shift and mask add an index to an address.** -/
theorem prefixAddr_append {path : List (Fin 512)} (hLen : path.length < 4) (i : Fin 512) :
    (BitVec.ofNat 64 i <<< levelShift path.length) |||
        (prefixAddr path &&& ~~~(idxMask <<< levelShift path.length)) =
      prefixAddr (path ++ [i]) := by
  have hShift := levelShift_eq hLen
  have hBelow : 9 * (4 - (path.length + 1)) + 12 = levelShift path.length := by omega
  rw [prefixAddr, prefixAddr, number_append_singleton, List.length_append, List.length_singleton,
    hBelow, hShift]
  generalize levelShift path.length = shift
  generalize number path = n
  have hIndex : i.val < 2 ^ 9 := i.isLt
  have hMask : ∀ j, idxMask.getLsbD j = decide (j < 9) := Nat.testBit_two_pow_sub_one 9
  apply BitVec.eq_of_getLsbD_eq
  intro j hj
  rw [Nat.mul_comm n 512]
  simp only [BitVec.getLsbD_or, BitVec.getLsbD_and, BitVec.getLsbD_not, BitVec.getLsbD_shiftLeft,
    BitVec.getLsbD_ofNat, Nat.testBit_mul_two_pow, hMask, hj, decide_true, Bool.true_and]
  have hDigit := Nat.testBit_two_pow_mul_add n hIndex (j - shift)
  by_cases hLow : j < shift
  · -- below the index
    simp [hLow, show ¬ shift + 9 ≤ j by omega, show ¬ shift ≤ j by omega]
  by_cases hField : j - shift < 9
  · -- in the index
    rw [if_pos hField] at hDigit
    simp [hLow, hField, hDigit, show ¬ shift + 9 ≤ j by omega, show shift ≤ j by omega,
      show j - shift < 64 by omega]
  · -- above the index
    rw [if_neg hField] at hDigit
    have hZero : i.val.testBit (j - shift) = false :=
      Nat.testBit_lt_two_pow
        (Nat.lt_of_lt_of_le hIndex (Nat.pow_le_pow_right (by omega) (by omega)))
    simp [hField, hDigit, hZero, show shift + 9 ≤ j by omega, show shift ≤ j by omega,
      show j - (shift + 9) = j - shift - 9 by omega]

/-- An index as a digit of the address. -/
theorem tableIdx_digit (startBit : Nat) (vAddr : BitVec 64) :
    (tableIdx startBit vAddr).val = vAddr.toNat / 2 ^ startBit % 2 ^ 9 := by
  rw [tableIdx_eq, Vmsa.index, BitVec.extractLsb'_toNat, Nat.shiftRight_eq_div_pow]

theorem number_vaPath (vAddr : BitVec 64) :
    number (vaPath vAddr) = vAddr.toNat / 2 ^ 12 % 2 ^ 36 := by
  have hPath : vaPath vAddr =
      [] ++ [l0Idx vAddr] ++ [l1Idx vAddr] ++ [l2Idx vAddr] ++ [l3Idx vAddr] := rfl
  rw [hPath]
  simp only [number_append_singleton, number_nil, l0Idx, l1Idx, l2Idx, l3Idx, tableIdx_digit]
  omega

/-- **The indices `map_page` takes spell bits [47:12] of the address.** -/
theorem prefixAddr_vaPath (vAddr : BitVec 64) : prefixAddr (vaPath vAddr) = vAddr &&& addrMask := by
  rw [prefixAddr, number_vaPath]
  apply BitVec.eq_of_getLsbD_eq
  intro i hi
  have hBit : (vAddr.toNat / 2 ^ 12 % 2 ^ 36 * 2 ^ 12).testBit i =
      (decide (12 ≤ i ∧ i < 48) && vAddr.toNat.testBit i) := by
    rw [Nat.testBit_mul_two_pow, Nat.testBit_mod_two_pow, Nat.testBit_div_two_pow]
    by_cases hLow : 12 ≤ i
    · simp [hLow, show i - 12 < 36 ↔ i < 48 by omega]
    · simp [hLow]
  rw [BitVec.getLsbD_and, addrMask_bit hi, Bool.and_comm, BitVec.getLsbD_ofNat, decide_eq_true hi,
    Bool.true_and]
  exact hBit

/-- Full paths spell page addresses below `2 ^ 48`. -/
theorem prefixAddr_toNat {path : List (Fin 512)} (hLen : path.length = 4) :
    (prefixAddr path).toNat = number path * 2 ^ 12 := by
  have hBound : number path < 512 ^ path.length := number_lt path
  rw [prefixAddr, hLen, BitVec.toNat_ofNat]
  rw [hLen] at hBound
  omega

-- ---------------------------------------------------------------------------
-- The recursion
-- ---------------------------------------------------------------------------

/-- The line for a leaf of the forest. -/
def leafLine (leaf : List (Fin 512) × Mapping) : DumpLine :=
  DumpLine.of (prefixAddr leaf.1) leaf.2.entry

/-- The lines for the leaves `d` levels below a path. -/
def linesBelow (F : Forest) (root d : Nat) (path : List (Fin 512)) : List DumpLine :=
  (F.leavesBelow root d path).map leafLine

theorem linesBelow_succ (F : Forest) (root d : Nat) (path : List (Fin 512)) :
    linesBelow F root (d + 1) path =
      (List.finRange 512).flatMap fun i => linesBelow F root d (path ++ [i]) := by
  simp only [linesBelow, leavesBelow, List.map_flatMap]

section Recursion

variable {L : KernelLayout} {k : Kernel} {F : Forest} {l : Ledger} {root t : Nat}
  {path : List (Fin 512)}

/-- A valid entry is followed without a change. -/
theorem getNextLevelTableLocal_valid {entry : PageTableEntry} (hValid : isValid entry = true)
    (k : Kernel) : getNextLevelTableLocal entry k = (nextTable entry, k) := by
  rw [getNextLevelTableLocal, if_pos hValid, paToVa_eq]
  rfl

/-- One round of the loop at level 3. -/
theorem dumpEntry_leaf (h : PageTables L k F l) (hNode : F.node root path = some t)
    (hLen : path.length = 3) (i : Fin 512) :
    (if !isValid (entryAt k.mem t i) then k
      else dumpLeaf (entryAt k.mem t i) (prefixAddr (path ++ [i])) k) =
      k.printed ((linesBelow F root 0 (path ++ [i])).flatMap DumpLine.calls) := by
  have hDeep : F.node root (path ++ [i]) = none :=
    F.node_eq_none_of_length (by rw [List.length_append, hLen]; exact Nat.le_refl 4) root
  rw [h.represents root path t hNode i, Forest.entry_of_node_none hDeep, linesBelow, leavesBelow]
  cases F.leaf root (path ++ [i]) with
  | none => exact k.printed_nil.symm
  | some mapping =>
    have hValid : isValid mapping.entry = true := leafEntry_valid _ _
    rw [Option.elim_some, hValid, dumpLeaf_eq]
    simp [leafLine]

/-- One round of the loop at levels 0 to 2. -/
theorem dumpEntry_table (h : PageTables L k F l) (hNode : F.node root path = some t)
    (hLen : path.length < 3) {d : Nat} (i : Fin 512)
    (hBelow : ∀ next, F.node root (path ++ [i]) = some next →
      dumpMemoryMapRecursive next (path.length + 1) (prefixAddr (path ++ [i])) k =
        k.printed ((linesBelow F root (d + 1) (path ++ [i])).flatMap DumpLine.calls)) :
    (if !isValid (entryAt k.mem t i) then k
      else
        let (nextTable, k) := getNextLevelTableLocal (entryAt k.mem t i) k
        dumpMemoryMapRecursive nextTable (path.length + 1) (prefixAddr (path ++ [i])) k) =
      k.printed ((linesBelow F root (d + 1) (path ++ [i])).flatMap DumpLine.calls) := by
  cases hNext : F.node root (path ++ [i]) with
  | none =>
    rw [h.entry_none hNode hLen hNext, isValid_zero, linesBelow, leavesBelow_eq_nil hNext]
    exact k.printed_nil.symm
  | some next =>
    obtain ⟨hValid, hAddr⟩ := h.entry_some hNode hNext
    rw [hValid, getNextLevelTableLocal_valid hValid, hAddr]
    exact hBelow next hNext

/-- **A subtree of tables** is printed as the traversal of the forest below it, and
nothing but the console changes. -/
theorem dumpMemoryMapRecursive_spec (h : PageTables L k F l) {d : Nat}
    (hDepth : path.length + (d + 1) = 4) (hNode : F.node root path = some t) :
    dumpMemoryMapRecursive t path.length (prefixAddr path) k =
      k.printed ((linesBelow F root (d + 1) path).flatMap DumpLine.calls) := by
  induction d generalizing path t k with
  | zero =>
    have hLeaf : ¬ path.length < 3 := by omega
    rw [linesBelow_succ, List.flatMap_assoc]
    unfold dumpMemoryMapRecursive
    refine forRange_log Kernel.printed_nil Kernel.printed_printed _ fun i calls => ?_
    rw [← dumpEntry_leaf (h.printed calls) hNode (by omega) i, ← prefixAddr_append (by omega) i]
    simp only [if_neg hLeaf]
    rfl
  | succ d ih =>
    have hTable : path.length < 3 := by omega
    rw [linesBelow_succ, List.flatMap_assoc]
    unfold dumpMemoryMapRecursive
    refine forRange_log Kernel.printed_nil Kernel.printed_printed _ fun i calls => ?_
    have hLen : (path ++ [i]).length = path.length + 1 := List.length_append
    rw [← dumpEntry_table (h.printed calls) hNode hTable i, ← prefixAddr_append (by omega) i]
    · simp only [if_pos hTable]
      rfl
    · intro next hNext
      rw [← hLen]
      exact ih (h.printed calls) (by omega) hNext

end Recursion

-- ---------------------------------------------------------------------------
-- The whole map
-- ---------------------------------------------------------------------------

/-- The calls before and after the lines. -/
def dumpStart : List (String × List Arg) := [("--- Memory Map Dump Start ---\n", [])]

def dumpEnd : List (String × List Arg) := [("--- Memory Map Dump End ---\n", [])]

section Dump

variable {L : KernelLayout} {memStart memSize root : Nat} {s : System} {F : Forest} {l : Ledger}

theorem System.Sound.dumpMemoryMap_eq (h : s.Sound L F l) (hRoot : root ∈ s.roots) :
    dumpMemoryMap root s.kernel =
      s.kernel.printed (dumpStart ++ ((F.leaves root).map leafLine).flatMap DumpLine.calls ++
        dumpEnd) := by
  have hSpec : dumpMemoryMapRecursive root 0 (prefixAddr []) (s.kernel.printed dumpStart) =
      (s.kernel.printed dumpStart).printed ((linesBelow F root 4 []).flatMap DumpLine.calls) :=
    dumpMemoryMapRecursive_spec (h.page_tables.printed dumpStart) rfl ((h.roots_iff root).mp hRoot)
  rw [prefixAddr_nil, Kernel.printed_printed] at hSpec
  have hEnd := congrArg (Kernel.printed · dumpEnd) hSpec
  rw [Kernel.printed_printed] at hEnd
  exact hEnd

/-- The lines come in the order of their addresses. -/
theorem leafLines_sorted : ((F.leaves root).map leafLine).Pairwise fun x y => x.vAddr < y.vAddr := by
  rw [List.pairwise_map]
  refine leaves_sorted.imp_of_mem fun {x y} hx hy hLess => ?_
  have hLenX := length_of_leaf (mem_leaves.mp hx)
  have hLenY := length_of_leaf (mem_leaves.mp hy)
  rw [BitVec.lt_def]
  change (prefixAddr x.1).toNat < (prefixAddr y.1).toNat
  rw [prefixAddr_toNat hLenX, prefixAddr_toNat hLenY]
  exact Nat.mul_lt_mul_of_pos_right hLess (Nat.two_pow_pos 12)

/-- Every mapping in the log is for the path of some address. -/
theorem exists_vaPath_of_lastMapped {mapped : List MapRequest} {path : List (Fin 512)}
    {mapping : Mapping} (h : lastMapped mapped root path = some mapping) :
    ∃ vAddr, vaPath vAddr = path := by
  obtain ⟨q, hFind, -⟩ := Option.map_eq_some_iff.mp h
  have hHit := List.find?_some hFind
  exact ⟨q.vAddr, (of_decide_eq_true hHit).2⟩

/-- A line is printed for every page that was mapped. -/
theorem System.Sound.mem_leafLines (h : s.Sound L F l) (hRoot : root ∈ s.roots) (line : DumpLine) :
    line ∈ (F.leaves root).map leafLine ↔
      ∃ vAddr mapping, lastMapped s.mapped root (vaPath vAddr) = some mapping ∧
        walk s.kernel.mem root vAddr = some mapping.entry ∧
        line = DumpLine.of (vAddr &&& addrMask) mapping.entry := by
  have hWalk : ∀ {vAddr mapping}, lastMapped s.mapped root (vaPath vAddr) = some mapping →
      walk s.kernel.mem root vAddr = some mapping.entry := by
    intro vAddr mapping hLast
    rw [h.walk_eq hRoot, h.leaf_eq, hLast]
    rfl
  rw [List.mem_map]
  constructor
  · rintro ⟨⟨path, mapping⟩, hMem, rfl⟩
    have hLast : lastMapped s.mapped root path = some mapping :=
      (h.leaf_eq root path).symm.trans (mem_leaves.mp hMem)
    obtain ⟨vAddr, rfl⟩ := exists_vaPath_of_lastMapped hLast
    exact ⟨vAddr, mapping, hLast, hWalk hLast, by rw [leafLine, prefixAddr_vaPath]⟩
  · rintro ⟨vAddr, mapping, hLast, -, rfl⟩
    refine ⟨(vaPath vAddr, mapping), mem_leaves.mpr ((h.leaf_eq root _).trans hLast), ?_⟩
    rw [leafLine, prefixAddr_vaPath]

/--
**The dump lists what is mapped.** In every reachable state and for every root:
`dump_memory_map` prints lines in strictly increasing order of their addresses,
one for each page of the root that was ever mapped, at bits [47:12] of its address
and with the fields of the descriptor its last successful `map_page` call left,
which a walk finds there; and nothing but the console changes.
-/
theorem dumpMemoryMap_lists (hReach : Reachable L memStart memSize s) (hRoot : root ∈ s.roots) :
    ∃ lines : List DumpLine,
      lines.Pairwise (fun x y => x.vAddr < y.vAddr) ∧
        (∀ line, line ∈ lines ↔
          ∃ vAddr mapping, lastMapped s.mapped root (vaPath vAddr) = some mapping ∧
            walk s.kernel.mem root vAddr = some mapping.entry ∧
            line = DumpLine.of (vAddr &&& addrMask) mapping.entry) ∧
        dumpMemoryMap root s.kernel =
          s.kernel.printed (dumpStart ++ lines.flatMap DumpLine.calls ++ dumpEnd) := by
  obtain ⟨F, l, hSound⟩ := reachable_sound hReach
  exact ⟨(F.leaves root).map leafLine, leafLines_sorted, hSound.mem_leafLines hRoot,
    hSound.dumpMemoryMap_eq hRoot⟩

/-- The dump of the small kernel with one read-only page: the line says so. -/
theorem dumpMemoryMap_lists_readOnly :
    dumpMemoryMap smallRoot (smallSystem.map readOnlyRequest).kernel =
      (smallSystem.map readOnlyRequest).kernel.printed (dumpStart ++
        DumpLine.calls ⟨0x1000, 0x5000, 3, true, true, .el0NoWriteEl1NoWrite⟩ ++ dumpEnd) := by
  let line : DumpLine := ⟨0x1000, 0x5000, 3, true, true, .el0NoWriteEl1NoWrite⟩
  have hRoot : smallRoot ∈ (smallSystem.map readOnlyRequest).roots := by
    rw [System.map_roots]
    exact List.mem_cons_self
  have hLine : DumpLine.of (prefixAddr (vaPath 0x1000)) readOnlyRequest.mapping.entry = line := by
    rw [prefixAddr_vaPath, Mapping.entry, DumpLine.of_leafEntry]
    decide
  obtain ⟨lines, hSorted, hMem, hDump⟩ := dumpMemoryMap_lists readOnlyRequest_reachable hRoot
  obtain ⟨F, l, hSound⟩ := reachable_sound readOnlyRequest_reachable
  have hOnly : ∀ x, x ∈ lines ↔ x ∈ [line] := by
    intro x
    rw [hMem, List.mem_singleton]
    constructor
    · rintro ⟨vAddr, mapping, hLast, -, rfl⟩
      obtain ⟨hPath, rfl⟩ := readOnlyRequest_mapped_iff.mp hLast
      rw [← prefixAddr_vaPath, hPath, hLine]
    · rintro rfl
      refine ⟨0x1000, _, readOnlyRequest_mapped, ?_, ?_⟩
      · rw [hSound.walk_eq hRoot, hSound.leaf_eq, readOnlyRequest_mapped]
        rfl
      · rw [← prefixAddr_vaPath]
        exact hLine.symm
  have hNodup : lines.Nodup := hSorted.imp fun {x y} hLess hEq => by
    rw [hEq] at hLess
    exact BitVec.lt_irrefl _ hLess
  have hLines : lines = [line] := List.perm_singleton.mp
    ((List.perm_ext_iff_of_nodup hNodup (List.nodup_singleton line)).mpr hOnly)
  rw [hDump, hLines, List.flatMap_singleton]

end Dump

end Kernalite
