import Kernalite.PageTable.Dump
import Kernalite.Utils.Console

/-!
# Kernalite — the memory map dump as text

What `dump_memory_map` sends to the console can be read back: `readMemoryMap` takes the
text apart line by line and returns the lines, and a line is looked up by the page of
an address.

* `dumpLine_reads` — the text of a line tells the line;
* `dumpMemoryMap_text` — the text of a dump tells what a walk finds for every address.
-/

namespace Kernalite

open ByteMemory ByteString Words TextScan RadixForest

-- ---------------------------------------------------------------------------
-- Reading a dump
-- ---------------------------------------------------------------------------

/-- What a line shows behind the numbers. -/
def attributeText (xn pxn : Bool) (access : AptableValues) : List Byte :=
  (if xn then asciiString " XN" else []) ++ (if pxn then asciiString " PXN" else []) ++
    asciiString access.text

/-- Everything it can show there. -/
def attributes : List (Bool × Bool × AptableValues) :=
  [true, false].flatMap fun xn => [true, false].flatMap fun pxn =>
    [.el0NoRestrictionEl1NoRestriction, .el0NoWriteEl1NoWrite, .el0NoAccessEl1NoRestriction,
      .el0NoAccessEl1NoWrite].map fun access => (xn, pxn, access)

/-- The numbers of a line. -/
def entryOfFields : List Field → Option (BitVec 64 × BitVec 64 × BitVec 64)
  | [.number vAddr, .number phyAddr, .number flags] =>
    some (BitVec.ofInt 64 vAddr, BitVec.ofInt 64 phyAddr, BitVec.ofInt 64 flags)
  | _ => none

/-- A line of the dump. -/
def lineReader : Reader Byte DumpLine := fun text => do
  let ((vAddr, phyAddr, flags), text) ←
    callReader "VA 0x%lx -> PA 0x%lx [Flags: 0x%lx]" entryOfFields text
  let (shown, text) ← upTo (ascii '\r') text
  let (xn, pxn, access) ← attributes.find? fun a => attributeText a.1 a.2.1 a.2.2 = shown
  let (_, text) ← callReader "\n" some text
  return (⟨vAddr, phyAddr, flags, xn, pxn, access⟩, text)

/-- Reads a dump, and leaves what was printed behind it. -/
def readMemoryMap : Reader Byte (List DumpLine) := fun text => do
  let (_, text) ← callReader "--- Memory Map Dump Start ---\n" some text
  let (lines, text) ← all lineReader text
  let (_, text) ← callReader "--- Memory Map Dump End ---\n" some text
  return (lines, text)

/-- The line of the page an address lies in. -/
def lookupLine (lines : List DumpLine) (vAddr : BitVec 64) : Option DumpLine :=
  lines.find? fun line => line.vAddr = vAddr &&& addrMask

-- ---------------------------------------------------------------------------
-- The formats of the dump
-- ---------------------------------------------------------------------------

/-- The literals of a dump. -/
def mapLiterals : List String :=
  ["--- Memory Map Dump Start ---\n", "VA 0x%lx -> PA 0x%lx [Flags: 0x%lx]", " XN", " PXN",
    " RW(EL0) RW(EL1)", " RO(EL0) RO(EL1)", " NO-ACCESS(EL0) RW(EL1)", " NO-ACCESS(EL0) RO(EL1)",
    "\n", "--- Memory Map Dump End ---\n"]

theorem lineFormat_conversions :
    conversions (tokenize (asciiString "VA 0x%lx -> PA 0x%lx [Flags: 0x%lx]")).1 =
      [(.long (ascii 'x'), some (ascii ' ')), (.long (ascii 'x'), some (ascii ' ')),
        (.long (ascii 'x'), some (ascii ']'))] := by
  rw [asciiString_ofList]
  rfl

theorem mem_attributes (xn pxn : Bool) (access : AptableValues) :
    (xn, pxn, access) ∈ attributes := by
  cases xn <;> cases pxn <;> cases access <;> decide

/-- No two attributes are shown alike, and none has a line end in it. -/
theorem attributes_shown : ∀ a ∈ attributes,
    (attributes.find? fun b => attributeText b.1 b.2.1 b.2.2 = attributeText a.1 a.2.1 a.2.2) =
        some a ∧ ascii '\r' ∉ attributeText a.1 a.2.1 a.2.2 := by
  decide +kernel

theorem find_attributeText (xn pxn : Bool) (access : AptableValues) :
    (attributes.find? fun a => attributeText a.1 a.2.1 a.2.2 = attributeText xn pxn access) =
      some (xn, pxn, access) :=
  (attributes_shown _ (mem_attributes xn pxn access)).1

theorem attributeText_line (xn pxn : Bool) (access : AptableValues) :
    ascii '\r' ∉ attributeText xn pxn access :=
  (attributes_shown _ (mem_attributes xn pxn access)).2

/-- The last line is not taken for a line of the map. -/
theorem lineReader_end {text : List Byte} {p : List Field × List Byte}
    (h : callReader "--- Memory Map Dump End ---\n" some text = some p) :
    lineReader text = none := by
  have hDash : text.head? = some (ascii '-') :=
    callReader_head h (k := ascii '-') (by rw [asciiString_ofList]; rfl) (by decide)
  cases hNumbers : callReader "VA 0x%lx -> PA 0x%lx [Flags: 0x%lx]" entryOfFields text with
  | none =>
    rw [lineReader, hNumbers]
    rfl
  | some q =>
    have hLetter : text.head? = some (ascii 'V') :=
      callReader_head hNumbers (k := ascii 'V') (by rw [asciiString_ofList]; rfl) (by decide)
    rw [hDash] at hLetter
    exact absurd hLetter (by decide)

section Text

variable {L : KernelLayout} {memStart memSize root : Nat} {s : System} {F : Forest} {l : Ledger}
  {serialConsole : Serial} {m : Mem} {lit : String → BitVec 64}

/-- The numbers of a line. -/
theorem entry_reads (hConsole : serialConsole.putc ≠ 0) (vAddr phyAddr flags : BitVec 64)
    (hFormat : LiteralIn m lit "VA 0x%lx -> PA 0x%lx [Flags: 0x%lx]") :
    ∃ text, CallsPrint serialConsole m lit [("VA 0x%lx -> PA 0x%lx [Flags: 0x%lx]",
        [.word vAddr.toNat, .word phyAddr.toNat, .word flags.toNat])] text ∧
      ∀ rest, Reads (callReader "VA 0x%lx -> PA 0x%lx [Flags: 0x%lx]" entryOfFields) text rest
        (vAddr, phyAddr, flags) := by
  have hShow : showFields lit
      (conversions (tokenize (asciiString "VA 0x%lx -> PA 0x%lx [Flags: 0x%lx]")).1)
        [.word vAddr.toNat, .word phyAddr.toNat, .word flags.toNat] =
        some [.number vAddr.toNat, .number phyAddr.toNat, .number flags.toNat] := by
    rw [lineFormat_conversions, showFields_long vAddr.isLt (by decide),
      showFields_long phyAddr.isLt (by decide), showFields_long flags.isLt (by decide)]
    rfl
  refine call_reads hConsole ⟨hFormat, by simp⟩ (by rw [asciiString_ofList]; rfl) hShow ?_
  simp [entryOfFields]

/-- The text behind the numbers of a line. -/
theorem attributes_print (hConsole : serialConsole.putc ≠ 0)
    (hLit : ∀ t ∈ mapLiterals, LiteralIn m lit t) (xn pxn : Bool) (access : AptableValues) :
    CallsPrint serialConsole m lit
      ((if xn then [(" XN", [])] else []) ++ (if pxn then [(" PXN", [])] else []) ++
        [(access.text, [])]) (attributeText xn pxn access) := by
  have hXn : CallsPrint serialConsole m lit (if xn then [(" XN", [])] else [])
      (if xn then asciiString " XN" else []) := by
    cases xn
    · exact CallsPrint.nil
    · exact plain_prints hConsole (hLit _ (by simp [mapLiterals])) (by rw [asciiString_ofList]; decide)
        (by rw [asciiString_ofList]; decide)
  have hPxn : CallsPrint serialConsole m lit (if pxn then [(" PXN", [])] else [])
      (if pxn then asciiString " PXN" else []) := by
    cases pxn
    · exact CallsPrint.nil
    · exact plain_prints hConsole (hLit _ (by simp [mapLiterals])) (by rw [asciiString_ofList]; decide)
        (by rw [asciiString_ofList]; decide)
  have hAccess : CallsPrint serialConsole m lit [(access.text, [])] (asciiString access.text) := by
    cases access <;>
      exact plain_prints hConsole (hLit _ (by simp [mapLiterals, AptableValues.text]))
        (by rw [AptableValues.text, asciiString_ofList]; decide)
        (by rw [AptableValues.text, asciiString_ofList]; decide)
  exact (hXn.append hPxn).append hAccess

/-- **The text of a line** tells the line. -/
theorem dumpLine_reads (hConsole : serialConsole.putc ≠ 0)
    (hLit : ∀ t ∈ mapLiterals, LiteralIn m lit t) (line : DumpLine) :
    ∃ text, CallsPrint serialConsole m lit line.calls text ∧
      ∀ rest, Reads lineReader text rest line := by
  obtain ⟨vAddr, phyAddr, flags, xn, pxn, access⟩ := line
  obtain ⟨numbers, hNumbers, hReadNumbers⟩ := entry_reads hConsole vAddr phyAddr flags
    (hLit _ (by simp [mapLiterals]))
  obtain ⟨line, hLine, hReadLine⟩ := title_reads hConsole
    (hLit "\n" (by simp [mapLiterals])) (by rw [asciiString_ofList]; rfl) (by rw [asciiString_ofList]; rfl)
  have hShown := attributes_print hConsole hLit xn pxn access
  refine ⟨numbers ++ (attributeText xn pxn access ++ line), ?_, fun rest => ?_⟩
  · have hAll := hNumbers.append (hShown.append hLine)
    simp only [List.append_assoc] at hAll
    simp only [DumpLine.calls, List.append_assoc]
    exact hAll
  · have hLineEnd := hReadLine rest
    have hReturn : (line ++ rest).head? = some (ascii '\r') :=
      callReader_head hLineEnd (k := ascii '\n') (by rw [asciiString_ofList]; rfl) (by decide)
    obtain ⟨after, hAfter⟩ := List.head?_eq_some_iff.mp hReturn
    have hReadShown := upTo_reads (attributeText_line xn pxn access) after
    rw [Reads] at hLineEnd hReadShown
    rw [← hAfter] at hReadShown
    simp only [Reads, lineReader, List.append_assoc]
    rw [hReadNumbers]
    simp only [Option.bind_eq_bind, Option.bind_some]
    rw [hReadShown]
    simp only [Option.bind_some, find_attributeText]
    rw [hLineEnd]
    rfl

-- ---------------------------------------------------------------------------
-- The whole dump
-- ---------------------------------------------------------------------------

/-- A path is the one of an address if it spells the page of the address. -/
theorem prefixAddr_eq_iff {path : List (Fin 512)} (hLen : path.length = 4) (vAddr : BitVec 64) :
    prefixAddr path = vAddr &&& addrMask ↔ path = vaPath vAddr := by
  rw [← prefixAddr_vaPath vAddr]
  refine ⟨fun h => number_inj ?_ ?_, fun h => congrArg prefixAddr h⟩
  · rw [hLen]
    rfl
  · have hSame := congrArg BitVec.toNat h
    rw [prefixAddr_toNat hLen, prefixAddr_toNat rfl] at hSame
    exact Nat.eq_of_mul_eq_mul_right (Nat.two_pow_pos 12) hSame

theorem leafLine_vAddr (leaf : List (Fin 512) × Mapping) :
    (leafLine leaf).vAddr = prefixAddr leaf.1 := rfl

/-- The lines of a dump tell what a walk finds. -/
theorem System.Sound.lookupLine_eq (h : s.Sound L F l) (hRoot : root ∈ s.roots) (vAddr : BitVec 64) :
    lookupLine ((F.leaves root).map leafLine) vAddr =
      (walk s.kernel.mem root vAddr).map (DumpLine.of (vAddr &&& addrMask)) := by
  rw [h.walk_eq hRoot, lookupLine]
  cases hFind : ((F.leaves root).map leafLine).find? fun line => line.vAddr = vAddr &&& addrMask with
  | some line =>
    obtain ⟨⟨path, mapping⟩, hMem, rfl⟩ := List.mem_map.mp (List.mem_of_find?_eq_some hFind)
    have hLeaf := mem_leaves.mp hMem
    have hPage : (leafLine (path, mapping)).vAddr = vAddr &&& addrMask := by
      simpa only [decide_eq_true_eq] using List.find?_some hFind
    rw [leafLine_vAddr] at hPage
    rw [← (prefixAddr_eq_iff (length_of_leaf hLeaf) vAddr).mp hPage, hLeaf, leafLine, hPage]
    rfl
  | none =>
    cases hLeaf : F.leaf root (vaPath vAddr) with
    | none => rfl
    | some mapping =>
      have hLine := List.find?_eq_none.mp hFind _ (List.mem_map_of_mem (mem_leaves.mpr hLeaf))
      exact absurd (decide_eq_true (prefixAddr_vaPath vAddr)) hLine

/--
**The text of a dump tells what is mapped.** In every reachable state and for every root,
with the literals of the function in memory and a console set: `dump_memory_map` sends
a text from which a reader who knows the formats recovers, for every virtual address,
what a walk from the root finds there: nothing, or the physical page, the flags, the
execute-never bits and the access permissions of the descriptor.
-/
theorem dumpMemoryMap_text (hConsole : serialConsole.putc ≠ 0)
    (hReach : Reachable L memStart memSize s) (hRoot : root ∈ s.roots)
    (hLit : ∀ t ∈ mapLiterals, LiteralIn m lit t) :
    ∃ calls text lines, dumpMemoryMap root s.kernel = s.kernel.printed calls ∧
      CallsPrint serialConsole m lit calls text ∧
      (∀ behind, readMemoryMap (text ++ behind) = some (lines, behind)) ∧
      ∀ vAddr, lookupLine lines vAddr =
        (walk s.kernel.mem root vAddr).map (DumpLine.of (vAddr &&& addrMask)) := by
  obtain ⟨F, l, hSound⟩ := reachable_sound hReach
  obtain ⟨title, hTitle, hReadTitle⟩ := title_reads hConsole
    (hLit "--- Memory Map Dump Start ---\n" (by simp [mapLiterals])) (by rw [asciiString_ofList]; rfl)
    (by rw [asciiString_ofList]; rfl)
  obtain ⟨last, hLast, hReadLast⟩ := title_reads hConsole
    (hLit "--- Memory Map Dump End ---\n" (by simp [mapLiterals])) (by rw [asciiString_ofList]; rfl)
    (by rw [asciiString_ofList]; rfl)
  have hEach : ∀ line ∈ (F.leaves root).map leafLine,
      ∃ text, CallsPrint serialConsole m lit line.calls text ∧
        ∀ rest, Reads lineReader text rest (id line) :=
    fun line _ => dumpLine_reads hConsole hLit line
  obtain ⟨texts, hLines, hReadLines⟩ := callsPrint_flatMap hEach
  rw [List.map_id] at hReadLines
  refine ⟨_, title ++ texts.flatten ++ last, (F.leaves root).map leafLine,
    hSound.dumpMemoryMap_eq hRoot, (hTitle.append hLines).append hLast, fun behind => ?_,
    hSound.lookupLine_eq hRoot⟩
  have hEndLine := hReadLast behind
  have hRows := all_reads (lineReader_end hEndLine) hReadLines
  rw [Reads] at hEndLine hRows
  simp only [readMemoryMap, List.append_assoc]
  rw [hReadTitle]
  simp only [Option.bind_eq_bind, Option.bind_some]
  rw [hRows]
  simp only [Option.bind_some]
  rw [hEndLine]
  rfl

/-- The dump of the small kernel with one read-only page. -/
theorem dumpMemoryMap_text_readOnly :
    let lit := fun t => BitVec.ofNat 64 (0x1000 + literalOffset t mapLiterals)
    ∃ calls text lines,
      dumpMemoryMap smallRoot (smallSystem.map readOnlyRequest).kernel =
          (smallSystem.map readOnlyRequest).kernel.printed calls ∧
        CallsPrint ⟨1, 1⟩ (literalTable 0x1000 mapLiterals) lit calls text ∧
        (∀ behind, readMemoryMap (text ++ behind) = some (lines, behind)) ∧
        ∀ vAddr, lookupLine lines vAddr =
          (walk (smallSystem.map readOnlyRequest).kernel.mem smallRoot vAddr).map
            (DumpLine.of (vAddr &&& addrMask)) :=
  have hRoot : smallRoot ∈ (smallSystem.map readOnlyRequest).roots := by
    rw [System.map_roots]
    exact List.mem_cons_self
  dumpMemoryMap_text (show (Serial.mk 1 1).putc ≠ 0 by decide) readOnlyRequest_reachable hRoot
    fun _ ht => literalTable_literalIn (by decide) (by decide +kernel) (by decide +kernel) ht

end Text

end Kernalite
