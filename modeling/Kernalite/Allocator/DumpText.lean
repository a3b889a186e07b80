import Kernalite.Allocator.DumpStatus
import Kernalite.Utils.Console

/-!
# Kernalite — the printed page map as text

What `page_dump_status` sends to the console can be read back: `readPageDump` takes
the text apart line by line, with the formats of the source, and returns the range,
the number of pages and the bit of each.

* `block_reads` — the line of a block;
* `pageDumpStatus_text` — the text of a dump tells the whole bitmap.
-/

namespace Kernalite

open ByteMemory ByteString Words TextScan RunLength

-- ---------------------------------------------------------------------------
-- Reading a dump
-- ---------------------------------------------------------------------------

/-- The status text of a block. -/
def statusText (used : Bool) : List Byte := asciiString (if used then "USED" else "FREE")

/-- A block from what its line shows. -/
def Block.ofFields : List Field → Option Block
  | [.number first, .number last, .text status, .number pages] =>
    if status = statusText true then some ⟨first.toNat, last.toNat, true, pages.toNat⟩
    else if status = statusText false then some ⟨first.toNat, last.toNat, false, pages.toNat⟩
    else none
  | _ => none

/-- A line of the dump that shows a block. -/
def blockReader : Reader Byte Block := callReader "  [0x%lx - 0x%lx] %s (%u pages)\n" Block.ofFields

/-- The first page, the page behind the last, and the number of pages. -/
def rangeOfFields : List Field → Option (Nat × Nat × Nat)
  | [.number first, .number last, .number pages] => some (first.toNat, last.toNat, pages.toNat)
  | _ => none

/-- What a dump tells. -/
structure PageDump where
  memBase : Nat
  memEnd : Nat
  totalPages : Nat
  bits : List Bool
  deriving DecidableEq, Repr

/-- Reads a dump, and leaves what was printed behind it. -/
def readPageDump : Reader Byte PageDump := fun text => do
  let (_, text) ← callReader "--- Physical Page Dump ---\n" some text
  let ((memBase, memEnd, totalPages), text) ←
    callReader "Managed Range: 0x%lx - 0x%lx (%u pages)\n" rangeOfFields text
  let (blocks, text) ← all blockReader text
  let (_, text) ← callReader "--- End of Dump ---\n" some text
  return (⟨memBase, memEnd, totalPages, blocks.flatMap fun b => List.replicate b.pages b.used⟩, text)

-- ---------------------------------------------------------------------------
-- The formats of the dump
-- ---------------------------------------------------------------------------

theorem blockFormat_conversions :
    conversions (tokenize (asciiString "  [0x%lx - 0x%lx] %s (%u pages)\n")).1 =
      [(.long (ascii 'x'), some (ascii ' ')), (.long (ascii 'x'), some (ascii ']')),
        (.conversion (ascii 's'), some (ascii ' ')), (.conversion (ascii 'u'), some (ascii ' '))] := by
  rw [asciiString_ofList]
  rfl

theorem rangeFormat_conversions :
    conversions (tokenize (asciiString "Managed Range: 0x%lx - 0x%lx (%u pages)\n")).1 =
      [(.long (ascii 'x'), some (ascii ' ')), (.long (ascii 'x'), some (ascii ' ')),
        (.conversion (ascii 'u'), some (ascii ' '))] := by
  rw [asciiString_ofList]
  rfl

/-- The literals of a dump. -/
def dumpLiterals : List String :=
  ["--- Physical Page Dump ---\n", "Managed Range: 0x%lx - 0x%lx (%u pages)\n",
    "  [0x%lx - 0x%lx] %s (%u pages)\n", "USED", "FREE", "--- End of Dump ---\n"]

/-- The last line is not taken for a block. -/
theorem blockReader_end {text : List Byte} {p : List Field × List Byte}
    (h : callReader "--- End of Dump ---\n" some text = some p) : blockReader text = none := by
  have hDash : text.head? = some (ascii '-') :=
    callReader_head h (k := ascii '-') (by rw [asciiString_ofList]; rfl) (by decide)
  cases hBlock : blockReader text with
  | none => rfl
  | some q =>
    have hSpace : text.head? = some (ascii ' ') :=
      callReader_head hBlock (k := ascii ' ') (by rw [asciiString_ofList]; rfl) (by decide)
    rw [hDash] at hSpace
    exact absurd hSpace (by decide)

section Text

variable {L : Layout} {memStart memSize : Nat} {k : Kernel} {serialConsole : Serial} {m : Mem}
  {lit : String → BitVec 64}

/-- **The line of a block** tells the block. -/
theorem block_reads (hConsole : serialConsole.putc ≠ 0) {b : Block} (hCall : CallIn m lit b.call)
    (hFirst : b.first < 2 ^ 64) (hLast : b.last < 2 ^ 64) (hPages : b.pages < 2 ^ 64) :
    ∃ text, CallsPrint serialConsole m lit [b.call] text ∧ ∀ rest, Reads blockReader text rest b := by
  have hSpace : ascii ' ' ∉ statusText b.used := by
    cases b.used
    · rw [statusText, if_neg Bool.false_ne_true, asciiString_ofList]
      decide
    · rw [statusText, if_pos rfl, asciiString_ofList]
      decide
  have hStatus : statusText false ≠ statusText true := by
    rw [statusText, statusText, if_neg Bool.false_ne_true, if_pos rfl, asciiString_ofList,
      asciiString_ofList]
    decide
  have hShow : showFields lit
      (conversions (tokenize (asciiString "  [0x%lx - 0x%lx] %s (%u pages)\n")).1) b.call.2 =
        some [.number b.first, .number b.last, .text (statusText b.used), .number b.pages] := by
    rw [blockFormat_conversions, Block.call, showFields_long hFirst (by decide),
      showFields_long hLast (by decide), showFields_string hSpace,
      showFields_unsigned hPages (by decide)]
    rfl
  refine call_reads hConsole hCall (by rw [asciiString_ofList]; rfl) hShow ?_
  obtain ⟨first, last, _ | _, pages⟩ := b
  · rw [Block.ofFields, if_neg hStatus, if_pos rfl]
    rfl
  · rw [Block.ofFields, if_pos rfl]
    rfl

/-- The line of the range. -/
theorem range_reads (hConsole : serialConsole.putc ≠ 0) {first last pages : Nat}
    (hFormat : LiteralIn m lit "Managed Range: 0x%lx - 0x%lx (%u pages)\n")
    (hFirst : first < 2 ^ 64) (hLast : last < 2 ^ 64) (hPages : pages < 2 ^ 64) :
    ∃ text, CallsPrint serialConsole m lit [("Managed Range: 0x%lx - 0x%lx (%u pages)\n",
        [.word first, .word last, .word pages])] text ∧
      ∀ rest, Reads (callReader "Managed Range: 0x%lx - 0x%lx (%u pages)\n" rangeOfFields) text rest
        (first, last, pages) := by
  have hShow : showFields lit
      (conversions (tokenize (asciiString "Managed Range: 0x%lx - 0x%lx (%u pages)\n")).1)
        [.word first, .word last, .word pages] =
        some [.number first, .number last, .number pages] := by
    rw [rangeFormat_conversions, showFields_long hFirst (by decide),
      showFields_long hLast (by decide), showFields_unsigned hPages (by decide)]
    rfl
  exact call_reads hConsole ⟨hFormat, by simp⟩ (by rw [asciiString_ofList]; rfl) hShow rfl

/-- The blocks of a dump. -/
theorem runBlocks_text (hReady : Ready L k) (hConsole : serialConsole.putc ≠ 0)
    (hLit : ∀ s ∈ dumpLiterals, LiteralIn m lit s) {runs : List (Run Bool)}
    (hExpand : expand runs = pageBits k) :
    ∃ text, CallsPrint serialConsole m lit ((runBlocks k runs).map Block.call) text ∧
      ∀ rest, blockReader rest = none → Reads (all blockReader) text rest (runBlocks k runs) := by
  have hTotal := hReady.total_lt
  have hLength : (expand runs).length = k.totalPages := by
    rw [hExpand, pageBits, List.length_map, List.length_range]
  have hLines : ∀ b ∈ runBlocks k runs, ∃ text, CallsPrint serialConsole m lit [b.call] text ∧
      ∀ rest, Reads blockReader text rest (id b) := by
    intro b hb
    obtain ⟨p, hp, rfl⟩ := List.mem_map.mp hb
    have hEnd : p.1 + p.2.count ≤ k.totalPages := by
      have hPlaced := (placed_mem hp).2.1
      omega
    have hFirst := hReady.pageAddr_lt (Nat.le_trans (Nat.le_add_right _ _) hEnd)
    have hLast := hReady.pageAddr_lt hEnd
    refine block_reads hConsole ⟨hLit _ (by simp [dumpLiterals, Block.call]), fun s hs => ?_⟩ hFirst
      (Nat.lt_of_le_of_lt (Nat.sub_le _ 1) hLast) ?_
    · refine hLit s ?_
      simp only [Block.call, List.mem_cons, List.not_mem_nil, reduceCtorEq, false_or, or_false,
        Arg.str.injEq] at hs
      rw [hs]
      cases (runBlock k p).used <;> simp [dumpLiterals]
    · change p.2.count < 2 ^ 64
      omega
  obtain ⟨texts, hPrints, hReads⟩ := callsPrint_flatMap hLines
  rw [List.map_id] at hReads
  refine ⟨texts.flatten, ?_, fun rest hStop => all_reads hStop hReads⟩
  rwa [← List.map_eq_flatMap] at hPrints

/--
**The text of a dump tells the whole bitmap.** With the static variables of a successful
`page_init` on a region that ends below `2 ^ 64`, for every memory content, and with the
literals of the function in memory and a console set: `page_dump_status` sends a text
from which a reader who knows the formats recovers the range, the number of pages and
the bit of every page, whatever is printed behind it.
-/
theorem pageDumpStatus_text (hConsole : serialConsole.putc ≠ 0) (hInit : AfterInit L memStart memSize k)
    (hEnd : memStart + memSize < 2 ^ 64) (hPages : 0 < k.totalPages)
    (hLit : ∀ s ∈ dumpLiterals, LiteralIn m lit s) :
    ∃ calls text, pageDumpStatus k = k.printed calls ∧
      CallsPrint serialConsole m lit calls text ∧
      ∀ behind, readPageDump (text ++ behind) =
        some (⟨k.memBase, k.memBase + k.totalPages * pageSize, k.totalPages, pageBits k⟩,
          behind) := by
  have hReady := hInit.ready hEnd
  have hTotal := hReady.total_lt
  have hTop := hReady.top_lt
  obtain ⟨runs, hCanonical, hExpand, hDump⟩ := pageDumpStatus_eq hReady hPages
  obtain ⟨title, hTitle, hReadTitle⟩ := title_reads hConsole
    (hLit "--- Physical Page Dump ---\n" (by simp [dumpLiterals])) (by rw [asciiString_ofList]; rfl)
    (by rw [asciiString_ofList]; rfl)
  obtain ⟨range, hRange, hReadRange⟩ := range_reads hConsole
    (hLit "Managed Range: 0x%lx - 0x%lx (%u pages)\n" (by simp [dumpLiterals]))
    (show k.memBase < 2 ^ 64 by omega) hTop
    (show k.totalPages < 2 ^ 64 by omega)
  obtain ⟨last, hLast, hReadLast⟩ := title_reads hConsole
    (hLit "--- End of Dump ---\n" (by simp [dumpLiterals])) (by rw [asciiString_ofList]; rfl) (by rw [asciiString_ofList]; rfl)
  have hRangeEnd : add64 k.memBase (mul64 k.totalPages pageSize) =
      k.memBase + k.totalPages * pageSize := hReady.pageAddr_eq (Nat.le_refl _)
  have hHeader : dumpHeader k = [("--- Physical Page Dump ---\n", [])] ++
      [("Managed Range: 0x%lx - 0x%lx (%u pages)\n", [.word k.memBase,
        .word (k.memBase + k.totalPages * pageSize), .word k.totalPages])] := by
    rw [dumpHeader, hRangeEnd]
    rfl
  -- one text for the blocks, whatever follows the dump
  obtain ⟨blocks, hBlocks, hReadBlocks⟩ := runBlocks_text hReady hConsole hLit hExpand
  refine ⟨_, title ++ range ++ blocks ++ last, hDump, ?_, fun behind => ?_⟩
  · rw [dumpCalls, hHeader]
    exact ((hTitle.append hRange).append hBlocks).append hLast
  · have hEndLine := hReadLast behind
    have hBits : (runBlocks k runs).flatMap (fun b => List.replicate b.pages b.used) = pageBits k :=
      (runBlocks_encodes hCanonical hExpand hPages).expand_eq
    have hRows := hReadBlocks _ (blockReader_end hEndLine)
    rw [Reads] at hEndLine hRows
    simp only [readPageDump, List.append_assoc]
    rw [hReadTitle, Option.bind_eq_bind, Option.bind_some, hReadRange]
    simp only [Option.bind_eq_bind, Option.bind_some]
    rw [hRows]
    simp only [Option.bind_some]
    rw [hEndLine, Option.bind_some, hBits]
    rfl

/-- A pool of sixty-four pages, three of them in use, with a console. -/
theorem pageDumpStatus_text_smallLayout :
    let k := (pageAlloc 3 (pageInit smallLayout 0x40000000 0x40000 Kernel.coldStart).2).2
    let lit := fun t => BitVec.ofNat 64 (0x1000 + literalOffset t dumpLiterals)
    ∃ calls text, pageDumpStatus k = k.printed calls ∧
      CallsPrint ⟨1, 1⟩ (literalTable 0x1000 dumpLiterals) lit calls text ∧
      ∀ behind, readPageDump (text ++ behind) =
        some (⟨k.memBase, k.memBase + k.totalPages * pageSize, k.totalPages, pageBits k⟩, behind) :=
  have hInit : AfterInit smallLayout 0x40000000 0x40000
      (pageInit smallLayout 0x40000000 0x40000 Kernel.coldStart).2 :=
    .of_pageInit (by decide)
  have hAfter := hInit.congr (pageAlloc_static 3 _)
  pageDumpStatus_text (Nat.succ_ne_zero 0) hAfter (by decide) (by decide) fun _ hs =>
    literalTable_literalIn (by decide) (by decide +kernel) (by decide +kernel) hs

end Text

end Kernalite
