import Kernalite.Kernel

/-!
# Kernalite — the page allocator

`src/kernel/allocator/page_allocator.c`, function by function, with the boot
reservation of `main.c`. Every function takes the kernel state last and returns
it with its result.
-/

namespace Kernalite

open ByteMemory PackedBits Words Loop

/-- `((uint8_t *)ptr - mem_base) / PAGE_SIZE` as a `size_t`: a signed difference,
a division towards zero, a conversion to unsigned. -/
def pageIndex (ptr memBase : Nat) : Nat :=
  let diff := sub64 ptr memBase
  let ptrdiff : Int := if diff < 2 ^ 63 then diff else (diff : Int) - 2 ^ 64
  (ptrdiff.tdiv pageSize % 2 ^ 64).toNat

def pageInit (L : Layout) (memStart memSize : Nat) (k : Kernel) : Bool × Kernel :=
  let k := k.kprintf "PAGE: Initializing allocator at %p (size: %u bytes)\n"
    [.word memStart, .word memSize]
  -- Align the starting address to a 4KB boundary
  let startAddr := memStart
  let alignedStart := add64 startAddr (pageSize - 1) &&& (2 ^ 64 - pageSize)
  let k :=
    if alignedStart ≠ startAddr then
      k.kprintf "PAGE: Aligned start to 0x%lx (offset: %lu bytes)\n"
        [.word alignedStart, .word (sub64 alignedStart startAddr)]
    else k
  let alignmentShift := sub64 alignedStart startAddr
  if alignmentShift ≥ memSize then
    (false, k.kprintf
      "PAGE ERROR: Alignment shift (%lx bytes) exceeds total memory size (%lx bytes)\n"
      [.word alignmentShift, .word memSize])
  else
    -- Adjust size based on the alignment shift
    let memSize := sub64 memSize alignmentShift
    let k := { k with memBase := alignedStart, totalPages := memSize / pageSize }
    let bitmapSizeBytes := add64 k.totalPages 7 / 8
    let bitmapSize := sub64 L.bitMapEnd L.bitMapStart
    if bitmapSizeBytes > bitmapSize then
      (false, k.kprintf
        "PAGE ERROR: Bitmap size (%u bytes) exceeds available bitmap memory (%u bytes)\n"
        [.word bitmapSizeBytes, .word bitmapSize])
    else
      -- the format asks for a third argument that the call does not pass
      let k := k.kprintf "PAGE: Total pages: %u, Bitmap requires: %u bytes (%u pages)\n"
        [.word k.totalPages, .word bitmapSizeBytes]
      let k := k.kprintf "PAGE: Bit map starts at %lx and ends at %lx\n"
        [.word L.bitMapStart, .word L.bitMapEnd]
      let k := { k with bitmap := L.bitMapStart }
      -- Zero out the bitmap (all pages initially free)
      let k := { k with
        mem := forRange 0 bitmapSizeBytes (fun i m => store8 m (add64 k.bitmap i) 0) k.mem }
      (true, k.kprintf "PAGE: Usable memory starts at 0x%lx\n" [.word k.memBase])

def reservePage (ptr numPages : Nat) (k : Kernel) : Bool × Kernel :=
  if ptr = 0 ∨ k.memBase = 0 ∨ k.totalPages = 0 ∨ k.bitmap = 0 then (false, k)
  else
    let startAddr := ptr
    let endAddr := add64 startAddr (mul64 numPages pageSize)
    let memStart := k.memBase
    let memEnd := add64 memStart (mul64 k.totalPages pageSize)
    if startAddr < memStart ∨ endAddr > memEnd then
      (false, k.kprintf "PAGE ERROR: Attempted to reserve out-of-bounds range %p - %p\n"
        [.word ptr, .word endAddr])
    else
      let startIndex := pageIndex ptr k.memBase
      let k := { k with
        mem := forRange 0 numPages
          (fun i m => setBit k.bitmapByte (add64 startIndex i) m) k.mem }
      (true, k.kprintf "PAGE: Reserved %u pages at %p (index %u)\n"
        [.word numPages, .word ptr, .word startIndex])

/-- The scan of `page_alloc`: `left` rounds from index `i` on. The result is the
`start_index` at which `continuous_found` reached `num_pages`. -/
def pageAllocScan (k : Kernel) (numPages : Nat) : Nat → Nat → Nat → Nat → Option Nat
  | 0, _, _, _ => none
  | left + 1, i, continuousFound, startIndex =>
    let isUsed := k.bit i
    if !isUsed then
      let startIndex := if continuousFound = 0 then i else startIndex
      let continuousFound := continuousFound + 1
      if continuousFound = numPages then some startIndex
      else pageAllocScan k numPages left (i + 1) continuousFound startIndex
    else pageAllocScan k numPages left (i + 1) 0 startIndex

def pageAlloc (numPages : Nat) (k : Kernel) : Nat × Kernel :=
  if numPages = 0 then (0, k)
  else if numPages > k.totalPages then
    (0, k.kprintf "PAGE: Allocation failed. Request (%u) exceeds total capacity (%u)\n"
      [.word numPages, .word k.totalPages])
  else
    match pageAllocScan k numPages k.totalPages 0 0 0 with
    | some startIndex =>
      -- Mark pages as used
      let k := { k with
        mem := forRange startIndex (add64 startIndex numPages) (setBit k.bitmapByte) k.mem }
      let ptr := add64 k.memBase (mul64 startIndex pageSize)
      (ptr, k.kprintf "PAGE: Allocated %u pages at %p\n" [.word numPages, .word ptr])
    | none =>
      (0, k.kprintf "PAGE: Allocation failed. No contiguous block of %u pages found.\n"
        [.word numPages])

def pageFree (ptr numPages : Nat) (k : Kernel) : Kernel :=
  if ptr = 0 then k
  else if ptr < k.memBase ∨ ptr ≥ add64 k.memBase (mul64 k.totalPages pageSize) then
    k.kprintf "PAGE ERROR: Attempted to free out-of-bounds pointer %p\n" [.word ptr]
  else
    let startIndex := pageIndex ptr k.memBase
    let truncated := decide (add64 startIndex numPages > k.totalPages)
    let room := sub64 k.totalPages startIndex
    let k :=
      if truncated then
        k.kprintf "PAGE WARNING: Free range out of bounds. Truncating %u to %u pages\n"
          [.word numPages, .word room]
      else k
    let numPages := if truncated then room else numPages
    let k := k.kprintf "PAGE: Freeing %u pages at %p\n" [.word numPages, .word ptr]
    -- Mark pages as free
    { k with
      mem := forRange startIndex (add64 startIndex numPages) (clearBit k.bitmapByte) k.mem }

/-- One round of the loop of `page_dump_status`, at index `i`; the loop state is
the kernel, `start_idx` and `current_status`. -/
def pageDumpRound (i : Nat) : Kernel × Nat × Bool → Kernel × Nat × Bool
  | (k, startIdx, currentStatus) =>
    let status := if i < k.totalPages then k.bit i else false
    if status ≠ currentStatus ∨ i = k.totalPages then
      let blockStart := add64 k.memBase (mul64 startIdx pageSize)
      let blockEnd := add64 k.memBase (mul64 i pageSize)
      let k := k.kprintf "  [0x%lx - 0x%lx] %s (%u pages)\n"
        [.word blockStart, .word (sub64 blockEnd 1),
          .str (if currentStatus then "USED" else "FREE"), .word (sub64 i startIdx)]
      (k, i, status)
    else (k, startIdx, currentStatus)

def pageDumpStatus (k : Kernel) : Kernel :=
  if k.totalPages = 0 then k.kprintf "Page Allocator: Not initialized\n" []
  else
    let k := k.kprintf "--- Physical Page Dump ---\n" []
    let k := k.kprintf "Managed Range: 0x%lx - 0x%lx (%u pages)\n"
      [.word k.memBase, .word (add64 k.memBase (mul64 k.totalPages pageSize)),
        .word k.totalPages]
    let (k, _, _) := forRange 1 (k.totalPages + 1) pageDumpRound (k, 0, k.bit 0)
    k.kprintf "--- End of Dump ---\n" []

/-- `get_image_size` of `symblos.h`. -/
def getImageSize (L : Layout) : Nat := sub64 L.imageEnd L.imageStart

/-- `num_pages` in `reserve_kerenel_img_pages`. -/
def imagePages (L : Layout) : Nat := sub64 (add64 (getImageSize L) pageSize) 1 / pageSize

/-- `reserve_kerenel_img_pages` of `main.c`. -/
def reserveKerenelImgPages (L : Layout) (k : Kernel) : Bool × Kernel :=
  let imgSize := getImageSize L
  let numPages := imagePages L
  let imgStart := L.imageStart
  let k := k.kprintf "Reserving kernel image pages: start=%p, size=0x%lx bytes, pages=%u\n"
    [.word imgStart, .word imgSize, .word numPages]
  let (ok, k) := reservePage imgStart numPages k
  if !ok then (false, k.kprintf "Failed to reserve kernel image pages. Halting.\n" [])
  else (true, k)

end Kernalite
