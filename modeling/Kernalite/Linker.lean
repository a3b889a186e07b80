import Mathlib.Tactic.Common
import Mathlib.Algebra.Group.Nat.Defs

/-!
# Kernalite — linker symbols

The C code sees the linked image through the symbols of `scripts/linker.ld`.
`Layout` holds the ones the page allocator and `main` use, with the facts every
run of the script establishes, and `KernelLayout` adds the size the script gives
the bitmap area; `Sections.layout` is the script itself, laying the sections out
one after the other from `0x40000000`.
-/

namespace Kernalite

/-- `PAGE_SIZE` of `page_table.h`. -/
abbrev pageSize : Nat := 4096

/-- The symbols `image_start`, `page_allocator_bit_map_start`,
`page_allocator_bit_map_end` and `image_end`. -/
structure Layout where
  imageStart : Nat
  bitMapStart : Nat
  bitMapEnd : Nat
  imageEnd : Nat
  imageStart_pos     : 0 < imageStart
  imageStart_aligned : imageStart % pageSize = 0
  bitMapStart_ge     : imageStart ≤ bitMapStart
  bitMap_le          : bitMapStart ≤ bitMapEnd
  bitMapEnd_le       : bitMapEnd ≤ imageEnd
  imageEnd_lt        : imageEnd < 2 ^ 64

namespace Layout

theorem bitMapStart_pos (L : Layout) : 0 < L.bitMapStart :=
  Nat.lt_of_lt_of_le L.imageStart_pos L.bitMapStart_ge

theorem bitMapEnd_lt (L : Layout) : L.bitMapEnd < 2 ^ 64 :=
  Nat.lt_of_le_of_lt L.bitMapEnd_le L.imageEnd_lt

end Layout

/-- A layout with the bitmap area `scripts/linker.ld` reserves:
`page_allocator_bit_map_start = .; . += 0x10000; page_allocator_bit_map_end = .;` -/
structure KernelLayout extends Layout where
  bitMap_size : bitMapEnd = bitMapStart + 0x10000

instance : Coe KernelLayout Layout := ⟨KernelLayout.toLayout⟩

/-- `ALIGN(n)` applied to the location counter. -/
def align (n dot : Nat) : Nat := (dot + (n - 1)) / n * n

theorem le_align {n : Nat} (hn : 0 < n) (dot : Nat) : dot ≤ align n dot := by
  have h := Nat.lt_div_mul_add (a := dot + (n - 1)) hn
  unfold align
  omega

theorem align_mod {n : Nat} (dot : Nat) : align n dot % n = 0 := by
  unfold align
  exact Nat.mul_mod_left _ n

/-- The input to the linker script: what the objects contribute to each output
section, in bytes, `bss` counting `*(.bss)` and `*(COMMON)` together. -/
structure Sections where
  header : Nat
  text : Nat
  rodata : Nat
  data : Nat
  bss : Nat

namespace Sections

variable (S : Sections)

/-- `. = 0x40000000; image_start = .;` -/
def imageStart : Nat := 0x40000000

/-- End of `.text`, which follows the boot header. -/
def textEnd : Nat := imageStart + S.header + S.text

/-- `.rodata : ALIGN(8)` -/
def rodataEnd : Nat := align 8 S.textEnd + S.rodata

/-- `.data : ALIGN(8)` -/
def dataEnd : Nat := align 8 S.rodataEnd + S.data

/-- `.bss : ALIGN(16) { __bss_start = .; ...` -/
def bssStart : Nat := align 16 S.dataEnd

/-- `... *(.bss) *(COMMON) . = ALIGN(16); __bss_end = .; }` -/
def bssEnd : Nat := align 16 (S.bssStart + S.bss)

/-- `__bss_size = (__bss_end - __bss_start) >> 3`, a count of doublewords. -/
def bssSize : Nat := (S.bssEnd - S.bssStart) >>> 3

/-- `.data.page_tables : { page_allocator_bit_map_start = .; ...` -/
def bitMapStart : Nat := S.bssEnd

/-- `... . += 0x10000; page_allocator_bit_map_end = .; }` -/
def bitMapEnd : Nat := S.bitMapStart + 0x10000

/-- `.stack (NOLOAD) : ALIGN(16) { . += 0x4000; stack_top = .; }` -/
def stackTop : Nat := align 16 S.bitMapEnd + 0x4000

/-- `image_end = .;` -/
def imageEnd : Nat := S.stackTop

theorem imageStart_le_bssStart : imageStart ≤ S.bssStart := by
  have h1 := le_align (n := 8) (by omega) S.textEnd
  have h2 := le_align (n := 8) (by omega) S.rodataEnd
  have h3 := le_align (n := 16) (by omega) S.dataEnd
  unfold bssStart
  unfold dataEnd rodataEnd textEnd at *
  omega

theorem bssStart_le_bssEnd : S.bssStart ≤ S.bssEnd := by
  have h := le_align (n := 16) (by omega) (S.bssStart + S.bss)
  unfold bssEnd
  omega

theorem bssEnd_lt_stackTop : S.bssEnd + 0x14000 ≤ S.stackTop := by
  have h := le_align (n := 16) (by omega) S.bitMapEnd
  unfold stackTop
  unfold bitMapEnd bitMapStart at *
  omega

/-- `.bss` is a whole number of doublewords, and `__bss_size` counts them. -/
theorem bssSize_mul : 8 * S.bssSize = S.bssEnd - S.bssStart := by
  have h1 : S.bssStart % 16 = 0 := align_mod _
  have h2 : S.bssEnd % 16 = 0 := align_mod _
  have h3 := S.bssStart_le_bssEnd
  unfold bssSize
  rw [Nat.shiftRight_eq_div_pow]
  omega

/-- The symbols the script defines, for an image that ends below `2 ^ 64`. -/
def layout (hFits : S.imageEnd < 2 ^ 64) : KernelLayout where
  imageStart := imageStart
  bitMapStart := S.bitMapStart
  bitMapEnd := S.bitMapEnd
  imageEnd := S.imageEnd
  imageStart_pos := by decide
  imageStart_aligned := by decide
  bitMapStart_ge := by
    have h1 := S.imageStart_le_bssStart
    have h2 := S.bssStart_le_bssEnd
    unfold bitMapStart
    omega
  bitMap_le := by
    unfold bitMapEnd
    omega
  bitMapEnd_le := by
    have h := le_align (n := 16) (by omega) S.bitMapEnd
    unfold imageEnd stackTop
    omega
  imageEnd_lt := hFits
  bitMap_size := rfl

end Sections

/-- A small kernel: one page of code, and 32 bytes of `.bss` for `boot_args`. -/
def smallKernel : Sections := ⟨64, 4096, 0, 0, 32⟩

theorem smallKernel_fits : smallKernel.imageEnd < 2 ^ 64 := by
  decide

/-- The symbols of the small kernel. -/
def smallLayout : KernelLayout := smallKernel.layout smallKernel_fits

end Kernalite
