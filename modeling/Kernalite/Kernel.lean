import Kernalite.Lib.Words
import Kernalite.Lib.PackedBits
import Kernalite.Linker

/-!
# Kernalite — kernel state

`Kernel` is what the modelled C functions read and write: physical memory, the
three static variables of `page_allocator.c`, and the console, kept as the list
of `kprintf` calls made so far. The allocator's bitmap is not a separate object:
it is the bytes of memory at `bitmap`, as in the source.

Pointers, `uintptr_t` and `size_t` values are naturals below `2 ^ 64`, with the
wrapping operations of `Words`; a null pointer is `0`.
-/

namespace Kernalite

open ByteMemory PackedBits Words

/-- An argument of a `kprintf` call. -/
inductive Arg where
  | word (n : Nat)
  | str (s : String)
  deriving DecidableEq, Repr

structure Kernel where
  mem : Mem
  memBase : Nat
  bitmap : Nat
  totalPages : Nat
  console : List (String × List Arg)

namespace Kernel

/-- Cleared memory, static variables at zero, nothing printed. -/
def coldStart : Kernel := ⟨fun _ => 0, 0, 0, 0, []⟩

/-- `kprintf(format, ...)`. -/
def kprintf (k : Kernel) (format : String) (args : List Arg) : Kernel :=
  { k with console := k.console ++ [(format, args)] }

/-- After further `kprintf` calls. -/
def printed (k : Kernel) (calls : List (String × List Arg)) : Kernel :=
  { k with console := k.console ++ calls }

/-- Address of `bitmap[i / 8]`. -/
def bitmapByte (k : Kernel) (i : Nat) : Nat := add64 k.bitmap (i / 8)

/-- `bitmap[i / 8] & (1 << (i % 8))`. -/
def bit (k : Kernel) (i : Nat) : Bool := getBit k.bitmapByte k.mem i

/-- The pages of the pool that are marked used. -/
def used (k : Kernel) (i : Nat) : Bool := decide (i < k.totalPages) && k.bit i

variable (k : Kernel) (format : String) (args : List Arg)

@[simp] theorem kprintf_memBase : (k.kprintf format args).memBase = k.memBase := rfl
@[simp] theorem kprintf_totalPages : (k.kprintf format args).totalPages = k.totalPages := rfl
@[simp] theorem kprintf_bit (i : Nat) : (k.kprintf format args).bit i = k.bit i := rfl

theorem kprintf_eq : k.kprintf format args = k.printed [(format, args)] := rfl

@[simp] theorem printed_memBase (calls : List (String × List Arg)) :
    (k.printed calls).memBase = k.memBase := rfl
@[simp] theorem printed_totalPages (calls : List (String × List Arg)) :
    (k.printed calls).totalPages = k.totalPages := rfl

@[simp] theorem printed_nil : k.printed [] = k := by
  rw [printed, List.append_nil]

theorem printed_printed (calls calls' : List (String × List Arg)) :
    (k.printed calls).printed calls' = k.printed (calls ++ calls') := by
  simp only [printed, List.append_assoc]

/-- Bit indices below `2 ^ 64` are packed eight to a byte. -/
theorem bitmapByte_packed (k : Kernel) : Packed k.bitmapByte (2 ^ 64) := by
  intro i j hi hj
  exact add64_left_inj (by omega) (by omega)

end Kernel

end Kernalite
