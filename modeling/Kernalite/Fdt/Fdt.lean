import Kernalite.Fdt.Libfdt
import Kernalite.Kernel
import Kernalite.Lib.Loop

/-!
# Kernalite — reading the device tree

`src/kernel/fdt/fdt.c`. The search for memory nodes runs until the library ends
it, so `get_mem` takes a bound on the number of searches (`fuel`) and has no
result where the bound is too small.

* `checkFdt_iff` — the check of the header is all that `check_fdt` does.
-/

namespace Kernalite

open Loop

/-- `Memory_region_t` -/
structure MemoryRegion where
  base : BitVec 64
  size : BitVec 64
  deriving DecidableEq, Repr

/-- `MAX_MEM_REGIONS` -/
def maxMemRegions : Nat := 16

/-- `Memory_map_t`. The array is memory from `regions[0]` on, so that a write past
its end would show. -/
structure MemoryMap where
  regions : Nat → MemoryRegion
  count : Nat

/-- `mmap->regions[mmap->count] = r; mmap->count++;` -/
def MemoryMap.push (mmap : MemoryMap) (r : MemoryRegion) : MemoryMap where
  regions := fun j => if j = mmap.count then r else mmap.regions j
  count := mmap.count + 1

/-- What the functions of `fdt.c` work on: the kernel for its console, the state of
libfdt, and the map the caller passes. -/
structure FdtState (σ : Type) where
  kernel : Kernel
  lib : σ
  mmap : MemoryMap

def FdtState.kprintf {σ : Type} (s : FdtState σ) (format : String) (args : List Arg) : FdtState σ :=
  { s with kernel := s.kernel.kprintf format args }

/-- An `int` argument of `kprintf`: the 64-bit slot as a write to the 32-bit register leaves
it, with the upper half clear. -/
def Arg.int (n : Int) : Arg := .word (n % 2 ^ 32).toNat

section Functions

variable {σ : Type} (lib : Libfdt σ)

def checkFdt (ptr : Nat) (s : FdtState σ) : Bool × FdtState σ :=
  if ptr = 0 then (false, s.kprintf "FDT Error: null DTB address\n" [])
  else
    let (err, st) := lib.checkHeader ptr s.lib
    let s := { s with lib := st }
    if err = 0 then (true, s.kprintf "Valid fdt\n" [])
    else if err = -lib.code .badmagic then
      (false, s.kprintf "FDT Error: Bad magic number\n" [])
    else if err = -lib.code .badversion then
      (false, s.kprintf "FDT Error: Unsupported FDT version\n" [])
    else if err = -lib.code .badstate then
      (false, s.kprintf "FDT Error: Bad state\n" [])
    else (false, s.kprintf "FDT Error: Unknown error code %d\n" [.int err])

/-- `reg[n]`, a little-endian word of the property. -/
def regWord (reg : List (BitVec 8)) (n : Nat) : BitVec 32 :=
  reg.getD (4 * n + 3) 0 ++ reg.getD (4 * n + 2) 0 ++ reg.getD (4 * n + 1) 0 ++ reg.getD (4 * n) 0

/-- `for (j = 0; j < cells; j++) value = (value << 32) | fdt32_to_cpu(reg[start + j]);` -/
def readCells (reg : List (BitVec 8)) (start cells : Nat) : BitVec 64 :=
  forRange 0 cells (fun j value => (value <<< 32) ||| (lib.fdt32ToCpu (regWord reg (start + j))).setWidth 64) 0

/-- The loop over the entries of a `reg` property: `left` rounds from entry `i` on. -/
def readEntries (reg : List (BitVec 8)) (addressCell sizeCell : Nat) :
    Nat → Nat → MemoryMap → MemoryMap
  | 0, _, mmap => mmap
  | left + 1, i, mmap =>
    if mmap.count ≥ maxMemRegions then mmap
    else
      let ptr := i * (addressCell + sizeCell)
      let base := readCells lib reg ptr addressCell
      let size := readCells lib reg (ptr + addressCell) sizeCell
      -- Ignore zero-sized regions if they appear in the DT
      let mmap := if size > 0 then mmap.push ⟨base, size⟩ else mmap
      readEntries reg addressCell sizeCell left (i + 1) mmap

/-- The search for memory nodes, from the node last found on. -/
def getMemLoop (fdt : Nat) (addressCell sizeCell : Int) :
    Nat → Int → FdtState σ → Option (Int × FdtState σ)
  | 0, _, _ => none
  | fuel + 1, node, s =>
    let (offset, st) := lib.nodeOffsetByPropValue fdt node "device_type" "memory" 7 s.lib
    let s := { s with lib := st }
    let node := lib.offsetInt offset
    if node ≥ 0 then
      let (prop, st) := lib.getprop fdt node "reg" s.lib
      let s := { s with lib := st }
      let len := lib.propLen prop
      match prop.ptr with
      | none => getMemLoop fdt addressCell sizeCell fuel node s
      | some reg =>
        if len ≤ 0 then getMemLoop fdt addressCell sizeCell fuel node s
        else
          let entrySize := (addressCell + sizeCell).toNat * 4
          if len.toNat < entrySize ∨ len.toNat % entrySize ≠ 0 then
            some (-lib.code .badstate, s.kprintf
              "FDT Error: memory \"reg\" length %d is not a multiple of entry size %zu\n"
              [.int len, .word entrySize])
          else
            let numEntries := len.toNat / entrySize
            let s := { s with
              mmap := readEntries lib reg addressCell.toNat sizeCell.toNat numEntries 0 s.mmap }
            getMemLoop fdt addressCell sizeCell fuel node s
    else some (0, s)

/-- `get_mem(fdt, mmap)`; `s.mmap` is what the pointer `mmap` points to. -/
def getMem (fuel fdt mmap : Nat) (s : FdtState σ) : Option (Int × FdtState σ) :=
  if fdt = 0 ∨ mmap = 0 then some (-lib.code .internal, s)
  else
    let s := { s with mmap := { s.mmap with count := 0 } }
    -- Find the root node to determine address/size cell requirements
    let (offset, st) := lib.pathOffset fdt "/" s.lib
    let root := lib.offsetInt offset
    let s := { s with lib := st }
    if root < 0 then some (root, s)
    else
      let (addressCell, st) := lib.addressCells fdt root s.lib
      let (sizeCell, st) := lib.sizeCells fdt root st
      let s := { s with lib := st }
      if addressCell < 1 ∨ addressCell > 2 ∨ sizeCell < 1 ∨ sizeCell > 2 then
        some (-lib.code .badstate, s.kprintf
          "FDT Error: unsupported address/size cell counts %d/%d\n"
          [.int addressCell, .int sizeCell])
      else getMemLoop lib fdt addressCell sizeCell fuel (-1) s

end Functions

/-- `check_fdt` accepts what `fdt_check_header` accepts. -/
theorem checkFdt_iff {σ : Type} (lib : Libfdt σ) (ptr : Nat) (s : FdtState σ) :
    (checkFdt lib ptr s).1 = true ↔ ptr ≠ 0 ∧ (lib.checkHeader ptr s.lib).1 = 0 := by
  rw [checkFdt]
  by_cases hNull : ptr = 0
  · rw [if_pos hNull]
    exact iff_of_false Bool.false_ne_true fun h => h.1 hNull
  · rw [if_neg hNull]
    rcases lib.checkHeader ptr s.lib with ⟨err, st⟩
    simp only [ne_eq, hNull, not_false_eq_true, true_and]
    by_cases hOk : err = 0
    · simp [hOk]
    · split_ifs <;> simp [hOk]

end Kernalite
