import Kernalite.Allocator.Pool
import Kernalite.Drivers.Uart
import Kernalite.Fdt.Regions

/-!
# Kernalite — `main`

`src/kernel/main.c`, without the internal tests, which are compiled in for test builds
only. The local `mmap` lies at an address `frame`.

* `checkFdt_kernel`, `getMem_kernel` — reading the device tree prints, and leaves the rest
  of the kernel's state alone.
-/

namespace Kernalite

open ByteMemory Loop

/-- What `main` works on: the state of the functions of `fdt.c`, whose map is its local
variable, the console of `kprintf`, and `uart0`. -/
structure Machine (σ : Type) where
  fdt : FdtState σ
  serialConsole : Serial
  uart0 : UartDevice

section Functions

variable {σ : Type}

/-- `print_memory_map(mmap)` -/
def printMemoryMap (mmap : MemoryMap) (k : Kernel) : Kernel :=
  let k := k.kprintf "Memory Map (Total Regions: %d):\n" [.int mmap.count]
  forRange 0 mmap.count (fun i k =>
    k.kprintf "  Region %d: Base = 0x%lx, Size = 0x%lx bytes\n"
      [.int i, .word (mmap.regions i).base.toNat, .word (mmap.regions i).size.toNat]) k

def Machine.kprintf (s : Machine σ) (format : String) : Machine σ :=
  { s with fdt := s.fdt.kprintf format [] }

/-- After a function that works on the kernel's state. -/
def Machine.withKernel (s : Machine σ) (k : Kernel) : Machine σ :=
  { s with fdt := { s.fdt with kernel := k } }

/-- `main` from the call of `page_init` on. -/
def mainAllocator (L : Layout) (s : Machine σ) : Nat × Machine σ :=
  let mmap := s.fdt.mmap
  let s := s.withKernel (printMemoryMap mmap s.fdt.kernel)
  let (pageInitResult, k) :=
    pageInit L (mmap.regions 0).base.toNat (mmap.regions 0).size.toNat s.fdt.kernel
  let s := s.withKernel k
  if !pageInitResult then (1, s.kprintf "Failed to initialize page allocator. Halting.\n")
  else
    let (reserved, k) := reserveKerenelImgPages L s.fdt.kernel
    let s := s.withKernel k
    if !reserved then (1, s.kprintf "Error while reserving kernel binary pages\n")
    else
      let s := s.withKernel (pageDumpStatus s.fdt.kernel)
      (0, s.kprintf "Hello World!\n")

/-- `boot_args_ptr[0]` -/
def bootArg0 (bootArgsPtr : Nat) (s : Machine σ) : Nat := (load64 s.fdt.kernel.mem bootArgsPtr).toNat

/-- `main(boot_args_ptr)` -/
def main (L : Layout) (lib : Libfdt σ) (fns : Functions) (fuel frame bootArgsPtr : Nat)
    (s : Machine σ) : Option (Nat × Machine σ) :=
  let s := { s with uart0 := pl011Init fns uart0Base, serialConsole := mainConsole fns }
  let fdtAddr := bootArg0 bootArgsPtr s
  let (valid, fdt) := checkFdt lib fdtAddr s.fdt
  let s := { s with fdt := fdt }
  if !valid then some (1, s.kprintf "FDT validation failed. Halting.\n")
  else
    (getMem lib fuel fdtAddr frame s.fdt).map fun (ret, fdt) =>
      let s := { s with fdt := fdt }
      if ret < 0 then (1, s.kprintf "Failed to parse memory map from FDT. Halting.\n")
      else if s.fdt.mmap.count ≠ 1 then
        (1, s.kprintf
          "Current implementation only supports a single memory region. Halting.\n")
      else mainAllocator L s

end Functions

-- ---------------------------------------------------------------------------
-- Reading the device tree
-- ---------------------------------------------------------------------------

section Fdt

variable {σ : Type} {lib : Libfdt σ} {fdt mmap fuel : Nat} {node ac sc ret : Int} {s s' : FdtState σ}

/-- `check_fdt` prints. -/
theorem checkFdt_kernel (lib : Libfdt σ) (fdt : Nat) (s : FdtState σ) :
    ∃ calls, (checkFdt lib fdt s).2.kernel = s.kernel.printed calls := by
  rw [checkFdt]
  by_cases hNull : fdt = 0
  · rw [if_pos hNull]
    exact ⟨_, rfl⟩
  · rw [if_neg hNull]
    rcases lib.checkHeader fdt s.lib with ⟨err, st⟩
    simp only
    split_ifs <;> exact ⟨_, rfl⟩

theorem checkFdt_lib (lib : Libfdt σ) (hFdt : fdt ≠ 0) (s : FdtState σ) :
    (checkFdt lib fdt s).2.lib = (lib.checkHeader fdt s.lib).2 := by
  rw [checkFdt, if_neg hFdt]
  rcases lib.checkHeader fdt s.lib with ⟨err, st⟩
  simp only
  split_ifs <;> rfl

theorem getMemLoop_kernel (h : getMemLoop lib fdt ac sc fuel node s = some (ret, s')) {k : Kernel}
    (hKernel : s.kernel = k) :
    ∃ calls, s'.kernel = k.printed calls := by
  induction fuel generalizing node s with
  | zero => cases h
  | succ fuel ih =>
    subst hKernel
    simp only [getMemLoop] at h
    split at h
    · split at h
      · exact ih h rfl
      · split at h
        · exact ih h rfl
        · split at h
          · cases h
            exact ⟨_, rfl⟩
          · exact ih h rfl
    · cases h
      exact ⟨[], s.kernel.printed_nil.symm⟩

/-- `get_mem` prints. -/
theorem getMem_kernel (h : getMem lib fuel fdt mmap s = some (ret, s')) :
    ∃ calls, s'.kernel = s.kernel.printed calls := by
  simp only [getMem] at h
  split_ifs at h
  · cases h
    exact ⟨[], s.kernel.printed_nil.symm⟩
  · cases h
    exact ⟨[], s.kernel.printed_nil.symm⟩
  · cases h
    exact ⟨_, rfl⟩
  · exact getMemLoop_kernel h rfl

end Fdt

end Kernalite
