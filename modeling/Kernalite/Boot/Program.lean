import Kernalite.Lib.A64
import Kernalite.Linker

/-!
# Kernalite — the boot path

`src/boot/boot.s` from `primary_entry` to `dcache_inval_poc`, and
`install_vectors` of `vector.s`, line by line. Macros are definitions that
produce their lines; numeric labels get a name for each use. `BootImage` is what
linking adds: the sections of `linker.ld`, where `boot_args` lies in `.bss`, and
where the instructions are placed. The image runs at its link address, so
`adrp`/`add` and `ldr =symbol` yield the same addresses.
-/

namespace Kernalite

open A64

/-- Labels of the listing, and the symbols it uses from elsewhere. -/
inductive BootSym where
  | primaryEntry
  | clearBss
  | jumpMain
  | halt
  | setupSctlrEl1
  | assertEqHalt
  | assertEqHolds
  | dcacheInvalPoc
  | dcacheInvalPoc1
  | dcacheInvalPoc2
  | dcacheInvalPoc3
  | installVectors
  | vectorTable
  | emergencyStackTop
  | bootArgs
  | stackTop
  | bssStart
  | bssSize
  | main
  | exit
  | panicPrintC
  deriving DecidableEq, Repr

abbrev Listing := List (Line BootSym)

/-- General register `n`. -/
abbrev xr (n : Fin 31) : Reg := .x n

-- ---------------------------------------------------------------------------
-- Macros
-- ---------------------------------------------------------------------------

/-- `adr_l dst, sym` -/
def adrL (dst : Reg) (sym : BootSym) : Listing :=
  [.instr (.adrp dst sym), .instr (.addLo12 dst dst sym)]

/-- `read_ctr reg` -/
def readCtr (reg : Reg) : Listing :=
  [.instr (.mrs reg .ctrEl0), .instr .nop]

/-- `dcache_line_size reg, tmp` -/
def dcacheLineSize (reg tmp : Reg) : Listing :=
  readCtr tmp ++
  ([.instr (.ubfm tmp tmp 16 19),
    .instr (.movImm reg 4),
    .instr (.lsl reg reg tmp)] : Listing)

/-- `EL1_VALUE` -/
def el1Value : BitVec 64 := 0x4

/-- `ERROR_CODE_NOT_EL1` -/
def errorCodeNotEl1 : BitVec 64 := 0x1

/-- `panic_print error_code` -/
def panicPrint (errorCode : BitVec 64) : Listing :=
  [.instr (.mov (xr 20) (xr 30)),
   .instr (.adrp (xr 1) .emergencyStackTop),
   .instr (.addLo12 .sp (xr 1) .emergencyStackTop),
   .instr (.stpPre (xr 29) (xr 20) .sp (-16)),
   .instr (.mov (xr 29) .sp),
   .instr (.ldrImm (xr 0) errorCode),
   .instr (.bl .panicPrintC),
   .instr (.ldpPost (xr 29) (xr 30) .sp 16)]

/-- `assert_eq reg1, reg2, error_code` -/
def assertEq (reg1 reg2 : Reg) (errorCode : BitVec 64) : Listing :=
  ([.instr (.cmp reg1 reg2),
    .instr (.bCond .eq .assertEqHolds)] : Listing) ++
  panicPrint errorCode ++
  ([.label .assertEqHalt,
    .instr .wfe,
    .instr (.b .assertEqHalt),
    .label .assertEqHolds,
    .instr .nop] : Listing)

-- ---------------------------------------------------------------------------
-- The listing
-- ---------------------------------------------------------------------------

/-- `primary_entry` -/
def primaryEntry : Listing :=
  ([.label .primaryEntry,
    .instr (.mrs (xr 19) .mpidrEl1),
    .instr (.andImm (xr 19) (xr 19) 0xFF),
    .instr (.cbnz (xr 19) .halt),
    .instr (.mov (xr 21) (xr 0))] : Listing) ++
  adrL (xr 0) .bootArgs ++
  ([.instr (.stp (xr 21) (xr 1) (xr 0) 0),
    .instr (.stp (xr 2) (xr 3) (xr 0) 16),
    .instr .dmbSy,
    .instr (.addImm (xr 1) (xr 0) 0x20),
    .instr (.bl .dcacheInvalPoc),
    .instr (.bl .setupSctlrEl1),
    .instr (.bl .installVectors),
    .instr (.ldrSym (xr 0) .stackTop),
    .instr (.mov .sp (xr 0)),
    .instr (.ldrSym (xr 0) .bssStart),
    .instr (.ldrSym (xr 1) .bssSize),
    .label .clearBss,
    .instr (.cbz (xr 1) .jumpMain),
    .instr (.strPost .zr (xr 0) 8),
    .instr (.subsImm (xr 1) (xr 1) 1),
    .instr (.bCond .ne .clearBss),
    .label .jumpMain] : Listing) ++
  adrL (xr 0) .bootArgs ++
  ([.instr (.bl .main),
    .label .halt,
    .instr (.ldrSym (xr 1) .stackTop),
    .instr (.mov .sp (xr 1)),
    .instr (.bl .exit)] : Listing)

/-- `ldr x0, =1 << bit` and `bic x19, x19, x0` -/
def clearSctlrBit (bit : Nat) : Listing :=
  [.instr (.ldrImm (xr 0) (1 <<< bit)), .instr (.bic (xr 19) (xr 19) (xr 0))]

/-- `ldr x0, =1 << bit` and `orr x19, x19, x0` -/
def setSctlrBit (bit : Nat) : Listing :=
  [.instr (.ldrImm (xr 0) (1 <<< bit)), .instr (.orr (xr 19) (xr 19) (xr 0))]

/-- `setup_sctlr_el1` -/
def setupSctlrEl1 : Listing :=
  ([.label .setupSctlrEl1,
    .instr (.mrs (xr 19) .currentEl),
    .instr (.ldrImm (xr 0) el1Value)] : Listing) ++
  assertEq (xr 19) (xr 0) errorCodeNotEl1 ++
  ([.instr (.mrs (xr 19) .sctlrEl1)] : Listing) ++
  -- MMU off, alignment check on, D-cache off, I-cache on, little endian
  clearSctlrBit 0 ++ setSctlrBit 1 ++ clearSctlrBit 2 ++ setSctlrBit 12 ++ clearSctlrBit 24 ++
  clearSctlrBit 25 ++
  ([.instr (.msr .sctlrEl1 (xr 19)),
    .instr .isb,
    .instr .ret] : Listing)

/-- `dcache_inval_poc` -/
def dcacheInvalPoc : Listing :=
  ([.label .dcacheInvalPoc] : Listing) ++
  dcacheLineSize (xr 2) (xr 3) ++
  ([.instr (.subImm (xr 3) (xr 2) 1),
    .instr (.tst (xr 1) (xr 3)),
    .instr (.bic (xr 1) (xr 1) (xr 3)),
    .instr (.bCond .eq .dcacheInvalPoc1),
    .instr (.dcCivac (xr 1)),
    .label .dcacheInvalPoc1,
    .instr (.tst (xr 0) (xr 3)),
    .instr (.bic (xr 0) (xr 0) (xr 3)),
    .instr (.bCond .eq .dcacheInvalPoc2),
    .instr (.dcCivac (xr 0)),
    .instr (.b .dcacheInvalPoc3),
    .label .dcacheInvalPoc2,
    .instr (.dcIvac (xr 0)),
    .label .dcacheInvalPoc3,
    .instr (.add (xr 0) (xr 0) (xr 2)),
    .instr (.cmp (xr 0) (xr 1)),
    .instr (.bCond .lo .dcacheInvalPoc2),
    .instr .dsbSy,
    .instr .ret] : Listing)

/-- `install_vectors` -/
def installVectors : Listing :=
  [.label .installVectors,
   .instr (.adr (xr 0) .vectorTable),
   .instr (.msr .vbarEl1 (xr 0)),
   .instr .isb,
   .instr .ret]

def bootText : Listing :=
  primaryEntry ++ setupSctlrEl1 ++ dcacheInvalPoc ++ installVectors

-- ---------------------------------------------------------------------------
-- The linked image
-- ---------------------------------------------------------------------------

/-- A linked image: `boot_args` lies in `.bss` as a `uint64_t[4]`, and the
instructions of the listing are placed somewhere in `.text`. -/
structure BootImage where
  sections : Sections
  fits : sections.imageEnd < 2 ^ 64
  bootArgs : Nat
  bootArgs_aligned : bootArgs % 8 = 0
  bootArgs_ge      : sections.bssStart ≤ bootArgs
  bootArgs_end     : bootArgs + 32 ≤ sections.bssEnd
  /-- addresses of the symbols the linker script does not define -/
  other : BootSym → BitVec 64
  place : Nat → BitVec 64
  find : BitVec 64 → Option Nat
  find_place : ∀ i, i < (code bootText).length → find (place i) = some i

namespace BootImage

def addr (I : BootImage) : BootSym → BitVec 64
  | .bootArgs => BitVec.ofNat 64 I.bootArgs
  | .stackTop => BitVec.ofNat 64 I.sections.stackTop
  | .bssStart => BitVec.ofNat 64 I.sections.bssStart
  | .bssSize => BitVec.ofNat 64 I.sections.bssSize
  | s => I.other s

def program (I : BootImage) : Program BootSym where
  text := bootText
  addr := I.addr
  place := I.place
  find := I.find
  find_place := I.find_place

end BootImage

end Kernalite
