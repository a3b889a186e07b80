import Mathlib.Tactic.Common

/-!
# Kernalite — libfdt

The functions of libfdt the kernel calls. The library is not part of the
repository, so it is a parameter: what a call returns may depend on its arguments
and on a state of the library's own, which every call may change. What is fixed is
the form of the results, an offset or property or one of libfdt's error codes, and
what the kernel relies on of the codes and of `fdt32_to_cpu`.
-/

namespace Kernalite

/-- The error codes of libfdt, without their prefix `FDT_ERR_`. -/
inductive FdtErr where
  | notfound | exists | nospace | badoffset | badpath | badphandle | badstate | truncated
  | badmagic | badversion | badstructure | badlayout | internal | badncells | badvalue
  | badoverlay | nophandles | badflags | alignment
  deriving DecidableEq, Repr

/-- A property: its bytes, or why there is none. -/
abbrev Property := Except FdtErr (List (BitVec 8))

/-- An offset, or why there is none. -/
abbrev Offset := Except FdtErr Nat

/-- What `fdt_getprop` returns: `NULL` on error. -/
def Property.ptr : Property → Option (List (BitVec 8))
  | .ok bytes => some bytes
  | .error _ => none

/-- The library, with a state of type `σ`. The codes of the errors are positive, and cells
are stored with the highest byte first. The first argument of every other function is the
address of the tree. -/
structure Libfdt (σ : Type) where
  code : FdtErr → Int
  code_pos : ∀ e, 0 < code e
  fdt32ToCpu : BitVec 32 → BitVec 32
  fdt32ToCpu_bytes : ∀ b₀ b₁ b₂ b₃ : BitVec 8,
    fdt32ToCpu (b₃ ++ b₂ ++ b₁ ++ b₀) = b₀ ++ b₁ ++ b₂ ++ b₃
  checkHeader : Nat → σ → Int × σ
  pathOffset : Nat → String → σ → Offset × σ
  addressCells : Nat → Int → σ → Int × σ
  sizeCells : Nat → Int → σ → Int × σ
  nodeOffsetByPropValue : Nat → Int → String → String → Nat → σ → Offset × σ
  getprop : Nat → Int → String → σ → Property × σ

namespace Libfdt

variable {σ : Type} (lib : Libfdt σ)

/-- An offset as C code receives it: an `int`, negative on error. -/
def offsetInt : Offset → Int
  | .ok offset => offset
  | .error e => -lib.code e

/-- What `fdt_getprop` stores in `*len`. -/
def propLen : Property → Int
  | .ok bytes => bytes.length
  | .error e => -lib.code e

theorem code_ne_zero (e : FdtErr) : -lib.code e ≠ 0 := by
  have hPos := lib.code_pos e
  omega

theorem offsetInt_error_neg (e : FdtErr) : lib.offsetInt (.error e) < 0 := by
  have hPos := lib.code_pos e
  change -lib.code e < 0
  omega

end Libfdt

-- ---------------------------------------------------------------------------
-- Documented values
-- ---------------------------------------------------------------------------

/-- The codes as libfdt numbers them. -/
def FdtErr.number : FdtErr → Int
  | .notfound => 1
  | .exists => 2
  | .nospace => 3
  | .badoffset => 4
  | .badpath => 5
  | .badphandle => 6
  | .badstate => 7
  | .truncated => 8
  | .badmagic => 9
  | .badversion => 10
  | .badstructure => 11
  | .badlayout => 12
  | .internal => 13
  | .badncells => 14
  | .badvalue => 15
  | .badoverlay => 16
  | .nophandles => 17
  | .badflags => 18
  | .alignment => 19

theorem FdtErr.number_pos (e : FdtErr) : 0 < e.number := by
  cases e <;> decide

/-- The bytes of a word in the other order, as `fdt32_to_cpu` does it on this machine. -/
def swapBytes (x : BitVec 32) : BitVec 32 :=
  x.extractLsb' 0 8 ++ x.extractLsb' 8 8 ++ x.extractLsb' 16 8 ++ x.extractLsb' 24 8

theorem swapBytes_bytes (b₀ b₁ b₂ b₃ : BitVec 8) :
    swapBytes (b₃ ++ b₂ ++ b₁ ++ b₀) = b₀ ++ b₁ ++ b₂ ++ b₃ := by
  have h0 : (b₃ ++ b₂ ++ b₁ ++ b₀).extractLsb' 0 8 = b₀ := by
    rw [BitVec.extractLsb'_append_eq_of_add_le (by omega)]
    exact BitVec.extractLsb'_eq_self
  have h1 : (b₃ ++ b₂ ++ b₁ ++ b₀).extractLsb' 8 8 = b₁ := by
    rw [BitVec.extractLsb'_append_eq_of_le (by omega),
      BitVec.extractLsb'_append_eq_of_add_le (by omega)]
    exact BitVec.extractLsb'_eq_self
  have h2 : (b₃ ++ b₂ ++ b₁ ++ b₀).extractLsb' 16 8 = b₂ := by
    rw [BitVec.extractLsb'_append_eq_of_le (by omega),
      BitVec.extractLsb'_append_eq_of_le (by omega),
      BitVec.extractLsb'_append_eq_of_add_le (by omega)]
    exact BitVec.extractLsb'_eq_self
  have h3 : (b₃ ++ b₂ ++ b₁ ++ b₀).extractLsb' 24 8 = b₃ := by
    rw [BitVec.extractLsb'_append_eq_of_le (by omega),
      BitVec.extractLsb'_append_eq_of_le (by omega),
      BitVec.extractLsb'_append_eq_of_le (by omega)]
    exact BitVec.extractLsb'_eq_self
  unfold swapBytes
  exact congrArg₂ (· ++ ·) (congrArg₂ (· ++ ·) (congrArg₂ (· ++ ·) h0 h1) h2) h3

end Kernalite
