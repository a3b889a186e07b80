import Mathlib.Tactic.Common

/-!
# VMSAv8-64 stage 1 translation

What an MMU does with tables in memory, for the 4 KiB granule with four levels
and `WXN = 0`: `translate` follows the descriptors an address selects, and
`Translation.permitsEl1` combines the controls of all four into the accesses EL1
may make. At levels 0 to 2 bits 59 to 62 restrict everything below; at level 3
the access flag is bit 10, AP[2] (read-only) bit 7, PXN bit 53 and UXN bit 54, and
bits 59 to 62 are no permissions.

* `permitsEl1_of_open` — with tables that restrict nothing the page descriptor
  decides.
-/

namespace Vmsa

/-- `bits[1:0] = 0b11`: a table descriptor above level 3, a page descriptor at it. -/
def present (desc : BitVec 64) : Bool := desc.getLsbD 0 && desc.getLsbD 1

/-- Bits [47:12]: the next table, or the page. -/
def outputAddress (desc : BitVec 64) : Nat := (desc &&& 0xFFFFFFFFF000).toNat

/-- The nine bits of an address from bit `n` on. -/
def index (va : BitVec 64) (n : Nat) : Nat := (va.extractLsb' n 9).toNat

/-- Follow table descriptors; the descriptors passed and the table reached. -/
def descend (load : Nat → BitVec 64) (table : Nat) : List Nat → Option (List (BitVec 64) × Nat)
  | [] => some ([], table)
  | i :: rest =>
    if present (load (table + 8 * i)) then
      (descend load (outputAddress (load (table + 8 * i))) rest).map fun (descs, t) =>
        (load (table + 8 * i) :: descs, t)
    else none

/-- The descriptors a translation went through. -/
structure Translation where
  tables : List (BitVec 64)
  page : BitVec 64

/-- The translation of an address to a page, if every level is present. Bits [63:48] of the
address are not looked at: the caller has chosen the table by them. -/
def translate (load : Nat → BitVec 64) (ttbr : Nat) (va : BitVec 64) : Option Translation :=
  (descend load ttbr [index va 39, index va 30, index va 21]).bind fun (descs, level3) =>
    if present (load (level3 + 8 * index va 12)) then
      some ⟨descs, load (level3 + 8 * index va 12)⟩
    else none

inductive Access where
  | read
  | write
  | fetch
  deriving DecidableEq, Repr

namespace Translation

/-- The access flag: clear, it faults unless hardware manages it. -/
def accessible (hwAf : Bool) (t : Translation) : Bool := hwAf || t.page.getLsbD 10

/-- Read-only: AP[2] of the page, or APTable[1] on the way. -/
def readOnly (t : Translation) : Bool := t.page.getLsbD 7 || t.tables.any (·.getLsbD 62)

/-- Privileged execute-never: PXN of the page, or PXNTable on the way. -/
def pxn (t : Translation) : Bool := t.page.getLsbD 53 || t.tables.any (·.getLsbD 59)

/-- What EL1 may do with the page. -/
def permitsEl1 (hwAf : Bool) (t : Translation) : Access → Bool
  | .read => t.accessible hwAf
  | .write => t.accessible hwAf && !t.readOnly
  | .fetch => t.accessible hwAf && !t.pxn

/-- Tables that restrict nothing leave the decision to the page descriptor. -/
theorem permitsEl1_of_open {t : Translation}
    (hOpen : ∀ d ∈ t.tables, d.getLsbD 59 = false ∧ d.getLsbD 62 = false) :
    t.readOnly = t.page.getLsbD 7 ∧ t.pxn = t.page.getLsbD 53 := by
  have hWrite : t.tables.any (·.getLsbD 62) = false :=
    List.any_eq_false.mpr fun d hd => Bool.not_eq_true _ ▸ (hOpen d hd).2
  have hFetch : t.tables.any (·.getLsbD 59) = false :=
    List.any_eq_false.mpr fun d hd => Bool.not_eq_true _ ▸ (hOpen d hd).1
  rw [readOnly, pxn, hWrite, hFetch, Bool.or_false, Bool.or_false]
  exact ⟨rfl, rfl⟩

end Translation

end Vmsa
