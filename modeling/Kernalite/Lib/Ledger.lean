import Mathlib.Tactic.Common
import Mathlib.Data.List.Pairwise
import Mathlib.Data.List.Perm.Basic

/-!
# Ownership ledgers

A ledger records who owns which part of an address range: extents that are
live (granted and not given back) and extents that are reserved for good. A
`Ledger` carries the proof that no two live extents overlap and that no live
extent overlaps a reserved one, so an owner never has to be told apart from
another. Granting a free extent, releasing a live one and reserving one keep
this by construction; the three `occupied_*` lemmas say what each does to the
set of owned addresses.
-/

/-- `len` consecutive addresses from `start`. -/
structure Extent where
  start : Nat
  len : Nat
  deriving DecidableEq, Repr

namespace Extent

def Contains (e : Extent) (a : Nat) : Prop := e.start ≤ a ∧ a < e.start + e.len

instance (e : Extent) (a : Nat) : Decidable (e.Contains a) :=
  inferInstanceAs (Decidable (_ ∧ _))

/-- The two extents have no address in common. -/
def Disjoint (e f : Extent) : Prop := ∀ a, e.Contains a → ¬ f.Contains a

theorem Disjoint.symm {e f : Extent} (h : e.Disjoint f) : f.Disjoint e :=
  fun a hf he => h a he hf

/-- A nonempty extent is not disjoint from itself. -/
theorem Disjoint.ne {e f : Extent} (h : e.Disjoint f) (he : 0 < e.len) : e ≠ f := by
  rintro rfl
  have hself : e.Contains e.start := ⟨Nat.le_refl _, by omega⟩
  exact h e.start hself hself

end Extent

/-- Who owns what, with the proof that nothing is owned twice. -/
structure Ledger where
  live : List Extent
  reserved : List Extent
  live_pos      : ∀ e ∈ live, 0 < e.len
  live_disjoint : live.Pairwise Extent.Disjoint
  live_reserved : ∀ e ∈ live, ∀ f ∈ reserved, e.Disjoint f

namespace Ledger

/-- Some live or reserved extent contains the address. -/
def Occupied (l : Ledger) (a : Nat) : Prop :=
  (∃ e ∈ l.live, e.Contains a) ∨ ∃ f ∈ l.reserved, f.Contains a

/-- Distinct live extents are disjoint. -/
theorem disjoint_of_ne (l : Ledger) {e f : Extent} (he : e ∈ l.live) (hf : f ∈ l.live)
    (hne : e ≠ f) : e.Disjoint f :=
  have : Std.Symm Extent.Disjoint := ⟨fun _ _ h => h.symm⟩
  l.live_disjoint.forall he hf hne

/-- The ledger that owns nothing but `reserved`. -/
def ofReserved (reserved : List Extent) : Ledger where
  live := []
  reserved := reserved
  live_pos := by simp
  live_disjoint := List.Pairwise.nil
  live_reserved := by simp

/-- Hand out a free extent. -/
def grant (l : Ledger) (e : Extent) (hPos : 0 < e.len)
    (hFree : ∀ a, e.Contains a → ¬ l.Occupied a) : Ledger where
  live := e :: l.live
  reserved := l.reserved
  live_pos := by
    intro f hf
    rcases List.mem_cons.mp hf with rfl | hf
    · exact hPos
    · exact l.live_pos f hf
  live_disjoint := by
    refine List.pairwise_cons.mpr ⟨fun f hf a hea hfa => ?_, l.live_disjoint⟩
    exact hFree a hea (Or.inl ⟨f, hf, hfa⟩)
  live_reserved := by
    intro f hf g hg
    rcases List.mem_cons.mp hf with rfl | hf
    · exact fun a hea hga => hFree a hea (Or.inr ⟨g, hg, hga⟩)
    · exact l.live_reserved f hf g hg

/-- Give a live extent back. -/
def release (l : Ledger) (e : Extent) : Ledger where
  live := l.live.erase e
  reserved := l.reserved
  live_pos := fun f hf => l.live_pos f (List.mem_of_mem_erase hf)
  live_disjoint := l.live_disjoint.sublist List.erase_sublist
  live_reserved := fun f hf => l.live_reserved f (List.mem_of_mem_erase hf)

/-- Reserve an extent no live extent overlaps. -/
def withhold (l : Ledger) (f : Extent) (hApart : ∀ e ∈ l.live, e.Disjoint f) : Ledger where
  live := l.live
  reserved := f :: l.reserved
  live_pos := l.live_pos
  live_disjoint := l.live_disjoint
  live_reserved := by
    intro e he g hg
    rcases List.mem_cons.mp hg with rfl | hg
    · exact hApart e he
    · exact l.live_reserved e he g hg

/-- The order in which extents became live does not matter. -/
def reorder (l : Ledger) {live : List Extent} (hPerm : live.Perm l.live) : Ledger where
  live := live
  reserved := l.reserved
  live_pos := fun e he => l.live_pos e (hPerm.mem_iff.mp he)
  live_disjoint := (hPerm.pairwise_iff fun h => h.symm).mpr l.live_disjoint
  live_reserved := fun e he => l.live_reserved e (hPerm.mem_iff.mp he)

theorem occupied_grant (l : Ledger) {e : Extent} (hPos : 0 < e.len)
    (hFree : ∀ a, e.Contains a → ¬ l.Occupied a) (a : Nat) :
    (l.grant e hPos hFree).Occupied a ↔ e.Contains a ∨ l.Occupied a := by
  simp only [Occupied, grant, List.exists_mem_cons_iff, or_assoc]

theorem occupied_withhold (l : Ledger) {f : Extent} (hApart : ∀ e ∈ l.live, e.Disjoint f)
    (a : Nat) : (l.withhold f hApart).Occupied a ↔ f.Contains a ∨ l.Occupied a := by
  simp only [Occupied, withhold, List.exists_mem_cons_iff]
  exact or_left_comm

/-- Releasing a live extent frees its addresses and no others. -/
theorem occupied_release (l : Ledger) {e : Extent} (he : e ∈ l.live) (a : Nat) :
    (l.release e).Occupied a ↔ l.Occupied a ∧ ¬ e.Contains a := by
  have hPerm := List.perm_cons_erase he
  have hCons : (e :: l.live.erase e).Pairwise Extent.Disjoint :=
    (hPerm.pairwise_iff fun h => h.symm).mp l.live_disjoint
  have hRest := (List.pairwise_cons.mp hCons).1
  constructor
  · rintro (⟨f, hf, hfa⟩ | ⟨f, hf, hfa⟩)
    · exact ⟨Or.inl ⟨f, List.mem_of_mem_erase hf, hfa⟩, fun hea => hRest f hf a hea hfa⟩
    · exact ⟨Or.inr ⟨f, hf, hfa⟩, fun hea => l.live_reserved e he f hf a hea hfa⟩
  · rintro ⟨⟨f, hf, hfa⟩ | hRes, hea⟩
    · have hne : f ≠ e := fun h => hea (h ▸ hfa)
      exact Or.inl ⟨f, (List.mem_erase_of_ne hne).mpr hf, hfa⟩
    · exact Or.inr hRes

theorem occupied_reorder (l : Ledger) {live : List Extent} (hPerm : live.Perm l.live) (a : Nat) :
    (l.reorder hPerm).Occupied a ↔ l.Occupied a := by
  simp only [Occupied, reorder, hPerm.mem_iff]

end Ledger
