import Mathlib.Tactic.Common
import Mathlib.Data.Finset.Card
import Mathlib.Data.Finset.Range
import Mathlib.Order.Interval.Finset.Nat

/-!
# First fit

A row of `total` places, each free or used (`used : Nat → Bool`). First fit
answers a request for `n` consecutive places with the lowest start that works
(`IsFirstFit`). Repeating single-place requests takes the lowest free places one
by one; `grab used total n` is the row after `n` of them.

* `firstFree_eq_some_iff` — the lowest free place is the first fit of size one;
* `grab_add` — grabbing in two rounds is grabbing at once, so the row after a
  sequence of requests depends only on how many places were asked for;
* `freeCount_grab` — every grab uses up one free place while there is one.
-/

namespace FirstFit

/-- The places `s .. s + n - 1` exist and are all free. -/
def Fits (used : Nat → Bool) (total n s : Nat) : Prop :=
  s + n ≤ total ∧ ∀ j, s ≤ j → j < s + n → used j = false

/-- `s` is the lowest start of `n` consecutive free places. -/
structure IsFirstFit (used : Nat → Bool) (total n s : Nat) : Prop where
  fits  : Fits used total n s
  least : ∀ t, Fits used total n t → s ≤ t

theorem IsFirstFit.unique {used : Nat → Bool} {total n s t : Nat}
    (hs : IsFirstFit used total n s) (ht : IsFirstFit used total n t) : s = t :=
  Nat.le_antisymm (hs.least t ht.fits) (ht.least s hs.fits)

/-- Fitting depends only on the places below `total`. -/
theorem Fits.congr {used used' : Nat → Bool} {total n s : Nat}
    (h : ∀ j, j < total → used' j = used j) (hs : Fits used total n s) :
    Fits used' total n s :=
  ⟨hs.1, fun j hlo hhi => (h j (by have := hs.1; omega)).trans (hs.2 j hlo hhi)⟩

theorem IsFirstFit.congr {used used' : Nat → Bool} {total n s : Nat}
    (h : ∀ j, j < total → used' j = used j) (hs : IsFirstFit used total n s) :
    IsFirstFit used' total n s :=
  ⟨hs.fits.congr h, fun t ht => hs.least t (ht.congr fun j hj => (h j hj).symm)⟩

/-! ## Single places -/

/-- The number of free places. -/
def freeCount (used : Nat → Bool) (total : Nat) : Nat :=
  ((Finset.range total).filter fun i => used i = false).card

/-- The lowest free place. -/
def firstFree (used : Nat → Bool) (total : Nat) : Option Nat :=
  (List.range total).find? fun i => !used i

/-- Mark the place `s` used. -/
def take (used : Nat → Bool) (s : Nat) : Nat → Bool :=
  fun i => decide (i = s) || used i

/-- The row after taking the lowest free place `n` times, as long as there is one. -/
def grab (used : Nat → Bool) (total : Nat) : Nat → Nat → Bool
  | 0 => used
  | n + 1 =>
    match firstFree used total with
    | some s => grab (take used s) total n
    | none => used

theorem firstFree_eq_some_iff {used : Nat → Bool} {total s : Nat} :
    firstFree used total = some s ↔ s < total ∧ used s = false ∧ ∀ j, j < s → used j = true := by
  rw [firstFree, List.find?_range_eq_some]
  simp only [List.mem_range, Bool.not_eq_true', Bool.not_not]
  tauto

theorem firstFree_eq_none_iff {used : Nat → Bool} {total : Nat} :
    firstFree used total = none ↔ ∀ i, i < total → used i = true := by
  simp [firstFree]

/-- The lowest free place is the first fit of one place. -/
theorem firstFree_isFirstFit {used : Nat → Bool} {total s : Nat}
    (h : firstFree used total = some s) : IsFirstFit used total 1 s := by
  obtain ⟨hlt, hfree, hbelow⟩ := firstFree_eq_some_iff.mp h
  refine ⟨⟨by omega, fun j hlo hhi => ?_⟩, fun t ht => ?_⟩
  · rwa [show j = s by omega]
  · by_contra hts
    have hused := hbelow t (by omega)
    rw [ht.2 t (by omega) (by omega)] at hused
    exact Bool.false_ne_true hused

theorem firstFree_of_isFirstFit {used : Nat → Bool} {total s : Nat}
    (h : IsFirstFit used total 1 s) : firstFree used total = some s := by
  cases hf : firstFree used total with
  | some t => rw [(firstFree_isFirstFit hf).unique h]
  | none =>
    have hused := firstFree_eq_none_iff.mp hf s (by have := h.fits.1; omega)
    rw [h.fits.2 s (by omega) (by omega)] at hused
    exact absurd hused Bool.false_ne_true

theorem freeCount_eq_zero_iff {used : Nat → Bool} {total : Nat} :
    freeCount used total = 0 ↔ ∀ i, i < total → used i = true := by
  rw [freeCount, Finset.card_eq_zero, Finset.filter_eq_empty_iff]
  simp

theorem freeCount_take {used : Nat → Bool} {total s : Nat} (hs : s < total)
    (hfree : used s = false) : freeCount (take used s) total + 1 = freeCount used total := by
  have hmem : s ∈ (Finset.range total).filter fun i => used i = false := by simp [hs, hfree]
  rw [freeCount, freeCount, ← Finset.card_erase_add_one hmem]
  congr 2
  ext i
  simp only [take, Finset.mem_filter, Finset.mem_range, Finset.mem_erase, Bool.or_eq_false_iff,
    decide_eq_false_iff_not, ne_eq]
  tauto

/-- Giving back `n` places adds `n` to the free ones. -/
theorem freeCount_release {used used' : Nat → Bool} {total s n : Nat} (hFit : s + n ≤ total)
    (hUsed : ∀ i, s ≤ i → i < s + n → used i = true)
    (hRow : ∀ i, i < total → (used' i = true ↔ used i = true ∧ ¬ (s ≤ i ∧ i < s + n))) :
    freeCount used' total = freeCount used total + n := by
  have hSplit : ((Finset.range total).filter fun i => used' i = false) =
      ((Finset.range total).filter fun i => used i = false) ∪ Finset.Ico s (s + n) := by
    ext i
    simp only [Finset.mem_filter, Finset.mem_range, Finset.mem_union, Finset.mem_Ico]
    by_cases hi : i < total
    · simp only [hi, true_and, ← Bool.not_eq_true, hRow i hi]
      tauto
    · simp only [hi, false_and, false_or, false_iff]
      omega
  have hApart : Disjoint ((Finset.range total).filter fun i => used i = false)
      (Finset.Ico s (s + n)) := by
    rw [Finset.disjoint_left]
    intro i hFree hIn
    rw [Finset.mem_Ico] at hIn
    have hBusy := hUsed i hIn.1 hIn.2
    rw [(Finset.mem_filter.mp hFree).2] at hBusy
    exact Bool.false_ne_true hBusy
  rw [freeCount, hSplit, Finset.card_union_of_disjoint hApart, Nat.card_Ico, freeCount]
  omega

/-! ## Repeated requests -/

theorem grab_of_full {used : Nat → Bool} {total : Nat} (h : firstFree used total = none) (n : Nat) :
    grab used total n = used := by
  cases n with
  | zero => rfl
  | succ n => simp [grab, h]

theorem grab_succ_of_free {used : Nat → Bool} {total s : Nat} (h : firstFree used total = some s)
    (n : Nat) : grab used total (n + 1) = grab (take used s) total n := by
  simp [grab, h]

theorem grab_add (used : Nat → Bool) (total m n : Nat) :
    grab used total (m + n) = grab (grab used total m) total n := by
  induction m generalizing used with
  | zero => rw [Nat.zero_add, grab]
  | succ m ih =>
    cases h : firstFree used total with
    | none => rw [grab_of_full h, grab_of_full h, grab_of_full h]
    | some s =>
      rw [show m + 1 + n = m + n + 1 by omega, grab_succ_of_free h, grab_succ_of_free h, ih]

theorem freeCount_grab (used : Nat → Bool) (total n : Nat) :
    freeCount (grab used total n) total = freeCount used total - n := by
  induction n generalizing used with
  | zero => rfl
  | succ n ih =>
    cases h : firstFree used total with
    | none =>
      rw [grab_of_full h, freeCount_eq_zero_iff.mpr (firstFree_eq_none_iff.mp h), Nat.zero_sub]
    | some s =>
      obtain ⟨hlt, hfree, -⟩ := firstFree_eq_some_iff.mp h
      have hcount := freeCount_take hlt hfree
      rw [grab_succ_of_free h, ih]
      omega

end FirstFit
