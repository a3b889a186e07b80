import Mathlib.Algebra.Order.BigOperators.Group.Finset
import Kernalite.Lib.FirstFit
import Kernalite.Lib.RunLength

/-!
# Runs of free places

First fit on a row looks for a run of free places that is long enough.

* `fits_in_run`, `firstFit_of_find`, `not_fits_of_find` — first fit is the first long
  enough free run of the canonical encoding of the row;
* `freeCount_le_of_not_fits` — where no `n` places fit, there are fewer than `n` free
  places for every run of them.
-/

namespace FirstFit

open RunLength

variable {used : Nat → Bool} {total n s : Nat}

-- ---------------------------------------------------------------------------
-- First fit and run-length encodings
-- ---------------------------------------------------------------------------

/-- The row from `i` on shows the values of `used`. -/
def Shows (used : Nat → Bool) (i : Nat) (row : List Bool) : Prop :=
  ∀ j, j < row.length → row[j]? = some (used (i + j))

theorem shows_range (used : Nat → Bool) (total : Nat) :
    Shows used 0 ((List.range total).map used) := by
  intro j hj
  rw [List.length_map, List.length_range] at hj
  rw [List.getElem?_map, List.getElem?_range hj, Nat.zero_add]
  rfl

theorem Shows.right {i : Nat} {xs ys : List Bool} (h : Shows used i (xs ++ ys)) :
    Shows used (i + xs.length) ys := by
  intro j hj
  have hAt := h (xs.length + j) (by rw [List.length_append]; omega)
  rwa [List.getElem?_append_right (Nat.le_add_right _ _), Nat.add_sub_cancel_left,
    ← Nat.add_assoc] at hAt

/-- The places of the first run have its value. -/
theorem Shows.first {i j : Nat} {r : Run Bool} {runs : List (Run Bool)}
    (h : Shows used i (expand (r :: runs))) (hj : j < r.count) : used (i + j) = r.value := by
  have hAt := h j (by rw [length_expand_cons]; omega)
  rw [expand_cons, List.getElem?_append_left (by rwa [List.length_replicate]),
    List.getElem?_replicate_of_lt hj] at hAt
  exact (Option.some.inj hAt).symm

/-- **A window of free places lies inside one run.** -/
theorem fits_in_run {runs : List (Run Bool)} {i : Nat} (hCanonical : Canonical runs)
    (hShows : Shows used i (expand runs)) (hPos : 0 < n) (hLow : i ≤ s)
    (hHigh : s + n ≤ i + (expand runs).length)
    (hFree : ∀ j, s ≤ j → j < s + n → used j = false) :
    ∃ p ∈ placed i runs, p.2.value = false ∧ p.1 ≤ s ∧ s + n ≤ p.1 + p.2.count := by
  induction runs generalizing i with
  | nil =>
    rw [expand_nil, List.length_nil] at hHigh
    omega
  | cons r runs ih =>
    rw [length_expand_cons] at hHigh
    have hTail : Shows used (i + r.count) (expand runs) := by
      have hRight := hShows
      rw [expand_cons] at hRight
      have hRest := hRight.right
      rwa [List.length_replicate] at hRest
    by_cases hHere : s < i + r.count
    · have hValue : r.value = false := by
        have hFirst := hShows.first (j := s - i) (by omega)
        rw [Nat.add_sub_cancel' hLow] at hFirst
        exact hFirst.symm.trans (hFree s (Nat.le_refl s) (by omega))
      refine ⟨(i, r), List.mem_cons_self, hValue, hLow, ?_⟩
      -- the place behind the run would be free, too, but a free run ends before a used place
      by_contra hBeyond
      dsimp only at hBeyond
      have hNext : used (i + r.count) = false := hFree _ (by omega) (by omega)
      have hHead := hTail 0 (by omega)
      rw [Nat.add_zero, hNext, ← hValue, ← List.head?_eq_getElem?] at hHead
      exact hCanonical.head_ne hHead
    · obtain ⟨p, hp, hFound⟩ := ih hCanonical.tail hTail (by omega) (by omega)
      exact ⟨p, List.mem_cons_of_mem _ hp, hFound⟩

/-- Runs are placed in order. -/
theorem placed_sorted (i : Nat) (runs : List (Run Bool)) :
    (placed i runs).Pairwise fun p q => p.1 ≤ q.1 := by
  induction runs generalizing i with
  | nil => exact List.Pairwise.nil
  | cons r runs ih =>
    refine List.pairwise_cons.mpr ⟨fun q hq => ?_, ih (i + r.count)⟩
    have hStart := (placed_mem hq).1
    dsimp only
    omega

/-- A free run of at least `n` places. -/
def freeRun (n : Nat) (p : Nat × Run Bool) : Bool := !p.2.value && decide (n ≤ p.2.count)

theorem freeRun_iff {p : Nat × Run Bool} :
    freeRun n p = true ↔ p.2.value = false ∧ n ≤ p.2.count := by
  rw [freeRun, Bool.and_eq_true, Bool.not_eq_true', decide_eq_true_eq]

section Encoded

variable {runs : List (Run Bool)} (hCanonical : Canonical runs)
  (hExpand : expand runs = (List.range total).map used) (hPos : 0 < n)
include hCanonical hExpand hPos

/-- Where `n` places fit there is a free run around them. -/
theorem fits_exists_run (hFits : Fits used total n s) :
    ∃ p ∈ placed 0 runs, freeRun n p = true ∧ p.1 ≤ s := by
  have hLength : (expand runs).length = total := by
    rw [hExpand, List.length_map, List.length_range]
  obtain ⟨p, hp, hValue, hLow, hHigh⟩ := fits_in_run hCanonical (hExpand ▸ shows_range used total)
    hPos (Nat.zero_le s) (by rw [hLength, Nat.zero_add]; exact hFits.1) hFits.2
  exact ⟨p, hp, freeRun_iff.mpr ⟨hValue, by omega⟩, hLow⟩

/-- **First fit is the start of the first long enough free run.** -/
theorem firstFit_of_find {p : Nat × Run Bool} (hFind : (placed 0 runs).find? (freeRun n) = some p) :
    IsFirstFit used total n p.1 := by
  have hLength : (expand runs).length = total := by
    rw [hExpand, List.length_map, List.length_range]
  obtain ⟨hRun, before, after, hSplit, hBefore⟩ := List.find?_eq_some_iff_append.mp hFind
  obtain ⟨hValue, hLong⟩ := freeRun_iff.mp hRun
  have hMem : p ∈ placed 0 runs := hSplit ▸ List.mem_append_right _ List.mem_cons_self
  obtain ⟨-, hEnd, hShown⟩ := placed_mem hMem
  refine ⟨⟨by omega, fun j hlo hhi => ?_⟩, fun t ht => ?_⟩
  · have hAt := hShown j hlo (by omega)
    rw [hExpand, Nat.sub_zero, List.getElem?_map, List.getElem?_range (by omega)] at hAt
    exact (Option.some.inj hAt).trans hValue
  · obtain ⟨q, hq, hqRun, hLow⟩ := fits_exists_run hCanonical hExpand hPos ht
    have hSorted := placed_sorted 0 runs
    rw [hSplit] at hq hSorted
    rcases List.mem_append.mp hq with hq | hq
    · exact absurd hqRun (by simpa using hBefore q hq)
    · rcases List.mem_cons.mp hq with rfl | hq
      · exact hLow
      · have hLater := (List.pairwise_cons.mp (List.pairwise_append.mp hSorted).2.1).1 q hq
        omega

theorem not_fits_of_find (hFind : (placed 0 runs).find? (freeRun n) = none) :
    ¬ Fits used total n s := by
  intro hFits
  obtain ⟨p, hp, hRun, -⟩ := fits_exists_run hCanonical hExpand hPos hFits
  exact List.find?_eq_none.mp hFind p hp hRun

end Encoded

-- ---------------------------------------------------------------------------
-- Counting
-- ---------------------------------------------------------------------------

/-- The places where a run of free places starts. -/
def runStarts (used : Nat → Bool) (total : Nat) : Finset Nat :=
  (Finset.range total).filter fun i => used i = false ∧ (i = 0 ∨ used (i - 1) = true)

theorem mem_runStarts {i : Nat} :
    i ∈ runStarts used total ↔ i < total ∧ used i = false ∧ (i = 0 ∨ used (i - 1) = true) := by
  rw [runStarts, Finset.mem_filter, Finset.mem_range]

/-- The run that a free place belongs to. -/
theorem exists_runStart {j : Nat} (hj : j < total) (hFree : used j = false) :
    ∃ s ∈ runStarts used total, s ≤ j ∧ ∀ i, s ≤ i → i ≤ j → used i = false := by
  induction j with
  | zero =>
    refine ⟨0, mem_runStarts.mpr ⟨hj, hFree, Or.inl rfl⟩, Nat.le_refl 0, fun i _ hi => ?_⟩
    rwa [Nat.le_zero.mp hi]
  | succ j ih =>
    cases hBefore : used j with
    | true =>
      refine ⟨j + 1, mem_runStarts.mpr ⟨hj, hFree, Or.inr hBefore⟩, Nat.le_refl _,
        fun i hlo hhi => ?_⟩
      rwa [show i = j + 1 by omega]
    | false =>
      obtain ⟨s, hs, hLow, hRun⟩ := ih (by omega) hBefore
      refine ⟨s, hs, by omega, fun i hlo hhi => ?_⟩
      rcases Nat.eq_or_lt_of_le hhi with rfl | hLess
      · exact hFree
      · exact hRun i hlo (by omega)

/-- **Where `n` places do not fit**, every run has fewer than `n` free places. -/
theorem freeCount_le_of_not_fits (h : ∀ s, ¬ Fits used total n s) :
    freeCount used total ≤ (runStarts used total).card * (n - 1) := by
  refine (Finset.card_le_card (t := (runStarts used total).biUnion
    fun s => Finset.Ico s (s + (n - 1))) ?_).trans (Finset.card_biUnion_le_card_mul _ _ _ ?_)
  · intro j hj
    obtain ⟨hLess, hFree⟩ := Finset.mem_filter.mp hj
    have hTotal := Finset.mem_range.mp hLess
    obtain ⟨s, hs, hLow, hRun⟩ := exists_runStart hTotal hFree
    refine Finset.mem_biUnion.mpr ⟨s, hs, Finset.mem_Ico.mpr ⟨hLow, ?_⟩⟩
    by_contra hBeyond
    exact h s ⟨by omega, fun i hlo hhi => hRun i hlo (by omega)⟩
  · intro s _
    rw [Nat.card_Ico, Nat.add_sub_cancel_left]

end FirstFit
