import Kernalite.Fdt.Search

/-!
# Kernalite — errors of the search

The header documents a negative error code on failure, but the loop of `get_mem`
ends with 0 on every error of the search, and skips a node whose `reg` cannot be
read for whatever reason.

* `Libfdt.visits_mono` — more searches extend what fewer have found;
* `getMem_ret` — what `get_mem` returns: an error code where it stops before the
  end of the search, and 0 otherwise;
* `getMem_returns` — it returns if it comes to an end;
* `getMem_reportsErrors_iff` — when the result tells whether the tree was read
  without errors.
-/

namespace Kernalite

variable {σ : Type} {lib : Libfdt σ} {fdt mmap fuel : Nat} {st : σ} {s s' : FdtState σ} {ret : Int}

/-- The search ended because there are no more memory nodes, and every `reg` that
could not be read is absent. -/
def SearchClean (lib : Libfdt σ) (fdt : Nat) (st : σ) : Prop :=
  ∃ n, (lib.visits fdt n (-1) (lib.rootInfo fdt st).lib).2 = some .notfound ∧
    ∀ v ∈ (lib.visits fdt n (-1) (lib.rootInfo fdt st).lib).1, ∀ e, v.reg = .error e → e = .notfound

/-- `get_mem` stops before the end of the search: at a null pointer, without a root,
at cell counts it does not support, or at a `reg` of a wrong length. -/
def GetMemRejects (lib : Libfdt σ) (fdt mmap : Nat) (st : σ) : Prop :=
  fdt = 0 ∨ mmap = 0 ∨ (∃ e, (lib.rootInfo fdt st).offset = .error e) ∨
    ¬ CellsOk (lib.rootInfo fdt st).addressCell (lib.rootInfo fdt st).sizeCell ∨
    ∃ n, ∃ v ∈ (lib.visits fdt n (-1) (lib.rootInfo fdt st).lib).1,
      ¬ v.reg.WellSized (lib.rootInfo fdt st).addressCell (lib.rootInfo fdt st).sizeCell

/-- What the header promises of the result: 0 only for a tree read without errors,
an error code of libfdt for every other. -/
structure ReportsErrors (lib : Libfdt σ) (fdt : Nat) (st : σ) (ret : Int) : Prop where
  success : ret = 0 → SearchClean lib fdt st
  failure : ¬ SearchClean lib fdt st → ∃ e : FdtErr, ret = -lib.code e

/-- More searches extend what fewer have found, and change nothing after the end. -/
theorem Libfdt.visits_mono (lib : Libfdt σ) {n m : Nat} (hLe : n ≤ m) (node : Int) (st : σ) :
    (∀ v ∈ (lib.visits fdt n node st).1, v ∈ (lib.visits fdt m node st).1) ∧
      ((lib.visits fdt n node st).2 ≠ none → lib.visits fdt m node st = lib.visits fdt n node st) := by
  induction n generalizing m node st with
  | zero => exact ⟨fun v hv => absurd hv List.not_mem_nil, fun hEnded => absurd rfl hEnded⟩
  | succ n ih =>
    obtain ⟨m, rfl⟩ : ∃ m', m = m' + 1 := ⟨m - 1, by omega⟩
    rcases hSearch : lib.nodeOffsetByPropValue fdt node "device_type" "memory" 7 st
      with ⟨_ | found, st₁⟩
    · rw [visits_ended n hSearch, visits_ended m hSearch]
      exact ⟨fun v hv => hv, fun _ => rfl⟩
    · rcases hReg : lib.getprop fdt found "reg" st₁ with ⟨reg, st₂⟩
      rw [visits_found n hSearch hReg, visits_found m hSearch hReg]
      obtain ⟨hKept, hEnd⟩ := ih (Nat.le_of_succ_le_succ hLe) found st₂
      refine ⟨fun v hv => ?_, fun hEnded => by rw [hEnd hEnded]⟩
      rcases List.mem_cons.mp hv with rfl | hv
      · exact List.mem_cons_self
      · exact List.mem_cons_of_mem _ (hKept v hv)

/-- After the search has ended, no number of searches finds another node. -/
theorem Libfdt.mem_visits_of_ended {n m : Nat} {node : Int} {v : Visit}
    (hEnded : (lib.visits fdt m node st).2 ≠ none) (hv : v ∈ (lib.visits fdt n node st).1) :
    v ∈ (lib.visits fdt m node st).1 := by
  rcases Nat.le_total n m with hLe | hLe
  · exact (lib.visits_mono hLe node st).1 v hv
  · rwa [(lib.visits_mono hLe node st).2 hEnded] at hv

/-- A search ends in one way. -/
theorem Libfdt.ended_unique {n m : Nat} {node : Int} {e e' : FdtErr}
    (h : (lib.visits fdt n node st).2 = some e) (h' : (lib.visits fdt m node st).2 = some e') :
    e = e' := by
  rcases Nat.le_total n m with hLe | hLe
  · have hEnded : (lib.visits fdt n node st).2 ≠ none := by simp [h]
    rw [(lib.visits_mono hLe node st).2 hEnded, h] at h'
    exact Option.some.inj h'
  · have hEnded : (lib.visits fdt m node st).2 ≠ none := by simp [h']
    rw [(lib.visits_mono hLe node st).2 hEnded, h'] at h
    exact (Option.some.inj h).symm

/-- **What `get_mem` returns.** -/
theorem getMem_ret (h : getMem lib fuel fdt mmap s = some (ret, s')) :
    (GetMemRejects lib fdt mmap s.lib ∧ ∃ e : FdtErr, ret = -lib.code e) ∨
      (¬ GetMemRejects lib fdt mmap s.lib ∧ ret = 0 ∧
        (lib.visits fdt fuel (-1) (lib.rootInfo fdt s.lib).lib).2 ≠ none) := by
  by_cases hFdt : fdt = 0
  · rw [getMem, if_pos (Or.inl hFdt)] at h
    cases h
    exact Or.inl ⟨Or.inl hFdt, .internal, rfl⟩
  by_cases hMmap : mmap = 0
  · rw [getMem, if_pos (Or.inr hMmap)] at h
    cases h
    exact Or.inl ⟨Or.inr (Or.inl hMmap), .internal, rfl⟩
  rcases hRoot : (lib.rootInfo fdt s.lib).offset with e | root
  · obtain ⟨_, hEq⟩ := getMem_root hFdt hMmap hRoot
    cases (hEq fuel).symm.trans h
    exact Or.inl ⟨Or.inr (Or.inr (Or.inl ⟨e, hRoot⟩)), e, rfl⟩
  by_cases hCells : CellsOk (lib.rootInfo fdt s.lib).addressCell (lib.rootInfo fdt s.lib).sizeCell
  · rw [getMem_search hFdt hMmap hRoot hCells] at h
    have hLoop := getMemLoop_spec lib fdt fuel (lib.rootInfo fdt s.lib).addressCell
      (lib.rootInfo fdt s.lib).sizeCell (-1) (s.searching (lib.rootInfo fdt s.lib).lib)
    by_cases hBad : ∃ v ∈ (lib.visits fdt fuel (-1) (lib.rootInfo fdt s.lib).lib).1,
        ¬ v.reg.WellSized (lib.rootInfo fdt s.lib).addressCell (lib.rootInfo fdt s.lib).sizeCell
    · obtain ⟨_, hEq⟩ := hLoop.malformed hBad
      cases hEq.symm.trans h
      exact Or.inl ⟨Or.inr (Or.inr (Or.inr (Or.inr ⟨fuel, hBad⟩))), .badstate, rfl⟩
    · have hSized : ∀ v ∈ (lib.visits fdt fuel (-1) (lib.rootInfo fdt s.lib).lib).1,
          v.reg.WellSized (lib.rootInfo fdt s.lib).addressCell (lib.rootInfo fdt s.lib).sizeCell :=
        fun v hv => Classical.byContradiction fun hNot => hBad ⟨v, hv, hNot⟩
      have hEnded : (lib.visits fdt fuel (-1) (lib.rootInfo fdt s.lib).lib).2 ≠ none := by
        intro hNone
        rw [hLoop.running hSized hNone] at h
        exact absurd h (by simp)
      obtain ⟨_, hEq, -⟩ := hLoop.done hSized hEnded
      cases hEq.symm.trans h
      refine Or.inr ⟨?_, rfl, hEnded⟩
      rintro (hNull | hNull | ⟨e, hNone⟩ | hNot | ⟨n, v, hv, hNot⟩)
      · exact hFdt hNull
      · exact hMmap hNull
      · rw [hRoot] at hNone
        cases hNone
      · exact hNot hCells
      · exact hNot (hSized v (Libfdt.mem_visits_of_ended hEnded hv))
  · obtain ⟨_, hEq⟩ := getMem_cells hFdt hMmap hRoot hCells
    cases (hEq fuel).symm.trans h
    exact Or.inl ⟨Or.inr (Or.inr (Or.inr (Or.inl hCells))), .badstate, rfl⟩

/-- `get_mem` comes to an end: it stops before the end of the search, or the search ends. -/
def GetMemEnds (lib : Libfdt σ) (fdt mmap : Nat) (st : σ) : Prop :=
  GetMemRejects lib fdt mmap st ∨
    ∃ n, (lib.visits fdt n (-1) (lib.rootInfo fdt st).lib).2 ≠ none

/-- A loop that has an end returns: with a bound that reaches it there is a result. -/
theorem getMemLoop_returns {ac sc node : Int} {n : Nat}
    (hEnd : (∃ v ∈ (lib.visits fdt n node s.lib).1, ¬ v.reg.WellSized ac sc) ∨
      (lib.visits fdt n node s.lib).2 ≠ none) :
    ∃ r, getMemLoop lib fdt ac sc n node s = some r := by
  have hLoop := getMemLoop_spec lib fdt n ac sc node s
  by_cases hBad : ∃ v ∈ (lib.visits fdt n node s.lib).1, ¬ v.reg.WellSized ac sc
  · obtain ⟨s', hEq⟩ := hLoop.malformed hBad
    exact ⟨_, hEq⟩
  · have hSized : ∀ v ∈ (lib.visits fdt n node s.lib).1, v.reg.WellSized ac sc :=
      fun v hv => Classical.byContradiction fun hNot => hBad ⟨v, hv, hNot⟩
    obtain ⟨s', hEq, -⟩ := hLoop.done hSized (hEnd.resolve_left hBad)
    exact ⟨_, hEq⟩

/-- **`get_mem` returns** if it comes to an end. -/
theorem getMem_returns (h : GetMemEnds lib fdt mmap s.lib) :
    ∃ fuel₀ ret s', ∀ fuel, fuel₀ ≤ fuel → getMem lib fuel fdt mmap s = some (ret, s') := by
  by_cases hNull : fdt = 0 ∨ mmap = 0
  · exact ⟨0, -lib.code .internal, s, fun fuel _ => by rw [getMem, if_pos hNull]⟩
  obtain ⟨hFdt, hMmap⟩ := not_or.mp hNull
  rcases hRoot : (lib.rootInfo fdt s.lib).offset with e | root
  · obtain ⟨s', hEq⟩ := getMem_root hFdt hMmap hRoot
    exact ⟨0, _, s', fun fuel _ => hEq fuel⟩
  by_cases hCells : CellsOk (lib.rootInfo fdt s.lib).addressCell (lib.rootInfo fdt s.lib).sizeCell
  · have hEnd : ∃ n, (∃ v ∈ (lib.visits fdt n (-1) (lib.rootInfo fdt s.lib).lib).1,
        ¬ v.reg.WellSized (lib.rootInfo fdt s.lib).addressCell
          (lib.rootInfo fdt s.lib).sizeCell) ∨
        (lib.visits fdt n (-1) (lib.rootInfo fdt s.lib).lib).2 ≠ none := by
      rcases h with (hZero | hZero | ⟨e, hNone⟩ | hNot | ⟨n, hBad⟩) | ⟨n, hEnded⟩
      · exact absurd hZero hFdt
      · exact absurd hZero hMmap
      · rw [hRoot] at hNone
        cases hNone
      · exact absurd hCells hNot
      · exact ⟨n, Or.inl hBad⟩
      · exact ⟨n, Or.inr hEnded⟩
    obtain ⟨n, hEnd⟩ := hEnd
    obtain ⟨⟨ret, s'⟩, hEq⟩ := getMemLoop_returns
      (s := s.searching (lib.rootInfo fdt s.lib).lib) hEnd
    rw [← getMem_search hFdt hMmap hRoot hCells] at hEq
    exact ⟨n, ret, s', fun fuel hFuel => getMem_mono hFuel hEq⟩
  · obtain ⟨s', hEq⟩ := getMem_cells hFdt hMmap hRoot hCells
    exact ⟨0, _, s', fun fuel _ => hEq fuel⟩

/--
**When errors are reported.** For every libfdt and every state in which `get_mem` comes to an
end: it returns, and the result is 0 for a clean search only and an error code for any other,
if and only if the call stops before the end of the search, or the search is clean.
-/
theorem getMem_reportsErrors_iff (hEnds : GetMemEnds lib fdt mmap s.lib) :
    ∃ fuel₀ ret s', (∀ fuel, fuel₀ ≤ fuel → getMem lib fuel fdt mmap s = some (ret, s')) ∧
      (ReportsErrors lib fdt s.lib ret ↔
        GetMemRejects lib fdt mmap s.lib ∨ SearchClean lib fdt s.lib) := by
  obtain ⟨fuel₀, ret, s', hRun⟩ := getMem_returns hEnds
  refine ⟨fuel₀, ret, s', hRun, ?_⟩
  rcases getMem_ret (hRun fuel₀ le_rfl) with ⟨hRejects, e, rfl⟩ | ⟨hAccepts, rfl, -⟩
  · have hNonzero := lib.code_ne_zero e
    exact iff_of_true ⟨fun hZero => absurd hZero hNonzero, fun _ => ⟨e, rfl⟩⟩ (Or.inl hRejects)
  · constructor
    · exact fun hReports => Or.inr (hReports.success rfl)
    · intro hClean
      have hSearch := hClean.resolve_left hAccepts
      exact ⟨fun _ => hSearch, fun hNot => absurd hSearch hNot⟩

-- ---------------------------------------------------------------------------
-- A damaged tree
-- ---------------------------------------------------------------------------

/-- **A damaged structure block**: the second node's `reg` is truncated and the
search fails. `get_mem` returns 0, with the one region of the first node. -/
theorem getMem_swallows_errors :
    let lib := twoNodeTree (.error .truncated) .badstructure
    (checkFdt lib 0x1000 emptyFdtState).1 = true ∧
      (∃ s', (∀ fuel, 3 ≤ fuel → getMem lib fuel 0x1000 0x2000 emptyFdtState = some (0, s')) ∧
        s'.mmap.count = 1) ∧
      ¬ ReportsErrors lib 0x1000 emptyFdtState.lib 0 := by
  intro lib
  have hRun : getMem (twoNodeTree (.error .truncated) .badstructure) 3 0x1000 0x2000
      emptyFdtState = some (0, _) := rfl
  refine ⟨rfl, ⟨_, fun fuel hFuel => getMem_mono hFuel hRun, rfl⟩, fun hReports => ?_⟩
  obtain ⟨n, hEnd, -⟩ := hReports.success rfl
  have hEnd' := congrArg Prod.snd (twoNodeTree_visits (.error .truncated) .badstructure 0)
  exact absurd (Libfdt.ended_unique hEnd hEnd') (by decide)

/-- The same tree undamaged: `get_mem` returns 0, and rightly so. -/
theorem getMem_reportsErrors_iff_clean :
    let lib := twoNodeTree (.error .notfound) .notfound
    ∃ fuel₀ s', (∀ fuel, fuel₀ ≤ fuel →
        getMem lib fuel 0x1000 0x2000 emptyFdtState = some (0, s')) ∧
      ReportsErrors lib 0x1000 emptyFdtState.lib 0 := by
  intro lib
  have hClean : SearchClean lib 0x1000 emptyFdtState.lib := by
    refine ⟨3, rfl, fun v hv e hError => ?_⟩
    rcases List.mem_cons.mp hv with rfl | hv
    · cases hError
    · rw [List.mem_singleton.mp hv] at hError
      cases hError
      rfl
  have hEnds : GetMemEnds lib 0x1000 0x2000 emptyFdtState.lib := Or.inr ⟨3, by decide⟩
  obtain ⟨fuel₀, ret, s', hRun, hIff⟩ := getMem_reportsErrors_iff (s := emptyFdtState) hEnds
  have hThree : getMem (twoNodeTree (.error .notfound) .notfound) 3 0x1000 0x2000
      emptyFdtState = some (0, _) := rfl
  have hSame := (hRun (max fuel₀ 3) (by omega)).symm.trans (getMem_mono (by omega) hThree)
  obtain rfl : ret = 0 := congrArg (fun r => (r.map Prod.fst).getD 1) hSame
  exact ⟨fuel₀, s', hRun, hIff.mpr (Or.inr hClean)⟩

end Kernalite
