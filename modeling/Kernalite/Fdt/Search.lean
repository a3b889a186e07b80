import Kernalite.Fdt.Fdt

/-!
# Kernalite — the search for memory nodes

What the loop of `get_mem` does depends on the library only through the nodes the
search finds, their `reg` properties, and the error that ends it (`visits`).

* `getMemLoop_found` — one round of the loop;
* `getMemLoop_spec` — the loop as a whole: it fails at the first `reg` whose
  length is no multiple of the entry size, and otherwise reads every property and
  returns 0, whatever error ended the search;
* `getMem_root`, `getMem_cells`, `getMem_search` — `get_mem` before the search;
* `getMemLoop_mono`, `getMem_mono` — a larger bound does not change a result.
-/

namespace Kernalite

open Loop

/-- A node the search found, with its `reg` property. -/
structure Visit where
  node : Nat
  reg : Property
  deriving DecidableEq

/-- The first `n` searches from `node` on: the nodes they find, and the error that
ended the search if one did. -/
def Libfdt.visits {σ : Type} (lib : Libfdt σ) (fdt : Nat) : Nat → Int → σ → List Visit × Option FdtErr
  | 0, _, _ => ([], none)
  | n + 1, node, st =>
    match lib.nodeOffsetByPropValue fdt node "device_type" "memory" 7 st with
    | (.error e, _) => ([], some e)
    | (.ok found, st) =>
      let (reg, st) := lib.getprop fdt found "reg" st
      let (rest, ended) := lib.visits fdt n found st
      (⟨found, reg⟩ :: rest, ended)

/-- Bytes of an entry. -/
def entrySize (addressCell sizeCell : Int) : Nat := (addressCell + sizeCell).toNat * 4

/-- The property is absent or a sequence of whole entries. -/
def Property.WellSized (addressCell sizeCell : Int) : Property → Prop
  | .ok bytes => entrySize addressCell sizeCell ∣ bytes.length
  | .error _ => True

/-- The map after the entries of a property. -/
def Property.store {σ : Type} (lib : Libfdt σ) (addressCell sizeCell : Int) (mmap : MemoryMap) :
    Property → MemoryMap
  | .ok bytes => readEntries lib bytes addressCell.toNat sizeCell.toNat
      (bytes.length / entrySize addressCell sizeCell) 0 mmap
  | .error _ => mmap

variable {σ : Type} {lib : Libfdt σ} {fdt fuel : Nat} {ac sc node : Int} {s : FdtState σ}

-- ---------------------------------------------------------------------------
-- One round
-- ---------------------------------------------------------------------------

theorem visits_ended {e : FdtErr} {st₀ st : σ} (n : Nat)
    (hSearch : lib.nodeOffsetByPropValue fdt node "device_type" "memory" 7 st₀ = (.error e, st)) :
    lib.visits fdt (n + 1) node st₀ = ([], some e) := by
  rw [Libfdt.visits, hSearch]

theorem visits_found {found : Nat} {reg : Property} {st₀ st st' : σ} (n : Nat)
    (hSearch : lib.nodeOffsetByPropValue fdt node "device_type" "memory" 7 st₀ = (.ok found, st))
    (hReg : lib.getprop fdt found "reg" st = (reg, st')) :
    lib.visits fdt (n + 1) node st₀ =
      (⟨found, reg⟩ :: (lib.visits fdt n found st').1, (lib.visits fdt n found st').2) := by
  rw [Libfdt.visits, hSearch]
  simp only [hReg]

/-- A search that fails ends the loop with 0. -/
theorem getMemLoop_ended {e : FdtErr} {st : σ}
    (hSearch : lib.nodeOffsetByPropValue fdt node "device_type" "memory" 7 s.lib = (.error e, st)) :
    getMemLoop lib fdt ac sc (fuel + 1) node s = some (0, { s with lib := st }) := by
  have hNeg : ¬ lib.offsetInt (.error e) ≥ 0 := Int.not_le.mpr (lib.offsetInt_error_neg e)
  rw [getMemLoop, hSearch]
  simp only [hNeg, if_false]

/-- **A node that is found**: a property that is not well sized ends the loop,
otherwise its entries are read and the loop goes on. -/
theorem getMemLoop_found (ac sc : Int) {found : Nat} {reg : Property} {st st' : σ}
    (hSearch : lib.nodeOffsetByPropValue fdt node "device_type" "memory" 7 s.lib = (.ok found, st))
    (hReg : lib.getprop fdt found "reg" st = (reg, st')) :
    (reg.WellSized ac sc → ∀ fuel, getMemLoop lib fdt ac sc (fuel + 1) node s =
      getMemLoop lib fdt ac sc fuel found { s with lib := st', mmap := reg.store lib ac sc s.mmap }) ∧
    (¬ reg.WellSized ac sc → ∃ s', ∀ fuel, getMemLoop lib fdt ac sc (fuel + 1) node s =
      some (-lib.code .badstate, s')) := by
  have hFound : lib.offsetInt (.ok found) ≥ 0 := Int.natCast_nonneg found
  have hReg' : lib.getprop fdt (lib.offsetInt (.ok found)) "reg" st = (reg, st') := hReg
  simp only [getMemLoop, hSearch, hFound, if_true, hReg']
  cases reg with
  | error e => exact ⟨fun _ _ => rfl, fun hNot => absurd trivial hNot⟩
  | ok bytes =>
    have hLen : lib.propLen (.ok bytes) = bytes.length := rfl
    have hSize : (ac + sc).toNat * 4 = entrySize ac sc := rfl
    simp only [Property.ptr, hLen, hSize, Property.WellSized, Property.store, Int.toNat_natCast]
    rcases Nat.eq_zero_or_pos bytes.length with hEmpty | hPos
    · -- an empty property has no entries
      rw [hEmpty, Nat.zero_div]
      exact ⟨fun _ _ => if_pos (Int.le_refl 0), fun hNot => absurd (Nat.dvd_zero _) hNot⟩
    · have hLong : ¬ (bytes.length : Int) ≤ 0 := by omega
      by_cases hDvd : entrySize ac sc ∣ bytes.length
      · have hFits : ¬ (bytes.length < entrySize ac sc ∨ bytes.length % entrySize ac sc ≠ 0) := by
          have hLe := Nat.le_of_dvd hPos hDvd
          have hMod := Nat.mod_eq_zero_of_dvd hDvd
          omega
        exact ⟨fun _ _ => (if_neg hLong).trans (if_neg hFits), fun hNot => absurd hDvd hNot⟩
      · have hBad : bytes.length < entrySize ac sc ∨ bytes.length % entrySize ac sc ≠ 0 :=
          Or.inr fun hMod => hDvd (Nat.dvd_of_mod_eq_zero hMod)
        exact ⟨fun hOk => absurd hOk hDvd,
          fun _ => ⟨_, fun _ => (if_neg hLong).trans (if_pos hBad)⟩⟩

-- ---------------------------------------------------------------------------
-- The loop
-- ---------------------------------------------------------------------------

/-- Entries of a list of properties, read one after the other. -/
def storeAll (lib : Libfdt σ) (ac sc : Int) (visits : List Visit) (mmap : MemoryMap) : MemoryMap :=
  visits.foldl (fun m v => v.reg.store lib ac sc m) mmap

/-- What the loop returns, from the nodes that were visited and the error that
ended the search. -/
structure LoopResult (lib : Libfdt σ) (ac sc : Int) (visits : List Visit) (ended : Option FdtErr)
    (s : FdtState σ) (result : Option (Int × FdtState σ)) : Prop where
  malformed : (∃ v ∈ visits, ¬ v.reg.WellSized ac sc) →
    ∃ s', result = some (-lib.code .badstate, s')
  running   : (∀ v ∈ visits, v.reg.WellSized ac sc) → ended = none → result = none
  done      : (∀ v ∈ visits, v.reg.WellSized ac sc) → ended ≠ none →
    ∃ s', result = some (0, s') ∧ s'.mmap = storeAll lib ac sc visits s.mmap

/-- **The loop as a whole.** -/
theorem getMemLoop_spec (lib : Libfdt σ) (fdt fuel : Nat) (ac sc node : Int) (s : FdtState σ) :
    LoopResult lib ac sc (lib.visits fdt fuel node s.lib).1 (lib.visits fdt fuel node s.lib).2 s
      (getMemLoop lib fdt ac sc fuel node s) := by
  induction fuel generalizing node s with
  | zero =>
    exact ⟨fun ⟨v, hv, _⟩ => absurd hv List.not_mem_nil, fun _ _ => rfl,
      fun _ hEnded => absurd rfl hEnded⟩
  | succ fuel ih =>
    rcases hSearch : lib.nodeOffsetByPropValue fdt node "device_type" "memory" 7 s.lib
      with ⟨_ | found, st⟩
    · rw [visits_ended fuel hSearch, getMemLoop_ended hSearch]
      exact ⟨fun ⟨v, hv, _⟩ => absurd hv List.not_mem_nil, fun _ hNone => absurd hNone (by simp),
        fun _ _ => ⟨_, rfl, rfl⟩⟩
    · rcases hReg : lib.getprop fdt found "reg" st with ⟨reg, st'⟩
      obtain ⟨hRead, hBad⟩ := getMemLoop_found ac sc hSearch hReg
      rw [visits_found fuel hSearch hReg]
      by_cases hSized : reg.WellSized ac sc
      · -- the rest of the loop decides
        rw [hRead hSized fuel]
        have hRest : LoopResult lib ac sc (lib.visits fdt fuel found st').1
            (lib.visits fdt fuel found st').2 _ _ :=
          ih found { s with lib := st', mmap := reg.store lib ac sc s.mmap }
        refine ⟨?_, fun hAll => hRest.running fun v hv => hAll v (List.mem_cons_of_mem _ hv),
          fun hAll => hRest.done fun v hv => hAll v (List.mem_cons_of_mem _ hv)⟩
        rintro ⟨v, hv, hNot⟩
        rcases List.mem_cons.mp hv with rfl | hv
        · exact absurd hSized hNot
        · exact hRest.malformed ⟨v, hv, hNot⟩
      · obtain ⟨s', hEq⟩ := hBad hSized
        exact ⟨fun _ => ⟨s', hEq fuel⟩, fun hAll => absurd (hAll _ List.mem_cons_self) hSized,
          fun hAll => absurd (hAll _ List.mem_cons_self) hSized⟩

/-- A larger bound does not change a result. -/
theorem getMemLoop_mono {fuel' : Nat} {r : Int × FdtState σ} (hLe : fuel ≤ fuel')
    (h : getMemLoop lib fdt ac sc fuel node s = some r) :
    getMemLoop lib fdt ac sc fuel' node s = some r := by
  induction fuel generalizing fuel' node s with
  | zero => exact absurd h (by simp [getMemLoop])
  | succ fuel ih =>
    obtain ⟨fuel', rfl⟩ : ∃ n, fuel' = n + 1 := ⟨fuel' - 1, by omega⟩
    rcases hSearch : lib.nodeOffsetByPropValue fdt node "device_type" "memory" 7 s.lib
      with ⟨_ | found, st⟩
    · rw [getMemLoop_ended hSearch] at h ⊢
      exact h
    · rcases hReg : lib.getprop fdt found "reg" st with ⟨reg, st'⟩
      obtain ⟨hRead, hBad⟩ := getMemLoop_found ac sc hSearch hReg
      by_cases hSized : reg.WellSized ac sc
      · rw [hRead hSized] at h ⊢
        exact ih (by omega) h
      · obtain ⟨s', hEq⟩ := hBad hSized
        rw [hEq] at h ⊢
        exact h

-- ---------------------------------------------------------------------------
-- Before the search
-- ---------------------------------------------------------------------------

/-- What libfdt says about the root node, and its state before the search. -/
structure RootInfo (σ : Type) where
  offset : Offset
  addressCell : Int
  sizeCell : Int
  lib : σ

def Libfdt.rootInfo (lib : Libfdt σ) (fdt : Nat) (st : σ) : RootInfo σ :=
  let (offset, st) := lib.pathOffset fdt "/" st
  let (addressCell, st) := lib.addressCells fdt (lib.offsetInt offset) st
  let (sizeCell, st) := lib.sizeCells fdt (lib.offsetInt offset) st
  ⟨offset, addressCell, sizeCell, st⟩

/-- The cell counts `get_mem` supports. -/
def CellsOk (ac sc : Int) : Prop := 1 ≤ ac ∧ ac ≤ 2 ∧ 1 ≤ sc ∧ sc ≤ 2

instance (ac sc : Int) : Decidable (CellsOk ac sc) := inferInstanceAs (Decidable (_ ∧ _))

/-- The state in which the search starts. -/
def FdtState.searching (s : FdtState σ) (st : σ) : FdtState σ :=
  { s with lib := st, mmap := { s.mmap with count := 0 } }

variable {mmap : Nat}

/-- A tree without a root. -/
theorem getMem_root (hFdt : fdt ≠ 0) (hMmap : mmap ≠ 0) {e : FdtErr}
    (hRoot : (lib.rootInfo fdt s.lib).offset = .error e) :
    ∃ s', ∀ fuel, getMem lib fuel fdt mmap s = some (-lib.code e, s') := by
  simp only [Libfdt.rootInfo] at hRoot
  have hNull : ¬ (fdt = 0 ∨ mmap = 0) := not_or.mpr ⟨hFdt, hMmap⟩
  have hNeg := lib.offsetInt_error_neg e
  exact ⟨_, fun fuel => by simp only [getMem, if_neg hNull, hRoot, if_pos hNeg]; rfl⟩

theorem cellsOk_iff {ac sc : Int} : CellsOk ac sc ↔ ¬ (ac < 1 ∨ ac > 2 ∨ sc < 1 ∨ sc > 2) := by
  unfold CellsOk
  omega

/-- Supported cell counts as natural numbers. -/
theorem CellsOk.toNat_bounds {ac sc : Int} (h : CellsOk ac sc) :
    ac.toNat ≤ 2 ∧ sc.toNat ≤ 2 ∧ 0 < ac.toNat + sc.toNat ∧
      entrySize ac sc = 4 * (ac.toNat + sc.toNat) := by
  unfold CellsOk at h
  unfold entrySize
  omega

/-- Cell counts that are not supported. -/
theorem getMem_cells (hFdt : fdt ≠ 0) (hMmap : mmap ≠ 0) {root : Nat}
    (hRoot : (lib.rootInfo fdt s.lib).offset = .ok root)
    (hCells : ¬ CellsOk (lib.rootInfo fdt s.lib).addressCell (lib.rootInfo fdt s.lib).sizeCell) :
    ∃ s', ∀ fuel, getMem lib fuel fdt mmap s = some (-lib.code .badstate, s') := by
  have hNull : ¬ (fdt = 0 ∨ mmap = 0) := not_or.mpr ⟨hFdt, hMmap⟩
  have hNonneg : ¬ lib.offsetInt (lib.rootInfo fdt s.lib).offset < 0 := by
    rw [hRoot]
    exact Int.not_lt.mpr (Int.natCast_nonneg root)
  rw [cellsOk_iff, not_not] at hCells
  simp only [Libfdt.rootInfo] at hNonneg hCells
  exact ⟨_, fun fuel => by simp only [getMem, if_neg hNull, if_neg hNonneg, if_pos hCells]; rfl⟩

/-- A tree with a root and supported cell counts is searched. -/
theorem getMem_search (hFdt : fdt ≠ 0) (hMmap : mmap ≠ 0) {root : Nat}
    (hRoot : (lib.rootInfo fdt s.lib).offset = .ok root)
    (hCells : CellsOk (lib.rootInfo fdt s.lib).addressCell (lib.rootInfo fdt s.lib).sizeCell)
    (fuel : Nat) :
    getMem lib fuel fdt mmap s =
      getMemLoop lib fdt (lib.rootInfo fdt s.lib).addressCell (lib.rootInfo fdt s.lib).sizeCell
        fuel (-1) (s.searching (lib.rootInfo fdt s.lib).lib) := by
  have hNull : ¬ (fdt = 0 ∨ mmap = 0) := not_or.mpr ⟨hFdt, hMmap⟩
  have hNonneg : ¬ lib.offsetInt (lib.rootInfo fdt s.lib).offset < 0 := by
    rw [hRoot]
    exact Int.not_lt.mpr (Int.natCast_nonneg root)
  rw [cellsOk_iff] at hCells
  simp only [Libfdt.rootInfo] at hNonneg hCells
  simp only [getMem, if_neg hNull, if_neg hNonneg, if_neg hCells]
  rfl

/-- A larger bound does not change the result of `get_mem` either. -/
theorem getMem_mono {fuel' : Nat} {r : Int × FdtState σ} (hLe : fuel ≤ fuel')
    (h : getMem lib fuel fdt mmap s = some r) : getMem lib fuel' fdt mmap s = some r := by
  by_cases hNull : fdt = 0 ∨ mmap = 0
  · rw [getMem, if_pos hNull] at h ⊢
    exact h
  obtain ⟨hFdt, hMmap⟩ := not_or.mp hNull
  rcases hRoot : (lib.rootInfo fdt s.lib).offset with e | root
  · obtain ⟨s', hEq⟩ := getMem_root hFdt hMmap hRoot
    rw [hEq] at h ⊢
    exact h
  by_cases hCells : CellsOk (lib.rootInfo fdt s.lib).addressCell (lib.rootInfo fdt s.lib).sizeCell
  · rw [getMem_search hFdt hMmap hRoot hCells] at h ⊢
    exact getMemLoop_mono hLe h
  · obtain ⟨s', hEq⟩ := getMem_cells hFdt hMmap hRoot hCells
    rw [hEq] at h ⊢
    exact h

-- ---------------------------------------------------------------------------
-- A small tree
-- ---------------------------------------------------------------------------

/-- A tree with two memory nodes, the first with one region of two cells each; the
`reg` of the second is `reg`, and the search ends with `ended`. -/
def twoNodeTree (reg : Property) (ended : FdtErr) : Libfdt Unit where
  code := FdtErr.number
  code_pos := FdtErr.number_pos
  fdt32ToCpu := swapBytes
  fdt32ToCpu_bytes := swapBytes_bytes
  checkHeader := fun _ st => (0, st)
  pathOffset := fun _ _ st => (.ok 0, st)
  addressCells := fun _ _ st => (2, st)
  sizeCells := fun _ _ st => (2, st)
  nodeOffsetByPropValue := fun _ node _ _ _ st =>
    (if node = -1 then .ok 8 else if node = 8 then .ok 64 else .error ended, st)
  getprop := fun _ node _ st =>
    (if node = 8 then .ok [0, 0, 0, 0, 0x40, 0, 0, 0, 0, 0, 0, 0, 0x08, 0, 0, 0] else reg, st)

/-- Before any call. -/
def emptyFdtState : FdtState Unit := ⟨Kernel.coldStart, (), ⟨fun _ => ⟨0, 0⟩, 0⟩⟩

theorem twoNodeTree_visits (reg : Property) (ended : FdtErr) (n : Nat) :
    (twoNodeTree reg ended).visits 0x1000 (n + 3) (-1) () =
      ([⟨8, .ok [0, 0, 0, 0, 0x40, 0, 0, 0, 0, 0, 0, 0, 0x08, 0, 0, 0]⟩, ⟨64, reg⟩],
        some ended) := rfl

end Kernalite
