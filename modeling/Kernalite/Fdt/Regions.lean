import Kernalite.Fdt.Search
import Kernalite.Lib.BigEndian

/-!
# Kernalite — the memory map of a tree

What `get_mem` makes of a tree libfdt reads without errors: the regions its `reg`
properties encode, without the empty ones, as far as the map has room.

* `readCells_eq`, `readEntries_listed` — the loops over cells and entries;
* `storeAll_listed` — the entries of all nodes;
* `decodeReg_encodeReg` — encoding regions and decoding them;
* `getMem_decodes` — the result and the map of a whole tree.
-/

namespace Kernalite

open Loop BigEndian

/-- Entry `i` of a `reg` property: two big-endian numbers. -/
def decodeEntry (ac sc : Nat) (reg : List (BitVec 8)) (i : Nat) : MemoryRegion :=
  ⟨BitVec.ofNat 64 (slice reg (i * (4 * (ac + sc))) (4 * ac)),
    BitVec.ofNat 64 (slice reg (i * (4 * (ac + sc)) + 4 * ac) (4 * sc))⟩

/-- The regions of `n` entries from entry `i` on that are not empty. -/
def decodeEntries (ac sc : Nat) (reg : List (BitVec 8)) (i n : Nat) : List MemoryRegion :=
  ((List.range' i n).map (decodeEntry ac sc reg)).filter (·.size ≠ 0)

/-- The regions a `reg` property encodes. -/
def decodeReg (ac sc : Nat) (reg : List (BitVec 8)) : List MemoryRegion :=
  decodeEntries ac sc reg 0 (reg.length / (4 * (ac + sc)))

/-- The regions of a list of nodes, each with its `reg` property if it has one. -/
def decodeNodes (ac sc : Nat) (nodes : List (Nat × Option (List (BitVec 8)))) : List MemoryRegion :=
  nodes.flatMap fun node => (node.2.map (decodeReg ac sc)).getD []

/-- A region as an entry. -/
def encodeEntry (ac sc : Nat) (r : MemoryRegion) : List (BitVec 8) :=
  toBytes (4 * ac) r.base.toNat ++ toBytes (4 * sc) r.size.toNat

/-- Regions as a `reg` property. -/
def encodeReg (ac sc : Nat) (regions : List MemoryRegion) : List (BitVec 8) :=
  regions.flatMap (encodeEntry ac sc)

/-- `regions[0..count)` -/
def MemoryMap.listed (mmap : MemoryMap) : List MemoryRegion :=
  (List.range mmap.count).map mmap.regions

variable {σ : Type} {lib : Libfdt σ} {ac sc : Nat} {reg : List (BitVec 8)} {mmap : MemoryMap}
  {done : List MemoryRegion}

@[simp] theorem MemoryMap.listed_length (mmap : MemoryMap) : mmap.listed.length = mmap.count := by
  rw [MemoryMap.listed, List.length_map, List.length_range]

-- ---------------------------------------------------------------------------
-- Cells
-- ---------------------------------------------------------------------------

/-- Shifting a small number up and putting a cell below it. -/
theorem shift_or_cell {value : BitVec 64} (cell : BitVec 32) (hSmall : value.toNat < 2 ^ 32) :
    ((value <<< 32) ||| cell.setWidth 64).toNat = value.toNat * 2 ^ 32 + cell.toNat := by
  have hCell := cell.isLt
  have hShift : (value <<< 32).toNat = value.toNat <<< 32 := by
    rw [BitVec.toNat_shiftLeft, Nat.shiftLeft_eq, Nat.mod_eq_of_lt (by omega)]
  rw [BitVec.toNat_or, hShift, BitVec.toNat_setWidth, Nat.mod_eq_of_lt (by omega),
    ← Nat.shiftLeft_add_eq_or_of_lt hCell, Nat.shiftLeft_eq]

/-- **The cell loop** reads a big-endian number of up to two cells. -/
theorem readCells_eq {start cells : Nat} (hCells : cells ≤ 2)
    (hFits : 4 * (start + cells) ≤ reg.length) :
    readCells lib reg start cells = BitVec.ofNat 64 (slice reg (4 * start) (4 * cells)) := by
  have hInv : (readCells lib reg start cells).toNat = slice reg (4 * start) (4 * cells) := by
    refine forRange_inv
      (fun j (value : BitVec 64) => value.toNat = slice reg (4 * start) (4 * j)) (Nat.zero_le cells)
      rfl fun j value _ hj ih => ?_
    have hSmall : value.toNat < 2 ^ 32 := by
      have hLt := slice_lt reg (4 * start) (4 * j)
      have hPow : 256 ^ (4 * j) ≤ 256 ^ 4 := Nat.pow_le_pow_right (by omega) (by omega)
      rw [ih]
      exact Nat.lt_of_lt_of_le hLt hPow
    have hCell : (lib.fdt32ToCpu (regWord reg (start + j))).toNat =
        slice reg (4 * start + 4 * j) 4 := by
      rw [← Nat.mul_add, slice_four (by omega), regWord, lib.fdt32ToCpu_bytes]
    rw [shift_or_cell _ hSmall, ih, hCell, Nat.mul_succ, slice_add (by omega),
      show 2 ^ 32 = 256 ^ 4 from rfl]
  rw [← hInv, BitVec.ofNat_toNat, BitVec.setWidth_eq]

-- ---------------------------------------------------------------------------
-- Entries
-- ---------------------------------------------------------------------------

theorem listed_push (mmap : MemoryMap) (r : MemoryRegion) :
    (mmap.push r).listed = mmap.listed ++ [r] := by
  have hLast : (mmap.push r).regions mmap.count = r := if_pos rfl
  rw [MemoryMap.listed, MemoryMap.push, List.range_succ, List.map_append, List.map_singleton]
  refine congrArg₂ (· ++ [·]) (List.map_congr_left fun j hj => if_neg ?_) hLast
  exact Nat.ne_of_lt (List.mem_range.mp hj)

/-- The map lists the regions read so far, as far as it has room. -/
def Listed (mmap : MemoryMap) (done : List MemoryRegion) : Prop :=
  mmap.listed = done.take maxMemRegions

theorem Listed.count_eq (h : Listed mmap done) : mmap.count = min maxMemRegions done.length := by
  rw [← mmap.listed_length, h, List.length_take]

/-- A full map lists whatever is read later. -/
theorem Listed.full (h : Listed mmap done) (hFull : mmap.count ≥ maxMemRegions)
    (more : List MemoryRegion) : Listed mmap (done ++ more) := by
  have hCount := h.count_eq
  rw [Listed, List.take_append_of_le_length (by omega)]
  exact h

/-- A map with room takes one more region. -/
theorem Listed.push (h : Listed mmap done) (hRoom : ¬ mmap.count ≥ maxMemRegions)
    (r : MemoryRegion) : Listed (mmap.push r) (done ++ [r]) := by
  have hCount := h.count_eq
  rw [Listed, listed_push, h, List.take_of_length_le (by omega), List.take_of_length_le]
  rw [List.length_append, List.length_singleton]
  omega

/-- **The entry loop** adds the regions of the entries it reads. -/
theorem readEntries_listed (lib : Libfdt σ) (hAc : ac ≤ 2) (hSc : sc ≤ 2) {left i : Nat}
    (hFits : (i + left) * (4 * (ac + sc)) ≤ reg.length) (h : Listed mmap done) :
    Listed (readEntries lib reg ac sc left i mmap) (done ++ decodeEntries ac sc reg i left) := by
  induction left generalizing i mmap done with
  | zero =>
    rw [readEntries, decodeEntries, List.range'_zero, List.map_nil, List.filter_nil,
      List.append_nil]
    exact h
  | succ left ih =>
    rw [readEntries]
    by_cases hFull : mmap.count ≥ maxMemRegions
    · rw [if_pos hFull]
      exact h.full hFull _
    · have hEntry : i * (4 * (ac + sc)) + 4 * (ac + sc) ≤ reg.length := by
        rw [← Nat.succ_mul]
        exact Nat.le_trans (Nat.mul_le_mul_right _ (by omega)) hFits
      have hCells : 4 * (i * (ac + sc)) = i * (4 * (ac + sc)) := Nat.mul_left_comm _ _ _
      have hRegion : (⟨readCells lib reg (i * (ac + sc)) ac, readCells lib reg (i * (ac + sc) + ac) sc⟩ :
          MemoryRegion) = decodeEntry ac sc reg i := by
        rw [readCells_eq hAc (by omega), readCells_eq hSc (by omega), Nat.mul_add 4, hCells]
        rfl
      have hHead : decodeEntries ac sc reg i (left + 1) =
          [decodeEntry ac sc reg i].filter (·.size ≠ 0) ++ decodeEntries ac sc reg (i + 1) left := by
        rw [decodeEntries, List.range'_succ, List.map_cons, ← List.singleton_append,
          List.filter_append]
        rfl
      have hRest : (i + 1 + left) * (4 * (ac + sc)) ≤ reg.length := by
        rwa [Nat.add_right_comm, Nat.add_assoc]
      rw [if_neg hFull, hHead, ← List.append_assoc]
      refine ih hRest ?_
      have hBase : readCells lib reg (i * (ac + sc)) ac = (decodeEntry ac sc reg i).base :=
        congrArg MemoryRegion.base hRegion
      have hSize : readCells lib reg (i * (ac + sc) + ac) sc = (decodeEntry ac sc reg i).size :=
        congrArg MemoryRegion.size hRegion
      rw [hBase, hSize]
      by_cases hZero : (decodeEntry ac sc reg i).size = 0
      · have hNot : ¬ (decodeEntry ac sc reg i).size > 0 := by rw [hZero]; decide
        rw [if_neg hNot, List.filter_cons_of_neg (by simpa using hZero), List.filter_nil,
          List.append_nil]
        exact h
      · have hPos : (decodeEntry ac sc reg i).size > 0 := (BitVec.pos_iff_ne_zero _).mpr hZero
        rw [if_pos hPos, List.filter_cons_of_pos (by simpa using hZero), List.filter_nil]
        exact h.push hFull _

-- ---------------------------------------------------------------------------
-- Nodes
-- ---------------------------------------------------------------------------

/-- What libfdt returns for a node of a tree it reads without errors. -/
def visitOf (node : Nat × Option (List (BitVec 8))) : Visit :=
  ⟨node.1, node.2.elim (.error .notfound) .ok⟩

/-- The entries of a property that is a sequence of whole entries. -/
theorem store_listed {a b : Int} (hCells : CellsOk a b) (h : Listed mmap done)
    (node : Nat × Option (List (BitVec 8))) :
    Listed ((visitOf node).reg.store lib a b mmap)
      (done ++ (node.2.map (decodeReg a.toNat b.toNat)).getD []) := by
  obtain ⟨offset, _ | reg⟩ := node
  · rw [Option.map_none, Option.getD_none, List.append_nil]
    exact h
  · obtain ⟨hAc, hSc, -, hSize⟩ := hCells.toNat_bounds
    have hFits : (0 + reg.length / (4 * (a.toNat + b.toNat))) * (4 * (a.toNat + b.toNat)) ≤
        reg.length := by
      rw [Nat.zero_add]
      exact Nat.div_mul_le_self _ _
    have hStore := readEntries_listed lib hAc hSc hFits h
    have hEq : (visitOf (offset, some reg)).reg.store lib a b mmap =
        readEntries lib reg a.toNat b.toNat (reg.length / (4 * (a.toNat + b.toNat))) 0 mmap := by
      rw [← hSize]
      rfl
    rw [hEq]
    exact hStore

/-- **The entries of all nodes.** -/
theorem storeAll_listed {a b : Int} (hCells : CellsOk a b) (h : Listed mmap done)
    (nodes : List (Nat × Option (List (BitVec 8)))) :
    Listed (storeAll lib a b (nodes.map visitOf) mmap) (done ++ decodeNodes a.toNat b.toNat nodes) := by
  induction nodes generalizing mmap done with
  | nil => rwa [decodeNodes, List.flatMap_nil, List.append_nil]
  | cons node nodes ih =>
    rw [decodeNodes, List.flatMap_cons, ← List.append_assoc]
    exact ih (store_listed hCells h node)

-- ---------------------------------------------------------------------------
-- Encoding
-- ---------------------------------------------------------------------------

/-- The numbers of the region fit the cells. -/
def MemoryRegion.FitsCells (ac sc : Nat) (r : MemoryRegion) : Prop :=
  r.base.toNat < 256 ^ (4 * ac) ∧ r.size.toNat < 256 ^ (4 * sc)

instance (ac sc : Nat) (r : MemoryRegion) : Decidable (r.FitsCells ac sc) :=
  inferInstanceAs (Decidable (_ ∧ _))

theorem encodeEntry_length (ac sc : Nat) (r : MemoryRegion) :
    (encodeEntry ac sc r).length = 4 * (ac + sc) := by
  rw [encodeEntry, List.length_append, length_toBytes, length_toBytes, Nat.mul_add]

theorem encodeReg_length (ac sc : Nat) (regions : List MemoryRegion) :
    (encodeReg ac sc regions).length = regions.length * (4 * (ac + sc)) := by
  induction regions with
  | nil => rw [encodeReg, List.flatMap_nil, List.length_nil, List.length_nil, Nat.zero_mul]
  | cons r regions ih =>
    rw [encodeReg, List.flatMap_cons, List.length_append, encodeEntry_length, List.length_cons,
      Nat.succ_mul regions.length, Nat.add_comm, ← ih]
    rfl

/-- The first entry. -/
theorem decodeEntry_zero {r : MemoryRegion} (hFits : r.FitsCells ac sc) (rest : List (BitVec 8)) :
    decodeEntry ac sc (encodeEntry ac sc r ++ rest) 0 = r := by
  have hBase : slice (encodeEntry ac sc r ++ rest) 0 (4 * ac) = r.base.toNat := by
    rw [slice_append_left (by rw [encodeEntry_length]; omega), encodeEntry,
      slice_append_left (by rw [length_toBytes]; omega)]
    have hAll := slice_all (toBytes (4 * ac) r.base.toNat)
    rwa [length_toBytes, ofBytes_toBytes hFits.1] at hAll
  have hSize : slice (encodeEntry ac sc r ++ rest) (4 * ac) (4 * sc) = r.size.toNat := by
    rw [slice_append_left (by rw [encodeEntry_length]; omega), encodeEntry]
    have hSkip := slice_append_right (toBytes (4 * ac) r.base.toNat) (toBytes (4 * sc) r.size.toNat)
      0 (4 * sc)
    have hAll := slice_all (toBytes (4 * sc) r.size.toNat)
    rw [length_toBytes, ofBytes_toBytes hFits.2] at hAll
    rw [length_toBytes, Nat.add_zero, hAll] at hSkip
    exact hSkip
  rw [decodeEntry, Nat.zero_mul, Nat.zero_add, hBase, hSize, BitVec.ofNat_toNat, BitVec.ofNat_toNat,
    BitVec.setWidth_eq, BitVec.setWidth_eq]

/-- Past the first entry. -/
theorem decodeEntry_succ (r : MemoryRegion) (rest : List (BitVec 8)) (i : Nat) :
    decodeEntry ac sc (encodeEntry ac sc r ++ rest) (i + 1) = decodeEntry ac sc rest i := by
  have hSkip : ∀ a n, slice (encodeEntry ac sc r ++ rest) (4 * (ac + sc) + a) n = slice rest a n := by
    intro a n
    rw [← encodeEntry_length ac sc r, slice_append_right]
  rw [decodeEntry, decodeEntry, Nat.succ_mul, Nat.add_comm _ (4 * (ac + sc)), hSkip, Nat.add_assoc,
    hSkip]

theorem map_decodeEntry_encodeReg {regions : List MemoryRegion}
    (hFits : ∀ r ∈ regions, r.FitsCells ac sc) :
    (List.range regions.length).map (decodeEntry ac sc (encodeReg ac sc regions)) = regions := by
  induction regions with
  | nil => rfl
  | cons r regions ih =>
    have hRest : (List.range regions.length).map
        (decodeEntry ac sc (encodeReg ac sc (r :: regions)) ∘ Nat.succ) = regions := by
      refine (List.map_congr_left fun i _ => ?_).trans
        (ih fun r hr => hFits r (List.mem_cons_of_mem _ hr))
      exact decodeEntry_succ r _ i
    have hFirst : decodeEntry ac sc (encodeReg ac sc (r :: regions)) 0 = r :=
      decodeEntry_zero (hFits r List.mem_cons_self) _
    rw [List.length_cons, List.range_succ_eq_map, List.map_cons, List.map_map, hFirst, hRest]

/-- **Round trip**: regions that are not empty and fit the cells. -/
theorem decodeReg_encodeReg (hCells : 0 < ac + sc) {regions : List MemoryRegion}
    (hFits : ∀ r ∈ regions, r.FitsCells ac sc ∧ r.size ≠ 0) :
    decodeReg ac sc (encodeReg ac sc regions) = regions := by
  have hCount : (encodeReg ac sc regions).length / (4 * (ac + sc)) = regions.length := by
    rw [encodeReg_length, Nat.mul_div_cancel _ (by omega)]
  rw [decodeReg, hCount, decodeEntries, ← List.range_eq_range',
    map_decodeEntry_encodeReg fun r hr => (hFits r hr).1]
  exact List.filter_eq_self.mpr fun r hr => decide_eq_true (hFits r hr).2

/-- The nodes of an encoded tree. -/
theorem decodeNodes_encodeReg (hCells : 0 < ac + sc) {groups : List (List MemoryRegion)}
    (hFits : ∀ r ∈ groups.flatten, r.FitsCells ac sc ∧ r.size ≠ 0)
    {nodes : List (Nat × Option (List (BitVec 8)))}
    (hNodes : nodes.map Prod.snd = groups.map fun g => some (encodeReg ac sc g)) :
    decodeNodes ac sc nodes = groups.flatten := by
  induction groups generalizing nodes with
  | nil => rw [List.map_eq_nil_iff.mp hNodes]; rfl
  | cons g groups ih =>
    obtain ⟨node, nodes, rfl, hNode, hRest⟩ := List.map_eq_cons_iff.mp hNodes
    have hGroup : ∀ r ∈ g, r.FitsCells ac sc ∧ r.size ≠ 0 := fun r hr =>
      hFits r (List.mem_flatten.mpr ⟨g, List.mem_cons_self, hr⟩)
    rw [decodeNodes, List.flatMap_cons, hNode, Option.map_some, Option.getD_some,
      decodeReg_encodeReg hCells hGroup, List.flatten_cons]
    refine congrArg (g ++ ·) (ih (fun r hr => hFits r ?_) hRest)
    rw [List.flatten_cons]
    exact List.mem_append_right _ hr

-- ---------------------------------------------------------------------------
-- The tree
-- ---------------------------------------------------------------------------

section Tree

variable {fdt mmapPtr : Nat} {a b : Int} {s : FdtState σ}
  {nodes : List (Nat × Option (List (BitVec 8)))}

/-- libfdt reads a tree without errors: it finds the root with `a` address and `b`
size cells, and the memory nodes in order, each with its `reg` if it has one. -/
structure ShowsTree (lib : Libfdt σ) (fdt : Nat) (st : σ) (a b : Int)
    (nodes : List (Nat × Option (List (BitVec 8)))) : Prop where
  fdt_ne       : fdt ≠ 0
  root         : ∃ root, (lib.rootInfo fdt st).offset = .ok root
  address_cell : (lib.rootInfo fdt st).addressCell = a
  size_cell    : (lib.rootInfo fdt st).sizeCell = b
  search       : ∃ n, lib.visits fdt n (-1) (lib.rootInfo fdt st).lib =
    (nodes.map visitOf, some .notfound)

/-- Every `reg` that is not empty is a sequence of whole entries. -/
def RegsWellSized (a b : Int) (nodes : List (Nat × Option (List (BitVec 8)))) : Prop :=
  ∀ node ∈ nodes, ∀ reg, node.2 = some reg → reg ≠ [] → entrySize a b ∣ reg.length

theorem regsWellSized_iff :
    RegsWellSized a b nodes ↔ ∀ v ∈ nodes.map visitOf, v.reg.WellSized a b := by
  rw [List.forall_mem_map]
  refine forall₂_congr fun node _ => ?_
  obtain ⟨offset, _ | reg⟩ := node
  · exact iff_of_true (fun reg hReg => by cases hReg) trivial
  · constructor
    · intro hAll
      rcases Decidable.em (reg = []) with rfl | hSome
      · exact Nat.dvd_zero _
      · exact hAll reg rfl hSome
    · intro hSized other hReg _
      rw [← Option.some.inj hReg]
      exact hSized

/-- The outcome of `get_mem` on a tree. -/
theorem getMem_tree (hTree : ShowsTree lib fdt s.lib a b nodes) (hMmap : mmapPtr ≠ 0) :
    ∃ fuel₀ ret s', (∀ fuel, fuel₀ ≤ fuel → getMem lib fuel fdt mmapPtr s = some (ret, s')) ∧
      (ret = 0 ↔ CellsOk a b ∧ RegsWellSized a b nodes) ∧
      (ret = 0 → Listed s'.mmap (decodeNodes a.toNat b.toNat nodes)) := by
  obtain ⟨root, hRoot⟩ := hTree.root
  obtain ⟨n, hVisits⟩ := hTree.search
  have hBad := lib.code_ne_zero .badstate
  by_cases hCells : CellsOk a b
  · have hCells' : CellsOk (lib.rootInfo fdt s.lib).addressCell (lib.rootInfo fdt s.lib).sizeCell := by
      rwa [hTree.address_cell, hTree.size_cell]
    have hRun := getMem_search hTree.fdt_ne hMmap hRoot hCells'
    rw [hTree.address_cell, hTree.size_cell] at hRun
    have hLoop := getMemLoop_spec lib fdt n a b (-1) (s.searching (lib.rootInfo fdt s.lib).lib)
    rw [show (s.searching (lib.rootInfo fdt s.lib).lib).lib = (lib.rootInfo fdt s.lib).lib from rfl,
      hVisits] at hLoop
    by_cases hSized : RegsWellSized a b nodes
    · obtain ⟨s', hEq, hMap⟩ := hLoop.done (regsWellSized_iff.mp hSized) (by simp)
      refine ⟨n, 0, s', fun fuel hFuel => ?_, iff_of_true rfl ⟨hCells, hSized⟩, fun _ => ?_⟩
      · rw [hRun]
        exact getMemLoop_mono hFuel hEq
      · have hEmpty : Listed (s.searching (lib.rootInfo fdt s.lib).lib).mmap [] := rfl
        rw [hMap]
        exact storeAll_listed hCells hEmpty nodes
    · obtain ⟨s', hEq⟩ := hLoop.malformed (by
        by_contra hNone
        refine hSized (regsWellSized_iff.mpr fun v hv => ?_)
        by_contra hNot
        exact hNone ⟨v, hv, hNot⟩)
      refine ⟨n, _, s', fun fuel hFuel => ?_, iff_of_false hBad fun hBoth => hSized hBoth.2,
        fun hZero => absurd hZero hBad⟩
      rw [hRun]
      exact getMemLoop_mono hFuel hEq
  · obtain ⟨s', hEq⟩ := getMem_cells (s := s) hTree.fdt_ne hMmap hRoot
      (by rwa [hTree.address_cell, hTree.size_cell])
    exact ⟨0, _, s', fun fuel _ => hEq fuel, iff_of_false hBad fun hBoth => hCells hBoth.1,
      fun hZero => absurd hZero hBad⟩

/--
**`get_mem` decodes the memory of every tree.** It returns 0 exactly if the cell
counts are 1 or 2 and every `reg` that is not empty is a sequence of whole
entries. Then the map lists the first 16 of the regions that are not empty, in
the order of nodes and entries. In particular up to 16 regions that are encoded,
split over any number of nodes, are read back.
-/
theorem getMem_decodes (hTree : ShowsTree lib fdt s.lib a b nodes) (hMmap : mmapPtr ≠ 0) :
    ∃ fuel₀ ret s', (∀ fuel, fuel₀ ≤ fuel → getMem lib fuel fdt mmapPtr s = some (ret, s')) ∧
      (ret = 0 ↔ CellsOk a b ∧ RegsWellSized a b nodes) ∧
      (ret = 0 →
        s'.mmap.count = min maxMemRegions (decodeNodes a.toNat b.toNat nodes).length ∧
          s'.mmap.listed = (decodeNodes a.toNat b.toNat nodes).take s'.mmap.count) ∧
      ∀ groups : List (List MemoryRegion), CellsOk a b →
        nodes.map Prod.snd = groups.map (fun g => some (encodeReg a.toNat b.toNat g)) →
        (∀ r ∈ groups.flatten, r.FitsCells a.toNat b.toNat ∧ r.size ≠ 0) →
        groups.flatten.length ≤ maxMemRegions → ret = 0 ∧ s'.mmap.listed = groups.flatten := by
  obtain ⟨fuel₀, ret, s', hRun, hIff, hMap⟩ := getMem_tree hTree hMmap
  refine ⟨fuel₀, ret, s', hRun, hIff, fun hZero => ?_, fun groups hCells hNodes hFits hRoom => ?_⟩
  · have hListed := hMap hZero
    have hCount := hListed.count_eq
    refine ⟨hCount, hListed.trans ?_⟩
    rw [hCount, ← List.take_eq_take_min]
  · obtain ⟨-, -, hPos, hSize⟩ := hCells.toNat_bounds
    have hSized : RegsWellSized a b nodes := by
      intro node hNode reg hReg _
      have hMem : some reg ∈ nodes.map Prod.snd := hReg ▸ List.mem_map_of_mem hNode
      rw [hNodes] at hMem
      obtain ⟨g, -, hEq⟩ := List.mem_map.mp hMem
      rw [← Option.some.inj hEq, encodeReg_length, hSize]
      exact Nat.dvd_mul_left _ _
    have hZero := hIff.mpr ⟨hCells, hSized⟩
    have hListed := hMap hZero
    rw [decodeNodes_encodeReg hPos hFits hNodes] at hListed
    exact ⟨hZero, hListed.trans (List.take_of_length_le hRoom)⟩

end Tree

/-- Two nodes with one region each. -/
theorem getMem_decodes_twoNodeTree :
    let lib := twoNodeTree (.ok (encodeReg 2 2 [⟨0x80000000, 0x1000⟩])) .notfound
    ∃ fuel₀ s', (∀ fuel, fuel₀ ≤ fuel →
        getMem lib fuel 0x1000 0x2000 emptyFdtState = some (0, s')) ∧
      s'.mmap.listed = [⟨0x40000000, 0x8000000⟩, ⟨0x80000000, 0x1000⟩] := by
  intro lib
  have hTree : ShowsTree lib 0x1000 emptyFdtState.lib 2 2
      [(8, some (encodeReg 2 2 [⟨0x40000000, 0x8000000⟩])),
        (64, some (encodeReg 2 2 [⟨0x80000000, 0x1000⟩]))] :=
    ⟨by decide, ⟨0, rfl⟩, rfl, rfl, 3, by decide⟩
  have hFits : ∀ r ∈ [MemoryRegion.mk 0x40000000 0x8000000, ⟨0x80000000, 0x1000⟩],
      r.FitsCells 2 2 ∧ r.size ≠ 0 := by decide
  have hMmap : 0x2000 ≠ 0 := by omega
  obtain ⟨fuel₀, ret, s', hRun, -, -, hRoundTrip⟩ := getMem_decodes hTree hMmap
  obtain ⟨rfl, hListed⟩ := hRoundTrip [[⟨0x40000000, 0x8000000⟩], [⟨0x80000000, 0x1000⟩]] (by decide)
    rfl hFits (by decide)
  exact ⟨fuel₀, s', hRun, hListed⟩

end Kernalite
