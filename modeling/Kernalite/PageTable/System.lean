import Kernalite.Allocator.Pool
import Kernalite.PageTable.MapPage

/-!
# Kernalite — page tables in a running system

`System` is the allocator with all its clients and the page tables among them:
which pages are roots, which pages `map_page` took, and the log of successful
`map_page` calls. Other owners allocate, free, reserve and write wherever the
tables and the bitmap are not (`EnvStep`); the page table code initialises roots
and maps pages (`Step`). The records only note what the calls returned and which
bits they set.

* `EnvStep.sound` — other owners do not change the forest;
* `System.map_sound` — a `map_page` call changes it by its `MapResult`;
* `reachable_sound` — every reachable state shows a forest whose nodes are
  exactly the roots and the pages taken, and whose leaves are the last successful
  mappings.
-/

namespace Kernalite

open ByteMemory Words FirstFit Relation

/-- The arguments of a `map_page` call. -/
structure MapRequest where
  root : Nat
  vAddr : BitVec 64
  mapping : Mapping

structure System where
  pool : Pool
  roots : List Nat
  tables : List Nat
  mapped : List MapRequest

/-- The pages whose bits a call set, by address. -/
def takenPages (k k' : Kernel) : List Nat :=
  ((List.range k.totalPages).filter fun i => !k.bit i && k'.bit i).map (pageAddr k)

namespace System

def kernel (s : System) : Kernel := s.pool.kernel

/-- The address lies in a root or in a page `map_page` took. -/
def OwnedByTables (s : System) (a : Nat) : Prop :=
  ∃ t, (t ∈ s.roots ∨ t ∈ s.tables) ∧ (pages t 1).Contains a

/-- `page_table_init(p)` on a page that becomes a root. -/
def initRoot (p : Nat) (s : System) : System :=
  { s with
    pool := { s.pool with kernel := pageTableInit p s.kernel }
    roots := p :: s.roots }

/-- `map_page(root, vAddr, phyAddr, perms)`. -/
def map (q : MapRequest) (s : System) : System :=
  let (ok, k) := mapPage q.root q.vAddr q.mapping.phyAddr q.mapping.perms s.kernel
  { pool :=
      { s.pool with
        kernel := k
        live := (takenPages s.kernel k).map (pages · 1) ++ s.pool.live }
    roots := s.roots
    tables := takenPages s.kernel k ++ s.tables
    mapped := if ok then q :: s.mapped else s.mapped }

theorem map_roots (q : MapRequest) (s : System) : (s.map q).roots = s.roots := rfl

/-- The result of that call. -/
def succeeds (s : System) (q : MapRequest) : Bool :=
  (mapPage q.root q.vAddr q.mapping.phyAddr q.mapping.perms s.kernel).1

/-- How many tables are missing on the path of a request. -/
def missing (s : System) (q : MapRequest) : Nat :=
  levelsMissing s.kernel.mem q.root (tablePath q.vAddr)

/-- The number of free pages. -/
def freePages (s : System) : Nat := freeCount s.kernel.used s.kernel.totalPages

end System

/-- What other owners do: allocate, free their own blocks, reserve, and write
anywhere but in the tables and the bitmap. -/
inductive EnvStep (L : KernelLayout) : System → System → Prop where
  | alloc (s : System) (n : Nat) : EnvStep L s { s with pool := s.pool.alloc n }
  | free (s : System) (p n : Nat) (hLive : pages p n ∈ s.pool.live) (hRoot : p ∉ s.roots)
      (hTable : p ∉ s.tables) : EnvStep L s { s with pool := s.pool.free p n }
  | reserve (s : System) (p n : Nat) (hIn : InPool s.kernel (pages p n))
      (hApart : ∀ e ∈ s.pool.live, e.Disjoint (pages p n)) :
      EnvStep L s { s with pool := s.pool.reserve p n }
  | write (s : System) (m : Mem)
      (hKeep : ∀ a, InBitmap L a ∨ s.OwnedByTables a → m a = s.kernel.mem a) :
      EnvStep L s { s with pool := { s.pool with kernel := { s.kernel with mem := m } } }

inductive Step (L : KernelLayout) : System → System → Prop where
  | env (s s' : System) (hStep : EnvStep L s s') : Step L s s'
  | initRoot (s : System) (p : Nat) (hLive : pages p 1 ∈ s.pool.live) (hRoot : p ∉ s.roots)
      (hTable : p ∉ s.tables) : Step L s (s.initRoot p)
  | map (s : System) (q : MapRequest) (hRoot : q.root ∈ s.roots) : Step L s (s.map q)

/-- The start of a run: a pool over a non-zero region below `2 ^ 48`, booted by
`main` with the image reserved, or just initialised with the bitmap area outside
the region; no tables yet. -/
structure Started (L : KernelLayout) (memStart memSize : Nat) (s : System) : Prop where
  start_pos  : 0 < memStart
  end_le     : memStart + memSize ≤ 2 ^ 48
  pool       : Booted L memStart memSize s.pool ∨
    (∀ a, InBitmap L a → ¬ (memStart ≤ a ∧ a < memStart + memSize)) ∧
    ∃ k, (pageInit L memStart memSize k).1 = true ∧
      s.pool = ⟨(pageInit L memStart memSize k).2, [], []⟩
  roots_nil  : s.roots = []
  tables_nil : s.tables = []
  mapped_nil : s.mapped = []

/-- The states of a run. -/
def Reachable (L : KernelLayout) (memStart memSize : Nat) (s : System) : Prop :=
  ∃ s₀, Started L memStart memSize s₀ ∧ ReflTransGen (Step L) s₀ s

theorem Reachable.step {L : KernelLayout} {memStart memSize : Nat} {s s' : System}
    (h : Reachable L memStart memSize s) (hStep : Step L s s') : Reachable L memStart memSize s' := by
  obtain ⟨s₀, hStart, hRun⟩ := h
  exact ⟨s₀, hStart, hRun.tail hStep⟩

/-- The last successful `map_page` call for a page of the address space. -/
def lastMapped (mapped : List MapRequest) (root : Nat) (path : List (Fin 512)) : Option Mapping :=
  (mapped.find? fun q => decide (q.root = root ∧ vaPath q.vAddr = path)).map MapRequest.mapping

/-- The records of the system are the ledger and the forest that memory shows. -/
structure System.Sound (L : KernelLayout) (s : System) (F : Forest) (l : Ledger) : Prop where
  page_tables  : PageTables L s.kernel F l
  live_eq      : l.live = s.pool.live
  reserved_eq  : l.reserved = s.pool.reserved
  roots_iff    : ∀ r, r ∈ s.roots ↔ F.node r [] = some r
  roots_nodup  : s.roots.Nodup
  tables_iff   : ∀ t, t ∈ s.tables ↔ ∃ r p, p ≠ [] ∧ F.node r p = some t
  tables_nodup : s.tables.Nodup
  leaf_eq      : ∀ r p, F.leaf r p = lastMapped s.mapped r p

section Sound

variable {L : KernelLayout} {s s' : System} {F : Forest} {l : Ledger}

theorem System.Sound.has_iff (h : s.Sound L F l) (t : Nat) :
    F.Has t ↔ t ∈ s.roots ∨ t ∈ s.tables := by
  rw [h.roots_iff, h.tables_iff]
  constructor
  · rintro ⟨r, p, hNode⟩
    by_cases hp : p = []
    · subst hp
      obtain rfl := F.node_root r t hNode
      exact Or.inl hNode
    · exact Or.inr ⟨r, p, hp, hNode⟩
  · rintro (hNode | ⟨r, p, -, hNode⟩)
    · exact ⟨t, [], hNode⟩
    · exact ⟨r, p, hNode⟩

theorem System.Sound.inTables_iff (h : s.Sound L F l) (a : Nat) :
    InTables F a ↔ s.OwnedByTables a := by
  simp only [InTables, System.OwnedByTables, h.has_iff]

/-- The tables a walk reaches are the nodes of the forest. -/
theorem System.Sound.tableAt_eq (h : s.Sound L F l) {root : Nat} (hRoot : root ∈ s.roots)
    {path : List (Fin 512)} (hLen : path.length < 4) :
    tableAt s.kernel.mem root path = F.node root path := by
  have hWalk := h.page_tables.tableAt_eq ((h.roots_iff root).mp hRoot) path
    (by rw [List.length_nil]; omega)
  rwa [List.nil_append] at hWalk

/-- Walks of a sound system, from any of its roots. -/
theorem System.Sound.walk_eq (h : s.Sound L F l) {root : Nat} (hRoot : root ∈ s.roots)
    (vAddr : BitVec 64) :
    walk s.kernel.mem root vAddr = (F.leaf root (vaPath vAddr)).map Mapping.entry :=
  h.page_tables.walk_eq ((h.roots_iff root).mp hRoot) vAddr

-- ---------------------------------------------------------------------------
-- Other owners
-- ---------------------------------------------------------------------------

/-- A step of the pool that leaves the tables live keeps the forest. -/
theorem System.Sound.pool_step (h : s.Sound L F l) {σ : Pool} (hStep : Pool.Step s.pool σ)
    (hKept : ∀ t, t ∈ s.roots ∨ t ∈ s.tables → pages t 1 ∈ s.pool.live → pages t 1 ∈ σ.live) :
    ∃ l', ({ s with pool := σ } : System).Sound L F l' := by
  have hPool : s.pool.Sound L := ⟨l, h.live_eq, h.reserved_eq, h.page_tables.tracks⟩
  obtain ⟨l', hLive, hReserved, hTracks⟩ := hStep.sound hPool
  have hTables : PageTables L σ.kernel F l' := by
    refine h.page_tables.frame hTracks hStep.static (fun t hHas => ?_) fun a ha => ?_
    · have hOld := h.page_tables.node_live t hHas
      rw [h.live_eq] at hOld
      exact hLive ▸ hKept t ((h.has_iff t).mp hHas) hOld
    · exact hStep.frame hPool a (h.page_tables.inTables_not_inBitmap ha)
  exact ⟨l', hTables, hLive, hReserved, h.roots_iff, h.roots_nodup, h.tables_iff, h.tables_nodup,
    h.leaf_eq⟩

/-- **Other owners do not change the forest.** -/
theorem EnvStep.sound (hStep : EnvStep L s s') (h : s.Sound L F l) : ∃ l', s'.Sound L F l' := by
  cases hStep with
  | alloc n =>
    refine h.pool_step (.alloc s.pool n) fun t _ hLive => ?_
    simp only [Pool.alloc]
    split_ifs
    · exact hLive
    · exact List.mem_cons_of_mem _ hLive
  | free p n hLive hRoot hTable =>
    refine h.pool_step (.free s.pool p n hLive) fun t ht hMem => ?_
    refine (List.mem_erase_of_ne fun hEq => ?_).mpr hMem
    have hSame : t = p := congrArg Extent.start hEq
    subst hSame
    exact ht.elim hRoot hTable
  | reserve p n hIn hApart => exact h.pool_step (.reserve s.pool p n hIn hApart) fun _ _ hLive => hLive
  | write m hKeep =>
    have hStatic : SameStatics s.kernel { s.kernel with mem := m } := ⟨rfl, rfl, rfl⟩
    have hTables : PageTables L { s.kernel with mem := m } F l :=
      h.page_tables.frame
        (h.page_tables.tracks.of_bitmap hStatic fun a ha => hKeep a (Or.inl ha)) hStatic
        h.page_tables.node_live fun a ha => hKeep a (Or.inr ((h.inTables_iff a).mp ha))
    exact ⟨l, hTables, h.live_eq, h.reserved_eq, h.roots_iff, h.roots_nodup, h.tables_iff,
      h.tables_nodup, h.leaf_eq⟩

theorem env_run_sound (hRun : ReflTransGen (EnvStep L) s s') (h : s.Sound L F l) :
    ∃ l', s'.Sound L F l' := by
  induction hRun with
  | refl => exact ⟨l, h⟩
  | tail _ hStep ih =>
    obtain ⟨l', h'⟩ := ih
    exact hStep.sound h'

-- ---------------------------------------------------------------------------
-- Roots
-- ---------------------------------------------------------------------------

/-- `page_table_init` on a live page plants a tree. -/
theorem System.initRoot_sound (h : s.Sound L F l) {p : Nat} (hLive : pages p 1 ∈ s.pool.live)
    (hRoot : p ∉ s.roots) (hTable : p ∉ s.tables) :
    ∃ hNew, (s.initRoot p).Sound L (F.plant p (by decide) hNew) l := by
  have hNew : ¬ F.Has p := fun hHas => ((h.has_iff p).mp hHas).elim hRoot hTable
  have hMem : pages p 1 ∈ l.live := h.live_eq ▸ hLive
  obtain ⟨hTables, -, -, -, hZero⟩ := pageTableInit_keeps h.page_tables hMem hNew
  have hPlanted := hTables.plant hMem hNew hZero
  refine ⟨hNew, ?_⟩
  constructor <;> simp only [System.initRoot, System.kernel]
  · exact hPlanted
  · exact h.live_eq
  · exact h.reserved_eq
  · intro r
    rw [RadixForest.node_plant, List.mem_cons, h.roots_iff]
    by_cases hr : r = p
    · simp [hr]
    · simp [hr]
  · exact List.nodup_cons.mpr ⟨hRoot, h.roots_nodup⟩
  · intro t
    refine (h.tables_iff t).trans (exists_congr fun r => exists_congr fun q =>
      and_congr_right fun hq => ?_)
    rw [RadixForest.node_plant, if_neg (fun hBoth => hq hBoth.2)]
  · exact h.tables_nodup
  · exact h.leaf_eq

/-- A new root takes no other page, and below it everything is missing. -/
theorem System.Sound.bareRoot (h : s.Sound L F l) {p : Nat} (hLive : pages p 1 ∈ s.pool.live)
    (hRoot : p ∉ s.roots) (hTable : p ∉ s.tables) :
    (s.initRoot p).freePages = s.freePages ∧
      ∀ q, q.root = p → (s.initRoot p).missing q = 3 := by
  obtain ⟨hNew, hSound⟩ := System.initRoot_sound h hLive hRoot hTable
  obtain ⟨-, hStatic, hUsed, -⟩ := pageTableInit_keeps h.page_tables (h.live_eq ▸ hLive) hNew
  refine ⟨?_, ?_⟩
  · rw [System.freePages, System.freePages, ← hUsed, ← hStatic.totalPages_eq]
    simp only [System.initRoot, System.kernel]
  · rintro q rfl
    have hNode : (F.plant q.root (by decide) hNew).node q.root [] = some q.root :=
      (hSound.roots_iff _).mp List.mem_cons_self
    have hBare : ∀ i, (F.plant q.root (by decide) hNew).node q.root ([] ++ [i]) = none := by
      intro i
      rw [RadixForest.node_plant, if_neg (by simp)]
      cases hCase : F.node q.root ([] ++ [i]) with
      | none => rfl
      | some t => exact absurd ⟨q.root, [], F.root_of_node hCase⟩ hNew
    exact (hSound.page_tables.levels_bare hNode (tablePath q.vAddr) (by simp [tablePath]) hBare).1

-- ---------------------------------------------------------------------------
-- `map_page`
-- ---------------------------------------------------------------------------

/-- Reordering the live list of a ledger is invisible. -/
theorem PageTables.reorder {k : Kernel} (h : PageTables L k F l) {live : List Extent}
    (hPerm : live.Perm l.live) : PageTables L k F (l.reorder hPerm) where
  tracks :=
    { ready := h.tracks.ready
      base_pos := h.tracks.base_pos
      live_in := fun e he => h.tracks.live_in e (hPerm.mem_iff.mp he)
      reserved_in := h.tracks.reserved_in
      bits := fun i hi => (h.tracks.bits i hi).trans (l.occupied_reorder hPerm _).symm
      bitmap_kept := h.tracks.bitmap_kept }
  top_le := h.top_le
  node_live := fun t hHas => hPerm.mem_iff.mpr (h.node_live t hHas)
  represents := h.represents

/-- Live single pages are told apart by their addresses. -/
theorem Ledger.nodup_of_pages {taken : List Nat} {rest : List Extent}
    (hLive : l.live = taken.map (pages · 1) ++ rest) : taken.Nodup := by
  have hDisjoint := l.live_disjoint
  rw [hLive] at hDisjoint
  have hTaken := (List.pairwise_append.mp hDisjoint).1
  rw [List.pairwise_map] at hTaken
  refine hTaken.imp fun {u v} hApart hEq => ?_
  have hPos : 0 < (pages u 1).len := show 0 < 1 * pageSize by decide
  exact hApart.ne hPos (by rw [hEq])

/-- The bits a call set are the bits of the pages it was granted. -/
theorem takenPages_perm {k k' : Kernel} {l' : Ledger} {taken : List Nat} (h : Tracks L k l)
    (h' : Tracks L k' l') (hStatic : SameStatics k k')
    (hLive : l'.live = taken.map (pages · 1) ++ l.live) (hReserved : l'.reserved = l.reserved) :
    (takenPages k k').Perm taken := by
  have hAddr : ∀ i, pageAddr k' i = pageAddr k i := fun i => by
    rw [pageAddr, hStatic.memBase_eq, pageAddr]
  have hInj : Function.Injective (pageAddr k) := by
    intro i j hij
    unfold pageAddr pageSize at hij
    omega
  have hMem : ∀ u, u ∈ taken → pages u 1 ∈ l'.live := fun u hu => by
    rw [hLive]
    exact List.mem_append_left _ (List.mem_map_of_mem hu)
  have hNodup : (takenPages k k').Nodup :=
    (List.nodup_range.filter _).map hInj
  refine (List.perm_ext_iff_of_nodup hNodup (Ledger.nodup_of_pages hLive)).mpr fun u => ?_
  simp only [takenPages, List.mem_map, List.mem_filter, List.mem_range, Bool.and_eq_true,
    Bool.not_eq_true']
  constructor
  · rintro ⟨i, ⟨hi, hBefore, hAfter⟩, rfl⟩
    have hOcc := (h'.bits i (hStatic.totalPages_eq ▸ hi)).mp hAfter
    rw [hAddr] at hOcc
    have hFree : ¬ l.Occupied (pageAddr k i) := by
      rw [← h.bits i hi, hBefore]
      exact Bool.false_ne_true
    rcases hOcc with ⟨e, he, hea⟩ | ⟨f, hf, hfa⟩
    · rw [hLive, List.mem_append] at he
      rcases he with he | he
      · obtain ⟨v, hv, rfl⟩ := List.mem_map.mp he
        -- a granted page that contains the start of page `i` is page `i`
        obtain ⟨j, rfl, -⟩ := (h'.live_in _ (hMem v hv)).exists_index h'.ready.base_aligned
        rw [← hAddr, pages_contains_iff] at hea
        obtain rfl : i = j := by omega
        rwa [← hAddr]
      · exact absurd (Or.inl ⟨e, he, hea⟩) hFree
    · exact absurd (Or.inr ⟨f, hReserved ▸ hf, hfa⟩) hFree
  · intro hu
    obtain ⟨i, rfl, hFit⟩ := (h'.live_in _ (hMem u hu)).exists_index h'.ready.base_aligned
    have hi : i < k.totalPages := by
      rw [← hStatic.totalPages_eq]
      omega
    refine ⟨i, ⟨hi, ?_, ?_⟩, (hAddr i).symm⟩
    · rw [← Bool.not_eq_true, h.bits i hi, ← hAddr]
      rintro (⟨e, he, hea⟩ | ⟨f, hf, hfa⟩)
      · have hPair := l'.live_disjoint
        rw [hLive, List.pairwise_append] at hPair
        exact hPair.2.2 _ (List.mem_map_of_mem hu) e he _ (pages_contains_self _) hea
      · exact l'.live_reserved _ (hMem _ hu) f (hReserved ▸ hf) _ (pages_contains_self _) hfa
    · exact (h'.bits i (hStatic.totalPages_eq ▸ hi)).mpr (Or.inl ⟨_, hMem _ hu, pages_contains_self _⟩)

theorem lastMapped_cons (q : MapRequest) (mapped : List MapRequest) (r : Nat)
    (p : List (Fin 512)) :
    lastMapped (q :: mapped) r p =
      if r = q.root ∧ p = vaPath q.vAddr then some q.mapping else lastMapped mapped r p := by
  unfold lastMapped
  rw [List.find?_cons]
  by_cases hHit : r = q.root ∧ p = vaPath q.vAddr
  · obtain ⟨rfl, rfl⟩ := hHit
    simp
  · have hMiss : ¬ (q.root = r ∧ vaPath q.vAddr = p) := fun hBoth =>
      hHit ⟨hBoth.1.symm, hBoth.2.symm⟩
    rw [if_neg hHit, decide_eq_false hMiss]

/-- A successful call is logged. -/
theorem System.mapped_map {q : MapRequest} (hOk : s.succeeds q = true) :
    (s.map q).mapped = q :: s.mapped := by
  change (if s.succeeds q then q :: s.mapped else s.mapped) = _
  rw [if_pos hOk]

/-- **A `map_page` call in the system** changes the forest by its `MapResult`, and
the records follow. -/
theorem System.map_sound (h : s.Sound L F l) {q : MapRequest} (hRoot : q.root ∈ s.roots) :
    ∃ F' l' taken,
      MapResult L s.kernel F l q.root q.vAddr q.mapping
        (mapPage q.root q.vAddr q.mapping.phyAddr q.mapping.perms s.kernel).1
        (s.map q).kernel F' l' taken ∧
      (takenPages s.kernel (s.map q).kernel).Perm taken ∧
      ∃ l'', (s.map q).Sound L F' l'' := by
  obtain ⟨F', l', taken, hResult⟩ := mapPage_spec h.page_tables ((h.roots_iff _).mp hRoot) q.vAddr
    q.mapping.phyAddr q.mapping.perms
  have hPerm : (takenPages s.kernel (s.map q).kernel).Perm taken :=
    takenPages_perm h.page_tables.tracks hResult.tables.tracks hResult.static hResult.live_eq
      hResult.reserved_eq
  have hLive : (s.map q).pool.live.Perm l'.live := by
    rw [hResult.live_eq, h.live_eq]
    exact (hPerm.map _).append_right _
  refine ⟨F', l', taken, hResult, hPerm, l'.reorder hLive, hResult.tables.reorder hLive, rfl,
    hResult.reserved_eq.trans h.reserved_eq, ?_, h.roots_nodup, ?_, ?_, ?_⟩
  · intro r
    refine (h.roots_iff r).trans ⟨hResult.kept r [] r, fun hNew => ?_⟩
    rcases hResult.new r [] r hNew with hOld | ⟨-, -, p, hp, -, hNil⟩
    · exact hOld
    · exact absurd (List.nil_eq_append_iff.mp hNil).2 hp
  · intro t
    change t ∈ takenPages s.kernel (s.map q).kernel ++ s.tables ↔ _
    rw [List.mem_append, hPerm.mem_iff, h.tables_iff]
    constructor
    · rintro (hTaken | ⟨r, p, hp, hNode⟩)
      · obtain ⟨-, p, ⟨w, hw, -, rfl⟩, hNode⟩ := hResult.linked t hTaken
        exact ⟨q.root, _, hw, hNode⟩
      · exact ⟨r, p, hp, hResult.kept r p t hNode⟩
    · rintro ⟨r, p, hp, hNode⟩
      rcases hResult.new r p t hNode with hOld | ⟨hTaken, -, -⟩
      · exact Or.inr ⟨r, p, hp, hOld⟩
      · exact Or.inl hTaken
  · refine List.nodup_append.mpr ⟨?_, h.tables_nodup, ?_⟩
    · exact hPerm.nodup_iff.mpr (Ledger.nodup_of_pages hResult.live_eq)
    · rintro t ht _ hOld rfl
      refine (hResult.linked t (hPerm.mem_iff.mp ht)).1 ?_
      exact (h.has_iff t).mpr (Or.inr hOld)
  · intro r p
    rw [hResult.leaf_eq, h.leaf_eq]
    change _ = lastMapped (if (mapPage q.root q.vAddr q.mapping.phyAddr q.mapping.perms s.kernel).1
      then q :: s.mapped else s.mapped) r p
    cases (mapPage q.root q.vAddr q.mapping.phyAddr q.mapping.perms s.kernel).1 with
    | false => simp
    | true => simp [lastMapped_cons]

-- ---------------------------------------------------------------------------
-- Runs
-- ---------------------------------------------------------------------------

theorem Step.sound (hStep : Step L s s') (h : s.Sound L F l) : ∃ F' l', s'.Sound L F' l' := by
  cases hStep with
  | env s' hEnv =>
    obtain ⟨l', h'⟩ := hEnv.sound h
    exact ⟨F, l', h'⟩
  | initRoot p hLive hRoot hTable =>
    obtain ⟨hNew, h'⟩ := System.initRoot_sound h hLive hRoot hTable
    exact ⟨_, l, h'⟩
  | map q hRoot =>
    obtain ⟨F', -, -, -, -, l'', h'⟩ := System.map_sound h hRoot
    exact ⟨F', l'', h'⟩

theorem Started.sound {memStart memSize : Nat} (h : Started L memStart memSize s) :
    ∃ l, s.Sound L (RadixForest.empty Nat (Fin 512) Mapping 4) l := by
  have hEnd := h.end_le
  have hStart : ∃ l, l.live = s.pool.live ∧ l.reserved = s.pool.reserved ∧
      Tracks L s.kernel l ∧ pageAddr s.kernel s.kernel.totalPages ≤ memStart + memSize := by
    rcases h.pool with hBooted | ⟨hApart, k, hInit, hPool⟩
    · obtain ⟨hTracks, -, hHigh⟩ := hBooted.tracks
      obtain ⟨hLive, hReserved⟩ := hBooted.lists_eq
      exact ⟨_, hLive.symm, hReserved.symm, hTracks, hHigh⟩
    · obtain ⟨hTracks, hHigh⟩ := tracks_of_apart hInit h.start_pos (by omega) hApart
      rw [System.kernel, hPool]
      exact ⟨_, rfl, rfl, hTracks, hHigh⟩
  obtain ⟨l, hLive, hReserved, hTracks, hHigh⟩ := hStart
  refine ⟨l, ⟨hTracks, by omega, ?_, ?_⟩, hLive, hReserved, ?_, ?_, ?_, ?_, ?_⟩
  · rintro t ⟨r, p, hNode⟩
    exact absurd hNode (by simp [RadixForest.empty])
  · intro r p t hNode
    exact absurd hNode (by simp [RadixForest.empty])
  · simp [h.roots_nil, RadixForest.empty]
  · simp [h.roots_nil]
  · simp [h.tables_nil, RadixForest.empty]
  · simp [h.tables_nil]
  · simp [h.mapped_nil, lastMapped, RadixForest.empty]

/-- **Every reachable state is sound.** -/
theorem reachable_sound {memStart memSize : Nat} (h : Reachable L memStart memSize s) :
    ∃ F l, s.Sound L F l := by
  obtain ⟨s₀, hStart, hRun⟩ := h
  induction hRun with
  | refl =>
    obtain ⟨l, h₀⟩ := hStart.sound
    exact ⟨_, l, h₀⟩
  | tail _ hStep ih =>
    obtain ⟨F, l, h'⟩ := ih
    exact hStep.sound h'

end Sound

-- ---------------------------------------------------------------------------
-- A small system
-- ---------------------------------------------------------------------------

/-- The small kernel after `page_alloc(1)`. -/
def smallGranted : System := ⟨smallPool.alloc 1, [], [], []⟩

/-- The page that call returned. -/
def smallRoot : Nat := 0x40016000

/-- The small kernel with one root and no mapping. -/
def smallSystem : System := smallGranted.initRoot smallRoot

theorem smallRoot_live : pages smallRoot 1 ∈ smallGranted.pool.live := by
  decide +kernel

theorem smallGranted_reachable : Reachable smallLayout 0x40000000 0x40000 smallGranted :=
  ⟨⟨smallPool, [], [], []⟩, ⟨by omega, by omega, Or.inl smallPool_booted, rfl, rfl, rfl⟩,
    .single (.env _ _ (.alloc ⟨smallPool, [], [], []⟩ 1))⟩

theorem smallSystem_reachable : Reachable smallLayout 0x40000000 0x40000 smallSystem :=
  smallGranted_reachable.step
    (.initRoot smallGranted smallRoot smallRoot_live List.not_mem_nil List.not_mem_nil)

/-- The image, the root and 41 free pages. -/
theorem smallSystem_free :
    freeCount smallSystem.kernel.used smallSystem.kernel.totalPages = 41 := by
  obtain ⟨F, l, hSound⟩ := reachable_sound smallGranted_reachable
  obtain ⟨hFree, -⟩ := hSound.bareRoot smallRoot_live List.not_mem_nil List.not_mem_nil
  exact hFree.trans (show smallGranted.freePages = 41 by decide +kernel)

/-- Enough pages are left for any mapping. -/
theorem smallSystem_maps (vAddr : BitVec 64) {phyAddr : BitVec 64} (perms : PagePermissions)
    (hAligned : phyAddr.toNat % pageSize = 0) :
    (mapPage smallRoot vAddr phyAddr perms smallSystem.kernel).1 = true := by
  obtain ⟨F, l, hSound⟩ := reachable_sound smallSystem_reachable
  have hRoot : smallRoot ∈ smallSystem.roots := List.mem_cons_self
  obtain ⟨F', l', taken, hResult⟩ := mapPage_spec hSound.page_tables
    ((hSound.roots_iff _).mp hRoot) vAddr phyAddr perms
  refine hResult.ok_iff.mpr ⟨hAligned, Nat.le_trans (levelsMissing_le _ _ _) ?_⟩
  rw [smallSystem_free]
  exact show 3 ≤ 41 by omega

end Kernalite
