import Kernalite.PageTable.Failure

/-!
# Kernalite — the order of mappings

A list of `map_page` requests on one root, executed in some order. Which call
builds which table depends on the order, and with it the addresses of the tables;
what does not is the set of table paths that come to exist (`newPrefixes`), the
number of pages they take, and so the row of used pages and every translation.

* `System.Sound.map_succeeded` — what one successful call does to these;
* `System.Sound.mapAll_spec` — a whole list: it succeeds exactly when its new
  prefixes fit, and then adds them;
* `mapAll_perm` — any two orders agree.
-/

namespace Kernalite

open ByteMemory Words FirstFit PageTableEntry

namespace System

/-- `map_page` for each request in turn. -/
def mapAll (s : System) : List MapRequest → System
  | [] => s
  | q :: qs => (s.map q).mapAll qs

/-- Every request of the list succeeds. -/
def allSucceed (s : System) : List MapRequest → Bool
  | [] => true
  | q :: qs => s.succeeds q && (s.map q).allSucceed qs

/-- The paths to level 1, 2 and 3 tables that the requests need and `root` lacks:
the distinct prefixes [47:39], [47:30] and [47:21] not yet present. -/
def newPrefixes (s : System) (root : Nat) (qs : List MapRequest) : Finset (List (Fin 512)) :=
  (qs.flatMap fun q => tablePrefixes q.vAddr).toFinset.filter fun p =>
    tableAt s.kernel.mem root p = none

end System

/-- What a list of successful requests on `root` does. -/
structure MappedAll (L : KernelLayout) (s : System) (F : Forest) (root : Nat)
    (qs : List MapRequest) (s' : System) (F' : Forest) (l' : Ledger) : Prop where
  sound     : s'.Sound L F' l'
  roots_eq  : s'.roots = s.roots
  static    : SameStatics s.kernel s'.kernel
  node_none : ∀ r p, F'.node r p = none ↔
    F.node r p = none ∧ ¬ (r = root ∧ ∃ q ∈ qs, p ∈ tablePrefixes q.vAddr)
  mapped_eq : s'.mapped = qs.reverse ++ s.mapped
  used_eq   : s'.kernel.used =
    grab s.kernel.used s.kernel.totalPages (s.newPrefixes root qs).card
  padding   : PaddingKept L s.kernel s'.kernel

variable {L : KernelLayout} {memStart memSize : Nat} {s s' : System} {F F' : Forest} {l l' : Ledger}
  {q : MapRequest} {qs qs' : List MapRequest} {root : Nat}

-- ---------------------------------------------------------------------------
-- New prefixes
-- ---------------------------------------------------------------------------

theorem tablePrefixes_nodup (vAddr : BitVec 64) : (tablePrefixes vAddr).Nodup := by
  simp [tablePrefixes, tablePath, List.inits]

/-- The new prefixes of a single request are its missing levels. -/
theorem System.card_newPrefixes_singleton (s : System) (q : MapRequest) :
    (s.newPrefixes q.root [q]).card = s.missing q := by
  have hFilter := List.toFinset_filter (tablePrefixes q.vAddr) fun p =>
    decide (tableAt s.kernel.mem q.root p = none)
  simp only [decide_eq_true_eq] at hFilter
  rw [System.newPrefixes, System.missing, levelsMissing_eq_countP, List.flatMap_singleton,
    ← hFilter, List.toFinset_card_of_nodup ((tablePrefixes_nodup _).filter _),
    List.countP_eq_length_filter]
  rfl

theorem System.Sound.mem_newPrefixes (h : s.Sound L F l) (hRoot : root ∈ s.roots)
    {p : List (Fin 512)} :
    p ∈ s.newPrefixes root qs ↔ (∃ q ∈ qs, p ∈ tablePrefixes q.vAddr) ∧ F.node root p = none := by
  rw [System.newPrefixes, Finset.mem_filter, List.mem_toFinset, List.mem_flatMap]
  refine and_congr_right fun ⟨q, _, hp⟩ => ?_
  have hLen := (mem_tablePrefixes.mp hp).2.length_le
  rw [h.tableAt_eq hRoot (Nat.lt_succ_of_le hLen)]

/-- The new prefixes depend on the set of requests only. -/
theorem System.newPrefixes_perm (s : System) (root : Nat) (hPerm : qs.Perm qs') :
    s.newPrefixes root qs = s.newPrefixes root qs' := by
  have hFlat : (qs.flatMap fun q => tablePrefixes q.vAddr).toFinset =
      (qs'.flatMap fun q => tablePrefixes q.vAddr).toFinset :=
    List.toFinset_eq_of_perm _ _ (hPerm.flatMap_right _)
  rw [System.newPrefixes, System.newPrefixes, hFlat]

-- ---------------------------------------------------------------------------
-- One call
-- ---------------------------------------------------------------------------

/-- **A successful call** makes every prefix of its address present, takes a page
for each that was not, and logs the request. -/
theorem System.Sound.map_succeeded (h : s.Sound L F l) (hRoot : q.root ∈ s.roots)
    (hOk : s.succeeds q = true) :
    ∃ F' l', MappedAll L s F q.root [q] (s.map q) F' l' := by
  obtain ⟨F', l', taken, hResult, -, l'', hSound'⟩ := System.map_sound h hRoot
  obtain ⟨hAligned, hRoom⟩ := (h.succeeds_iff hRoot).mp hOk
  have hCount : taken.length = s.missing q := by
    rw [hResult.count, if_pos hAligned]
    exact Nat.min_eq_left hRoom
  have hMissing : (s.map q).missing q + taken.length = s.missing q := hResult.missing
  obtain ⟨level3, hReached⟩ := levelsMissing_eq_zero_iff.mp
    (show (s.map q).missing q = 0 by omega)
  rw [hSound'.tableAt_eq hRoot (show (tablePath q.vAddr).length < 4 by simp [tablePath])] at hReached
  refine ⟨F', l'', hSound', rfl, hResult.static, ?_, ?_, ?_, hResult.padding⟩
  · intro r p
    simp only [List.mem_singleton, exists_eq_left]
    constructor
    · intro hNone
      refine ⟨?_, ?_⟩
      · cases hCase : F.node r p with
        | none => rfl
        | some t =>
          rw [hResult.kept _ _ _ hCase] at hNone
          exact absurd hNone (by simp)
      · -- every prefix of the path is above the level 3 table
        rintro ⟨rfl, hp⟩
        obtain ⟨rest, hRest⟩ := (mem_tablePrefixes.mp hp).2
        rw [← hRest, F'.node_append_eq_none hNone] at hReached
        exact absurd hReached (by simp)
    · rintro ⟨hNone, hOther⟩
      cases hCase : F'.node r p with
      | none => rfl
      | some t =>
        rcases hResult.new _ _ _ hCase with hOld | ⟨-, hr, w, hNil, hPrefix, hw⟩
        · rw [hNone] at hOld
          exact absurd hOld (by simp)
        · rw [List.nil_append] at hw
          exact absurd ⟨hr, mem_tablePrefixes.mpr (hw ▸ ⟨hNil, hPrefix⟩)⟩ hOther
  · exact System.mapped_map hOk
  · rw [System.card_newPrefixes_singleton, ← hCount]
    exact hResult.used_eq

-- ---------------------------------------------------------------------------
-- A list of calls
-- ---------------------------------------------------------------------------

theorem MappedAll.nothing (h : s.Sound L F l) : MappedAll L s F root [] s F l where
  sound := h
  roots_eq := rfl
  static := ⟨rfl, rfl, rfl⟩
  node_none := by simp
  mapped_eq := rfl
  used_eq := rfl
  padding := fun _ _ _ => rfl

/-- A request adds its own new prefixes, the rest of the list what is then new. -/
theorem MappedAll.card_newPrefixes (hFirst : MappedAll L s F root [q] s' F' l')
    (h : s.Sound L F l) (hRoot : root ∈ s.roots) :
    (s.newPrefixes root (q :: qs)).card =
      (s.newPrefixes root [q]).card + (s'.newPrefixes root qs).card := by
  have hRoot' : root ∈ s'.roots := hFirst.roots_eq ▸ hRoot
  have hApart : Disjoint (s.newPrefixes root [q]) (s'.newPrefixes root qs) := by
    rw [Finset.disjoint_left]
    intro p hp hp'
    have hNone := (hFirst.sound.mem_newPrefixes hRoot').mp hp' |>.2
    exact ((hFirst.node_none root p).mp hNone).2 ⟨rfl, ((h.mem_newPrefixes hRoot).mp hp).1⟩
  have hUnion : s.newPrefixes root (q :: qs) =
      s.newPrefixes root [q] ∪ s'.newPrefixes root qs := by
    ext p
    rw [Finset.mem_union, h.mem_newPrefixes hRoot, h.mem_newPrefixes hRoot,
      hFirst.sound.mem_newPrefixes hRoot', hFirst.node_none]
    simp only [List.mem_cons, List.not_mem_nil, or_false, exists_eq_or_imp, exists_eq_left,
      true_and]
    tauto
  rw [hUnion, Finset.card_union_of_disjoint hApart]

theorem MappedAll.freePages_eq (h : MappedAll L s F root qs s' F' l') :
    s'.freePages = s.freePages - (s.newPrefixes root qs).card := by
  rw [System.freePages, System.freePages, h.used_eq, h.static.totalPages_eq, freeCount_grab]

theorem MappedAll.cons {s₁ : System} {F₁ : Forest} {l₁ : Ledger} (h : s.Sound L F l)
    (hRoot : root ∈ s.roots) (hFirst : MappedAll L s F root [q] s₁ F₁ l₁)
    (hRest : MappedAll L s₁ F₁ root qs s' F' l') : MappedAll L s F root (q :: qs) s' F' l' where
  sound := hRest.sound
  roots_eq := hRest.roots_eq.trans hFirst.roots_eq
  static := hFirst.static.trans hRest.static
  node_none := by
    intro r p
    rw [hRest.node_none, hFirst.node_none]
    simp only [List.mem_cons, List.not_mem_nil, or_false, exists_eq_or_imp, exists_eq_left]
    rw [and_assoc, ← not_or, ← and_or_left]
  mapped_eq := by
    rw [hRest.mapped_eq, hFirst.mapped_eq]
    simp
  used_eq := by
    rw [hRest.used_eq, hFirst.used_eq, hFirst.static.totalPages_eq, ← grab_add,
      ← hFirst.card_newPrefixes h hRoot]
  padding := hFirst.padding.trans hFirst.static.totalPages_eq hRest.padding

/--
**A list of requests** on one root, with aligned addresses, succeeds exactly when
there is a free page for each prefix its root lacks; it then adds these prefixes
and its mappings, and takes as many pages.
-/
theorem System.Sound.mapAll_spec (h : s.Sound L F l) (hRoot : root ∈ s.roots)
    (hRequests : ∀ q ∈ qs, q.root = root ∧ q.mapping.phyAddr.toNat % pageSize = 0) :
    (s.allSucceed qs = true ↔ (s.newPrefixes root qs).card ≤ s.freePages) ∧
      (s.allSucceed qs = true → ∃ F' l', MappedAll L s F root qs (s.mapAll qs) F' l') := by
  induction qs generalizing s F l with
  | nil => exact ⟨iff_of_true rfl (Nat.zero_le _), fun _ => ⟨F, l, MappedAll.nothing h⟩⟩
  | cons q qs ih =>
    obtain ⟨rfl, hAligned⟩ := hRequests q List.mem_cons_self
    have hRequests' := fun q' hq' => hRequests q' (List.mem_cons_of_mem _ hq')
    rw [System.allSucceed, Bool.and_eq_true]
    by_cases hOk : s.succeeds q = true
    · obtain ⟨F₁, l₁, hFirst⟩ := h.map_succeeded hRoot hOk
      obtain ⟨hIff, hRest⟩ := ih hFirst.sound hRoot hRequests'
      have hRoom := ((h.succeeds_iff hRoot).mp hOk).2
      have hSingle := s.card_newPrefixes_singleton q
      refine ⟨?_, fun hBoth => ?_⟩
      · rw [hIff, hFirst.card_newPrefixes h hRoot, hFirst.freePages_eq, and_iff_right hOk]
        omega
      · obtain ⟨F', l', hAll⟩ := hRest hBoth.2
        exact ⟨F', l', hFirst.cons h hRoot hAll⟩
    · refine ⟨iff_of_false (fun hBoth => hOk hBoth.1) ?_, fun hBoth => absurd hBoth.1 hOk⟩
      -- the first request alone does not fit
      have hShort : ¬ s.missing q ≤ s.freePages := fun hRoom =>
        hOk ((h.succeeds_iff hRoot).mpr ⟨hAligned, hRoom⟩)
      have hSubset : s.newPrefixes q.root [q] ⊆ s.newPrefixes q.root (q :: qs) := by
        intro p hp
        obtain ⟨⟨q', hq', hPrefix⟩, hNone⟩ := (h.mem_newPrefixes hRoot).mp hp
        rw [List.mem_singleton.mp hq'] at hPrefix
        exact (h.mem_newPrefixes hRoot).mpr ⟨⟨q, List.mem_cons_self, hPrefix⟩, hNone⟩
      have hLe := Finset.card_le_card hSubset
      rw [System.card_newPrefixes_singleton] at hLe
      omega

-- ---------------------------------------------------------------------------
-- Two orders
-- ---------------------------------------------------------------------------

/-- With one match at most, the order does not matter for a search. -/
theorem find?_eq_of_perm {α : Type} {p : α → Bool} {xs ys : List α} (hPerm : xs.Perm ys)
    (hUnique : ∀ a ∈ xs, ∀ b ∈ xs, p a = true → p b = true → a = b) : xs.find? p = ys.find? p := by
  cases hx : xs.find? p with
  | none =>
    refine (List.find?_eq_none.mpr fun b hb => ?_).symm
    exact List.find?_eq_none.mp hx b (hPerm.mem_iff.mpr hb)
  | some a =>
    have ha := List.mem_of_find?_eq_some hx
    cases hy : ys.find? p with
    | none => exact absurd (List.find?_some hx) (List.find?_eq_none.mp hy a (hPerm.mem_iff.mp ha))
    | some b =>
      have hb := hPerm.mem_iff.mpr (List.mem_of_find?_eq_some hy)
      rw [hUnique a ha b hb (List.find?_some hx) (List.find?_some hy)]

/-- The log of distinct pages reads the same in any order. -/
theorem lastMapped_perm {mapped : List MapRequest} (hPerm : qs.Perm qs')
    (hDistinct : (qs.map fun q => pageNumber q.vAddr).Nodup) (r : Nat) (p : List (Fin 512)) :
    lastMapped (qs.reverse ++ mapped) r p = lastMapped (qs'.reverse ++ mapped) r p := by
  unfold lastMapped
  rw [List.find?_append, List.find?_append]
  congr 2
  refine find?_eq_of_perm
    ((List.reverse_perm qs).trans (hPerm.trans (List.reverse_perm qs').symm)) ?_
  intro a ha b hb hHitA hHitB
  simp only [decide_eq_true_eq] at hHitA hHitB
  have hSame : pageNumber a.vAddr = pageNumber b.vAddr :=
    vaPath_inj.mp (hHitA.2.trans hHitB.2.symm)
  exact List.inj_on_of_nodup_map hDistinct (List.mem_reverse.mp ha) (List.mem_reverse.mp hb) hSame

/--
**The order of mappings does not matter.** In every reachable state, for every
list of requests on one root with aligned addresses and distinct pages, and
every permutation of it: one order succeeds throughout exactly when the other
does, and exactly when there is a free page for each of the prefixes [47:39],
[47:30], [47:21] that the root lacks. The two runs then end with the same
translations from all roots, the same bitmap, and that many pages taken.
-/
theorem mapAll_perm (hReach : Reachable L memStart memSize s) (hRoot : root ∈ s.roots)
    (hRequests : ∀ q ∈ qs, q.root = root ∧ q.mapping.phyAddr.toNat % 4096 = 0)
    (hDistinct : (qs.map fun q => pageNumber q.vAddr).Nodup) (hPerm : qs.Perm qs') :
    (s.allSucceed qs = true ↔ s.allSucceed qs' = true) ∧
    (s.allSucceed qs = true ↔ (s.newPrefixes root qs).card ≤ s.freePages) ∧
    (s.allSucceed qs = true →
      (∀ root' ∈ s.roots, ∀ vAddr, walk (s.mapAll qs).kernel.mem root' vAddr =
        walk (s.mapAll qs').kernel.mem root' vAddr) ∧
      (∀ i, i < 8 * bitmapArea L → (s.mapAll qs).kernel.bit i = (s.mapAll qs').kernel.bit i) ∧
      (s.mapAll qs).freePages + (s.newPrefixes root qs).card = s.freePages ∧
      (s.mapAll qs').freePages + (s.newPrefixes root qs).card = s.freePages) := by
  obtain ⟨F, l, hSound⟩ := reachable_sound hReach
  have hNew := s.newPrefixes_perm root hPerm
  obtain ⟨hIff, hRun⟩ := hSound.mapAll_spec hRoot hRequests
  have hRequests' : ∀ q ∈ qs', q.root = root ∧ q.mapping.phyAddr.toNat % 4096 = 0 :=
    fun q hq => hRequests q (hPerm.mem_iff.mpr hq)
  obtain ⟨hIff', hRun'⟩ := hSound.mapAll_spec hRoot hRequests'
  have hBoth : s.allSucceed qs = true ↔ s.allSucceed qs' = true := by rw [hIff, hIff', hNew]
  refine ⟨hBoth, hIff, fun hOk => ?_⟩
  obtain ⟨F₁, l₁, h₁⟩ := hRun hOk
  obtain ⟨F₂, l₂, h₂⟩ := hRun' (hBoth.mp hOk)
  have hRoom := hIff.mp hOk
  have hFree₁ := h₁.freePages_eq
  have hFree₂ := h₂.freePages_eq
  rw [← hNew] at hFree₂
  refine ⟨fun root' hRoot' vAddr => ?_, fun i hi => ?_, by omega, by omega⟩
  · rw [h₁.sound.walk_eq (h₁.roots_eq ▸ hRoot'), h₂.sound.walk_eq (h₂.roots_eq ▸ hRoot'),
      h₁.sound.leaf_eq, h₂.sound.leaf_eq, h₁.mapped_eq, h₂.mapped_eq,
      lastMapped_perm hPerm hDistinct]
  · rcases Nat.lt_or_ge i s.kernel.totalPages with hPage | hBeyond
    · rw [← used_of_lt (h₁.static.totalPages_eq ▸ hPage),
        ← used_of_lt (h₂.static.totalPages_eq ▸ hPage), h₁.used_eq, h₂.used_eq, hNew]
    · rw [h₁.padding i hBeyond hi, h₂.padding i hBeyond hi]

/-- Two pages of the small kernel, in both orders. -/
theorem mapAll_perm_smallSystem :
    let q : MapRequest := ⟨smallRoot, 0x1000, ⟨0x5000, ⟨true, true, false⟩⟩⟩
    let q' : MapRequest := ⟨smallRoot, 0x40000000, ⟨0x6000, ⟨true, false, true⟩⟩⟩
    smallSystem.allSucceed [q, q'] = true ↔ smallSystem.allSucceed [q', q] = true := by
  intro q q'
  have hRequests : ∀ r ∈ [q, q'], r.root = smallRoot ∧ r.mapping.phyAddr.toNat % 4096 = 0 := by
    simp [q, q']
  exact (mapAll_perm smallSystem_reachable List.mem_cons_self hRequests (by decide)
    (List.Perm.swap q' q [])).1

end Kernalite
