import Kernalite.PageTable.Level

/-!
# Kernalite — descending to a level 3 table

`map_page` calls `get_next_level_table` three times. `descend` is that sequence
for a list of indices, `Grown` the relation between the states before and after
it, and `descend_spec` the induction over the indices:

* a table that is present costs nothing (`Grown.present`);
* below a missing table everything is missing, so the first link is the only
  write to a table that existed before (`Grown.linked`);
* the descent succeeds exactly when as many pages are free as levels are
  missing, and otherwise takes all free pages before it fails.
-/

namespace Kernalite

open ByteMemory Words FirstFit PageTableEntry

/-- `get_next_level_table` along a list of indices. -/
def descend (table : Nat) : List (Fin 512) → Kernel → Nat × Kernel
  | [], k => (table, k)
  | idx :: rest, k =>
    let (next, k) := getNextLevelTable (entryAddr table idx) k
    if next = 0 then (0, k) else descend next rest k

/-- `p` continues `path` by a nonempty prefix of `rest`. -/
def Continues (path rest p : List (Fin 512)) : Prop := ∃ q, q ≠ [] ∧ q <+: rest ∧ p = path ++ q

/-- Where a descent from `table` along `rest` may write: the bitmap, the pages
it takes, and the entry of the first missing level if it takes any. -/
def DescentWrites (L : Layout) (m : Mem) (table : Nat) (rest : List (Fin 512)) (taken : List Nat)
    (a : Nat) : Prop :=
  InBitmap L a ∨ (∃ u ∈ taken, (pages u 1).Contains a) ∨
    taken ≠ [] ∧ ∃ slot, firstInvalidSlot m table rest = some slot ∧ (slotBytes slot).Contains a

/-- From `k`, `F`, `l` to `k'`, `F'`, `l'` by linking the pages `taken`, newest
first, below the table at `path` along `rest`. -/
structure Grown (L : KernelLayout) (k : Kernel) (F : Forest) (l : Ledger) (root : Nat)
    (path : List (Fin 512)) (table : Nat) (rest : List (Fin 512)) (k' : Kernel) (F' : Forest)
    (l' : Ledger) (taken : List Nat) : Prop where
  tables      : PageTables L k' F' l'
  static      : SameStatics k k'
  live_eq     : l'.live = taken.map (pages · 1) ++ l.live
  reserved_eq : l'.reserved = l.reserved
  used_eq     : k'.used = grab k.used k.totalPages taken.length
  padding     : PaddingKept L k k'
  enough      : taken.length ≤ freeCount k.used k.totalPages
  kept        : ∀ r p u, F.node r p = some u → F'.node r p = some u
  new         : ∀ r p u, F'.node r p = some u →
    F.node r p = some u ∨ u ∈ taken ∧ r = root ∧ Continues path rest p
  leaf_eq     : F'.leaf = F.leaf
  linked      : ∀ u ∈ taken, ¬ F.Has u ∧ ∃ p, Continues path rest p ∧ F'.node root p = some u
  missing     : levelsMissing k'.mem table rest + taken.length = levelsMissing k.mem table rest
  frame       : SameOutside (DescentWrites L k.mem table rest taken) k.mem k'.mem

variable {L : KernelLayout} {k k₁ k' : Kernel} {F F' : Forest} {l l' : Ledger}
  {root t n : Nat} {path rest : List (Fin 512)} {i : Fin 512} {taken : List Nat}

-- ---------------------------------------------------------------------------
-- What is missing on a path
-- ---------------------------------------------------------------------------

theorem Continues.cons {p : List (Fin 512)} (h : Continues (path ++ [i]) rest p) :
    Continues path (i :: rest) p := by
  obtain ⟨q, -, hPrefix, rfl⟩ := h
  exact ⟨i :: q, by simp, List.cons_prefix_cons.mpr ⟨rfl, hPrefix⟩, by simp⟩

/-- A present table is passed through. -/
theorem PageTables.levels_present (h : PageTables L k F l) (hNode : F.node root path = some t)
    (rest : List (Fin 512)) (hNext : F.node root (path ++ [i]) = some n) :
    levelsMissing k.mem t (i :: rest) = levelsMissing k.mem n rest ∧
      firstInvalidSlot k.mem t (i :: rest) = firstInvalidSlot k.mem n rest := by
  obtain ⟨hValid, hAddr⟩ := h.entry_some hNode hNext
  rw [levelsMissing, firstInvalidSlot, if_pos hValid, if_pos hValid, hAddr]
  exact ⟨rfl, rfl⟩

/-- A missing table ends the walk. -/
theorem PageTables.levels_absent (h : PageTables L k F l) (hNode : F.node root path = some t)
    (rest : List (Fin 512)) (hLen : path.length < 3) (hAbsent : F.node root (path ++ [i]) = none) :
    levelsMissing k.mem t (i :: rest) = rest.length + 1 ∧
      firstInvalidSlot k.mem t (i :: rest) = some (entryAddr t i) := by
  have hZero := h.entry_none hNode hLen hAbsent
  rw [levelsMissing, firstInvalidSlot, hZero, isValid_zero]
  exact ⟨rfl, rfl⟩

/-- Below a table without children everything is missing, and the first entry
to be written lies in that table. -/
theorem PageTables.levels_bare (h : PageTables L k F l) (hNode : F.node root path = some t)
    (rest : List (Fin 512)) (hLen : path.length + rest.length < 4)
    (hBare : ∀ j, F.node root (path ++ [j]) = none) :
    levelsMissing k.mem t rest = rest.length ∧
      ∀ slot, firstInvalidSlot k.mem t rest = some slot → ∀ a, (slotBytes slot).Contains a →
        (pages t 1).Contains a := by
  cases rest with
  | nil => exact ⟨rfl, fun slot hSlot => absurd hSlot (by simp [firstInvalidSlot])⟩
  | cons j rest =>
    rw [List.length_cons] at hLen
    obtain ⟨hMissing, hSlot⟩ := h.levels_absent hNode rest (by omega) (hBare j)
    refine ⟨hMissing, fun slot hEq a ha => ?_⟩
    rw [hSlot] at hEq
    rw [← Option.some.inj hEq] at ha
    exact h.slot_inTables ⟨root, path, hNode⟩ ha.1 ha.2

-- ---------------------------------------------------------------------------
-- Growing
-- ---------------------------------------------------------------------------

/-- Nothing taken, nothing written. -/
theorem Grown.nothing (h : PageTables L k F l) (hStatic : SameStatics k k')
    (hMem : k'.mem = k.mem) : Grown L k F l root path t rest k' F l [] where
  tables := h.frame (h.tracks.of_bitmap hStatic fun a _ => by rw [hMem]) hStatic h.node_live
    fun a _ => by rw [hMem]
  static := hStatic
  live_eq := rfl
  reserved_eq := rfl
  used_eq := h.tracks.used_eq hStatic fun a _ => by rw [hMem]
  padding := h.tracks.ready.paddingKept hStatic fun a _ => by rw [hMem]
  enough := Nat.zero_le _
  kept := fun _ _ _ hu => hu
  new := fun _ _ _ hu => Or.inl hu
  leaf_eq := rfl
  linked := fun u hu => absurd hu List.not_mem_nil
  missing := by rw [hMem]; rfl
  frame := by
    rw [hMem]
    exact SameOutside.refl _ _

/-- A present table: growing below it is growing from above it. -/
theorem Grown.present (h : PageTables L k F l) (hNode : F.node root path = some t)
    (hNext : F.node root (path ++ [i]) = some n)
    (hGrown : Grown L k F l root (path ++ [i]) n rest k' F' l' taken) :
    Grown L k F l root path t (i :: rest) k' F' l' taken := by
  obtain ⟨hMissing, hSlot⟩ := h.levels_present hNode rest hNext
  obtain ⟨hMissing', -⟩ := hGrown.tables.levels_present (hGrown.kept _ _ _ hNode) rest
    (hGrown.kept _ _ _ hNext)
  refine { hGrown with new := ?_, linked := ?_, missing := ?_, frame := ?_ }
  · intro r p u hu
    exact (hGrown.new r p u hu).imp_right fun ⟨hTaken, hr, hp⟩ => ⟨hTaken, hr, hp.cons⟩
  · intro u hu
    obtain ⟨hFresh, p, hp, hAt⟩ := hGrown.linked u hu
    exact ⟨hFresh, p, hp.cons, hAt⟩
  · rw [hMissing, hMissing']
    exact hGrown.missing
  · unfold DescentWrites
    rw [hSlot]
    exact hGrown.frame

/-- A missing table: one page is linked, and growing continues below it. -/
theorem Grown.linked_below {F₁ : Forest} {l₁ : Ledger} {s : Nat}
    (h : PageTables L k F l) (hNode : F.node root path = some t)
    (hLen : path.length + (i :: rest).length < 4) (hAbsent : F.node root (path ++ [i]) = none)
    (hFree : firstFree k.used k.totalPages = some s) (hStatic : SameStatics k k₁)
    (hUsed : k₁.used = take k.used s) (hPadding : PaddingKept L k k₁)
    (hFrame : SameOutside (fun a => InBitmap L a ∨ (pages n 1).Contains a ∨
      (slotBytes (entryAddr t i)).Contains a) k.mem k₁.mem)
    (hNew : ¬ F.Has n) (hForest : ∃ hParent hShort, F₁ = F.link root path i n hParent hShort hNew)
    (hTables : PageTables L k₁ F₁ l₁) (hLive : l₁.live = pages n 1 :: l.live)
    (hReserved : l₁.reserved = l.reserved)
    (hGrown : Grown L k₁ F₁ l₁ root (path ++ [i]) n rest k' F' l' taken) :
    Grown L k F l root path t (i :: rest) k' F' l' (taken ++ [n]) := by
  obtain ⟨hParent, hShort, rfl⟩ := hForest
  rw [List.length_cons] at hLen
  have hAt : (F.link root path i n hParent hShort hNew).node root (path ++ [i]) = some n :=
    RadixForest.node_link_self
  have hKept : ∀ r p u, F.node r p = some u →
      (F.link root path i n hParent hShort hNew).node r p = some u := fun r p u hu =>
    RadixForest.node_link_of_some hAbsent hu
  have hBare : ∀ j, (F.link root path i n hParent hShort hNew).node root (path ++ [i] ++ [j])
      = none := by
    intro j
    rw [RadixForest.node_link, if_neg (by simp), F.node_append_eq_none hAbsent]
  obtain ⟨hMissing, hSlot⟩ := h.levels_absent hNode rest (by omega) hAbsent
  obtain ⟨hBelow, hBelowSlot⟩ := hTables.levels_bare hAt rest
    (by rw [List.length_append, List.length_singleton]; omega) hBare
  obtain ⟨hMissing', -⟩ := hGrown.tables.levels_present
    (hGrown.kept _ _ _ (hKept _ _ _ hNode)) rest (hGrown.kept _ _ _ hAt)
  have hCount := freeCount_grab k.used k.totalPages 1
  rw [grab_succ_of_free hFree, grab] at hCount
  have hSome : 0 < freeCount k.used k.totalPages := by
    obtain ⟨hlt, hClear, -⟩ := firstFree_eq_some_iff.mp hFree
    have := freeCount_take hlt hClear
    omega
  refine
    { tables := hGrown.tables
      static := hStatic.trans hGrown.static
      live_eq := ?_
      reserved_eq := hGrown.reserved_eq.trans hReserved
      used_eq := ?_
      padding := hPadding.trans hStatic.totalPages_eq hGrown.padding
      enough := ?_
      kept := fun r p u hu => hGrown.kept r p u (hKept r p u hu)
      new := ?_
      leaf_eq := hGrown.leaf_eq
      linked := ?_
      missing := ?_
      frame := ?_ }
  · rw [hGrown.live_eq, hLive, List.map_append, List.append_assoc]
    rfl
  · rw [hGrown.used_eq, hUsed, hStatic.totalPages_eq, List.length_append, List.length_singleton,
      grab_succ_of_free hFree]
  · have hEnough := hGrown.enough
    rw [hUsed, hStatic.totalPages_eq, hCount] at hEnough
    rw [List.length_append, List.length_singleton]
    omega
  · intro r p u hu
    rcases hGrown.new r p u hu with hOld | ⟨hTaken, hr, hp⟩
    · rw [RadixForest.node_link] at hOld
      split_ifs at hOld with hCase
      · obtain ⟨rfl, rfl⟩ := hCase
        rw [← Option.some.inj hOld]
        exact Or.inr ⟨by simp, rfl, [i], by simp, List.cons_prefix_cons.mpr ⟨rfl, List.nil_prefix⟩,
          rfl⟩
      · exact Or.inl hOld
    · exact Or.inr ⟨List.mem_append_left _ hTaken, hr, hp.cons⟩
  · intro u hu
    rcases List.mem_append.mp hu with hu | hu
    · obtain ⟨hFresh, p, hp, hAtU⟩ := hGrown.linked u hu
      refine ⟨fun hHas => hFresh ?_, p, hp.cons, hAtU⟩
      obtain ⟨r, q, hq⟩ := hHas
      exact ⟨r, q, hKept r q u hq⟩
    · rw [List.mem_singleton.mp hu]
      exact ⟨hNew, path ++ [i], ⟨[i], by simp, List.cons_prefix_cons.mpr ⟨rfl, List.nil_prefix⟩,
        rfl⟩, hGrown.kept _ _ _ hAt⟩
  · have hSum := hGrown.missing
    rw [hMissing', hMissing, List.length_append, List.length_singleton]
    omega
  · refine (hFrame.mono ?_).trans (hGrown.frame.mono ?_)
    · rintro a (ha | ha | ha)
      · exact Or.inl ha
      · exact Or.inr (Or.inl ⟨n, by simp, ha⟩)
      · exact Or.inr (Or.inr ⟨by simp, entryAddr t i, hSlot, ha⟩)
    · rintro a (ha | ⟨u, hu, ha⟩ | ⟨-, slot, hEq, ha⟩)
      · exact Or.inl ha
      · exact Or.inr (Or.inl ⟨u, List.mem_append_left _ hu, ha⟩)
      · exact Or.inr (Or.inl ⟨n, by simp, hBelowSlot slot hEq a ha⟩)

/--
**The descent.** With as many free pages as levels missing it reaches the level
3 table and takes exactly that many; otherwise it takes every free page and
returns null. Either way the forest has grown along the path by what was taken.
-/
theorem descend_spec (h : PageTables L k F l) (hNode : F.node root path = some t)
    (rest : List (Fin 512)) (hLen : path.length + rest.length < 4) :
    ∃ F' l' taken, Grown L k F l root path t rest (descend t rest k).2 F' l' taken ∧
      if levelsMissing k.mem t rest ≤ freeCount k.used k.totalPages then
        F'.node root (path ++ rest) = some (descend t rest k).1 ∧
          taken.length = levelsMissing k.mem t rest
      else
        (descend t rest k).1 = 0 ∧ taken.length = freeCount k.used k.totalPages := by
  induction rest generalizing path t k F l with
  | nil =>
    refine ⟨F, l, [], Grown.nothing h ⟨rfl, rfl, rfl⟩ rfl, ?_⟩
    rw [levelsMissing, if_pos (Nat.zero_le _), List.append_nil]
    exact ⟨hNode, rfl⟩
  | cons i rest ih =>
    have hLen' := hLen
    rw [List.length_cons] at hLen'
    have hShort : path.length < 3 := by omega
    have hNextLen : (path ++ [i]).length + rest.length < 4 := by
      rw [List.length_append, List.length_singleton]
      omega
    rw [List.append_cons]
    cases hNext : F.node root (path ++ [i]) with
    | some n =>
      have hNonzero : n ≠ 0 := Nat.ne_of_gt (h.table_bounds ⟨root, _, hNext⟩).2.1
      have hCall := getNextLevelTable_present h hNode hNext
      obtain ⟨F', l', taken, hGrown, hOutcome⟩ := ih h hNext hNextLen
      rw [descend, hCall, (h.levels_present hNode rest hNext).1]
      simp only [hNonzero, if_false]
      exact ⟨F', l', taken, hGrown.present h hNode hNext, hOutcome⟩
    | none =>
      rw [(h.levels_absent hNode rest hShort hNext).1]
      cases hFree : firstFree k.used k.totalPages with
      | none =>
        obtain ⟨hNull, hStatic, hMem⟩ := getNextLevelTable_full h hNode hShort hNext hFree
        have hZero := freeCount_eq_zero_iff.mpr (firstFree_eq_none_iff.mp hFree)
        simp only [descend, hNull, if_true]
        refine ⟨F, l, [], Grown.nothing h hStatic hMem, ?_⟩
        rw [hZero, if_neg (by omega)]
        exact ⟨trivial, rfl⟩
      | some s =>
        obtain ⟨hPtr, hStatic, hUsed, hPadding, hFrame, hPos, hUnowned, hNew, hTables⟩ :=
          getNextLevelTable_link h hNode hShort hNext hFree
        have hAt : (F.link root path i (pageAddr k s) ⟨t, hNode⟩ (Nat.succ_lt_succ hShort)
            hNew).node root (path ++ [i]) = some (pageAddr k s) := RadixForest.node_link_self
        have hNonzero : pageAddr k s ≠ 0 := Nat.ne_of_gt (hTables.table_bounds ⟨root, _, hAt⟩).2.1
        obtain ⟨F', l', taken, hGrown, hOutcome⟩ := ih hTables hAt hNextLen
        have hBare : ∀ j, (F.link root path i (pageAddr k s) ⟨t, hNode⟩ (Nat.succ_lt_succ hShort)
            hNew).node root (path ++ [i] ++ [j]) = none := by
          intro j
          rw [RadixForest.node_link, if_neg (by simp), F.node_append_eq_none hNext]
        obtain ⟨hlt, hClear, -⟩ := firstFree_eq_some_iff.mp hFree
        have hCount := freeCount_take hlt hClear
        rw [(hTables.levels_bare hAt rest hNextLen hBare).1, hUsed, hStatic.totalPages_eq] at hOutcome
        simp only [descend, hPtr, hNonzero, if_false]
        refine ⟨F', l', taken ++ [pageAddr k s], Grown.linked_below h hNode hLen hNext hFree hStatic
          hUsed hPadding hFrame hNew ⟨_, _, rfl⟩ hTables rfl rfl hGrown, ?_⟩
        rw [List.length_append, List.length_singleton]
        by_cases hRoom : rest.length + 1 ≤ freeCount k.used k.totalPages
        · rw [if_pos (by omega)] at hOutcome
          rw [if_pos hRoom, hOutcome.2]
          exact ⟨hOutcome.1, rfl⟩
        · rw [if_neg (by omega)] at hOutcome
          rw [if_neg hRoom, hOutcome.2]
          exact ⟨hOutcome.1, hCount⟩

end Kernalite
