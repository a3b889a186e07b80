import Mathlib.Data.List.Chain

/-!
# Run-length encodings

A row of values written as a list of runs, each a value and how often it is
repeated. In a `Canonical` encoding no run is empty and neighbours differ.

* `Canonical.longer`, `Canonical.next` — the encoding grows with the row, from left
  to right;
* `Canonical.unique` — a row has no more than one canonical encoding;
* `placed_*` — where the runs of an encoding lie in the row.
-/

namespace RunLength

variable {α : Type*}

/-- `count` copies of `value`. -/
@[ext] structure Run (α : Type*) where
  value : α
  count : Nat

/-- The row that an encoding stands for. -/
def expand (runs : List (Run α)) : List α :=
  runs.flatMap fun r => List.replicate r.count r.value

/-- No run is empty, and neighbours differ. -/
structure Canonical (runs : List (Run α)) : Prop where
  pos       : ∀ r ∈ runs, 0 < r.count
  alternate : runs.IsChain fun r r' => r'.value ≠ r.value

@[simp] theorem expand_nil : expand ([] : List (Run α)) = [] := rfl

@[simp] theorem expand_cons (r : Run α) (runs : List (Run α)) :
    expand (r :: runs) = List.replicate r.count r.value ++ expand runs := rfl

theorem expand_append (runs runs' : List (Run α)) :
    expand (runs ++ runs') = expand runs ++ expand runs' := List.flatMap_append

-- ---------------------------------------------------------------------------
-- Encoding from left to right
-- ---------------------------------------------------------------------------

section Encoding

variable {runs : List (Run α)} {a b : α} {n : Nat}

theorem Canonical.single (a : α) (hPos : 0 < n) : Canonical [⟨a, n⟩] where
  pos := fun r hr => by rwa [List.mem_singleton.mp hr]
  alternate := List.isChain_singleton _

/-- The value of the last run once more. -/
theorem Canonical.longer (h : Canonical (runs ++ [⟨a, n⟩])) : Canonical (runs ++ [⟨a, n + 1⟩]) where
  pos := by
    intro r hr
    rcases List.mem_append.mp hr with hr | hr
    · exact h.pos r (List.mem_append_left _ hr)
    · rw [List.mem_singleton.mp hr]
      exact Nat.succ_pos n
  alternate := by
    have hChain := List.isChain_append.mp h.alternate
    exact List.isChain_append.mpr ⟨hChain.1, List.isChain_singleton _, fun r hr r' hr' => by
      rw [List.head?_cons, Option.mem_some_iff] at hr'
      subst hr'
      exact hChain.2.2 r hr ⟨a, n⟩ rfl⟩

theorem expand_longer (runs : List (Run α)) (a : α) (n : Nat) :
    expand (runs ++ [⟨a, n + 1⟩]) = expand (runs ++ [⟨a, n⟩]) ++ [a] := by
  simp only [expand_append, expand_cons, expand_nil, List.append_nil, List.replicate_succ',
    List.append_assoc]

/-- Another value: a new run. -/
theorem Canonical.next (h : Canonical (runs ++ [⟨a, n⟩])) (hNe : b ≠ a) :
    Canonical (runs ++ [⟨a, n⟩] ++ [⟨b, 1⟩]) where
  pos := by
    intro r hr
    rcases List.mem_append.mp hr with hr | hr
    · exact h.pos r hr
    · rw [List.mem_singleton.mp hr]
      exact Nat.one_pos
  alternate := by
    refine List.isChain_append.mpr ⟨h.alternate, List.isChain_singleton _, fun r hr r' hr' => ?_⟩
    rw [List.getLast?_concat, Option.mem_some_iff] at hr
    rw [List.head?_cons, Option.mem_some_iff] at hr'
    subst hr hr'
    exact hNe

theorem expand_next (runs : List (Run α)) (b : α) :
    expand (runs ++ [⟨b, 1⟩]) = expand runs ++ [b] :=
  expand_append _ _

end Encoding

-- ---------------------------------------------------------------------------
-- Uniqueness
-- ---------------------------------------------------------------------------

/-- Where the copies of a value end is determined by the row. -/
theorem replicate_append_inj {a : α} {n m : Nat} {xs ys : List α}
    (hx : xs.head? ≠ some a) (hy : ys.head? ≠ some a)
    (h : List.replicate n a ++ xs = List.replicate m a ++ ys) : n = m ∧ xs = ys := by
  induction n generalizing m with
  | zero =>
    cases m with
    | zero => exact ⟨rfl, h⟩
    | succ m =>
      rw [List.replicate_zero, List.nil_append] at h
      exact absurd (h ▸ rfl) hx
  | succ n ih =>
    cases m with
    | zero =>
      rw [List.replicate_zero, List.nil_append] at h
      exact absurd (h ▸ rfl) hy
    | succ m =>
      rw [List.replicate_succ, List.replicate_succ, List.cons_append, List.cons_append] at h
      obtain ⟨hCount, hRest⟩ := ih (List.cons.inj h).2
      exact ⟨by rw [hCount], hRest⟩

theorem Canonical.tail {r : Run α} {runs : List (Run α)} (h : Canonical (r :: runs)) :
    Canonical runs where
  pos := fun r' hr' => h.pos r' (List.mem_cons_of_mem _ hr')
  alternate := h.alternate.tail

theorem expand_head {r : Run α} (runs : List (Run α)) (hPos : 0 < r.count) :
    (expand (r :: runs)).head? = some r.value := by
  obtain ⟨n, hn⟩ := Nat.exists_eq_succ_of_ne_zero (Nat.ne_of_gt hPos)
  rw [expand_cons, hn]
  rfl

/-- What follows a run starts with another value. -/
theorem Canonical.head_ne {r : Run α} {runs : List (Run α)} (h : Canonical (r :: runs)) :
    (expand runs).head? ≠ some r.value := by
  cases runs with
  | nil => exact nofun
  | cons r' runs =>
    rw [expand_head runs (h.pos r' (by simp))]
    exact fun hEq => h.alternate.rel_head? rfl (Option.some.inj hEq)

/-- **A row has no more than one canonical encoding.** -/
theorem Canonical.unique {runs runs' : List (Run α)} (h : Canonical runs) (h' : Canonical runs')
    (hExpand : expand runs = expand runs') : runs = runs' := by
  induction runs generalizing runs' with
  | nil =>
    cases runs' with
    | nil => rfl
    | cons r' runs' =>
      have hHead := expand_head runs' (h'.pos r' (by simp))
      rw [← hExpand] at hHead
      exact absurd hHead nofun
  | cons r runs ih =>
    have hHead := expand_head runs (h.pos r (by simp))
    cases runs' with
    | nil =>
      rw [hExpand] at hHead
      exact absurd hHead nofun
    | cons r' runs' =>
      rw [hExpand, expand_head runs' (h'.pos r' (by simp))] at hHead
      have hValue : r'.value = r.value := Option.some.inj hHead
      rw [expand_cons, expand_cons, hValue] at hExpand
      obtain ⟨hCount, hRest⟩ := replicate_append_inj h.head_ne (hValue ▸ h'.head_ne) hExpand
      have hRun : r = r' := Run.ext hValue.symm hCount
      rw [hRun, ih h.tail h'.tail hRest]

-- ---------------------------------------------------------------------------
-- Where the runs lie
-- ---------------------------------------------------------------------------

/-- Each run with the place where it starts, the first one at `i`. -/
def placed (i : Nat) : List (Run α) → List (Nat × Run α)
  | [] => []
  | r :: runs => (i, r) :: placed (i + r.count) runs

variable {i : Nat} {runs : List (Run α)}

@[simp] theorem placed_map_snd (i : Nat) (runs : List (Run α)) :
    (placed i runs).map Prod.snd = runs := by
  induction runs generalizing i with
  | nil => rfl
  | cons r runs ih => rw [placed, List.map_cons, ih]

theorem length_expand_cons (r : Run α) (runs : List (Run α)) :
    (expand (r :: runs)).length = r.count + (expand runs).length := by
  rw [expand_cons, List.length_append, List.length_replicate]

theorem placed_append (runs runs' : List (Run α)) :
    placed i (runs ++ runs') = placed i runs ++ placed (i + (expand runs).length) runs' := by
  induction runs generalizing i with
  | nil => rfl
  | cons r runs ih =>
    rw [List.cons_append, placed, ih, length_expand_cons, Nat.add_assoc]
    rfl

/-- Neighbours lie next to each other. -/
theorem placed_chain (i : Nat) (runs : List (Run α)) :
    (placed i runs).IsChain fun p p' => p'.1 = p.1 + p.2.count := by
  induction runs generalizing i with
  | nil => exact List.isChain_nil
  | cons r runs ih =>
    refine (ih (i + r.count)).cons fun p hp => ?_
    cases runs with
    | nil => exact absurd hp (by simp [placed])
    | cons r' runs => rw [placed, List.head?_cons, Option.mem_some_iff] at hp; rw [← hp]

/-- The last run ends where the row ends. -/
theorem placed_last (hNe : runs ≠ []) :
    (placed i runs).getLast?.map (fun p => p.1 + p.2.count) = some (i + (expand runs).length) := by
  induction runs generalizing i with
  | nil => exact absurd rfl hNe
  | cons r runs ih =>
    rw [length_expand_cons, ← Nat.add_assoc]
    cases runs with
    | nil => rfl
    | cons r' runs => exact ih (List.cons_ne_nil _ _)

/-- A run lies inside the row and shows its values. -/
theorem placed_mem {p : Nat × Run α} (h : p ∈ placed i runs) :
    i ≤ p.1 ∧ p.1 + p.2.count ≤ i + (expand runs).length ∧
      ∀ j, p.1 ≤ j → j < p.1 + p.2.count → (expand runs)[j - i]? = some p.2.value := by
  induction runs generalizing i with
  | nil => exact absurd h List.not_mem_nil
  | cons r runs ih =>
    rw [length_expand_cons]
    rcases List.mem_cons.mp h with rfl | h
    · refine ⟨Nat.le_refl i, Nat.add_le_add_left (Nat.le_add_right _ _) i, fun j hlo hhi => ?_⟩
      dsimp only at hlo hhi ⊢
      rw [expand_cons, List.getElem?_append_left (by rw [List.length_replicate]; omega),
        List.getElem?_replicate_of_lt (by omega)]
    · obtain ⟨hStart, hEnd, hValue⟩ := ih h
      refine ⟨by omega, by omega, fun j hlo hhi => ?_⟩
      rw [expand_cons, List.getElem?_append_right (by rw [List.length_replicate]; omega),
        List.length_replicate, ← hValue j hlo hhi]
      congr 1
      omega

end RunLength
