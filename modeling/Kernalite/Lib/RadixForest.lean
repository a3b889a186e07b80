import Mathlib.Tactic.Common
import Mathlib.Tactic.SplitIfs
import Mathlib.Data.List.Induction

/-!
# Forests of radix trees

A `RadixForest α ι β depth` is a set of trees of fixed depth that share an
address space: `node r p` is the address of the node that path `p` leads to from
the root `r`, and `leaf r p` the value a full path ends in. The fields say what
makes it a forest: nodes are reached through their parents, inner paths are
shorter than `depth`, and no address is reached twice, neither along two paths
nor from two roots. Planting a root, linking a fresh node and writing a leaf
keep this by construction.

* `node_append_eq_none` — below an absent node everything is absent;
* `node_plant`, `node_link`, `leaf_setLeaf` — what each operation changes.
-/

structure RadixForest (α ι β : Type*) (depth : Nat) where
  node : α → List ι → Option α
  leaf : α → List ι → Option β
  node_root   : ∀ r n, node r [] = some n → n = r
  node_parent : ∀ r p i n, node r (p ++ [i]) = some n → ∃ m, node r p = some m
  node_length : ∀ r p n, node r p = some n → p.length < depth
  node_inj    : ∀ r r' p p' n, node r p = some n → node r' p' = some n → r = r' ∧ p = p'
  leaf_nil    : ∀ r, leaf r [] = none
  leaf_parent : ∀ r p i v, leaf r (p ++ [i]) = some v → p.length + 1 = depth ∧ ∃ m, node r p = some m

namespace RadixForest

variable {α ι β : Type*} {depth : Nat}

/-- The forest with no trees. -/
def empty (α ι β : Type*) (depth : Nat) : RadixForest α ι β depth where
  node _ _ := none
  leaf _ _ := none
  node_root := by simp
  node_parent := by simp
  node_length := by simp
  node_inj := by simp
  leaf_nil := by simp
  leaf_parent := by simp

/-- Some path of the forest leads to this address. -/
def Has (F : RadixForest α ι β depth) (n : α) : Prop := ∃ r p, F.node r p = some n

variable (F : RadixForest α ι β depth)

theorem node_append_eq_none {r : α} {p : List ι} (h : F.node r p = none) (q : List ι) :
    F.node r (p ++ q) = none := by
  induction q using List.reverseRecOn with
  | nil => rwa [List.append_nil]
  | append_singleton q i ih =>
    cases hNode : F.node r (p ++ (q ++ [i])) with
    | none => rfl
    | some n =>
      rw [← List.append_assoc] at hNode
      obtain ⟨m, hParent⟩ := F.node_parent _ _ _ _ hNode
      rw [ih] at hParent
      exact absurd hParent (by simp)

/-- Paths as long as the forest is deep lead to no node. -/
theorem node_eq_none_of_length {p : List ι} (h : depth ≤ p.length) (r : α) : F.node r p = none := by
  cases hNode : F.node r p with
  | none => rfl
  | some n => exact absurd (F.node_length r p n hNode) (Nat.not_lt.mpr h)

/-- Every node of a tree hangs below its root. -/
theorem root_of_node {r n : α} {p : List ι} (h : F.node r p = some n) : F.node r [] = some r := by
  cases hRoot : F.node r [] with
  | none =>
    have hNone := F.node_append_eq_none hRoot p
    rw [List.nil_append, h] at hNone
    exact absurd hNone (by simp)
  | some m => rw [F.node_root r m hRoot]

/-- Below an absent node there is no leaf. -/
theorem leaf_append_eq_none {r : α} {p : List ι} (h : F.node r p = none) {q : List ι}
    (hq : q ≠ []) : F.leaf r (p ++ q) = none := by
  obtain ⟨q, i, rfl⟩ := List.eq_nil_or_concat q |>.resolve_left hq
  rw [List.concat_eq_append, ← List.append_assoc]
  cases hLeaf : F.leaf r (p ++ q ++ [i]) with
  | none => rfl
  | some v =>
    obtain ⟨-, m, hParent⟩ := F.leaf_parent _ _ _ _ hLeaf
    rw [F.node_append_eq_none h] at hParent
    exact absurd hParent (by simp)

-- ---------------------------------------------------------------------------
-- Operations
-- ---------------------------------------------------------------------------

section Operations

variable [DecidableEq α]

/-- A new tree: a root and nothing below it. -/
def plant (r : α) (hDepth : 0 < depth) (hFresh : ¬ F.Has r) : RadixForest α ι β depth where
  node r' p' := if r' = r ∧ p' = [] then some r else F.node r' p'
  leaf := F.leaf
  node_root := by
    intro r' n h
    by_cases hr : r' = r
    · simp only [hr, and_self, if_true, Option.some.injEq] at h
      rw [hr, h]
    · simp only [hr, false_and, if_false] at h
      exact F.node_root r' n h
  node_parent := by
    intro r' p i n h
    rw [if_neg (by simp)] at h
    obtain ⟨m, hParent⟩ := F.node_parent r' p i n h
    split_ifs
    · exact ⟨r, rfl⟩
    · exact ⟨m, hParent⟩
  node_length := by
    intro r' p n h
    split_ifs at h with hNew
    · rw [hNew.2]
      exact hDepth
    · exact F.node_length r' p n h
  node_inj := by
    intro r₁ r₂ p₁ p₂ n h₁ h₂
    split_ifs at h₁ h₂ with hNew₁ hNew₂ hNew₂
    · exact ⟨hNew₁.1.trans hNew₂.1.symm, hNew₁.2.trans hNew₂.2.symm⟩
    · rw [← h₁] at h₂
      exact absurd ⟨r₂, p₂, h₂⟩ hFresh
    · rw [← h₂] at h₁
      exact absurd ⟨r₁, p₁, h₁⟩ hFresh
    · exact F.node_inj r₁ r₂ p₁ p₂ n h₁ h₂
  leaf_nil := F.leaf_nil
  leaf_parent := by
    intro r' p i v h
    obtain ⟨hLen, m, hParent⟩ := F.leaf_parent r' p i v h
    refine ⟨hLen, ?_⟩
    split_ifs
    · exact ⟨r, rfl⟩
    · exact ⟨m, hParent⟩

theorem node_plant {r : α} {hDepth : 0 < depth} {hFresh : ¬ F.Has r} (r' : α) (p' : List ι) :
    (F.plant r hDepth hFresh).node r' p' =
      if r' = r ∧ p' = [] then some r else F.node r' p' := rfl

variable [DecidableEq ι]

/-- Hang the fresh node `n` below the node at `p`, in slot `i`. -/
def link (r : α) (p : List ι) (i : ι) (n : α) (hParent : ∃ m, F.node r p = some m)
    (hLen : p.length + 1 < depth) (hFresh : ¬ F.Has n) : RadixForest α ι β depth where
  node r' p' := if r' = r ∧ p' = p ++ [i] then some n else F.node r' p'
  leaf := F.leaf
  node_root := by
    intro r' m h
    rw [if_neg (by simp)] at h
    exact F.node_root r' m h
  node_parent := by
    intro r' p' j m h
    have hOld : ∃ m, F.node r' p' = some m := by
      split_ifs at h with hNew
      · obtain ⟨hr, hp⟩ := hNew
        rw [hr, (List.append_inj' hp rfl).1]
        exact hParent
      · exact F.node_parent r' p' j m h
    split_ifs
    · exact ⟨n, rfl⟩
    · exact hOld
  node_length := by
    intro r' p' m h
    split_ifs at h with hNew
    · rw [hNew.2, List.length_append]
      exact hLen
    · exact F.node_length r' p' m h
  node_inj := by
    intro r₁ r₂ p₁ p₂ m h₁ h₂
    split_ifs at h₁ h₂ with hNew₁ hNew₂ hNew₂
    · exact ⟨hNew₁.1.trans hNew₂.1.symm, hNew₁.2.trans hNew₂.2.symm⟩
    · rw [← h₁] at h₂
      exact absurd ⟨r₂, p₂, h₂⟩ hFresh
    · rw [← h₂] at h₁
      exact absurd ⟨r₁, p₁, h₁⟩ hFresh
    · exact F.node_inj r₁ r₂ p₁ p₂ m h₁ h₂
  leaf_nil := F.leaf_nil
  leaf_parent := by
    intro r' p' j v h
    obtain ⟨hDepth, m, hOld⟩ := F.leaf_parent r' p' j v h
    refine ⟨hDepth, ?_⟩
    split_ifs
    · exact ⟨n, rfl⟩
    · exact ⟨m, hOld⟩

/-- Write the leaf in slot `i` of the last node of a path. -/
def setLeaf (r : α) (p : List ι) (i : ι) (v : β) (hParent : ∃ m, F.node r p = some m)
    (hLen : p.length + 1 = depth) : RadixForest α ι β depth where
  node := F.node
  leaf r' p' := if r' = r ∧ p' = p ++ [i] then some v else F.leaf r' p'
  node_root := F.node_root
  node_parent := F.node_parent
  node_length := F.node_length
  node_inj := F.node_inj
  leaf_nil := by
    intro r'
    rw [if_neg (by simp)]
    exact F.leaf_nil r'
  leaf_parent := by
    intro r' p' j w h
    split_ifs at h with hNew
    · obtain ⟨hr, hp⟩ := hNew
      rw [hr, (List.append_inj' hp rfl).1]
      exact ⟨hLen, hParent⟩
    · exact F.leaf_parent r' p' j w h

variable {F}

section Link

variable {r n : α} {p : List ι} {i : ι} {hParent : ∃ m, F.node r p = some m}
  {hLen : p.length + 1 < depth} {hFresh : ¬ F.Has n}

theorem node_link (r' : α) (p' : List ι) :
    (F.link r p i n hParent hLen hFresh).node r' p' =
      if r' = r ∧ p' = p ++ [i] then some n else F.node r' p' := rfl

theorem node_link_self : (F.link r p i n hParent hLen hFresh).node r (p ++ [i]) = some n := by
  rw [node_link, if_pos ⟨rfl, rfl⟩]

/-- A link into an empty slot removes no node. -/
theorem node_link_of_some (hAbsent : F.node r (p ++ [i]) = none) {r' m : α} {p' : List ι}
    (h : F.node r' p' = some m) : (F.link r p i n hParent hLen hFresh).node r' p' = some m := by
  rw [node_link, if_neg]
  · exact h
  · rintro ⟨rfl, rfl⟩
    rw [hAbsent] at h
    exact absurd h (by simp)

end Link

theorem leaf_setLeaf {r : α} {p : List ι} {i : ι} {v : β} {hParent : ∃ m, F.node r p = some m}
    {hLen : p.length + 1 = depth} (r' : α) (p' : List ι) :
    (F.setLeaf r p i v hParent hLen).leaf r' p' =
      if r' = r ∧ p' = p ++ [i] then some v else F.leaf r' p' := rfl

end Operations

end RadixForest
