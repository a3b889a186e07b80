import Kernalite.Lib.RadixForest
import Mathlib.Data.List.Sort
import Mathlib.Data.Nat.Digits.Defs

/-!
# Traversing a radix forest

The leaves of a tree in the order a nested loop over the digits meets them.

* `number_append_lt` — of two paths of one length, the one with the smaller prefix
  spells the smaller number;
* `mem_leaves`, `leaves_sorted` — the traversal lists every leaf, in increasing
  order of the numbers their paths spell.
-/

namespace RadixForest

variable {α β : Type*} {b depth : Nat}

-- ---------------------------------------------------------------------------
-- Paths as numbers
-- ---------------------------------------------------------------------------

/-- The number a path spells, most significant digit first. -/
def number (p : List (Fin b)) : Nat := Nat.ofDigits b (p.reverse.map Fin.val)

@[simp] theorem number_nil : number ([] : List (Fin b)) = 0 := rfl

theorem number_append (p q : List (Fin b)) :
    number (p ++ q) = number p * b ^ q.length + number q := by
  rw [number, List.reverse_append, List.map_append, Nat.ofDigits_append, List.length_map,
    List.length_reverse, Nat.mul_comm, Nat.add_comm, number, number]

theorem number_append_singleton (p : List (Fin b)) (i : Fin b) :
    number (p ++ [i]) = number p * b + i := by
  have hDigit : number [i] = i := Nat.ofDigits_singleton
  rw [number_append, hDigit, List.length_singleton, Nat.pow_one]

theorem number_lt (p : List (Fin b)) : number p < b ^ p.length := by
  induction p using List.reverseRecOn with
  | nil => exact Nat.one_pos
  | append_singleton p i ih =>
    have hRoom : (number p + 1) * b ≤ b ^ p.length * b := Nat.mul_le_mul_right b ih
    have := i.isLt
    rw [number_append_singleton, List.length_append, List.length_singleton, Nat.pow_succ]
    rw [Nat.add_one_mul] at hRoom
    omega

/-- A path of a given length is the number it spells. -/
theorem number_inj {p q : List (Fin b)} (hLen : p.length = q.length) (h : number p = number q) :
    p = q := by
  induction p using List.reverseRecOn generalizing q with
  | nil => exact (List.length_eq_zero_iff.mp hLen.symm).symm
  | append_singleton p i ih =>
    obtain rfl | ⟨q, j, rfl⟩ := q.eq_nil_or_concat'
    · simp at hLen
    rw [number_append_singleton, number_append_singleton] at h
    have hPos : 0 < b := Fin.pos i
    have hDiv := congrArg (· / b) h
    have hMod := congrArg (· % b) h
    simp only [Nat.mul_comm _ b, Nat.mul_add_div hPos, Nat.div_eq_of_lt i.isLt, Nat.div_eq_of_lt j.isLt,
      Nat.mul_add_mod, Nat.mod_eq_of_lt i.isLt, Nat.mod_eq_of_lt j.isLt, Nat.add_zero] at hDiv hMod
    rw [ih (by simpa using hLen) hDiv, Fin.ext hMod]

/-- A smaller prefix makes a smaller number. -/
theorem number_append_lt {p p' q q' : List (Fin b)} (h : number p < number p')
    (hLen : q.length = q'.length) : number (p ++ q) < number (p' ++ q') := by
  have hBelow := number_lt q
  have hRoom : (number p + 1) * b ^ q.length ≤ number p' * b ^ q.length := Nat.mul_le_mul_right _ h
  rw [Nat.add_one_mul] at hRoom
  rw [number_append, number_append, ← hLen]
  omega

-- ---------------------------------------------------------------------------
-- Leaves in order
-- ---------------------------------------------------------------------------

variable (F : RadixForest α (Fin b) β depth) (r : α)

/-- The leaves `d` levels below a path, with their own paths. -/
def leavesBelow : Nat → List (Fin b) → List (List (Fin b) × β)
  | 0, p => (F.leaf r p).toList.map (p, ·)
  | d + 1, p => (List.finRange b).flatMap fun i => leavesBelow d (p ++ [i])

/-- All leaves of a tree. -/
def leaves : List (List (Fin b) × β) := F.leavesBelow r depth []

variable {F r}

theorem mem_leavesBelow {d : Nat} {p q : List (Fin b)} {v : β} :
    (q, v) ∈ F.leavesBelow r d p ↔ F.leaf r q = some v ∧ ∃ t, t.length = d ∧ q = p ++ t := by
  induction d generalizing p with
  | zero =>
    simp only [leavesBelow, List.mem_map, Option.mem_toList, Prod.mk.injEq,
      List.length_eq_zero_iff, exists_eq_left, List.append_nil]
    constructor
    · rintro ⟨w, hLeaf, rfl, rfl⟩
      exact ⟨hLeaf, rfl⟩
    · rintro ⟨hLeaf, rfl⟩
      exact ⟨v, hLeaf, rfl, rfl⟩
  | succ d ih =>
    simp only [leavesBelow, List.mem_flatMap, List.mem_finRange, true_and, ih]
    constructor
    · rintro ⟨i, hLeaf, t, hLen, rfl⟩
      exact ⟨hLeaf, i :: t, congrArg (· + 1) hLen, (List.append_cons p i t).symm⟩
    · rintro ⟨hLeaf, _ | ⟨i, t⟩, hLen, rfl⟩
      · exact absurd hLen (Nat.succ_ne_zero d).symm
      · exact ⟨i, hLeaf, t, Nat.succ.inj hLen, List.append_cons p i t⟩

/-- Below an absent node the traversal lists nothing. -/
theorem leavesBelow_eq_nil {d : Nat} {p : List (Fin b)} (h : F.node r p = none) :
    F.leavesBelow r (d + 1) p = [] := by
  refine List.eq_nil_iff_forall_not_mem.mpr fun ⟨q, v⟩ hMem => ?_
  obtain ⟨hLeaf, t, hLen, rfl⟩ := mem_leavesBelow.mp hMem
  rw [F.leaf_append_eq_none h (List.ne_nil_of_length_eq_add_one hLen)] at hLeaf
  exact absurd hLeaf (by simp)

theorem leavesBelow_sorted (d : Nat) (p : List (Fin b)) :
    (F.leavesBelow r d p).Pairwise fun x y => number x.1 < number y.1 := by
  induction d generalizing p with
  | zero =>
    rw [leavesBelow]
    cases F.leaf r p with
    | none => exact List.Pairwise.nil
    | some v => exact List.pairwise_singleton _ _
  | succ d ih =>
    rw [leavesBelow, List.pairwise_flatMap]
    refine ⟨fun i _ => ih _, (List.sortedLT_finRange b).pairwise.imp fun {i j} hij => ?_⟩
    rintro ⟨_, v⟩ hx ⟨_, w⟩ hy
    obtain ⟨-, t, hLenX, rfl⟩ := mem_leavesBelow.mp hx
    obtain ⟨-, u, hLenY, rfl⟩ := mem_leavesBelow.mp hy
    refine number_append_lt ?_ (hLenX.trans hLenY.symm)
    rw [number_append_singleton, number_append_singleton]
    exact Nat.add_lt_add_left hij _

/-- A leaf lies at full depth. -/
theorem length_of_leaf {q : List (Fin b)} {v : β} (h : F.leaf r q = some v) : q.length = depth := by
  obtain rfl | ⟨p, i, rfl⟩ := q.eq_nil_or_concat'
  · rw [F.leaf_nil] at h
    exact absurd h (by simp)
  · rw [List.length_append, List.length_singleton]
    exact (F.leaf_parent r p i v h).1

/-- **The traversal lists the leaves of the tree.** -/
theorem mem_leaves {q : List (Fin b)} {v : β} : (q, v) ∈ F.leaves r ↔ F.leaf r q = some v := by
  rw [leaves, mem_leavesBelow]
  refine ⟨And.left, fun h => ⟨h, q, length_of_leaf h, (List.nil_append q).symm⟩⟩

/-- **They come in increasing order**, so none comes twice. -/
theorem leaves_sorted : (F.leaves r).Pairwise fun x y => number x.1 < number y.1 :=
  leavesBelow_sorted depth []

end RadixForest
