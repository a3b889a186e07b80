import Mathlib.Tactic.Common
import Mathlib.Tactic.SplitIfs

/-!
# Bit-fields of a machine word

A field is an offset and a length. `get` and `set` are the extraction and the
masked write a C compiler emits for a struct bit-field; `getLsbD_set` says what
every bit of the word is after a write, and the two rewriting rules
`get_set_same` and `get_set_apart` follow from it.
-/

/-- `len` bits starting at bit `off`. -/
structure BitField where
  off : Nat
  len : Nat
  deriving DecidableEq, Repr

namespace BitField

variable {w : Nat}

/-- Read the field. -/
def get (f : BitField) (v : BitVec w) : BitVec f.len :=
  v.extractLsb' f.off f.len

/-- Write the field, leaving every other bit of the word alone. -/
def set (f : BitField) (v : BitVec w) (x : BitVec f.len) : BitVec w :=
  (v &&& ~~~((BitVec.allOnes f.len).setWidth w <<< f.off)) ||| (x.setWidth w <<< f.off)

/-- The two fields share no bit. -/
def Apart (f g : BitField) : Prop := f.off + f.len ≤ g.off ∨ g.off + g.len ≤ f.off

instance (f g : BitField) : Decidable (f.Apart g) :=
  inferInstanceAs (Decidable (_ ∨ _))

/-- Every bit of a word after a field of it is written. -/
theorem getLsbD_set (f : BitField) (v : BitVec w) (x : BitVec f.len) {i : Nat} (hi : i < w) :
    (f.set v x).getLsbD i =
      if f.off ≤ i ∧ i < f.off + f.len then x.getLsbD (i - f.off) else v.getLsbD i := by
  simp only [set, BitVec.getLsbD_or, BitVec.getLsbD_and, BitVec.getLsbD_not,
    BitVec.getLsbD_shiftLeft, BitVec.getLsbD_setWidth, BitVec.getLsbD_allOnes]
  by_cases hlo : f.off ≤ i
  · have hsub : i - f.off < w := by omega
    by_cases hhi : i < f.off + f.len
    · simp [hlo, hhi, hi, hsub, show ¬ i < f.off by omega, show i - f.off < f.len by omega]
    · have hhigh : x.getLsbD (i - f.off) = false := BitVec.getLsbD_of_ge _ _ (by omega)
      simp [hhi, hi, hhigh, show ¬ i - f.off < f.len by omega]
  · simp [hlo, hi, show i < f.off by omega]

@[simp] theorem get_set_same (f : BitField) (hf : f.off + f.len ≤ w) (v : BitVec w)
    (x : BitVec f.len) : f.get (f.set v x) = x := by
  apply BitVec.eq_of_getLsbD_eq
  intro i hi
  rw [get, BitVec.getLsbD_extractLsb', getLsbD_set _ _ _ (by omega)]
  simp [hi]

@[simp] theorem get_set_apart {f g : BitField} (h : f.Apart g) (hf : f.off + f.len ≤ w)
    (v : BitVec w) (x : BitVec g.len) : f.get (g.set v x) = f.get v := by
  apply BitVec.eq_of_getLsbD_eq
  intro i hi
  rw [get, get, BitVec.getLsbD_extractLsb', BitVec.getLsbD_extractLsb',
    getLsbD_set _ _ _ (by omega), if_neg]
  unfold Apart at h
  omega

/-- Writing the same field twice keeps the second value. -/
theorem set_set_same (f : BitField) (v : BitVec w) (x y : BitVec f.len) :
    f.set (f.set v x) y = f.set v y := by
  apply BitVec.eq_of_getLsbD_eq
  intro i hi
  simp only [getLsbD_set _ _ _ hi]
  split_ifs <;> rfl

end BitField
