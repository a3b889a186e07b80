import Mathlib.Tactic.Common

/-!
# Counted loops

`forRange lo hi body s` is `for (i = lo; i < hi; i++) s = body(i, s)`. A loop is
reasoned about through `forRange_inv`: a property of the index and the state
that each round preserves holds when the loop ends.
-/

namespace Loop

variable {σ : Type*}

/-- `n` rounds of `body`, the index counting up from `lo`. -/
def rounds (body : Nat → σ → σ) : Nat → Nat → σ → σ
  | _, 0, s => s
  | lo, n + 1, s => rounds body (lo + 1) n (body lo s)

/-- `for (i = lo; i < hi; i++) s = body(i, s)`. -/
def forRange (lo hi : Nat) (body : Nat → σ → σ) (s : σ) : σ :=
  rounds body lo (hi - lo) s

theorem rounds_inv {body : Nat → σ → σ} {P : Nat → σ → Prop} {lo n : Nat} {s : σ}
    (hInit : P lo s)
    (hStep : ∀ i s, lo ≤ i → i < lo + n → P i s → P (i + 1) (body i s)) :
    P (lo + n) (rounds body lo n s) := by
  induction n generalizing lo s with
  | zero => exact hInit
  | succ n ih =>
    rw [rounds, show lo + (n + 1) = lo + 1 + n by omega]
    apply ih
    · exact hStep lo s (by omega) (by omega) hInit
    · intro i t hlo hhi hP
      exact hStep i t (by omega) (by omega) hP

/-- **Invariant rule.** What holds before the first round and is kept by every
round holds after the last. -/
theorem forRange_inv {body : Nat → σ → σ} (P : Nat → σ → Prop) {lo hi : Nat} {s : σ}
    (hle : lo ≤ hi) (hInit : P lo s)
    (hStep : ∀ i s, lo ≤ i → i < hi → P i s → P (i + 1) (body i s)) :
    P hi (forRange lo hi body s) := by
  have h : P (lo + (hi - lo)) (rounds body lo (hi - lo) s) := rounds_inv hInit
    (fun i t hlo hhi hP => hStep i t hlo (by omega) hP)
  rwa [show lo + (hi - lo) = hi by omega] at h

/-- An empty range runs no round. -/
theorem forRange_of_le {body : Nat → σ → σ} {lo hi : Nat} {s : σ} (h : hi ≤ lo) :
    forRange lo hi body s = s := by
  rw [forRange, show hi - lo = 0 by omega, rounds]

/-- What every round keeps, the loop keeps, whatever its bounds. -/
theorem forRange_preserves {body : Nat → σ → σ} (P : σ → Prop) (lo hi : Nat) {s : σ}
    (hInit : P s) (hStep : ∀ i s, P s → P (body i s)) : P (forRange lo hi body s) := by
  rcases Nat.le_total lo hi with hle | hle
  · exact forRange_inv (fun _ => P) hle hInit fun i t _ _ hP => hStep i t hP
  · rwa [forRange_of_le hle]

/-- Bodies that agree on the range make the same loop. -/
theorem forRange_congr {body body' : Nat → σ → σ} {lo hi : Nat} (s : σ)
    (h : ∀ i t, lo ≤ i → i < hi → body i t = body' i t) :
    forRange lo hi body s = forRange lo hi body' s := by
  rcases Nat.le_total lo hi with hle | hle
  · unfold forRange
    obtain ⟨n, rfl⟩ := Nat.exists_eq_add_of_le hle
    rw [Nat.add_sub_cancel_left]
    clear hle
    induction n generalizing lo s with
    | zero => rfl
    | succ n ih =>
      rw [rounds, rounds, h lo s (by omega) (by omega)]
      exact ih _ fun i t hlo hhi => h i t (by omega) (by omega)
  · rw [forRange_of_le hle, forRange_of_le hle]

theorem rounds_succ (body : Nat → σ → σ) (lo n : Nat) (s : σ) :
    rounds body lo (n + 1) s = body (lo + n) (rounds body lo n s) := by
  induction n generalizing lo s with
  | zero => rfl
  | succ n ih => rw [rounds, ih, Nat.succ_add_eq_add_succ, rounds]

/-- The last round apart. -/
theorem forRange_succ (body : Nat → σ → σ) {lo hi : Nat} (hle : lo ≤ hi) (s : σ) :
    forRange lo (hi + 1) body s = body hi (forRange lo hi body s) := by
  rw [forRange, forRange, Nat.succ_sub hle, rounds_succ, Nat.add_sub_cancel' hle]

/-- Counting from `0` with an offset is counting from the offset. -/
theorem forRange_offset (body : Nat → σ → σ) (a n : Nat) (s : σ) :
    forRange 0 n (fun i => body (a + i)) s = forRange a (a + n) body s := by
  have hShift : ∀ lo (t : σ), rounds (fun i => body (a + i)) lo n t = rounds body (a + lo) n t := by
    induction n with
    | zero => exact fun _ _ => rfl
    | succ n ih => exact fun lo t => ih (lo + 1) (body (a + lo) t)
  rw [forRange, forRange, Nat.sub_zero, Nat.add_sub_cancel_left, hShift, Nat.add_zero]

/-- Two loops over the same range stay related when their rounds do. -/
theorem forRange_rel {τ : Type*} {body : Nat → σ → σ} {body' : Nat → τ → τ} (R : σ → τ → Prop)
    (lo hi : Nat) {s : σ} {t : τ} (hInit : R s t)
    (hStep : ∀ i s t, R s t → R (body i s) (body' i t)) :
    R (forRange lo hi body s) (forRange lo hi body' t) := by
  unfold forRange
  generalize hi - lo = n
  induction n generalizing lo s t with
  | zero => exact hInit
  | succ n ih => exact ih (lo + 1) (hStep lo s t hInit)

/-- A loop whose rounds only write to a log writes what they write, in order. -/
theorem forRange_log {β : Type*} {emit : σ → List β → σ} {n : Nat} {body : Nat → σ → σ} {s : σ}
    (hNil : ∀ s, emit s [] = s)
    (hAppend : ∀ s xs ys, emit (emit s xs) ys = emit s (xs ++ ys)) (out : Fin n → List β)
    (hStep : ∀ (i : Fin n) xs, body i (emit s xs) = emit (emit s xs) (out i)) :
    forRange 0 n body s = emit s ((List.finRange n).flatMap out) := by
  have hRun : forRange 0 n body s = emit s (((List.finRange n).take n).flatMap out) := by
    refine forRange_inv (fun j t => t = emit s (((List.finRange n).take j).flatMap out))
      (Nat.zero_le n) (hNil s).symm ?_
    rintro i _ - hi rfl
    have hLen : i < (List.finRange n).length := by rwa [List.length_finRange]
    rw [hStep ⟨i, hi⟩, hAppend, List.take_succ_eq_append_getElem hLen, List.flatMap_append,
      List.flatMap_singleton, List.getElem_finRange]
    rfl
  rwa [List.take_of_length_le (Nat.le_of_eq List.length_finRange)] at hRun

end Loop
