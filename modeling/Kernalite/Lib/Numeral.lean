import Mathlib.Data.Nat.Digits.Defs

/-!
# Numerals

Rows of characters read as numbers, the most significant digit first. Which
characters are digits, and of which value, is a parameter.

* `foldl_mod` — multiply and add, reduced at every step, is the value reduced once;
* `run_append` — the digits at the head of a text;
* `Spells.snoc`, `Spells.unique` — texts that are a numeral from end to end;
* `Spells.small` — no more than one digit is the same number in two bases.
-/

namespace Numeral

/-- The number with these digits. -/
def value (base : Nat) (ds : List Nat) : Nat := Nat.ofDigits base ds.reverse

variable {base : Nat}

theorem value_append_singleton (base : Nat) (ds : List Nat) (d : Nat) :
    value base (ds ++ [d]) = value base ds * base + d := by
  rw [value, List.reverse_append, List.reverse_singleton, List.singleton_append,
    Nat.ofDigits_cons, value, Nat.mul_comm, Nat.add_comm]

theorem value_singleton (base d : Nat) : value base [d] = d := Nat.ofDigits_singleton

/-- **Reducing at every step** is reducing the value. -/
theorem foldl_mod (base n : Nat) (ds ds' : List Nat) :
    ds'.foldl (fun v d => (v * base + d) % n) (value base ds % n) = value base (ds ++ ds') % n := by
  induction ds' generalizing ds with
  | nil => rw [List.append_nil, List.foldl_nil]
  | cons d ds' ih =>
    have hStep : (value base ds % n * base + d) % n = value base (ds ++ [d]) % n := by
      rw [value_append_singleton, Nat.add_mod, Nat.mod_mul_mod, ← Nat.add_mod]
    rw [List.foldl_cons, hStep, ih, List.append_assoc, List.singleton_append]

-- ---------------------------------------------------------------------------
-- Digits at the head of a text
-- ---------------------------------------------------------------------------

variable {γ : Type*} {digitOf : γ → Option Nat}

/-- The values of the longest run of digits of the base at the head of a text. -/
def run (digitOf : γ → Option Nat) (base : Nat) : List γ → List Nat
  | [] => []
  | c :: cs =>
    match digitOf c with
    | some d => if d < base then d :: run digitOf base cs else []
    | none => []

theorem run_cons_of_digit {c : γ} {d : Nat} (hDigit : digitOf c = some d) (hd : d < base)
    (cs : List γ) : run digitOf base (c :: cs) = d :: run digitOf base cs := by
  rw [run, hDigit]
  exact if_pos hd

theorem run_cons_of_not_digit {c : γ} (h : ∀ d, digitOf c = some d → ¬ d < base) (cs : List γ) :
    run digitOf base (c :: cs) = [] := by
  rw [run]
  cases hDigit : digitOf c with
  | none => rfl
  | some d => exact if_neg (h d hDigit)

/-- The first character is a digit, or the run is over. -/
theorem run_cons_cases (digitOf : γ → Option Nat) (base : Nat) (c : γ) (cs : List γ) :
    (∃ d, digitOf c = some d ∧ d < base ∧ run digitOf base (c :: cs) = d :: run digitOf base cs) ∨
      run digitOf base (c :: cs) = [] := by
  by_cases hFirst : ∃ d, digitOf c = some d ∧ d < base
  · obtain ⟨d, hDigit, hd⟩ := hFirst
    exact Or.inl ⟨d, hDigit, hd, run_cons_of_digit hDigit hd cs⟩
  · exact Or.inr (run_cons_of_not_digit (fun d hDigit hd => hFirst ⟨d, hDigit, hd⟩) cs)

/-- What is no digit alone is none in front of a text. -/
theorem run_cons_of_single {c : γ} (h : run digitOf base [c] = []) (cs : List γ) :
    run digitOf base (c :: cs) = [] := by
  refine run_cons_of_not_digit (fun d hDigit hd => ?_) cs
  rw [run_cons_of_digit hDigit hd] at h
  exact List.cons_ne_nil _ _ h

theorem run_lt (xs : List γ) : ∀ d ∈ run digitOf base xs, d < base := by
  induction xs with
  | nil => exact fun d hd => absurd hd List.not_mem_nil
  | cons c cs ih =>
    rcases run_cons_cases digitOf base c cs with ⟨d, -, hd, hRun⟩ | hRun
    · rw [hRun]
      exact List.forall_mem_cons.mpr ⟨hd, ih⟩
    · rw [hRun]
      exact fun d hd => absurd hd List.not_mem_nil

/-- A text of digits only, from its first character on. -/
theorem full_cons {c : γ} {cs : List γ}
    (h : (run digitOf base (c :: cs)).length = (c :: cs).length) :
    ∃ d, digitOf c = some d ∧ d < base ∧ (run digitOf base cs).length = cs.length := by
  rcases run_cons_cases digitOf base c cs with ⟨d, hDigit, hd, hRun⟩ | hRun
  · rw [hRun] at h
    exact ⟨d, hDigit, hd, Nat.succ.inj h⟩
  · rw [hRun] at h
    exact absurd h (Nat.ne_of_lt (Nat.succ_pos _))

/-- A text of digits only does not end the run. -/
theorem run_append {xs : List γ} (h : (run digitOf base xs).length = xs.length) (ys : List γ) :
    run digitOf base (xs ++ ys) = run digitOf base xs ++ run digitOf base ys := by
  induction xs with
  | nil => rfl
  | cons c cs ih =>
    obtain ⟨d, hDigit, hd, hRest⟩ := full_cons h
    rw [List.cons_append, run_cons_of_digit hDigit hd, run_cons_of_digit hDigit hd, ih hRest,
      List.cons_append]

/-- Digits of a base are digits of a larger one. -/
theorem run_of_full {base' : Nat} (hle : base ≤ base') {xs : List γ}
    (h : (run digitOf base xs).length = xs.length) :
    run digitOf base' xs = run digitOf base xs := by
  induction xs with
  | nil => rfl
  | cons c cs ih =>
    obtain ⟨d, hDigit, hd, hRest⟩ := full_cons h
    rw [run_cons_of_digit hDigit hd, run_cons_of_digit hDigit (Nat.lt_of_lt_of_le hd hle), ih hRest]

-- ---------------------------------------------------------------------------
-- Texts that are a numeral
-- ---------------------------------------------------------------------------

/-- Every character is a digit of the base, and together they are the number. -/
structure Spells (digitOf : γ → Option Nat) (base : Nat) (xs : List γ) (n : Nat) : Prop where
  full     : (run digitOf base xs).length = xs.length
  value_eq : value base (run digitOf base xs) = n

theorem Spells.nil (digitOf : γ → Option Nat) (base : Nat) : Spells digitOf base [] 0 := ⟨rfl, rfl⟩

/-- One more digit behind. -/
theorem Spells.snoc {xs : List γ} {n d : Nat} {c : γ} (h : Spells digitOf base xs n)
    (hDigit : digitOf c = some d) (hd : d < base) :
    Spells digitOf base (xs ++ [c]) (n * base + d) where
  full := by
    rw [run_append h.full, List.length_append, h.full, run_cons_of_digit hDigit hd,
      List.length_append]
    rfl
  value_eq := by
    rw [run_append h.full, run_cons_of_digit hDigit hd, run, value_append_singleton, h.value_eq]

/-- Nothing but digits. -/
theorem Spells.digit_of_mem {xs : List γ} {n : Nat} {c : γ} (h : Spells digitOf base xs n)
    (hc : c ∈ xs) : ∃ d, digitOf c = some d ∧ d < base := by
  have hFull := h.full
  clear h
  induction xs with
  | nil => exact absurd hc List.not_mem_nil
  | cons y ys ih =>
    obtain ⟨d, hDigit, hd, hRest⟩ := full_cons hFull
    rcases List.mem_cons.mp hc with rfl | hc
    · exact ⟨d, hDigit, hd⟩
    · exact ih hc hRest

/-- A numeral stands for one number. -/
theorem Spells.unique {xs : List γ} {n n' : Nat} (h : Spells digitOf base xs n)
    (h' : Spells digitOf base xs n') : n = n' := h.value_eq.symm.trans h'.value_eq

/-- **A text that is the same number in two bases** is a single digit. -/
theorem Spells.small {base' n : Nat} (hLess : base < base') (hPos : 0 < base) {xs : List γ}
    (h : Spells digitOf base xs n) (h' : Spells digitOf base' xs n) : n < base := by
  have hRun := run_of_full (Nat.le_of_lt hLess) h.full
  have hDigits : ∀ d ∈ run digitOf base xs, d < base := run_lt xs
  have hValue := h.value_eq
  have hValue' := h'.value_eq
  rw [hRun] at hValue'
  generalize run digitOf base xs = ds at hDigits hValue hValue'
  rcases List.eq_nil_or_concat ds with rfl | ⟨ds, d, rfl⟩
  · rw [← hValue]
    exact hPos
  · rw [List.concat_eq_append, value_append_singleton] at hValue hValue'
    have hGrows : value base ds ≤ value base' ds :=
      Nat.ofDigits_monotone ds.reverse (Nat.le_of_lt hLess)
    have hd : d < base := hDigits d (by simp)
    -- the digits before the last would be worth more in the larger base
    have hZero : value base' ds = 0 := by
      by_contra hNonzero
      have hMore : value base ds * base < value base' ds * base' :=
        Nat.lt_of_le_of_lt (Nat.mul_le_mul_right base hGrows)
          (Nat.mul_lt_mul_of_pos_left hLess (Nat.pos_of_ne_zero hNonzero))
      omega
    rw [hZero, Nat.zero_mul, Nat.zero_add] at hValue'
    rwa [← hValue']

end Numeral
