import Kernalite.Lib.ByteString
import Kernalite.Utils.String

/-!
# Kernalite — searching strings and memory

What `strchr`, `strrchr` and `memchr` return is the first or the last place of a byte in
a range; the zero byte that ends a string belongs to it.

* `memchr_finds`, `strchr_finds`, `strrchr_finds` — the three loops;
* `string_searches` — how they agree with each other and with the length of the string.
-/

namespace Kernalite

open ByteMemory ByteString Words

/-- The byte does not occur from `lo` up to, but not including, `hi`. -/
def Absent (m : Mem) (c : Byte) (lo hi : Nat) : Prop := ∀ x, lo ≤ x → x < hi → m x ≠ c

/-- `r` is where the byte first occurs in the range, or `0`. -/
def FirstAt (m : Mem) (c : Byte) (lo hi r : Nat) : Prop :=
  (r = 0 ∧ Absent m c lo hi) ∨ (lo ≤ r ∧ r < hi ∧ m r = c ∧ Absent m c lo r)

/-- `r` is where the byte last occurs in the range, or `default`. -/
def LastAt (m : Mem) (c : Byte) (lo hi default r : Nat) : Prop :=
  (r = default ∧ Absent m c lo hi) ∨ (lo ≤ r ∧ r < hi ∧ m r = c ∧ Absent m c (r + 1) hi)

variable {m : Mem} {c : Byte} {lo hi r : Nat}

theorem Absent.empty (h : hi ≤ lo) : Absent m c lo hi :=
  fun _ hlo hhi => absurd hhi (Nat.not_lt.mpr (Nat.le_trans h hlo))

theorem Absent.cons (h : Absent m c (lo + 1) hi) (hFirst : m lo ≠ c) : Absent m c lo hi := by
  intro x hlo hhi
  rcases Nat.eq_or_lt_of_le hlo with rfl | hMore
  · exact hFirst
  · exact h x hMore hhi

theorem FirstAt.here (h : lo < hi) (hFirst : m lo = c) : FirstAt m c lo hi lo :=
  Or.inr ⟨Nat.le_refl lo, h, hFirst, Absent.empty (Nat.le_refl lo)⟩

theorem FirstAt.cons (h : FirstAt m c (lo + 1) hi r) (hFirst : m lo ≠ c) : FirstAt m c lo hi r := by
  rcases h with ⟨hNull, hAbsent⟩ | ⟨hlo, hhi, hByte, hAbsent⟩
  · exact Or.inl ⟨hNull, hAbsent.cons hFirst⟩
  · exact Or.inr ⟨Nat.le_of_succ_le hlo, hhi, hByte, hAbsent.cons hFirst⟩

/-- There is one first occurrence. -/
theorem FirstAt.unique {r' : Nat} (h : FirstAt m c lo hi r) (h' : FirstAt m c lo hi r') :
    r = r' := by
  rcases h with ⟨hNull, hAbsent⟩ | ⟨hlo, hhi, hByte, hAbsent⟩
  · rcases h' with ⟨hNull', -⟩ | ⟨hlo', hhi', hByte', -⟩
    · rw [hNull, hNull']
    · exact absurd hByte' (hAbsent r' hlo' hhi')
  · rcases h' with ⟨-, hAbsent'⟩ | ⟨hlo', hhi', hByte', hAbsent'⟩
    · exact absurd hByte (hAbsent' r hlo hhi)
    · rcases Nat.lt_trichotomy r r' with hLess | hEq | hMore
      · exact absurd hByte (hAbsent' r hlo hLess)
      · exact hEq
      · exact absurd hByte' (hAbsent r' hlo' hMore)

/-- The range without its first byte, where `last` has been set to that byte if it is the
one looked for. -/
theorem LastAt.cons {default : Nat} (hRange : lo < hi)
    (h : LastAt m c (lo + 1) hi (if m lo = c then lo else default) r) :
    LastAt m c lo hi default r := by
  rcases h with ⟨hDefault, hAbsent⟩ | ⟨hlo, hhi, hByte, hAbsent⟩
  · by_cases hFirst : m lo = c
    · rw [if_pos hFirst] at hDefault
      subst hDefault
      exact Or.inr ⟨Nat.le_refl r, hRange, hFirst, hAbsent⟩
    · rw [if_neg hFirst] at hDefault
      exact Or.inl ⟨hDefault, hAbsent.cons hFirst⟩
  · exact Or.inr ⟨Nat.le_of_succ_le hlo, hhi, hByte, hAbsent⟩

-- ---------------------------------------------------------------------------
-- The loops
-- ---------------------------------------------------------------------------

variable {chr : Int} {p size fuel : Nat} {s : List Byte}

/-- **`memchr`** finds the first occurrence. -/
theorem memchr_finds (h : p + size ≤ 2 ^ 64) :
    FirstAt m (toChar chr) p (p + size) (memchr m chr p size) := by
  induction size generalizing p with
  | zero => exact Or.inl ⟨rfl, Absent.empty (Nat.le_refl _)⟩
  | succ size ih =>
    rw [memchr]
    split_ifs with hFirst
    · exact FirstAt.here (by omega) hFirst
    · refine FirstAt.cons ?_ hFirst
      rcases Nat.eq_zero_or_pos size with rfl | hMore
      · exact Or.inl ⟨rfl, Absent.empty (Nat.le_refl _)⟩
      · rw [add64_eq (by omega), Nat.add_comm size, ← Nat.add_assoc]
        exact ih (by omega)

/-- **`strchr`** finds the first occurrence, the zero byte at the end included. -/
theorem strchr_finds (h : CString m p s) (hFuel : s.length < fuel) :
    ∃ r, strchr m chr fuel p = some r ∧ FirstAt m (toChar chr) p (p + (s.length + 1)) r := by
  induction s generalizing p fuel with
  | nil =>
    obtain ⟨fuel, rfl⟩ := Nat.exists_eq_succ_of_ne_zero (Nat.ne_of_gt hFuel)
    have hEnd : m p = 0 := h.holds.head
    rw [strchr]
    split_ifs with hFirst
    · exact ⟨p, rfl, FirstAt.here (Nat.lt_succ_self p) hFirst⟩
    · exact ⟨0, rfl, FirstAt.cons
        (Or.inl ⟨rfl, Absent.empty (Nat.le_refl _)⟩) hFirst⟩
  | cons b s ih =>
    obtain ⟨fuel, rfl⟩ := Nat.exists_eq_succ_of_ne_zero (Nat.ne_of_gt (Nat.zero_lt_of_lt hFuel))
    have hByte : m p = b := h.holds.head
    have hNonzero : m p ≠ 0 := hByte ▸ h.nonzero b List.mem_cons_self
    rw [strchr, if_neg hNonzero, List.length_cons]
    split_ifs with hFirst
    · exact ⟨p, rfl, FirstAt.here (by omega) hFirst⟩
    · obtain ⟨r, hRun, hFound⟩ := ih h.tail (Nat.lt_of_succ_lt_succ hFuel)
      rw [Nat.add_assoc, Nat.add_comm 1] at hFound
      exact ⟨r, hRun, hFound.cons hFirst⟩

/-- **The loop of `strrchr`** finds the last occurrence. -/
theorem strrchrLoop_finds (h : CString m p s) (hFuel : s.length < fuel) (last : Nat) :
    ∃ r, strrchrLoop m chr fuel p last = some r ∧
      LastAt m (toChar chr) p (p + (s.length + 1)) last r := by
  induction s generalizing p fuel last with
  | nil =>
    obtain ⟨fuel, rfl⟩ := Nat.exists_eq_succ_of_ne_zero (Nat.ne_of_gt hFuel)
    have hEnd : m p = 0 := h.holds.head
    simp only [strrchrLoop, if_pos hEnd]
    exact ⟨_, rfl, LastAt.cons (Nat.lt_succ_self p)
      (Or.inl ⟨rfl, Absent.empty (Nat.le_refl _)⟩)⟩
  | cons b s ih =>
    obtain ⟨fuel, rfl⟩ := Nat.exists_eq_succ_of_ne_zero (Nat.ne_of_gt (Nat.zero_lt_of_lt hFuel))
    have hByte : m p = b := h.holds.head
    have hNonzero : m p ≠ 0 := hByte ▸ h.nonzero b List.mem_cons_self
    simp only [strrchrLoop, if_neg hNonzero, List.length_cons]
    obtain ⟨r, hRun, hFound⟩ := ih h.tail (Nat.lt_of_succ_lt_succ hFuel)
      (if m p = toChar chr then p else last)
    rw [Nat.add_assoc, Nat.add_comm 1] at hFound
    exact ⟨r, hRun, hFound.cons (by omega)⟩

/-- The length of the string, counted on from `len`. -/
theorem strlenLoop_eq {len : Nat} (h : CString m (p + len) s) (hFuel : s.length < fuel) :
    strlenLoop m p fuel len = some (len + s.length) := by
  induction s generalizing len fuel with
  | nil =>
    obtain ⟨fuel, rfl⟩ := Nat.exists_eq_succ_of_ne_zero (Nat.ne_of_gt hFuel)
    have hEnd : m (p + len) = 0 := h.holds.head
    rw [strlenLoop, if_neg (not_not_intro hEnd)]
    rfl
  | cons b s ih =>
    obtain ⟨fuel, rfl⟩ := Nat.exists_eq_succ_of_ne_zero (Nat.ne_of_gt (Nat.zero_lt_of_lt hFuel))
    have hByte : m (p + len) = b := h.holds.head
    have hNonzero : m (p + len) ≠ 0 := hByte ▸ h.nonzero b List.mem_cons_self
    rw [strlenLoop, if_pos hNonzero, ih h.tail (Nat.lt_of_succ_lt_succ hFuel), List.length_cons,
      Nat.add_assoc, Nat.add_comm 1]

theorem strnlenLoop_eq {len : Nat} (h : CString m (p + len) s) (left : Nat) :
    strnlenLoop m p left len = len + min left s.length := by
  induction s generalizing len left with
  | nil =>
    have hEnd : m (p + len) = 0 := h.holds.head
    cases left with
    | zero => rfl
    | succ left =>
      rw [strnlenLoop, if_neg (not_not_intro hEnd), List.length_nil, Nat.min_zero, Nat.add_zero]
  | cons b s ih =>
    have hByte : m (p + len) = b := h.holds.head
    have hNonzero : m (p + len) ≠ 0 := hByte ▸ h.nonzero b List.mem_cons_self
    cases left with
    | zero => rw [strnlenLoop, Nat.zero_min, Nat.add_zero]
    | succ left =>
      rw [strnlenLoop, if_pos hNonzero, ih h.tail, List.length_cons, Nat.succ_min_succ]
      omega

/--
**The string functions agree.** For every string in memory and every character, the zero
character included: `strlen` and `strnlen` count up to the zero byte; `strchr`, and
`memchr` over the string with its zero byte, return the same pointer, null exactly
where the character does not occur, as `strrchr` does; otherwise the two pointers lead
to the first and the last place of the character in the string.
-/
theorem string_searches (h : CString m p s) (hPos : 0 < p) (hTop : p + s.length < 2 ^ 64)
    (chr : Int) (hFuel : s.length < fuel) :
    strlen m fuel p = some s.length ∧ (∀ maxlen, strnlen m p maxlen = min maxlen s.length) ∧
    ∃ first last, strchr m chr fuel p = some first ∧ strrchr m chr fuel p = some last ∧
      memchr m chr p (s.length + 1) = first ∧
      (first = 0 ↔ Absent m (toChar chr) p (p + (s.length + 1))) ∧ (last = 0 ↔ first = 0) ∧
      (first ≠ 0 → m first = toChar chr ∧ m last = toChar chr ∧ p ≤ first ∧ last ≤ p + s.length ∧
        ∀ a, p ≤ a → a ≤ p + s.length → m a = toChar chr → first ≤ a ∧ a ≤ last) := by
  obtain ⟨first, hFirst, hFound⟩ := strchr_finds h hFuel
  obtain ⟨last, hLast, hFound'⟩ := strrchrLoop_finds h hFuel 0
  have hMemchr : memchr m chr p (s.length + 1) = first :=
    (memchr_finds (by omega)).unique hFound
  refine ⟨?_, ?_, first, last, hFirst, hLast, hMemchr, ?_⟩
  · rw [strlen, strlenLoop_eq h hFuel, Nat.zero_add]
  · intro maxlen
    rw [strnlen, strnlenLoop_eq h maxlen, Nat.zero_add]
  rcases hFound with ⟨rfl, hAbsent⟩ | ⟨hlo, hhi, hByte, hBelow⟩
  · rcases hFound' with ⟨rfl, -⟩ | ⟨hlo', hhi', hByte', -⟩
    · exact ⟨iff_of_true rfl hAbsent, Iff.rfl, fun hNot => absurd rfl hNot⟩
    · exact absurd hByte' (hAbsent last hlo' hhi')
  · rcases hFound' with ⟨-, hAbsent⟩ | ⟨hlo', hhi', hByte', hAbove⟩
    · exact absurd hByte (hAbsent first hlo hhi)
    · refine ⟨iff_of_false (by omega) fun hAbsent => hAbsent first hlo hhi hByte,
        iff_of_false (by omega) (by omega), fun _ => ⟨hByte, hByte', hlo, by omega, ?_⟩⟩
      intro a haLow haHigh haByte
      constructor
      · by_contra hLess
        exact hBelow a haLow (by omega) haByte
      · by_contra hMore
        exact hAbove a (by omega) (by omega) haByte

/-- The letter `e` in a property name of the device tree. -/
theorem string_searches_device :
    let s := asciiString "device_type"
    let m : Mem := fun i => s.getD (i - 0x100) 0
    ∃ first last, strchr m 0x65 12 0x100 = some first ∧ strrchr m 0x65 12 0x100 = some last ∧
      m first = toChar 0x65 ∧ m last = toChar 0x65 := by
  intro s m
  have hString : CString m 0x100 s := by
    constructor
    · exact ⟨rfl, rfl, rfl, rfl, rfl, rfl, rfl, rfl, rfl, rfl, rfl, rfl, trivial⟩
    · decide
  have hSearch := string_searches hString (by omega) (by decide) 0x65 (by decide : s.length < 12)
  obtain ⟨first, last, hFirst, hLast, -, hNull, -, hFound⟩ := hSearch.2.2
  have hNonzero : first ≠ 0 := fun hZero =>
    hNull.mp hZero 0x101 (by omega) (by decide) (by decide)
  exact ⟨first, last, hFirst, hLast, (hFound hNonzero).1, (hFound hNonzero).2.1⟩

end Kernalite
