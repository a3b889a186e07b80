import Kernalite.Lib.ByteMemory

/-!
# Strings in byte memory

A list of bytes that lies in memory from an address on, and strings that end at
the first zero byte.

* `holds_append` — a list in two parts;
* `Holds.congr`, `Holds.reversed` — a list in another memory, as it was or back to
  front;
* `CString.tail`, `CString.drop` — the string behind the first bytes of a string.
-/

namespace ByteString

open ByteMemory

/-- The bytes of the list lie in memory from `p` on. -/
def Holds (m : Mem) (p : Nat) : List Byte → Prop
  | [] => True
  | b :: bytes => m p = b ∧ Holds m (p + 1) bytes

/-- The string at `p`, without the zero byte that ends it. -/
structure CString (m : Mem) (p : Nat) (s : List Byte) : Prop where
  holds   : Holds m p (s ++ [0])
  nonzero : ∀ b ∈ s, b ≠ 0

variable {m m' : Mem} {p : Nat} {xs ys : List Byte}

theorem holds_append :
    Holds m p (xs ++ ys) ↔ Holds m p xs ∧ Holds m (p + xs.length) ys := by
  induction xs generalizing p with
  | nil => rw [List.nil_append, List.length_nil, Nat.add_zero, Holds, true_and]
  | cons x xs ih =>
    rw [List.cons_append, Holds, Holds, ih, and_assoc, List.length_cons, Nat.add_assoc,
      Nat.add_comm 1]

/-- The bytes one by one. -/
theorem holds_iff : Holds m p xs ↔ ∀ i (h : i < xs.length), m (p + i) = xs[i] := by
  induction xs generalizing p with
  | nil => exact iff_of_true trivial fun i h => absurd h (Nat.not_lt_zero i)
  | cons x xs ih =>
    rw [Holds, ih]
    constructor
    · rintro ⟨hFirst, hRest⟩ (_ | i) h
      · exact hFirst
      · have hByte := hRest i (Nat.lt_of_succ_lt_succ h)
        rwa [Nat.add_assoc, Nat.add_comm 1] at hByte
    · intro hAll
      refine ⟨hAll 0 (Nat.succ_pos _), fun i h => ?_⟩
      rw [Nat.add_assoc, Nat.add_comm 1]
      exact hAll (i + 1) (Nat.succ_lt_succ h)

/-- Where two memories agree they hold the same lists. -/
theorem Holds.congr (h : Holds m p xs)
    (hSame : ∀ x, p ≤ x → x < p + xs.length → m' x = m x) : Holds m' p xs := by
  refine holds_iff.mpr fun i hi => ?_
  rw [hSame (p + i) (Nat.le_add_right p i) (Nat.add_lt_add_left hi p)]
  exact holds_iff.mp h i hi

/-- A memory that mirrors the range holds the list back to front. -/
theorem Holds.reversed (h : Holds m p xs)
    (hMirror : ∀ i, i < xs.length → m' (p + i) = m (p + (xs.length - 1 - i))) :
    Holds m' p xs.reverse := by
  refine holds_iff.mpr fun i hi => ?_
  rw [List.length_reverse] at hi
  rw [hMirror i hi, List.getElem_reverse]
  exact holds_iff.mp h _ (by omega)

/-- The byte a list with something behind it starts with. -/
theorem Holds.head {b : Byte} (h : Holds m p (b :: xs)) : m p = b := h.1

/-- The string behind the first byte. -/
theorem CString.tail {b : Byte} (h : CString m p (b :: xs)) : CString m (p + 1) xs where
  holds := h.holds.2
  nonzero := fun c hc => h.nonzero c (List.mem_cons_of_mem b hc)

/-- The string behind the first `n` bytes. -/
theorem CString.drop (h : CString m p xs) {n : Nat} (hn : n ≤ xs.length) :
    CString m (p + n) (xs.drop n) where
  holds := by
    have hAll := h.holds
    rw [← List.take_append_drop n xs, List.append_assoc, holds_append, List.length_take,
      Nat.min_eq_left hn] at hAll
    exact hAll.2
  nonzero := fun c hc => h.nonzero c (List.mem_of_mem_drop hc)

/-- A list and zeros behind it. -/
theorem cString_getD (h : 0 ∉ xs) : CString (fun i => xs.getD i 0) 0 xs where
  holds := by
    refine holds_iff.mpr fun i hi => ?_
    rw [Nat.zero_add, List.getD_eq_getElem?_getD]
    by_cases hIn : i < xs.length
    · rw [List.getElem?_eq_getElem hIn, List.getElem_append_left hIn]
      rfl
    · rw [List.getElem?_eq_none (Nat.le_of_not_lt hIn), List.getElem_append_right (by omega)]
      simp
  nonzero := fun _ hb hZero => h (hZero ▸ hb)

end ByteString
