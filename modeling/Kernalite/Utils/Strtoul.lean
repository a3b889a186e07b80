import Kernalite.Lib.ByteString
import Kernalite.Lib.Numeral
import Kernalite.Utils.String

/-!
# Kernalite — `strtoul`

The grammar of a numeral is stated apart from the code (`digitOf`, `numeralDigits`),
and the code is compared with it.

* `strtoulLoop_eq` — the digit loop reads the longest run of digits, modulo `2 ^ 64`;
* `strtoul_eq` — what the code returns and where it stops, for every string;
* `strtoul_contract_iff` — when that is what the C library promises.
-/

namespace Kernalite

open ByteMemory ByteString Numeral

-- ---------------------------------------------------------------------------
-- The grammar
-- ---------------------------------------------------------------------------

/-- The value of a digit character in the bases up to sixteen, of either case. -/
def digitOf (c : Byte) : Option Nat :=
  (List.range 16).find? fun d => c = ascii d.digitChar || c = ascii d.digitChar.toUpper

/-- The text starts with `0x` or `0X`. -/
def startsHex : List Byte → Bool
  | z :: x :: _ => z = ascii '0' && (x = ascii 'x' || x = ascii 'X')
  | _ => false

/-- A hexadecimal digit follows the first two characters. -/
def HexFollows (s : List Byte) : Prop := run digitOf 16 (s.drop 2) ≠ []

/-- `0x` counts as a prefix only in front of a hexadecimal digit. -/
def HasHexPrefix (base : Nat) (s : List Byte) : Prop :=
  ((base = 0 ∨ base = 16) ∧ startsHex s) ∧ HexFollows s

/-- `0x` with no hexadecimal digit behind it. -/
def BareHexPrefix (base : Nat) (s : List Byte) : Prop :=
  ((base = 0 ∨ base = 16) ∧ startsHex s) ∧ ¬ HexFollows s

instance (s : List Byte) : Decidable (HexFollows s) := inferInstanceAs (Decidable (_ ≠ _))

instance (base : Nat) (s : List Byte) : Decidable (HasHexPrefix base s) :=
  inferInstanceAs (Decidable (_ ∧ _))

instance (base : Nat) (s : List Byte) : Decidable (BareHexPrefix base s) :=
  inferInstanceAs (Decidable (_ ∧ _))

def numeralBase (base : Nat) (s : List Byte) : Nat :=
  if HasHexPrefix base s then 16 else if base = 0 then 10 else base

/-- The digits of the numeral at the head of the text. -/
def numeralDigits (base : Nat) (s : List Byte) : List Nat :=
  run digitOf (numeralBase base s) (if HasHexPrefix base s then s.drop 2 else s)

def numeralValue (base : Nat) (s : List Byte) : Nat :=
  value (numeralBase base s) (numeralDigits base s)

/-- How many characters the numeral takes; none when it has no digit. -/
def numeralLength (base : Nat) (s : List Byte) : Nat :=
  if numeralDigits base s = [] then 0
  else (if HasHexPrefix base s then 2 else 0) + (numeralDigits base s).length

-- ---------------------------------------------------------------------------
-- The digit loop
-- ---------------------------------------------------------------------------

/-- The branches of the code are the table of digits. -/
theorem digitValue_eq (c : Byte) : digitValue c = digitOf c := by
  revert c
  decide +kernel

variable {m : Mem} {p : Nat} {c : Byte} {s : List Byte}

/-- **The digit loop** reads the longest run of digits. -/
theorem strtoulLoop_eq {base fuel : Nat} (h : CString m p s) (hFuel : s.length < fuel) (res : Nat) :
    strtoulLoop m base fuel p res =
      some ((run digitOf base s).foldl (fun v d => (v * base + d) % 2 ^ 64) res,
        p + (run digitOf base s).length) := by
  induction s generalizing p fuel res with
  | nil =>
    obtain ⟨fuel, rfl⟩ := Nat.exists_eq_succ_of_ne_zero (Nat.ne_of_gt hFuel)
    rw [strtoulLoop, if_pos h.holds.1]
    rfl
  | cons c s ih =>
    obtain ⟨fuel, rfl⟩ := Nat.exists_eq_succ_of_ne_zero (Nat.ne_of_gt (Nat.zero_lt_of_lt hFuel))
    have hChar : m p = c := h.holds.1
    have hNonzero : m p ≠ 0 := hChar ▸ h.nonzero c List.mem_cons_self
    rw [strtoulLoop, if_neg hNonzero, digitValue_eq, hChar]
    by_cases hFirst : ∃ d, digitOf c = some d ∧ d < base
    · obtain ⟨d, hDigit, hd⟩ := hFirst
      have hBelow : ¬ (d : Int) ≥ base := by omega
      have hStep : ((res * base + d : Int) % 2 ^ 64).toNat = (res * base + d) % 2 ^ 64 := by
        norm_cast
      rw [hDigit, run_cons_of_digit hDigit hd]
      simp only [if_neg hBelow, hStep]
      rw [ih h.tail (Nat.lt_of_succ_lt_succ hFuel), List.foldl_cons, List.length_cons,
        Nat.add_assoc, Nat.add_comm 1]
    · rw [run_cons_of_not_digit fun d hDigit hd => hFirst ⟨d, hDigit, hd⟩]
      cases hDigit : digitOf c with
      | none => rfl
      | some d =>
        have hAbove : (d : Int) ≥ base := by
          by_contra hBelow
          exact hFirst ⟨d, hDigit, by omega⟩
        simp only [if_pos hAbove]
        rfl

-- ---------------------------------------------------------------------------
-- `strtoul`
-- ---------------------------------------------------------------------------

/-- The memory after `if (endptr) *endptr = nptr`. -/
def setEndptr (m : Mem) (endptr nptr : Nat) : Mem :=
  if endptr ≠ 0 then store64 m endptr (BitVec.ofNat 64 nptr) else m

theorem setEndptr_inj {endptr a b : Nat} (hEnd : endptr ≠ 0) (hNear : a ≤ b ∧ b < a + 2 ^ 64)
    (h : setEndptr m endptr a = setEndptr m endptr b) : a = b := by
  rw [setEndptr, setEndptr, if_pos hEnd, if_pos hEnd] at h
  have hWord := congrArg (load64 · endptr) h
  simp only [load64_store64_same] at hWord
  have hMod := congrArg BitVec.toNat hWord
  rw [BitVec.toNat_ofNat, BitVec.toNat_ofNat] at hMod
  omega

theorem startsHex_cases (h : startsHex s = true) :
    ∃ x rest, s = ascii '0' :: x :: rest ∧ (x = ascii 'x' ∨ x = ascii 'X') := by
  rcases s with _ | ⟨z, _ | ⟨x, rest⟩⟩
  · exact absurd h Bool.false_ne_true
  · exact absurd h Bool.false_ne_true
  · simp only [startsHex, Bool.and_eq_true, Bool.or_eq_true, decide_eq_true_eq] at h
    exact ⟨x, rest, by rw [h.1], h.2⟩

/-- The second character of a prefix is not a digit. -/
theorem digitOf_cross {x : Byte} (h : x = ascii 'x' ∨ x = ascii 'X') : digitOf x = none := by
  rcases h with rfl | rfl <;> decide

/-- What the code looks at to find a prefix. -/
theorem startsHex_iff (h : CString m p s) :
    (m p = ascii '0' ∧ (m (p + 1) = ascii 'x' ∨ m (p + 1) = ascii 'X')) ↔ startsHex s = true := by
  rcases s with _ | ⟨z, _ | ⟨x, rest⟩⟩
  · have hFirst : m p = 0 := h.holds.1
    rw [hFirst]
    exact iff_of_false (fun hHex => absurd hHex.1 (by decide)) Bool.false_ne_true
  · have hSecond : m (p + 1) = 0 := h.holds.2.1
    rw [hSecond]
    exact iff_of_false (fun hHex => absurd hHex.2 (by decide)) Bool.false_ne_true
  · have hFirst : m p = z := h.holds.1
    have hSecond : m (p + 1) = x := h.holds.2.1
    rw [hFirst, hSecond]
    simp [startsHex]

/-- Where there is no digit behind `0x`, the numeral is the digit `0`. -/
theorem numeralDigits_bare {base : Nat} (h : BareHexPrefix base s) :
    numeralDigits base s = [0] := by
  have hPrefix : ¬ HasHexPrefix base s := fun hPrefix => h.2 hPrefix.2
  obtain ⟨x, rest, rfl, hx⟩ := startsHex_cases h.1.2
  have hZero : digitOf (ascii '0') = some 0 := by decide
  have hPos : 0 < numeralBase base (ascii '0' :: x :: rest) := by
    unfold numeralBase
    split_ifs <;> omega
  have hStop : run digitOf (numeralBase base (ascii '0' :: x :: rest)) (x :: rest) = [] := by
    refine run_cons_of_not_digit (fun d hDigit => ?_) rest
    rw [digitOf_cross hx] at hDigit
    exact absurd hDigit.symm (Option.some_ne_none d)
  rw [numeralDigits, if_neg hPrefix, run_cons_of_digit hZero hPos, hStop]

/-- How far the code gets. -/
def scannedLength (base : Nat) (s : List Byte) : Nat :=
  if BareHexPrefix base s then 2 else numeralLength base s

/-- A numeral without anything that looks like a prefix. -/
theorem numeral_plain {base : Nat} (h : ¬ ((base = 0 ∨ base = 16) ∧ startsHex s = true)) :
    numeralBase base s = (if base = 0 then 10 else base) ∧
      numeralDigits base s = run digitOf (numeralBase base s) s ∧
      scannedLength base s = (run digitOf (numeralBase base s) s).length := by
  have hPrefix : ¬ HasHexPrefix base s := fun hPrefix => h hPrefix.1
  have hDigits : numeralDigits base s = run digitOf (numeralBase base s) s := by
    rw [numeralDigits, if_neg hPrefix]
  refine ⟨by rw [numeralBase, if_neg hPrefix], hDigits, ?_⟩
  rw [scannedLength, if_neg fun hBare => h hBare.1, numeralLength, if_neg hPrefix, hDigits,
    Nat.zero_add]
  split_ifs with hNone
  · rw [hNone, List.length_nil]
  · rfl

/-- A numeral behind a prefix. -/
theorem numeral_prefixed {base : Nat} (h : HasHexPrefix base s) :
    numeralBase base s = 16 ∧ numeralDigits base s = run digitOf 16 (s.drop 2) ∧
      scannedLength base s = 2 + (run digitOf 16 (s.drop 2)).length := by
  have hBase : numeralBase base s = 16 := by rw [numeralBase, if_pos h]
  have hDigits : numeralDigits base s = run digitOf 16 (s.drop 2) := by
    rw [numeralDigits, hBase, if_pos h]
  refine ⟨hBase, hDigits, ?_⟩
  rw [scannedLength, if_neg fun hBare => hBare.2 h.2, numeralLength, hDigits, if_neg h.2, if_pos h]

/-- The digit loop started at the value `0`. -/
theorem strtoulLoop_value {base fuel : Nat} (h : CString m p s) (hFuel : s.length < fuel) :
    strtoulLoop m base fuel p 0 =
      some (value base (run digitOf base s) % 2 ^ 64, p + (run digitOf base s).length) := by
  rw [strtoulLoop_eq h hFuel]
  exact congrArg (fun v => some (v, _)) (foldl_mod base (2 ^ 64) [] _)

theorem startsHex_length (h : startsHex s = true) : 2 ≤ s.length := by
  obtain ⟨x, rest, rfl, -⟩ := startsHex_cases h
  exact Nat.le_add_left 2 rest.length

/-- **`strtoul`** for every string: the value of the numeral modulo `2 ^ 64`. -/
theorem strtoul_eq {base fuel : Nat} (h : CString m p s) (hFuel : s.length < fuel) (endptr : Nat) :
    strtoul m fuel p endptr base =
      some (numeralValue base s % 2 ^ 64, setEndptr m endptr (p + scannedLength base s)) := by
  have hBase : ((base : Int) = 0 ∨ (base : Int) = 16) ↔ (base = 0 ∨ base = 16) := by omega
  unfold strtoul
  simp only [hBase, startsHex_iff h]
  by_cases hHex : (base = 0 ∨ base = 16) ∧ startsHex s = true
  · have hDrop : CString m (p + 2) (s.drop 2) := h.drop (startsHex_length hHex.2)
    have hShort : (s.drop 2).length < fuel := by
      rw [List.length_drop]
      omega
    have hLoop : strtoulLoop m (16 : Nat) fuel (p + 2) 0 = _ := strtoulLoop_value hDrop hShort
    rw [show ((16 : Nat) : Int) = 16 from rfl] at hLoop
    simp only [if_pos hHex, hLoop]
    by_cases hFollows : HexFollows s
    · have hPrefix : HasHexPrefix base s := ⟨hHex, hFollows⟩
      obtain ⟨hSixteen, hDigits, hLength⟩ := numeral_prefixed hPrefix
      rw [numeralValue, hSixteen, hDigits, hLength, ← Nat.add_assoc]
      rfl
    · have hBare : BareHexPrefix base s := ⟨hHex, hFollows⟩
      have hNone : run digitOf 16 (s.drop 2) = [] := Decidable.not_not.mp hFollows
      rw [numeralValue, numeralDigits_bare hBare, value_singleton, scannedLength, if_pos hBare,
        hNone]
      rfl
  · obtain ⟨hDecimal, hDigits, hLength⟩ := numeral_plain hHex
    have hCode : (if (base : Int) = 0 then 10 else (base : Int)) = (numeralBase base s : Nat) := by
      rw [hDecimal]
      split_ifs <;> omega
    simp only [if_neg hHex, hCode, strtoulLoop_value h hFuel]
    rw [numeralValue, hLength, hDigits]
    rfl

-- ---------------------------------------------------------------------------
-- The contract of the C library
-- ---------------------------------------------------------------------------

/-- The value of the numeral, or `ULONG_MAX` when it is too large, and `*endptr` just
behind its last digit. -/
def strtoulContract (m : Mem) (p endptr base : Nat) (s : List Byte) : Nat × Mem :=
  (if numeralValue base s < 2 ^ 64 then numeralValue base s else 2 ^ 64 - 1,
    setEndptr m endptr (p + numeralLength base s))

/-- The code stops one character too far behind a prefix without digits. -/
theorem numeralLength_bare {base : Nat} (h : BareHexPrefix base s) : numeralLength base s = 1 := by
  rw [numeralLength, numeralDigits_bare h, if_neg (List.cons_ne_nil _ _),
    if_neg fun hPrefix => h.2 hPrefix.2]
  rfl

theorem setEndptr_scanned_iff {base endptr : Nat} :
    setEndptr m endptr (p + scannedLength base s) =
        setEndptr m endptr (p + numeralLength base s) ↔
      endptr = 0 ∨ ¬ BareHexPrefix base s := by
  by_cases hBare : BareHexPrefix base s
  · rw [scannedLength, if_pos hBare, numeralLength_bare hBare]
    constructor
    · intro hSame
      by_contra hNot
      have hEnd : endptr ≠ 0 := fun hZero => hNot (Or.inl hZero)
      have hEq := setEndptr_inj hEnd ⟨by omega, by omega⟩ hSame.symm
      omega
    · rintro (hNull | hNot)
      · rw [setEndptr, setEndptr, if_neg (not_not_intro hNull), if_neg (not_not_intro hNull)]
      · exact absurd hBare hNot
  · rw [scannedLength, if_neg hBare]
    exact iff_of_true rfl (Or.inr hBare)

/--
**When `strtoul` keeps the contract of the C library.** For every string in memory and
every base, 10, 16 and 0 among them: if and only if no prefix `0x` stands without a
hexadecimal digit behind it, unless the caller does not ask for the end, and the value
is below `2 ^ 64`, or is `ULONG_MAX` modulo `2 ^ 64`.
-/
theorem strtoul_contract_iff {base fuel : Nat} (h : CString m p s) (hFuel : s.length < fuel)
    (endptr : Nat) :
    strtoul m fuel p endptr base = some (strtoulContract m p endptr base s) ↔
      (endptr = 0 ∨ ¬ BareHexPrefix base s) ∧
      (numeralValue base s < 2 ^ 64 ∨ numeralValue base s % 2 ^ 64 = 2 ^ 64 - 1) := by
  rw [strtoul_eq h hFuel, Option.some.injEq, strtoulContract, Prod.mk.injEq, setEndptr_scanned_iff,
    and_comm]
  refine and_congr_right fun _ => ?_
  split_ifs with hSmall
  · exact iff_of_true (Nat.mod_eq_of_lt hSmall) (Or.inl hSmall)
  · exact ⟨Or.inr, fun hValue => hValue.resolve_left hSmall⟩

/-- `ULONG_MAX`, with something behind it. -/
theorem strtoul_contract_iff_max :
    let s := asciiString "18446744073709551615 pages"
    let m : Mem := fun i => s.getD i 0
    strtoul m 32 0 0x100 (10 : Nat) = some (strtoulContract m 0 0x100 10 s) := by
  intro s m
  have hString : CString m 0 s := cString_getD (by decide)
  have hIff : strtoul m 32 0 0x100 (10 : Nat) = _ ↔ _ :=
    strtoul_contract_iff hString (by decide : s.length < 32) 0x100
  exact hIff.mpr ⟨Or.inr (by decide), Or.inl (by decide +kernel)⟩

/-- `0xg` ends the scan behind the `x`, and `2 ^ 64` is read as `0`. -/
theorem strtoul_contract_fails :
    let bare := asciiString "0xg"
    let large := asciiString "18446744073709551616"
    let m : Mem := fun i => bare.getD i 0
    let m' : Mem := fun i => large.getD i 0
    (CString m 0 bare ∧ strtoul m 4 0 0x100 (16 : Nat) = some (0, setEndptr m 0x100 2) ∧
      strtoul m 4 0 0x100 (16 : Nat) ≠ some (strtoulContract m 0 0x100 16 bare)) ∧
    (CString m' 0 large ∧ strtoul m' 21 0 0x100 (10 : Nat) = some (0, setEndptr m' 0x100 20) ∧
      strtoul m' 21 0 0x100 (10 : Nat) ≠ some (strtoulContract m' 0 0x100 10 large)) := by
  intro bare large m m'
  have hBare : CString m 0 bare := cString_getD (by decide)
  have hLarge : CString m' 0 large := cString_getD (by decide)
  have hStop : strtoul m 4 0 0x100 (16 : Nat) = some (0, setEndptr m 0x100 2) := by
    have hEq : strtoul m 4 0 0x100 (16 : Nat) = _ :=
      strtoul_eq hBare (by decide : bare.length < 4) 0x100
    have hValue : numeralValue 16 bare % 2 ^ 64 = 0 := by decide +kernel
    have hLength : scannedLength 16 bare = 2 := by decide +kernel
    rw [hValue, hLength, Nat.zero_add] at hEq
    exact hEq
  have hZero : strtoul m' 21 0 0x100 (10 : Nat) = some (0, setEndptr m' 0x100 20) := by
    have hEq : strtoul m' 21 0 0x100 (10 : Nat) = _ :=
      strtoul_eq hLarge (by decide : large.length < 21) 0x100
    have hValue : numeralValue 10 large % 2 ^ 64 = 0 := by decide +kernel
    have hLength : scannedLength 10 large = 20 := by decide +kernel
    rw [hValue, hLength, Nat.zero_add] at hEq
    exact hEq
  refine ⟨⟨hBare, hStop, fun hEq => ?_⟩, hLarge, hZero, fun hEq => ?_⟩
  · have hLength : numeralLength 16 bare = 1 := by decide +kernel
    rw [hStop, strtoulContract, hLength, Option.some.injEq, Prod.mk.injEq] at hEq
    exact absurd (setEndptr_inj (by omega) ⟨by omega, by omega⟩ hEq.2.symm) (by omega)
  · have hNotBelow : ¬ numeralValue 10 large < 2 ^ 64 := by decide +kernel
    rw [hZero, strtoulContract, if_neg hNotBelow, Option.some.injEq, Prod.mk.injEq] at hEq
    exact absurd hEq.1 (by omega)

end Kernalite
