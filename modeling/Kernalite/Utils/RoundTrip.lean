import Kernalite.Error.Panic
import Kernalite.Utils.Itoa
import Kernalite.Utils.Strtoul

/-!
# Kernalite — printed numbers read back

`itoa` makes its digits from the last to the first, `print_hex` from the first to the
last, and `strtoul` reads from the first to the last. What joins them is that both
texts spell the number.

* `digitBytes_spells`, `hexText_spells` — the texts as numerals;
* `strtoul_spells`, `strtoul_hexText` — reading them;
* `numbers_readBack` — the three together.
-/

namespace Kernalite

open ByteMemory ByteString Numeral

-- ---------------------------------------------------------------------------
-- The text of `itoa`
-- ---------------------------------------------------------------------------

section Itoa

variable {base num : Nat}

theorem digitOf_digitByte {d : Nat} (hd : d < 16) : digitOf (digitByte d) = some d := by
  have hAll : ∀ d : Fin 16, digitOf (digitByte d) = some (d : Nat) := by decide +kernel
  exact hAll ⟨d, hd⟩

/-- **The text of `itoa`** spells the number. -/
theorem digitBytes_spells (hBase : 1 < base) (hHex : base ≤ 16) (num : Nat) :
    Spells digitOf base (digitBytes base num) num := by
  induction num using Nat.strongRecOn with
  | _ num ih =>
    have hLast : num % base < base := Nat.mod_lt _ (by omega)
    have hDigit := digitOf_digitByte (Nat.lt_of_lt_of_le hLast hHex)
    rw [digitBytes_eq hBase hHex]
    by_cases hMore : num / base > 0
    · have hLess : num / base < num :=
        Nat.div_lt_self (Nat.pos_of_ne_zero fun hZero => by simp [hZero] at hMore) hBase
      have hSpells := (ih _ hLess).snoc hDigit hLast
      rw [Nat.div_add_mod'] at hSpells
      rwa [if_pos hMore]
    · have hSpells := (Spells.nil digitOf base).snoc hDigit hLast
      have hSmall : num % base = num :=
        Nat.mod_eq_of_lt (Nat.lt_of_div_eq_zero (by omega) (Nat.eq_zero_of_not_pos hMore))
      rw [Nat.zero_mul, Nat.zero_add, List.nil_append] at hSpells
      rw [if_neg hMore, List.nil_append]
      rwa [hSmall] at hSpells ⊢

/-- Only the number `0` is written with a zero in front. -/
theorem digitBytes_head (hBase : 1 < base) (hHex : base ≤ 16) (num : Nat)
    (hHead : (digitBytes base num).head? = some (ascii '0')) : num = 0 := by
  induction num using Nat.strongRecOn with
  | _ num ih =>
    have hLast : num % base < 16 := Nat.lt_of_lt_of_le (Nat.mod_lt _ (by omega)) hHex
    rw [digitBytes_eq hBase hHex] at hHead
    by_cases hMore : num / base > 0
    · have hLess : num / base < num :=
        Nat.div_lt_self (Nat.pos_of_ne_zero fun hZero => by simp [hZero] at hMore) hBase
      have hNe : digitBytes base (num / base) ≠ [] :=
        List.ne_nil_of_length_pos (digitBytes_length_pos base _)
      rw [if_pos hMore, List.head?_append, List.head?_eq_some_head hNe, Option.some_or,
        ← List.head?_eq_some_head hNe] at hHead
      exact absurd (ih _ hLess hHead) (Nat.ne_of_gt hMore)
    · rw [if_neg hMore, List.nil_append, List.head?_cons, Option.some.injEq] at hHead
      have hZero : some (num % base) = some 0 := by
        rw [← digitOf_digitByte hLast, hHead]
        decide
      have hDiv : num / base = 0 := Nat.eq_zero_of_not_pos hMore
      rw [← Nat.div_add_mod' num base, hDiv, Option.some.inj hZero, Nat.zero_mul]

theorem digitBytes_zero (base : Nat) : digitBytes base 0 = asciiString "0" := by
  rw [digitBytes, Nat.toDigits_zero]
  rfl

end Itoa

-- ---------------------------------------------------------------------------
-- The text of `print_hex`
-- ---------------------------------------------------------------------------

theorem digitOf_upper {d : Nat} (hd : d < 16) : digitOf (ascii d.digitChar.toUpper) = some d := by
  have hAll : ∀ d : Fin 16, digitOf (ascii (d : Nat).digitChar.toUpper) = some (d : Nat) := by
    decide +kernel
  exact hAll ⟨d, hd⟩

/-- The lower digits behind a numeral of the higher ones. -/
theorem upperDigits_spells (val : BitVec 64) (n : Nat) {xs : List Byte}
    (h : Spells digitOf 16 xs (val.toNat / 16 ^ n)) :
    Spells digitOf 16 (xs ++ upperDigits val n) val.toNat := by
  induction n generalizing xs with
  | zero =>
    rw [Nat.pow_zero, Nat.div_one] at h
    rwa [upperDigits, List.append_nil]
  | succ n ih =>
    have hLow : val.toNat / 16 ^ n % 16 < 16 := Nat.mod_lt _ (by omega)
    have hStep := h.snoc (digitOf_upper hLow) hLow
    rw [Nat.pow_succ, ← Nat.div_div_eq_div_mul, Nat.div_add_mod'] at hStep
    have hRest := ih hStep
    rwa [List.append_assoc] at hRest

/-- **The text of `print_hex`** spells the number behind its prefix. -/
theorem hexText_spells (val : BitVec 64) : Spells digitOf 16 (upperDigits val 16) val.toNat := by
  have hHigh : val.toNat / 16 ^ 16 = 0 := Nat.div_eq_of_lt val.isLt
  exact upperDigits_spells val 16 (hHigh ▸ Spells.nil digitOf 16)

-- ---------------------------------------------------------------------------
-- Reading
-- ---------------------------------------------------------------------------

variable {m : Mem} {p fuel endptr base n : Nat} {s : List Byte}

/-- `x` is not a digit, so a text of digits has no prefix. -/
theorem startsHex_of_full (h : (run digitOf base s).length = s.length) : startsHex s = false := by
  rw [Bool.eq_false_iff]
  intro hStarts
  obtain ⟨x, rest, rfl, hx⟩ := startsHex_cases hStarts
  obtain ⟨-, -, -, hRest⟩ := full_cons h
  obtain ⟨d, hDigit, -, -⟩ := full_cons hRest
  rw [digitOf_cross hx] at hDigit
  exact absurd hDigit.symm (Option.some_ne_none d)

/-- **Reading a numeral** that a string consists of. -/
theorem strtoul_spells (h : CString m p s) (hFuel : s.length < fuel) (hBase : 0 < base)
    (hSpells : Spells digitOf base s n) :
    strtoul m fuel p endptr base = some (n % 2 ^ 64, setEndptr m endptr (p + s.length)) := by
  have hStarts : ¬ ((base = 0 ∨ base = 16) ∧ startsHex s = true) := fun hHex => by
    rw [startsHex_of_full hSpells.full] at hHex
    exact Bool.false_ne_true hHex.2
  obtain ⟨hSame, hDigits, hLength⟩ := numeral_plain hStarts
  rw [if_neg (Nat.ne_of_gt hBase)] at hSame
  rw [strtoul_eq h hFuel, numeralValue, hDigits, hLength, hSame, hSpells.value_eq, hSpells.full]

theorem hexText_length (val : BitVec 64) : (hexText val).length = 18 := by
  rw [hexText, List.length_append, upperDigits_length]
  rfl

/-- **Reading the text of `print_hex`**, with the base given or found. -/
theorem strtoul_hexText {val : BitVec 64} (h : CString m p (hexText val)) (hFuel : 18 < fuel)
    (hBase : base = 16 ∨ base = 0) :
    strtoul m fuel p endptr base =
      some (val.toNat, setEndptr m endptr (p + (hexText val).length)) := by
  have hSpells := hexText_spells val
  have hLength := hSpells.full
  rw [upperDigits_length] at hLength
  have hDrop : (hexText val).drop 2 = upperDigits val 16 := rfl
  have hPrefix : HasHexPrefix base (hexText val) := by
    refine ⟨⟨hBase.symm, rfl⟩, fun hNone => ?_⟩
    rw [hDrop] at hNone
    rw [hNone] at hLength
    exact absurd hLength (by decide)
  obtain ⟨hSixteen, hDigits, hScanned⟩ := numeral_prefixed hPrefix
  rw [strtoul_eq h (by rwa [hexText_length]), numeralValue, hDigits, hScanned, hSixteen, hDrop,
    hSpells.value_eq, hLength, Nat.mod_eq_of_lt val.isLt, hexText_length]

-- ---------------------------------------------------------------------------
-- The three codecs
-- ---------------------------------------------------------------------------

/-- Wherever the text lies, `strtoul` reads the number and stops at the zero byte. -/
def ReadsBack (base : Nat) (text : List Byte) (v : BitVec 64) : Prop :=
  ∀ m p fuel endptr, CString m p text → text.length < fuel →
    strtoul m fuel p endptr base = some (v.toNat, setEndptr m endptr (p + text.length))

/-- The texts of a number on the normal and on the panic console. -/
structure NumberTexts (v : BitVec 64) (base : Nat) (buf : Mem) (uart : Uart) : Prop where
  itoa_text     : CString (itoa v.toNat base buf) 0 (digitBytes base v.toNat)
  itoa_reads    : ReadsBack base (digitBytes base v.toNat) v
  canonical     : (digitBytes base v.toNat).head? = some (ascii '0') → v = 0
  zero_text     : v = 0 → digitBytes base v.toNat = asciiString "0"
  in_buffer     : 10 ≤ base → (digitBytes base v.toNat).length + 1 ≤ 64 ∧
                    ∀ x, 64 ≤ x → itoa v.toNat base buf x = buf x
  printHex_text : ∀ fuel, 2 < fuel → printHex fuel v uart = some (uart ++ uartWords (hexText v))
  hex_nonzero   : ∀ b ∈ hexText v, b ≠ 0
  hex_reads     : ReadsBack 16 (hexText v) v
  auto_reads    : ReadsBack 0 (hexText v) v

/--
**Printed numbers read back.** For every 64-bit number and every base from 2 to 16,
whatever the buffer and the console held: `strtoul` reads the text of `itoa` in that
base as the number, to its end; the text has no needless zero in front and, from
base 10 on, fits the buffer of `vprintf`; and `strtoul` reads what `print_hex` prints
as the same number, to its end.
-/
theorem numbers_readBack (v : BitVec 64) {base : Nat} (hBase : 2 ≤ base) (hHex : base ≤ 16)
    (buf : Mem) (uart : Uart) : NumberTexts v base buf uart where
  itoa_text := (itoa_spec hBase hHex v.isLt buf).1
  itoa_reads := by
    intro m p fuel endptr h hFuel
    rw [strtoul_spells h hFuel (by omega) (digitBytes_spells hBase hHex v.toNat),
      Nat.mod_eq_of_lt v.isLt]
  canonical := fun hHead => BitVec.eq_of_toNat_eq (digitBytes_head hBase hHex v.toNat hHead)
  zero_text := by
    rintro rfl
    exact digitBytes_zero base
  in_buffer := by
    intro hTen
    have hFits : v.toNat < base ^ 20 :=
      Nat.lt_of_lt_of_le (Nat.lt_trans v.isLt (by omega)) (Nat.pow_le_pow_left hTen 20)
    have hLength := digitBytes_length_le hBase (by omega) hFits
    exact ⟨by omega, fun x hx => itoa_inBuffer hTen hHex v.isLt buf hx⟩
  printHex_text := fun fuel hFuel => printHex_eq hFuel v uart
  hex_nonzero := List.forall_mem_append.mpr ⟨by decide, upperDigits_ne_zero v 16⟩
  hex_reads := fun m p fuel endptr h hFuel =>
    strtoul_hexText h (hexText_length v ▸ hFuel) (Or.inl rfl)
  auto_reads := fun m p fuel endptr h hFuel =>
    strtoul_hexText h (hexText_length v ▸ hFuel) (Or.inr rfl)

/-- The largest number, in base 16. -/
theorem numbers_readBack_max :
    NumberTexts 0xFFFFFFFFFFFFFFFF 16 (fun _ => 0xFF) [] :=
  numbers_readBack 0xFFFFFFFFFFFFFFFF (by omega) (by omega) (fun _ => 0xFF) []

end Kernalite
