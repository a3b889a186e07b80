import Mathlib.Algebra.Group.Nat.Defs
import Mathlib.Algebra.GroupWithZero.Nat
import Mathlib.Data.List.TakeWhile
import Kernalite.Lib.ByteString
import Kernalite.Utils.Kprintf

/-!
# Kernalite — the panic console

`print_uart0`, `print_hex_digit` and `print_hex` of `src/kernel/error/panic.c`, which
print without `kprintf`. The console is the list of words written to `uart0_dr`; a
plain `char` is unsigned on this machine.

* `printHex_eq` — a number is printed as `0x` and sixteen upper-case digits.
-/

namespace Kernalite

open ByteMemory ByteString

/-- The words written to `uart0_dr`, the oldest first. -/
abbrev Uart := List (BitVec 32)

/-- `while (*str != '\0') { *uart0_dr = (unsigned int)(*str); str++; }` -/
def printUart0 (m : Mem) : Nat → Nat → Uart → Option Uart
  | 0, _, _ => none
  | fuel + 1, str, uart =>
    if m str = 0 then some uart
    else printUart0 m fuel (str + 1) (uart ++ [(m str).setWidth 32])

/-- A literal that is passed to `print_uart0`. -/
def printUart0Literal (bytes : List Byte) (fuel : Nat) (uart : Uart) : Option Uart :=
  printUart0 (fun i => bytes.getD i 0) fuel 0 uart

def printHexDigit (fuel : Nat) (digit : Byte) (uart : Uart) : Option Uart :=
  let ten : Byte := 10
  let ascii0 := ascii '0'
  let asciiUpperA := ascii 'A'
  if digit < 10 then printUart0Literal [digit + ascii0, 0] fuel uart
  else printUart0Literal [digit - ten + asciiUpperA, 0] fuel uart

/-- `for (int i = 60; i >= 0; i -= 4)`, of which `rounds` rounds are left. -/
def printHexLoop (fuel : Nat) (val : BitVec 64) : Nat → Uart → Option Uart
  | 0, uart => some uart
  | rounds + 1, uart =>
    let i := 4 * rounds
    (printHexDigit fuel (((val >>> i) &&& 0xF).setWidth 8) uart).bind
      (printHexLoop fuel val rounds)

def printHex (fuel : Nat) (val : BitVec 64) (uart : Uart) : Option Uart :=
  (printUart0Literal (asciiString "0x") fuel uart).bind (printHexLoop fuel val 16)

-- ---------------------------------------------------------------------------
-- What is printed
-- ---------------------------------------------------------------------------

/-- The digit `n` of a number in base 16, in upper case. -/
def upperDigit (val : BitVec 64) (n : Nat) : Byte :=
  ascii (val.toNat / 16 ^ n % 16).digitChar.toUpper

/-- The last `n` digits, the highest first. -/
def upperDigits (val : BitVec 64) : Nat → List Byte
  | 0 => []
  | n + 1 => upperDigit val n :: upperDigits val n

/-- The text of a number on the panic console. -/
def hexText (val : BitVec 64) : List Byte := asciiString "0x" ++ upperDigits val 16

/-- The words that print a text. -/
def uartWords (xs : List Byte) : Uart := xs.map (·.setWidth 32)

variable {m : Mem} {fuel p : Nat} {xs : List Byte} {uart : Uart} {val : BitVec 64}

/-- Of bytes with a zero byte behind them, `print_uart0` prints those in front of the first
zero byte. -/
theorem printUart0_of_holds (h : Holds m p (xs ++ [0])) (hFuel : xs.length < fuel) :
    printUart0 m fuel p uart = some (uart ++ uartWords (xs.takeWhile (· ≠ 0))) := by
  induction xs generalizing fuel p uart with
  | nil =>
    obtain ⟨fuel, rfl⟩ : ∃ n, fuel = n + 1 := ⟨fuel - 1, by omega⟩
    rw [printUart0, if_pos h.head]
    exact congrArg some (List.append_nil uart).symm
  | cons x xs ih =>
    rw [List.length_cons] at hFuel
    obtain ⟨fuel, rfl⟩ : ∃ n, fuel = n + 1 := ⟨fuel - 1, by omega⟩
    have hFirst : m p = x := h.head
    by_cases hZero : x = 0
    · rw [printUart0, hFirst, if_pos hZero, List.takeWhile_cons_of_neg (by simp [hZero])]
      exact congrArg some (List.append_nil uart).symm
    · have hKept : (x :: xs).takeWhile (· ≠ 0) = x :: xs.takeWhile (· ≠ 0) :=
        List.takeWhile_cons_of_pos (decide_eq_true hZero)
      rw [printUart0, hFirst, if_neg hZero, ih h.2 (by omega), List.append_assoc, hKept]
      rfl

/-- A string is printed to its end. -/
theorem printUart0_eq (h : CString m p xs) (hFuel : xs.length < fuel) :
    printUart0 m fuel p uart = some (uart ++ uartWords xs) := by
  have hWhole : xs.takeWhile (· ≠ 0) = xs :=
    List.takeWhile_eq_self_iff.mpr fun x hx => decide_eq_true (h.nonzero x hx)
  rw [printUart0_of_holds h.holds hFuel, hWhole]

theorem upperDigit_ne_zero (val : BitVec 64) (n : Nat) : upperDigit val n ≠ 0 := by
  have hAll : ∀ d : Fin 16, ascii (d : Nat).digitChar.toUpper ≠ 0 := by decide
  exact hAll ⟨val.toNat / 16 ^ n % 16, Nat.mod_lt _ (by omega)⟩

theorem upperDigits_ne_zero (val : BitVec 64) (n : Nat) : ∀ b ∈ upperDigits val n, b ≠ 0 := by
  induction n with
  | zero => exact fun b hb => absurd hb List.not_mem_nil
  | succ n ih =>
    rintro b (_ | ⟨_, hb⟩)
    · exact upperDigit_ne_zero val n
    · exact ih b hb

theorem upperDigits_length (val : BitVec 64) (n : Nat) : (upperDigits val n).length = n := by
  induction n with
  | zero => rfl
  | succ n ih => rw [upperDigits, List.length_cons, ih]

/-- The digit that `print_hex` cuts out of the number. -/
theorem nibble_eq (val : BitVec 64) (n : Nat) :
    ((val >>> (4 * n)) &&& 0xF).setWidth 8 = BitVec.ofNat 8 (val.toNat / 16 ^ n % 16) := by
  have hLow : val.toNat / 16 ^ n % 16 < 16 := Nat.mod_lt _ (by omega)
  apply BitVec.eq_of_toNat_eq
  rw [BitVec.toNat_setWidth, BitVec.toNat_and, BitVec.toNat_ushiftRight, BitVec.toNat_ofNat,
    Nat.shiftRight_eq_div_pow, Nat.pow_mul]
  have hMask : val.toNat / (2 ^ 4) ^ n &&& 15 = val.toNat / 16 ^ n % 16 :=
    Nat.and_two_pow_sub_one_eq_mod _ 4
  change (_ &&& 15) % 2 ^ 8 = _
  rw [hMask]

/-- The character of a digit, as the code computes it. -/
theorem hexDigit_char {d : Nat} (hd : d < 16) :
    (if BitVec.ofNat 8 d < 10 then BitVec.ofNat 8 d + ascii '0'
      else BitVec.ofNat 8 d - 10 + ascii 'A') = ascii d.digitChar.toUpper := by
  have hAll : ∀ d : Fin 16, (if BitVec.ofNat 8 d < 10 then BitVec.ofNat 8 d + ascii '0'
      else BitVec.ofNat 8 d - 10 + ascii 'A') = ascii (d : Nat).digitChar.toUpper := by decide
  exact hAll ⟨d, hd⟩

/-- A compound literal of one character. -/
theorem printUart0Literal_char (hFuel : 1 < fuel) {c : Byte} (hc : c ≠ 0) :
    printUart0Literal [c, 0] fuel uart = some (uart ++ uartWords [c]) := by
  have hString : CString (fun i => [c, 0].getD i 0) 0 [c] :=
    ⟨⟨rfl, rfl, trivial⟩, fun b hb => by rwa [List.mem_singleton.mp hb]⟩
  exact printUart0_eq hString hFuel

/-- **`print_hex_digit`** prints one character. -/
theorem printHexDigit_eq (hFuel : 1 < fuel) (n : Nat) :
    printHexDigit fuel (((val >>> (4 * n)) &&& 0xF).setWidth 8) uart =
      some (uart ++ uartWords [upperDigit val n]) := by
  have hLow : val.toNat / 16 ^ n % 16 < 16 := Nat.mod_lt _ (by omega)
  have hLiteral : ∀ digit : Byte, printHexDigit fuel digit uart =
      printUart0Literal [if digit < 10 then digit + ascii '0' else digit - 10 + ascii 'A', 0]
        fuel uart := by
    intro digit
    unfold printHexDigit
    split_ifs <;> rfl
  rw [nibble_eq, hLiteral, hexDigit_char hLow]
  exact printUart0Literal_char hFuel (upperDigit_ne_zero val n)

theorem printHexLoop_eq (hFuel : 1 < fuel) (rounds : Nat) :
    printHexLoop fuel val rounds uart = some (uart ++ uartWords (upperDigits val rounds)) := by
  induction rounds generalizing uart with
  | zero => exact congrArg some (List.append_nil uart).symm
  | succ rounds ih =>
    simp only [printHexLoop]
    rw [printHexDigit_eq hFuel, Option.bind_some, ih, List.append_assoc]
    rfl

/-- **`print_hex`** prints the text of the number. -/
theorem printHex_eq (hFuel : 2 < fuel) (val : BitVec 64) (uart : Uart) :
    printHex fuel val uart = some (uart ++ uartWords (hexText val)) := by
  have hString : CString (fun i => (asciiString "0x").getD i 0) 0 (asciiString "0x") :=
    cString_getD (by decide)
  rw [printHex, printUart0Literal, printUart0_eq hString hFuel, Option.bind_some,
    printHexLoop_eq (by omega), List.append_assoc, hexText, uartWords, uartWords, uartWords,
    List.map_append]

end Kernalite
