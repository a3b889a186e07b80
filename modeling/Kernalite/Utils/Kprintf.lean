import Kernalite.Lib.ByteMemory

/-!
# Kernalite — formatted output

`src/kernel/utils/kprintf.c`. `vprintf` reads the format and the strings of its
arguments from memory, and numbers through a local buffer. A variable argument is
a 64-bit slot; `none` is a result that C leaves undefined, because the arguments
run out, or one that takes more rounds of a loop than `fuel`.
-/

namespace Kernalite

open ByteMemory

/-- `serial_t`: two function pointers. -/
structure Serial where
  putc : Nat
  getc : Nat
  deriving DecidableEq, Repr

/-- A character constant. -/
def ascii (c : Char) : Byte := BitVec.ofNat 8 c.toNat

/-- The bytes of a string literal. -/
def asciiString (s : String) : List Byte := s.toList.map ascii

/-- A literal is the list of its characters. -/
theorem asciiString_ofList (cs : List Char) : asciiString (String.ofList cs) = cs.map ascii := by
  rw [asciiString, String.toList_ofList]

-- ---------------------------------------------------------------------------
-- `itoa`
-- ---------------------------------------------------------------------------

/-- `(digit < 10) ? (digit + '0') : (digit - 10 + 'a')` -/
def digitByte (digit : Nat) : Byte :=
  BitVec.ofNat 8 (if digit < 10 then digit + '0'.toNat else digit - 10 + 'a'.toNat)

/-- The digit loop of `itoa`, at most `rounds` times: `*ptr++ = digit` until nothing
is left of `num`. -/
def itoaDigits (base : Nat) : Nat → Nat → Nat → Mem → Nat × Mem
  | 0, _, ptr, buf => (ptr, buf)
  | rounds + 1, num, ptr, buf =>
    let digit := num % base
    let buf := store8 buf ptr (digitByte digit)
    let num := num / base
    if num > 0 then itoaDigits base rounds num (ptr + 1) buf else (ptr + 1, buf)

/-- The loop that reverses `[ptr1, ptr2]`, at most `rounds` times. -/
def itoaReverse : Nat → Nat → Nat → Mem → Mem
  | 0, _, _, buf => buf
  | rounds + 1, ptr1, ptr2, buf =>
    if ptr1 < ptr2 then
      let tmp := buf ptr1
      let buf := store8 buf ptr1 (buf ptr2)
      let buf := store8 buf ptr2 tmp
      itoaReverse rounds (ptr1 + 1) (ptr2 - 1) buf
    else buf

/-- `itoa(num, base, buf)`, with addresses relative to `buf`. A 64-bit number has no
more than 64 digits. -/
def itoa (num base : Nat) (buf : Mem) : Mem :=
  -- Build string in reverse
  let (ptr, buf) := itoaDigits base 64 num 0 buf
  let buf := store8 buf ptr 0
  -- Reverse the string in place
  itoaReverse 64 0 (ptr - 1) buf

-- ---------------------------------------------------------------------------
-- `vprintf`
-- ---------------------------------------------------------------------------

/-- What `vprintf` works on: the arguments not yet read, its local buffer, the
characters passed to `putc`, and its counter `printed`, an `int`. -/
structure PrintState where
  args : List (BitVec 64)
  buf : Mem
  out : List Byte
  printed : BitVec 32

namespace PrintState

def putc (s : PrintState) (c : Byte) : PrintState := { s with out := s.out ++ [c] }

/-- `printed += n` -/
def count (s : PrintState) (n : BitVec 32) : PrintState := { s with printed := s.printed + n }

end PrintState

/-- `while (*str) { putc(*str++); printed++; }` -/
def putString (m : Mem) : Nat → Nat → PrintState → Option PrintState
  | 0, _, _ => none
  | fuel + 1, str, s =>
    if m str = 0 then some s else putString m fuel (str + 1) ((s.putc (m str)).count 1)

/-- `va_arg(args, ...)` -/
def vaArg (s : PrintState) : Option (BitVec 64 × PrintState) :=
  match s.args with
  | [] => none
  | arg :: args => some (arg, { s with args := args })

/-- `itoa(num, base, buf)` and the loop that prints the buffer. -/
def putNumber (fuel : Nat) (num : BitVec 64) (base : Nat) (s : PrintState) : Option PrintState :=
  let s := { s with buf := itoa num.toNat base s.buf }
  putString s.buf fuel 0 s

/-- The cases `'x'` and `'p'`. -/
def putHex (m : Mem) (fuel ptr : Nat) (s : PrintState) : Option PrintState :=
  let s := if m ptr = ascii 'p' then ((s.putc (ascii '0')).putc (ascii 'x')).count 2 else s
  (vaArg s).bind fun (num, s) => putNumber fuel num 16 s

/-- The `switch` of `vprintf` at `ptr`, the character after `%`. The result has the
pointer as the branch leaves it. -/
def convert (m : Mem) (fuel ptr : Nat) (s : PrintState) : Option (Nat × PrintState) :=
  if m ptr = ascii 'l' then
    -- fallthrough: handle 'lx' (long hex) as 'x'
    (putHex m fuel (ptr + 1) s).map (ptr + 1, ·)
  else if m ptr = ascii 'x' ∨ m ptr = ascii 'p' then (putHex m fuel ptr s).map (ptr, ·)
  else if m ptr = ascii 'c' then
    (vaArg s).map fun (arg, s) => (ptr, (s.putc (arg.setWidth 8)).count 1)
  else if m ptr = ascii 's' then
    (vaArg s).bind fun (str, s) =>
      (if str = 0 then putString (fun i => (asciiString "(null)").getD i 0) fuel 0 s
        else putString m fuel str.toNat s).map (ptr, ·)
  else if m ptr = ascii 'd' then
    (vaArg s).bind fun (num, s) =>
      let s := if num.slt 0 then (s.putc (ascii '-')).count 1 else s
      let num := if num.slt 0 then -num else num
      (putNumber fuel num 10 s).map (ptr, ·)
  else if m ptr = ascii 'u' then
    (vaArg s).bind fun (num, s) => (putNumber fuel num 10 s).map (ptr, ·)
  else if m ptr = ascii '%' then some (ptr, (s.putc (ascii '%')).count 1)
  else some (ptr, ((s.putc (ascii '%')).putc (m ptr)).count 2)

/-- The loop over the format. -/
def vprintfLoop (m : Mem) : Nat → Nat → PrintState → Option PrintState
  | 0, _, _ => none
  | fuel + 1, ptr, s =>
    if m ptr = 0 then some s
    else if m ptr ≠ ascii '%' then
      let s := if m ptr = ascii '\n' then (s.putc (ascii '\r')).count 1 else s
      vprintfLoop m fuel (ptr + 1) ((s.putc (m ptr)).count 1)
    else
      (convert m fuel (ptr + 1) s).bind fun (ptr, s) => vprintfLoop m fuel (ptr + 1) s

/-- `vprintf(format, args)` with the local buffer as the stack left it. -/
def vprintf (serialConsole : Serial) (m : Mem) (fuel format : Nat) (args : List (BitVec 64))
    (buf : Mem) : Option PrintState :=
  -- No console set, can't print
  if serialConsole.putc = 0 then some ⟨args, buf, [], 0⟩
  else vprintfLoop m fuel format ⟨args, buf, [], 0⟩

end Kernalite
