import Kernalite.Lib.Words
import Kernalite.Utils.Kprintf

/-!
# Kernalite — string and memory helpers

`src/kernel/utils/string.c`. The pointers of the functions that are given a size wrap at
the end of the address space, those into a string are plain numbers; `none` is a scan
that takes more rounds than `fuel`.
-/

namespace Kernalite

open ByteMemory Words

-- ---------------------------------------------------------------------------
-- `memmove`
-- ---------------------------------------------------------------------------

/-- `while (size--) { *d_ptr++ = *s_ptr++; }` -/
def copyForward : Nat → Nat → Nat → Mem → Mem
  | 0, _, _, m => m
  | size + 1, dPtr, sPtr, m =>
    copyForward size (add64 dPtr 1) (add64 sPtr 1) (store8 m dPtr (m sPtr))

/-- `while (size--) { *--d_ptr = *--s_ptr; }` -/
def copyBackward : Nat → Nat → Nat → Mem → Mem
  | 0, _, _, m => m
  | size + 1, dPtr, sPtr, m =>
    let dPtr := sub64 dPtr 1
    let sPtr := sub64 sPtr 1
    copyBackward size dPtr sPtr (store8 m dPtr (m sPtr))

def memmove (dest src size : Nat) (m : Mem) : Nat × Mem :=
  if dest < src then
    -- Copy forward
    (dest, copyForward size dest src m)
  else if dest > src then
    -- Copy backward to handle overlap safely
    (dest, copyBackward size (add64 dest size) (add64 src size) m)
  else (dest, m)

-- ---------------------------------------------------------------------------
-- The other functions on ranges of memory
-- ---------------------------------------------------------------------------

def memcpy (dest src size : Nat) (m : Mem) : Nat × Mem := (dest, copyForward size dest src m)

/-- `(unsigned char)chr`, and `(char)chr` on this machine. -/
def toChar (chr : Int) : Byte := BitVec.ofInt 8 chr

/-- `memcmp(ptr1, ptr2, size)` -/
def memcmp (m : Mem) : Nat → Nat → Nat → Int
  | _, _, 0 => 0
  | ptr1, ptr2, size + 1 =>
    if m ptr1 ≠ m ptr2 then (m ptr1).toNat - (m ptr2).toNat
    else memcmp m (add64 ptr1 1) (add64 ptr2 1) size

/-- `memchr(ptr, chr, size)` -/
def memchr (m : Mem) (chr : Int) : Nat → Nat → Nat
  | _, 0 => 0
  | ptr, size + 1 => if m ptr = toChar chr then ptr else memchr m chr (add64 ptr 1) size

/-- `while (size--) { *ptr++ = (unsigned char)val; }` -/
def fillForward (val : Int) : Nat → Nat → Mem → Mem
  | 0, _, m => m
  | size + 1, ptr, m => fillForward val size (add64 ptr 1) (store8 m ptr (toChar val))

def memset (sPtr : Nat) (val : Int) (size : Nat) (m : Mem) : Nat × Mem :=
  (sPtr, fillForward val size sPtr m)

-- ---------------------------------------------------------------------------
-- Searching a string
-- ---------------------------------------------------------------------------

/-- `strchr(str, chr)` -/
def strchr (m : Mem) (chr : Int) : Nat → Nat → Option Nat
  | 0, _ => none
  | fuel + 1, str =>
    if m str = toChar chr then some str
    else if m str = 0 then some 0
    else strchr m chr fuel (str + 1)

/-- The loop of `strrchr`, with `last` so far. -/
def strrchrLoop (m : Mem) (chr : Int) : Nat → Nat → Nat → Option Nat
  | 0, _, _ => none
  | fuel + 1, str, last =>
    let last := if m str = toChar chr then str else last
    if m str = 0 then some last else strrchrLoop m chr fuel (str + 1) last

def strrchr (m : Mem) (chr : Int) (fuel str : Nat) : Option Nat := strrchrLoop m chr fuel str 0

/-- `while (str[len]) len++;` -/
def strlenLoop (m : Mem) (str : Nat) : Nat → Nat → Option Nat
  | 0, _ => none
  | fuel + 1, len => if m (str + len) ≠ 0 then strlenLoop m str fuel (len + 1) else some len

def strlen (m : Mem) (fuel str : Nat) : Option Nat := strlenLoop m str fuel 0

/-- `while (len < maxlen && str[len]) len++;`, of which `left` rounds are left. -/
def strnlenLoop (m : Mem) (str : Nat) : Nat → Nat → Nat
  | 0, len => len
  | left + 1, len => if m (str + len) ≠ 0 then strnlenLoop m str left (len + 1) else len

def strnlen (m : Mem) (str maxlen : Nat) : Nat := strnlenLoop m str maxlen 0

-- ---------------------------------------------------------------------------
-- `strtoul`
-- ---------------------------------------------------------------------------

/-- `value`, or `none` where the character ends the scan. -/
def digitValue (chr : Byte) : Option Nat :=
  if ascii '0' ≤ chr ∧ chr ≤ ascii '9' then some (chr.toNat - '0'.toNat)
  else if ascii 'a' ≤ chr ∧ chr ≤ ascii 'f' then some (chr.toNat - 'a'.toNat + 10)
  else if ascii 'A' ≤ chr ∧ chr ≤ ascii 'F' then some (chr.toNat - 'A'.toNat + 10)
  else none

/-- The digit loop: `res`, and the character that stopped the scan. -/
def strtoulLoop (m : Mem) (base : Int) : Nat → Nat → Nat → Option (Nat × Nat)
  | 0, _, _ => none
  | fuel + 1, nptr, res =>
    if m nptr = 0 then some (res, nptr)
    else
      match digitValue (m nptr) with
      | none => some (res, nptr)
      | some value =>
        if value ≥ base then some (res, nptr)
        else strtoulLoop m base fuel (nptr + 1) ((res * base + value) % 2 ^ 64).toNat

/-- `strtoul(nptr, endptr, base)`; the result has the memory with `*endptr` written. -/
def strtoul (m : Mem) (fuel nptr endptr : Nat) (base : Int) : Option (Nat × Mem) :=
  -- Auto-detect or handle hex prefix
  let hexPrefix := (base = 0 ∨ base = 16) ∧ m nptr = ascii '0' ∧
    (m (nptr + 1) = ascii 'x' ∨ m (nptr + 1) = ascii 'X')
  let base := if hexPrefix then 16 else if base = 0 then 10 else base
  let nptr := if hexPrefix then nptr + 2 else nptr
  (strtoulLoop m base fuel nptr 0).map fun (res, nptr) =>
    (res, if endptr ≠ 0 then store64 m endptr (BitVec.ofNat 64 nptr) else m)

end Kernalite
