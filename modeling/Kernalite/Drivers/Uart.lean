import Kernalite.Error.Panic
import Kernalite.Lib.Words
import Kernalite.Utils.Readback

/-!
# Kernalite — the console on the UART

`src/kernel/drivers/uart.c`, `set_kprintf_console` and `uart0_putchar` of `main.c`:
`kprintf` sends its characters through two function pointers. A pointer is the address
of the function (`Functions`), and calling another address has no result. What arrives
at the device is the list of its register writes (`Bus`).

* `sendAll_eq` — a text goes to the data register, character by character;
* `kprintf_onUart` — both consoles of the kernel write the same for the same text, unless
  `%c` printed a zero character.
-/

namespace Kernalite

open ByteMemory ByteString Words

-- ---------------------------------------------------------------------------
-- `uart.c`
-- ---------------------------------------------------------------------------

/-- The addresses of the functions that are called through pointers. -/
structure Functions where
  pl011Putc : Nat
  pl011Getc : Nat
  uart0Putchar : Nat

/-- `uart_device_t` -/
structure UartDevice where
  mmioBase : Nat
  putc : Nat
  getc : Nat
  deriving DecidableEq, Repr

/-- Register writes, address and value, the oldest first. -/
abbrev Bus := List (Nat × BitVec 32)

/-- `UART_DR` -/
def uartDr : Nat := 0x00

/-- `*data_reg = (uint32_t)chr;` -/
def pl011Putc (dev : UartDevice) (chr : Byte) (bus : Bus) : Bus :=
  let dataReg := add64 dev.mmioBase uartDr
  bus ++ [(dataReg, chr.setWidth 32)]

/-- `pl011_init(dev, base)`, by the fields it sets. -/
def pl011Init (fns : Functions) (base : Nat) : UartDevice where
  mmioBase := base
  putc := fns.pl011Putc
  getc := fns.pl011Getc

-- ---------------------------------------------------------------------------
-- The console of `kprintf`
-- ---------------------------------------------------------------------------

/-- `set_kprintf_console(con)`, by the fields it sets. -/
def setKprintfConsole (con : Serial) : Serial where
  getc := con.getc
  putc := con.putc

/-- `uart0.putc(&uart0, chr);` -/
def uart0Putchar (fns : Functions) (uart0 : UartDevice) (chr : Byte) (bus : Bus) : Option Bus :=
  if uart0.putc = fns.pl011Putc then some (pl011Putc uart0 chr bus) else none

/-- `serial_console.putc(chr);` -/
def serialPutc (fns : Functions) (serialConsole : Serial) (uart0 : UartDevice) (chr : Byte)
    (bus : Bus) : Option Bus :=
  if serialConsole.putc = fns.uart0Putchar then uart0Putchar fns uart0 chr bus else none

/-- A text through the console. -/
def sendAll (fns : Functions) (serialConsole : Serial) (uart0 : UartDevice) :
    List Byte → Bus → Option Bus
  | [], bus => some bus
  | chr :: text, bus =>
    (serialPutc fns serialConsole uart0 chr bus).bind (sendAll fns serialConsole uart0 text)

/-- The address of `uart0_dr` of `panic.c`, and the base `main` gives to `uart0`. -/
def uart0Base : Nat := 0x09000000

/-- The console `main` sets. -/
def mainConsole (fns : Functions) : Serial := setKprintfConsole ⟨fns.uart0Putchar, 0⟩

/-- Words at the data register of the UART. -/
def onUart0 (words : Uart) : Bus := words.map fun word => (uart0Base, word)

variable {fns : Functions}

/-- **A text through the console** arrives at the data register of the UART. -/
theorem sendAll_eq (text : List Byte) (bus : Bus) :
    sendAll fns (mainConsole fns) (pl011Init fns uart0Base) text bus =
      some (bus ++ onUart0 (uartWords text)) := by
  induction text generalizing bus with
  | nil => exact congrArg some (List.append_nil bus).symm
  | cons chr text ih =>
    have hChar : serialPutc fns (mainConsole fns) (pl011Init fns uart0Base) chr bus =
        some (bus ++ [(uart0Base, chr.setWidth 32)]) := by
      have hSerial : (mainConsole fns).putc = fns.uart0Putchar := rfl
      have hUart : (pl011Init fns uart0Base).putc = fns.pl011Putc := rfl
      rw [serialPutc, if_pos hSerial, uart0Putchar, if_pos hUart]
      rfl
    rw [sendAll, hChar, Option.bind_some, ih, List.append_assoc]
    rfl

/--
**The two consoles.** With the console as `main` sets it, for every complete format in
memory and all arguments that supply it: `kprintf` writes to the device, through the two
function pointers, the words `print_uart0` of the panic path writes for the formatted text,
to the same register, and behind them what stands from the first zero character on. The two
write the same exactly when no `%c` is passed a character 0.
-/
theorem kprintf_onUart (hAddr : fns.uart0Putchar ≠ 0) {m m' : Mem} {format p : Nat}
    {text : List Byte} (hFormat : CString m format text) (hComplete : Complete text)
    {args unread : List (BitVec 64)} {chunks : List Chunk}
    (hArgs : Supplies m text args chunks unread)
    (hText : Holds m' p (chunks.flatMap Chunk.render ++ [0])) :
    ∃ fuel₀, ∀ fuel, fuel₀ ≤ fuel → ∀ buf bus, ∃ s words rest,
      vprintf (mainConsole fns) m fuel format args buf = some s ∧ s.args = unread ∧
        printUart0 m' fuel p [] = some words ∧
        sendAll fns (mainConsole fns) (pl011Init fns uart0Base) s.out bus =
          some (bus ++ onUart0 (words ++ rest)) ∧
        (∀ word ∈ rest.head?, word = 0) ∧
        (rest = [] ↔ ∀ slot, .piece (.char slot) ∈ chunks → slot.setWidth 8 ≠ (0 : Byte)) := by
  obtain ⟨fuel₀, hRun⟩ := vprintf_supplied (show (mainConsole fns).putc ≠ 0 from hAddr) hFormat
    hComplete hArgs
  refine ⟨max fuel₀ ((chunks.flatMap Chunk.render).length + 1), fun fuel hFuel buf bus => ?_⟩
  obtain ⟨s, hEq, hOut, hUnread⟩ := hRun fuel (by omega) buf
  have hPanic : printUart0 m' fuel p [] =
      some ([] ++ uartWords ((chunks.flatMap Chunk.render).takeWhile (· ≠ 0))) :=
    printUart0_of_holds hText (by omega)
  rw [List.nil_append, ← hOut] at hPanic
  refine ⟨s, _, uartWords (s.out.dropWhile (· ≠ 0)), hEq, hUnread, hPanic, ?_, ?_, ?_⟩
  · have hSplit : uartWords (s.out.takeWhile (· ≠ 0)) ++ uartWords (s.out.dropWhile (· ≠ 0)) =
        uartWords s.out := by
      unfold uartWords
      rw [← List.map_append, List.takeWhile_append_dropWhile]
    rw [sendAll_eq, hSplit]
  · intro word hWord
    have hHead := List.head?_dropWhile_not (· ≠ (0 : Byte)) s.out
    rw [uartWords, List.head?_map, Option.mem_map] at hWord
    obtain ⟨chr, hChr, rfl⟩ := hWord
    rw [Option.mem_def.mp hChr] at hHead
    have hZero : chr = 0 := by simpa using hHead
    rw [hZero]
    rfl
  · have hZero : 0 ∈ s.out ↔ ∃ slot, .piece (.char slot) ∈ chunks ∧ slot.setWidth 8 = (0 : Byte) := by
      rw [hOut, List.mem_flatMap]
      constructor
      · rintro ⟨chunk, hMem, hRender⟩
        obtain ⟨slot, rfl, hSlot⟩ := (zero_mem_render (hArgs.wellFormed chunk hMem)).mp hRender
        exact ⟨slot, hMem, hSlot⟩
      · rintro ⟨slot, hMem, hSlot⟩
        exact ⟨_, hMem, (zero_mem_render (hArgs.wellFormed _ hMem)).mpr ⟨slot, rfl, hSlot⟩⟩
    have hNone : uartWords (s.out.dropWhile (· ≠ 0)) = [] ↔ 0 ∉ s.out := by
      rw [uartWords, List.map_eq_nil_iff, List.dropWhile_eq_nil_iff]
      simp only [decide_eq_true_eq]
      exact ⟨fun hAll hMem => hAll 0 hMem rfl, fun hNot chr hMem hEq => hNot (hEq ▸ hMem)⟩
    rw [hNone, hZero]
    push Not
    exact Iff.rfl

/-- A number and a line end. -/
theorem kprintf_onUart_number :
    let fns : Functions := ⟨0x40001000, 0x40001010, 0x40001020⟩
    let text := asciiString "%u\n"
    let printed := asciiString "100\r\n"
    ∃ fuel₀, ∀ fuel, fuel₀ ≤ fuel → ∀ buf bus, ∃ s words,
      vprintf (mainConsole fns) (fun i => text.getD i 0) fuel 0 [100] buf = some s ∧ s.args = [] ∧
        printUart0 (fun i => printed.getD i 0) fuel 0 [] = some words ∧
        sendAll fns (mainConsole fns) (pl011Init fns uart0Base) s.out bus =
          some (bus ++ onUart0 words) := by
  intro fns text printed
  have hArgs : Supplies (fun i => text.getD i 0) text [100]
      [.piece (.unsigned 100), .piece (.plain (ascii '\n'))] [] :=
    ⟨by decide, by simp [Chunk.WellFormed, Piece.WellFormed, ascii], rfl, by decide⟩
  have hPrinted : [Chunk.piece (.unsigned 100), .piece (.plain (ascii '\n'))].flatMap Chunk.render =
      printed := by
    decide +kernel
  have hText : Holds (fun i => printed.getD i 0) 0 ([Chunk.piece (.unsigned 100),
      .piece (.plain (ascii '\n'))].flatMap Chunk.render ++ [0]) := by
    rw [hPrinted]
    exact (cString_getD (by decide)).holds
  obtain ⟨fuel₀, hRun⟩ := kprintf_onUart (show fns.uart0Putchar ≠ 0 by decide)
    (cString_getD (by decide)) (by decide) hArgs hText
  refine ⟨fuel₀, fun fuel hFuel buf bus => ?_⟩
  obtain ⟨s, words, rest, hEq, hUnread, hPanic, hSent, -, hRest⟩ := hRun fuel hFuel buf bus
  obtain rfl : rest = [] := hRest.mpr (by simp)
  rw [List.append_nil] at hSent
  exact ⟨s, words, hEq, hUnread, hPanic, hSent⟩

end Kernalite
