import Kernalite.Lib.TextScan
import Kernalite.Utils.RoundTrip
import Kernalite.Utils.Scan

/-!
# Kernalite — formatted output read back

A format says how to read what was printed with it: `scan` takes the tokens of the
format one after the other from a text and returns what their arguments were shown
as. It succeeds on the output of `vprintf` if every number and every string is
followed by a character of the format that it cannot be confused with (`Delimited`).

* `Chunk.reader_reads` — one token reads what its chunk is printed as;
* `scan_reads` — a row of them;
* `vprintf_readBack` — every delimited format reads its own output.
-/

namespace Kernalite

open ByteMemory ByteString Numeral TextScan

/-- What the output shows of an argument. -/
inductive Field where
  | number (n : Int)
  | text (s : List Byte)
  deriving DecidableEq, Repr

-- ---------------------------------------------------------------------------
-- Reading by a format
-- ---------------------------------------------------------------------------

/-- A text that stands for no argument. -/
def fixedReader (text : List Byte) : Reader Byte (List Field) := mapTo (fun _ => []) (literal text)

def numberReader (base : Nat) : Reader Byte (List Field) :=
  mapTo (fun n : Nat => [.number n]) (number digitOf base)

/-- Hexadecimal digits, of a pointer behind `0x`. -/
def hexReader (pointer : Bool) : Reader Byte (List Field) :=
  append (fixedReader (if pointer then asciiString "0x" else [])) (numberReader 16)

def signedReader : Reader Byte (List Field)
  | [] => none
  | b :: text =>
    if b = ascii '-' then mapTo (fun n : Nat => [.number (-n)]) (number digitOf 10) text
    else numberReader 10 (b :: text)

def charReader : Reader Byte (List Field)
  | [] => none
  | b :: text => some ([.text [b]], text)

/-- A string, up to the character that follows it. -/
def stringReader : Option Byte → Reader Byte (List Field)
  | none => fun _ => none
  | some stop => mapTo (fun s => [.text s]) (upTo stop)

namespace Token

/-- How to read what the token is printed as; `next` is the character behind it. -/
def reader (next : Option Byte) : Token → Reader Byte (List Field)
  | plain c => fixedReader (Piece.plain c).render
  | long c => hexReader (c = ascii 'p')
  | conversion c =>
    if c = ascii 'x' then hexReader false
    else if c = ascii 'p' then hexReader true
    else if c = ascii 'c' then charReader
    else if c = ascii 's' then stringReader next
    else if c = ascii 'd' then signedReader
    else if c = ascii 'u' then numberReader 10
    else if c = ascii '%' then fixedReader [ascii '%']
    else fixedReader [ascii '%', c]

/-- The conversions that consume an argument. -/
def consumes (c : Byte) : Bool :=
  [ascii 'x', ascii 'p', ascii 'c', ascii 's', ascii 'd', ascii 'u'].contains c

/-- The character a token without an argument starts with. -/
def lead : Token → Option Byte
  | plain c => some (if c = ascii '\n' then ascii '\r' else c)
  | long _ => none
  | conversion c =>
    if consumes c then none
    else some (ascii '%')

end Token

/-- The reader of a row of tokens. -/
def scan : List Token → Reader Byte (List Field)
  | [] => nothing
  | t :: ts => append (t.reader (ts.head?.bind Token.lead)) (scan ts)

-- ---------------------------------------------------------------------------
-- What is printed
-- ---------------------------------------------------------------------------

namespace Chunk

/-- What the output shows of the argument. -/
def fields : Chunk → List Field
  | piece (.plain _) | piece .percent | piece (.unsupported _) => []
  | piece (.char slot) => [.text [slot.setWidth 8]]
  | piece (.string _ s) => [.text s]
  | piece .nullString => [.text (asciiString "(null)")]
  | piece (.decimal slot) => [.number slot.toInt]
  | piece (.unsigned slot) | piece (.hex slot) | piece (.pointer slot) | piece (.longHex slot)
  | long _ slot => [.number slot.toNat]

/-- The base of a number. -/
def base : Chunk → Option Nat
  | piece (.decimal _) | piece (.unsigned _) => some 10
  | piece (.hex _) | piece (.pointer _) | piece (.longHex _) | long _ _ => some 16
  | _ => none

/-- The text that ends at the next character of the format. -/
def string : Chunk → Option (List Byte)
  | piece (.string _ s) => some s
  | piece .nullString => some (asciiString "(null)")
  | _ => none

/-- The character behind the chunk is no digit if it is a number, and not in it if it is
a string. -/
def EndsAt (next : Option Byte) (chunk : Chunk) : Prop :=
  (∀ b ∈ chunk.base, ∃ c ∈ next, run digitOf b [c] = []) ∧ ∀ s ∈ chunk.string, ∃ c ∈ next, c ∉ s

instance (next : Option Byte) (chunk : Chunk) : Decidable (chunk.EndsAt next) :=
  inferInstanceAs (Decidable (_ ∧ _))

end Chunk

/-- Every number and every string is followed by a character that ends it. -/
def Delimited : List Chunk → Prop
  | [] => True
  | chunk :: chunks => chunk.EndsAt (chunks.head?.bind fun c => c.token.lead) ∧ Delimited chunks

instance Delimited.decidable : (chunks : List Chunk) → Decidable (Delimited chunks)
  | [] => isTrue trivial
  | _ :: chunks => @instDecidableAnd _ _ _ (Delimited.decidable chunks)

variable {m : Mem} {chunk : Chunk} {chunks : List Chunk} {rest : List Byte} {base : Nat}

theorem fixedReader_reads (text rest : List Byte) : Reads (fixedReader text) text rest [] :=
  mapTo_reads (literal_reads text rest)

theorem numberReader_reads (hBase : 1 < base) (hHex : base ≤ 16) (num : Nat)
    (hStop : run digitOf base rest = []) :
    Reads (numberReader base) (digitBytes base num) rest [.number num] := by
  have hSome : digitBytes base num ≠ [] :=
    List.ne_nil_of_length_pos (digitBytes_length_pos base num)
  exact mapTo_reads (number_reads (digitBytes_spells hBase hHex num) hSome hStop)

theorem hexReader_reads (pointer : Bool) (num : Nat) (hStop : run digitOf 16 rest = []) :
    Reads (hexReader pointer)
      ((if pointer then asciiString "0x" else []) ++ digitBytes 16 num) rest [.number num] :=
  append_reads (fixedReader_reads _ _) (numberReader_reads (by omega) (by omega) num hStop)

/-- A number does not start with a minus. -/
theorem digitBytes_ne_minus (num : Nat) : ∀ b ∈ digitBytes 10 num, b ≠ ascii '-' := by
  intro b hb hMinus
  have hNone : digitOf (ascii '-') = none := by decide
  obtain ⟨d, hDigit, -⟩ := (digitBytes_spells (by omega) (by omega) num).digit_of_mem hb
  rw [hMinus, hNone] at hDigit
  cases hDigit

theorem signedReader_reads (n : Int) (hStop : run digitOf 10 rest = []) :
    Reads signedReader (Piece.signedBytes n) rest [.number n] := by
  have hBase : 1 < 10 := by omega
  have hHex : 10 ≤ 16 := by omega
  obtain ⟨b, bs, hDigits⟩ := List.exists_cons_of_ne_nil
    (List.ne_nil_of_length_pos (digitBytes_length_pos 10 n.natAbs))
  rw [Piece.signedBytes]
  by_cases hNeg : n < 0
  · have hNumber := number_reads (digitBytes_spells hBase hHex n.natAbs)
      (List.ne_nil_of_length_pos (digitBytes_length_pos 10 n.natAbs)) hStop
    have hRead := mapTo_reads (f := fun k : Nat => [Field.number (-k)]) hNumber
    have hValue : -(n.natAbs : Int) = n := by omega
    rw [hValue] at hRead
    rw [if_pos hNeg, Reads, List.cons_append, signedReader, if_pos rfl]
    exact hRead
  · have hNumber := numberReader_reads hBase hHex n.natAbs hStop
    have hFirst : b ≠ ascii '-' :=
      digitBytes_ne_minus n.natAbs b (by rw [hDigits]; exact List.mem_cons_self)
    have hValue : (n.natAbs : Int) = n := by omega
    rw [if_neg hNeg]
    rw [hDigits, hValue] at hNumber
    rw [hDigits, Reads, List.cons_append, signedReader, if_neg hFirst]
    exact hNumber

theorem charReader_reads (b : Byte) (rest : List Byte) :
    Reads charReader [b] rest [.text [b]] := rfl

theorem stringReader_reads {stop : Byte} {s : List Byte} (hStop : stop ∉ s) (rest : List Byte) :
    Reads (stringReader (some stop)) s (stop :: rest) [.text s] :=
  mapTo_reads (f := fun s : List Byte => [Field.text s]) (upTo_reads hStop rest)

-- ---------------------------------------------------------------------------
-- Chunks
-- ---------------------------------------------------------------------------

/-- What a token without an argument is printed as starts with its character. -/
theorem Chunk.render_lead (hWf : chunk.WellFormed m) {c : Byte} (hLead : chunk.token.lead = some c) :
    ∃ xs, chunk.render = c :: xs := by
  cases chunk with
  | long k slot => cases hLead
  | piece q =>
    cases q with
    | plain k =>
      rw [Chunk.render, Piece.render]
      obtain rfl := Option.some.inj hLead
      split_ifs
      · exact ⟨_, rfl⟩
      · exact ⟨_, rfl⟩
    | percent =>
      obtain rfl : ascii '%' = c := Option.some.inj hLead
      exact ⟨_, rfl⟩
    | unsupported k =>
      have hOther : ¬ Token.consumes k := fun hConsumes => by
        have hMem := List.contains_iff_mem.mp hConsumes
        exact hWf.2 (by simp only [List.mem_cons] at hMem ⊢; tauto)
      have hEq : Token.lead (.conversion k) = some c := hLead
      rw [Token.lead, if_neg hOther] at hEq
      obtain rfl : ascii '%' = c := Option.some.inj hEq
      exact ⟨_, rfl⟩
    | char | string | nullString | decimal | unsigned | hex | pointer | longHex => cases hLead

/-- No digit and no minus before what follows a number. -/
theorem Chunk.EndsAt.number {next : Option Byte} (h : chunk.EndsAt next)
    (hNext : ∀ c, next = some c → ∃ xs, rest = c :: xs) (hBase : chunk.base = some base) :
    run digitOf base rest = [] := by
  obtain ⟨c, hc, hStop⟩ := h.1 base hBase
  obtain ⟨xs, rfl⟩ := hNext c hc
  exact run_cons_of_single hStop xs

/-- A string is read up to what follows it. -/
theorem Chunk.EndsAt.reads {next : Option Byte} (h : chunk.EndsAt next)
    (hNext : ∀ c, next = some c → ∃ xs, rest = c :: xs) {s : List Byte}
    (hString : chunk.string = some s) : Reads (stringReader next) s rest [.text s] := by
  obtain ⟨c, rfl, hStop⟩ := h.2 s hString
  obtain ⟨xs, rfl⟩ := hNext c rfl
  exact stringReader_reads hStop xs

/-- **A token reads** what its chunk is printed as. -/
theorem Chunk.reader_reads {next : Option Byte} (hWf : chunk.WellFormed m)
    (hEnds : chunk.EndsAt next) (hNext : ∀ c, next = some c → ∃ xs, rest = c :: xs) :
    Reads (chunk.token.reader next) chunk.render rest chunk.fields := by
  cases chunk with
  | long c slot =>
    have hRead := hexReader_reads (decide (c = ascii 'p')) slot.toNat (hEnds.number hNext rfl)
    simp only [decide_eq_true_eq] at hRead
    exact hRead
  | piece q =>
    cases q with
    | plain c => exact fixedReader_reads _ rest
    | percent => exact fixedReader_reads _ rest
    | unsupported c =>
      have hOther := hWf.2
      simp only [List.mem_cons, List.not_mem_nil, or_false, not_or] at hOther
      obtain ⟨-, hX, hP, hC, hS, hD, hU, hPercent⟩ := hOther
      have hReader : Token.reader next (.conversion c) = fixedReader [ascii '%', c] := by
        rw [Token.reader, if_neg hX, if_neg hP, if_neg hC, if_neg hS, if_neg hD, if_neg hU,
          if_neg hPercent]
      change Reads (Token.reader next (.conversion c)) [ascii '%', c] rest []
      rw [hReader]
      exact fixedReader_reads _ rest
    | char slot => exact charReader_reads _ rest
    | string slot s => exact hEnds.reads hNext rfl
    | nullString => exact hEnds.reads hNext rfl
    | decimal slot => exact signedReader_reads _ (hEnds.number hNext rfl)
    | unsigned slot =>
      exact numberReader_reads (by omega) (by omega) _ (hEnds.number hNext rfl)
    | hex slot => exact hexReader_reads false _ (hEnds.number hNext rfl)
    | pointer slot => exact hexReader_reads true _ (hEnds.number hNext rfl)
    | longHex slot => exact hexReader_reads false _ (hEnds.number hNext rfl)

/-- **The tokens of a row of chunks read what it is printed as.** -/
theorem scan_reads (hWf : ∀ chunk ∈ chunks, chunk.WellFormed m) (hDelimited : Delimited chunks)
    (rest : List Byte) :
    Reads (scan (chunks.map Chunk.token)) (chunks.flatMap Chunk.render) rest
      (chunks.flatMap Chunk.fields) := by
  induction chunks with
  | nil => rfl
  | cons chunk chunks ih =>
    obtain ⟨hEnds, hRest⟩ := hDelimited
    have hWfRest : ∀ q ∈ chunks, q.WellFormed m := fun q hq => hWf q (List.mem_cons_of_mem _ hq)
    have hHead : (chunks.map Chunk.token).head?.bind Token.lead =
        chunks.head?.bind fun c => c.token.lead := by
      rw [List.head?_map, Option.bind_map]
      rfl
    rw [List.map_cons, scan, hHead, List.flatMap_cons, List.flatMap_cons]
    refine append_reads (chunk.reader_reads (hWf chunk List.mem_cons_self) hEnds fun c hc => ?_)
      (ih hWfRest hRest)
    -- the next chunk starts with the character the format promises
    cases chunks with
    | nil => cases hc
    | cons q qs =>
      obtain ⟨xs, hLead⟩ := q.render_lead (hWfRest q List.mem_cons_self) hc
      rw [List.flatMap_cons, hLead]
      exact ⟨_, rfl⟩

/-- What the output of `vprintf` shows of the arguments of a format. -/
def readBack (format output : List Byte) : Option (List Field × List Byte) :=
  scan (tokenize format).1 output

/-- A complete format prints its chunks. -/
theorem vprintf_supplied {serialConsole : Serial} (hConsole : serialConsole.putc ≠ 0) {format : Nat}
    {text : List Byte} (hFormat : CString m format text) (hComplete : Complete text)
    {args : List (BitVec 64)} {unread : List (BitVec 64)}
    (hArgs : Supplies m text args chunks unread) :
    ∃ fuel₀, ∀ fuel, fuel₀ ≤ fuel → ∀ buf, ∃ s,
      vprintf serialConsole m fuel format args buf = some s ∧
        s.out = chunks.flatMap Chunk.render ∧ s.args = unread := by
  have hText : text = chunks.flatMap Chunk.format := by
    have hEq := hArgs.format_eq
    rwa [hComplete, List.append_nil] at hEq
  have hHolds := hFormat.holds
  rw [hText] at hHolds
  refine ⟨chunks.length + (chunks.flatMap Chunk.render).length + 1, fun fuel hFuel buf => ?_⟩
  obtain ⟨k, rfl⟩ : ∃ k, fuel = chunks.length + k := ⟨fuel - chunks.length, by omega⟩
  obtain ⟨s, hRun, hPrints⟩ := vprintfLoop_chunks (s := ⟨args, buf, [], 0⟩) hArgs.wellFormed hHolds
    hArgs.args_eq (show (chunks.flatMap Chunk.render).length < k by omega)
  refine ⟨s, ?_, hPrints.out_eq,
    (List.append_cancel_left (hArgs.args_eq.symm.trans hPrints.args_eq)).symm⟩
  rw [vprintf, if_neg hConsole]
  exact hRun

/--
**Formatted output can be read back.** With a console set, for every complete format in
memory and all arguments that supply it, every conversion of the code included: if the
format puts a character behind each number that is no digit, and behind each string one
that does not occur in it, then `vprintf` prints a text from which the format alone
recovers what every argument was shown as, and where the text ends, whatever is printed
behind it.
-/
theorem vprintf_readBack {serialConsole : Serial} (hConsole : serialConsole.putc ≠ 0) {format : Nat}
    {text : List Byte} (hFormat : CString m format text) (hComplete : Complete text)
    {args : List (BitVec 64)} {unread : List (BitVec 64)}
    (hArgs : Supplies m text args chunks unread) (hDelimited : Delimited chunks) (buf : Mem) :
    ∃ fuel₀, ∀ fuel, fuel₀ ≤ fuel →
      ∃ s, vprintf serialConsole m fuel format args buf = some s ∧ s.args = unread ∧
        ∀ behind, readBack text (s.out ++ behind) = some (chunks.flatMap Chunk.fields, behind) := by
  obtain ⟨fuel₀, hRun⟩ := vprintf_supplied hConsole hFormat hComplete hArgs
  refine ⟨fuel₀, fun fuel hFuel => ?_⟩
  obtain ⟨s, hEq, hOut, hUnread⟩ := hRun fuel hFuel buf
  refine ⟨s, hEq, hUnread, fun behind => ?_⟩
  rw [readBack, ← hArgs.tokens_eq, hOut]
  exact scan_reads hArgs.wellFormed hDelimited behind

/-- A signed number, the least there is, and a string. -/
theorem vprintf_readBack_least :
    let text := asciiString "%d %s.\n"
    let m : Mem := fun i => (text ++ 0 :: asciiString "pages").getD i 0
    ∃ fuel₀, ∀ fuel, fuel₀ ≤ fuel →
      ∃ s, vprintf ⟨1, 1⟩ m fuel 0 [0x8000000000000000, 8] (fun _ => 0xFF) = some s ∧ s.args = [] ∧
        ∀ behind, readBack text (s.out ++ behind) =
          some ([.number (-9223372036854775808), .text (asciiString "pages")], behind) := by
  intro text m
  let chunks : List Chunk := [.piece (.decimal 0x8000000000000000), .piece (.plain (ascii ' ')),
    .piece (.string 8 (asciiString "pages")), .piece (.plain (ascii '.')),
    .piece (.plain (ascii '\n'))]
  have hFormat : CString m 0 text :=
    ⟨⟨rfl, rfl, rfl, rfl, rfl, rfl, rfl, rfl, trivial⟩, by decide +kernel⟩
  have hString : CString m 8 (asciiString "pages") :=
    ⟨⟨rfl, rfl, rfl, rfl, rfl, rfl, trivial⟩, by decide +kernel⟩
  have hArgs : Supplies m text [0x8000000000000000, 8] chunks [] :=
    ⟨by decide +kernel, by simp [chunks, Chunk.WellFormed, Piece.WellFormed, hString, ascii], rfl,
      by decide +kernel⟩
  have hFields : chunks.flatMap Chunk.fields =
      [.number (-9223372036854775808), .text (asciiString "pages")] := by
    decide +kernel
  have hConsole : (Serial.mk 1 1).putc ≠ 0 := by decide
  have hRead := vprintf_readBack hConsole hFormat (by decide +kernel) hArgs (by decide +kernel)
    (fun _ => 0xFF)
  rw [hFields] at hRead
  exact hRead

end Kernalite
