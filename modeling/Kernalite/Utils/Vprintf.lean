import Kernalite.Utils.Itoa

/-!
# Kernalite — what `vprintf` prints

A format string is a row of pieces, each of which consumes at most one argument.
`Piece` is a piece with its argument, `Piece.render` the characters it stands for.

* `putString_prints`, `putNumber_prints` — strings and numbers;
* `convert_prints` — the `switch` of `vprintf` prints a conversion as its piece is
  rendered, and leaves the pointer at the last character of the piece;
* `vprintf_renders` — every format prints the renderings of its pieces in order,
  reads exactly their arguments, and counts what it prints.
-/

namespace Kernalite

open ByteMemory ByteString

/-- A piece of a format, with the argument it consumes. -/
inductive Piece where
  | plain (c : Byte)
  | percent
  | unsupported (c : Byte)
  | char (slot : BitVec 64)
  | string (slot : BitVec 64) (s : List Byte)
  | nullString
  | decimal (slot : BitVec 64)
  | unsigned (slot : BitVec 64)
  | hex (slot : BitVec 64)
  | pointer (slot : BitVec 64)
  | longHex (slot : BitVec 64)

namespace Piece

/-- The characters of the format. -/
def format : Piece → List Byte
  | plain c => [c]
  | percent => asciiString "%%"
  | unsupported c => [ascii '%', c]
  | char _ => asciiString "%c"
  | string _ _ => asciiString "%s"
  | nullString => asciiString "%s"
  | decimal _ => asciiString "%d"
  | unsigned _ => asciiString "%u"
  | hex _ => asciiString "%x"
  | pointer _ => asciiString "%p"
  | longHex _ => asciiString "%lx"

/-- The arguments it consumes. -/
def slots : Piece → List (BitVec 64)
  | plain _ | percent | unsupported _ => []
  | nullString => [0]
  | char slot | string slot _ | decimal slot | unsigned slot | hex slot | pointer slot
  | longHex slot => [slot]

/-- A signed decimal number. -/
def signedBytes (n : Int) : List Byte :=
  if n < 0 then ascii '-' :: digitBytes 10 n.natAbs else digitBytes 10 n.natAbs

/-- The characters it stands for. -/
def render : Piece → List Byte
  | plain c => if c = ascii '\n' then [ascii '\r', c] else [c]
  | percent => [ascii '%']
  | unsupported c => [ascii '%', c]
  | char slot => [slot.setWidth 8]
  | string _ s => s
  | nullString => asciiString "(null)"
  | decimal slot => signedBytes slot.toInt
  | unsigned slot => digitBytes 10 slot.toNat
  | hex slot => digitBytes 16 slot.toNat
  | pointer slot => asciiString "0x" ++ digitBytes 16 slot.toNat
  | longHex slot => digitBytes 16 slot.toNat

/-- Plain characters are not `%` and not the end of the format, an unsupported
conversion is not one of the others, and a string argument points to its string. -/
def WellFormed (m : Mem) : Piece → Prop
  | plain c => c ≠ 0 ∧ c ≠ ascii '%'
  | unsupported c => c ≠ 0 ∧ c ∉ [ascii 'l', ascii 'x', ascii 'p', ascii 'c', ascii 's', ascii 'd',
      ascii 'u', ascii '%']
  | string slot s => slot ≠ 0 ∧ CString m slot.toNat s
  | _ => True

end Piece

/-- From `s` to `s'` by reading the arguments `slots` and printing `xs`. -/
structure Prints (s s' : PrintState) (slots : List (BitVec 64)) (xs : List Byte) : Prop where
  args_eq    : s.args = slots ++ s'.args
  out_eq     : s'.out = s.out ++ xs
  printed_eq : s'.printed = s.printed + BitVec.ofNat 32 xs.length

variable {m : Mem} {fuel p : Nat} {s s' s'' : PrintState} {slots slots' : List (BitVec 64)}
  {xs ys : List Byte}

-- ---------------------------------------------------------------------------
-- Printing
-- ---------------------------------------------------------------------------

theorem Prints.refl (s : PrintState) : Prints s s [] [] :=
  ⟨rfl, (List.append_nil _).symm, (BitVec.add_zero _).symm⟩

theorem Prints.trans (h : Prints s s' slots xs) (h' : Prints s' s'' slots' ys) :
    Prints s s'' (slots ++ slots') (xs ++ ys) where
  args_eq := by rw [h.args_eq, h'.args_eq, List.append_assoc]
  out_eq := by rw [h'.out_eq, h.out_eq, List.append_assoc]
  printed_eq := by
    rw [h'.printed_eq, h.printed_eq, List.length_append, BitVec.add_assoc, BitVec.ofNat_add]

theorem prints_one (s : PrintState) (c : Byte) : Prints s ((s.putc c).count 1) [] [c] :=
  ⟨rfl, rfl, rfl⟩

theorem prints_two (s : PrintState) (c d : Byte) :
    Prints s (((s.putc c).putc d).count 2) [] [c, d] :=
  ⟨rfl, List.append_assoc _ _ _, rfl⟩

/-- The next argument. -/
theorem vaArg_prints {arg : BitVec 64} {args : List (BitVec 64)} (h : s.args = arg :: args) :
    vaArg s = some (arg, { s with args := args }) ∧ Prints s { s with args := args } [arg] [] := by
  refine ⟨?_, h, (List.append_nil _).symm, (BitVec.add_zero _).symm⟩
  rw [vaArg, h]

/-- The string at `p`. -/
theorem putString_prints (h : CString m p xs) (hFuel : xs.length < fuel) :
    ∃ s', putString m fuel p s = some s' ∧ Prints s s' [] xs := by
  obtain ⟨hHolds, hNonzero⟩ := h
  induction xs generalizing fuel p s with
  | nil =>
    obtain ⟨fuel, rfl⟩ : ∃ n, fuel = n + 1 := ⟨fuel - 1, by omega⟩
    refine ⟨s, ?_, Prints.refl s⟩
    rw [putString, if_pos hHolds.head]
  | cons x xs ih =>
    rw [List.length_cons] at hFuel
    obtain ⟨fuel, rfl⟩ : ∃ n, fuel = n + 1 := ⟨fuel - 1, by omega⟩
    have hFirst : m p = x := hHolds.head
    obtain ⟨s', hRest, hPrints⟩ := @ih fuel (p + 1) ((s.putc x).count 1) (by omega) hHolds.2
      fun b hb => hNonzero b (List.mem_cons_of_mem _ hb)
    refine ⟨s', ?_, (prints_one s x).trans hPrints⟩
    rw [putString, hFirst, if_neg (hNonzero x List.mem_cons_self), hRest]

/-- A number in a base from 10 to 16. -/
theorem putNumber_prints {base : Nat} (hBase : 10 ≤ base) (hHex : base ≤ 16) (num : BitVec 64)
    (hFuel : (digitBytes base num.toNat).length < fuel) :
    ∃ s', putNumber fuel num base s = some s' ∧ Prints s s' [] (digitBytes base num.toNat) := by
  obtain ⟨hString, -⟩ := itoa_spec (by omega) hHex num.isLt s.buf
  obtain ⟨s', hEq, hPrints⟩ := putString_prints (s := { s with buf := itoa num.toNat base s.buf })
    hString hFuel
  exact ⟨s', hEq, hPrints.args_eq, hPrints.out_eq, hPrints.printed_eq⟩

/-- A number that is an argument. -/
theorem numberArg_prints {base : Nat} (hBase : 10 ≤ base) (hHex : base ≤ 16) {num : BitVec 64}
    {args : List (BitVec 64)} (hArgs : s.args = num :: args)
    (hFuel : (digitBytes base num.toNat).length < fuel) :
    ∃ s', ((vaArg s).bind fun (num, s) => putNumber fuel num base s) = some s' ∧
      Prints s s' [num] (digitBytes base num.toNat) := by
  obtain ⟨hArg, hRead⟩ := vaArg_prints hArgs
  obtain ⟨s', hEq, hPrints⟩ := putNumber_prints (s := { s with args := args }) hBase hHex num hFuel
  refine ⟨s', ?_, hRead.trans hPrints⟩
  rw [hArg]
  exact hEq

/-- The cases `'x'` and `'p'`: a pointer has a prefix. -/
theorem putHex_prints {num : BitVec 64} {args : List (BitVec 64)} (hArgs : s.args = num :: args)
    (hFuel : (digitBytes 16 num.toNat).length < fuel) :
    ∃ s', putHex m fuel p s = some s' ∧ Prints s s' [num]
      ((if m p = ascii 'p' then asciiString "0x" else []) ++ digitBytes 16 num.toNat) := by
  by_cases hPointer : m p = ascii 'p'
  · have hTwo := prints_two s (ascii '0') (ascii 'x')
    obtain ⟨s', hEq, hPrints⟩ := numberArg_prints
      (s := ((s.putc (ascii '0')).putc (ascii 'x')).count 2) (by omega) (by omega) hArgs hFuel
    refine ⟨s', ?_, ?_⟩
    · rw [putHex, if_pos hPointer]
      exact hEq
    · rw [if_pos hPointer]
      exact hTwo.trans hPrints
  · obtain ⟨s', hEq, hPrints⟩ := numberArg_prints (s := s) (by omega) (by omega) hArgs hFuel
    refine ⟨s', ?_, ?_⟩
    · rw [putHex, if_neg hPointer]
      exact hEq
    · rw [if_neg hPointer, List.nil_append]
      exact hPrints

/-- The string literal printed for a null pointer. -/
theorem nullString_held :
    CString (fun i => (asciiString "(null)").getD i 0) 0 (asciiString "(null)") :=
  ⟨⟨rfl, rfl, rfl, rfl, rfl, rfl, rfl, trivial⟩, by decide⟩

theorem slt_zero_iff (v : BitVec 64) : v.slt 0 = true ↔ v.toInt < 0 := by
  rw [BitVec.slt_iff_toInt_lt]
  rfl

/-- Negation modulo `2 ^ 64` makes a negative number its absolute value, also the
least one. -/
theorem toNat_abs (v : BitVec 64) : (if v.slt 0 then -v else v).toNat = v.toInt.natAbs := by
  have hLt := v.isLt
  have hInt : v.toInt = if 2 * v.toNat < 2 ^ 64 then (v.toNat : Int) else (v.toNat : Int) - 2 ^ 64 :=
    BitVec.toInt_eq_toNat_cond v
  have hSign := slt_zero_iff v
  by_cases hNeg : v.slt 0 = true
  · have hNegative := hSign.mp hNeg
    rw [if_pos hNeg, BitVec.toNat_neg]
    split_ifs at hInt <;> omega
  · have hNonneg : ¬ v.toInt < 0 := fun h => hNeg (hSign.mpr h)
    rw [if_neg hNeg]
    split_ifs at hInt <;> omega

/-- The case `'d'` after its argument is read. -/
theorem putSigned_prints (s : PrintState) (num : BitVec 64)
    (hFuel : (Piece.signedBytes num.toInt).length < fuel) :
    ∃ s', putNumber fuel (if num.slt 0 then -num else num) 10
        (if num.slt 0 then (s.putc (ascii '-')).count 1 else s) = some s' ∧
      Prints s s' [] (Piece.signedBytes num.toInt) := by
  have hAbs := toNat_abs num
  have hSign : num.slt 0 = true ↔ num.toInt < 0 := slt_zero_iff num
  by_cases hNeg : num.slt 0 = true
  · rw [Piece.signedBytes, if_pos (hSign.mp hNeg)] at hFuel ⊢
    rw [if_pos hNeg] at hAbs ⊢
    rw [← hAbs] at hFuel ⊢
    obtain ⟨s', hEq, hPrints⟩ := putNumber_prints (s := (s.putc (ascii '-')).count 1)
      (Nat.le_refl 10) (by omega) (-num) (Nat.lt_of_succ_lt hFuel)
    rw [if_pos hNeg]
    exact ⟨s', hEq, (prints_one s (ascii '-')).trans hPrints⟩
  · rw [Piece.signedBytes, if_neg (fun h => hNeg (hSign.mpr h))] at hFuel ⊢
    rw [if_neg hNeg] at hAbs ⊢
    rw [← hAbs] at hFuel ⊢
    rw [if_neg hNeg]
    exact putNumber_prints (Nat.le_refl 10) (by omega) num hFuel

-- ---------------------------------------------------------------------------
-- Conversions
-- ---------------------------------------------------------------------------

/-- **A conversion is printed as it is rendered.** The pointer is left at the last
character of the piece. -/
theorem convert_prints {piece : Piece} (hWf : piece.WellFormed m)
    (hConversion : ∀ c, piece ≠ .plain c) (hFormat : Holds m p piece.format)
    {args : List (BitVec 64)} (hArgs : s.args = piece.slots ++ args)
    (hFuel : piece.render.length < fuel) :
    ∃ s', convert m fuel (p + 1) s = some (p + (piece.format.length - 1), s') ∧
      Prints s s' piece.slots piece.render := by
  cases piece with
  | plain c => exact absurd rfl (hConversion c)
  | percent =>
    have hChar : m (p + 1) = ascii '%' := hFormat.2.1
    refine ⟨_, ?_, prints_one s (ascii '%')⟩
    rw [convert, hChar]
    rfl
  | unsupported c =>
    have hChar : m (p + 1) = c := hFormat.2.1
    obtain ⟨-, hOther⟩ := hWf
    simp only [List.mem_cons, List.not_mem_nil, or_false, not_or] at hOther
    obtain ⟨hL, hX, hP, hC, hS, hD, hU, hPercent⟩ := hOther
    refine ⟨_, ?_, prints_two s (ascii '%') c⟩
    rw [convert, hChar, if_neg hL, if_neg (not_or.mpr ⟨hX, hP⟩), if_neg hC, if_neg hS, if_neg hD,
      if_neg hU, if_neg hPercent]
    rfl
  | char slot =>
    have hChar : m (p + 1) = ascii 'c' := hFormat.2.1
    obtain ⟨hArg, hRead⟩ := vaArg_prints hArgs
    refine ⟨_, ?_, hRead.trans (prints_one _ (slot.setWidth 8))⟩
    rw [convert, hChar, hArg]
    rfl
  | string slot str =>
    have hChar : m (p + 1) = ascii 's' := hFormat.2.1
    obtain ⟨hNonzero, hString⟩ := hWf
    obtain ⟨hArg, hRead⟩ := vaArg_prints hArgs
    obtain ⟨s', hEq, hPrints⟩ := putString_prints (s := { s with args := args }) hString hFuel
    refine ⟨s', ?_, hRead.trans hPrints⟩
    rw [convert, hChar, hArg]
    exact congrArg (Option.map (p + 1, ·)) ((if_neg hNonzero).trans hEq)
  | nullString =>
    have hChar : m (p + 1) = ascii 's' := hFormat.2.1
    obtain ⟨hArg, hRead⟩ := vaArg_prints hArgs
    obtain ⟨s', hEq, hPrints⟩ := putString_prints (s := { s with args := args }) nullString_held hFuel
    refine ⟨s', ?_, hRead.trans hPrints⟩
    rw [convert, hChar, hArg]
    exact congrArg (Option.map (p + 1, ·)) hEq
  | decimal slot =>
    have hChar : m (p + 1) = ascii 'd' := hFormat.2.1
    obtain ⟨hArg, hRead⟩ := vaArg_prints hArgs
    obtain ⟨s', hEq, hPrints⟩ := putSigned_prints { s with args := args } slot hFuel
    refine ⟨s', ?_, hRead.trans hPrints⟩
    rw [convert, hChar, hArg]
    exact congrArg (Option.map (p + 1, ·)) hEq
  | unsigned slot =>
    have hChar : m (p + 1) = ascii 'u' := hFormat.2.1
    obtain ⟨hArg, hRead⟩ := vaArg_prints hArgs
    obtain ⟨s', hEq, hPrints⟩ := putNumber_prints (s := { s with args := args }) (by omega)
      (by omega) slot hFuel
    refine ⟨s', ?_, hRead.trans hPrints⟩
    rw [convert, hChar, hArg]
    exact congrArg (Option.map (p + 1, ·)) hEq
  | hex slot =>
    have hChar : m (p + 1) = ascii 'x' := hFormat.2.1
    obtain ⟨s', hEq, hPrints⟩ := putHex_prints (p := p + 1) hArgs hFuel
    refine ⟨s', ?_, ?_⟩
    · rw [convert, hChar]
      exact congrArg (Option.map (p + 1, ·)) hEq
    · rw [hChar, if_neg (by decide)] at hPrints
      exact hPrints
  | pointer slot =>
    have hChar : m (p + 1) = ascii 'p' := hFormat.2.1
    obtain ⟨s', hEq, hPrints⟩ := putHex_prints (p := p + 1) hArgs
      (Nat.lt_of_le_of_lt (List.length_append ▸ Nat.le_add_left _ _) hFuel)
    refine ⟨s', ?_, ?_⟩
    · rw [convert, hChar]
      exact congrArg (Option.map (p + 1, ·)) hEq
    · rw [hChar, if_pos rfl] at hPrints
      exact hPrints
  | longHex slot =>
    have hLong : m (p + 1) = ascii 'l' := hFormat.2.1
    have hChar : m (p + 1 + 1) = ascii 'x' := hFormat.2.2.1
    obtain ⟨s', hEq, hPrints⟩ := putHex_prints (p := p + 1 + 1) hArgs hFuel
    refine ⟨s', ?_, ?_⟩
    · rw [convert, hLong]
      exact congrArg (Option.map (p + 1 + 1, ·)) hEq
    · rw [hChar, if_neg (by decide)] at hPrints
      exact hPrints

-- ---------------------------------------------------------------------------
-- The loop over the format
-- ---------------------------------------------------------------------------

/-- A conversion starts with `%`. -/
theorem conversion_head {piece : Piece} (hConversion : ∀ c, piece ≠ .plain c)
    (hFormat : Holds m p piece.format) : m p = ascii '%' := by
  cases piece with
  | plain c => exact absurd rfl (hConversion c)
  | _ => exact hFormat.head

theorem format_length_pos (piece : Piece) : 0 < piece.format.length := by
  cases piece <;> exact Nat.succ_pos _

/-- The body of the loop at `ptr`, with the `ptr++` behind it. -/
def vprintfRound (m : Mem) (fuel ptr : Nat) (s : PrintState) : Option (Nat × PrintState) :=
  if m ptr ≠ ascii '%' then
    let s := if m ptr = ascii '\n' then (s.putc (ascii '\r')).count 1 else s
    some (ptr + 1, (s.putc (m ptr)).count 1)
  else (convert m fuel (ptr + 1) s).map fun (ptr, s) => (ptr + 1, s)

theorem vprintfLoop_succ (m : Mem) (fuel ptr : Nat) (s : PrintState) :
    vprintfLoop m (fuel + 1) ptr s =
      if m ptr = 0 then some s
      else (vprintfRound m fuel ptr s).bind fun (ptr, s) => vprintfLoop m fuel ptr s := by
  rw [vprintfLoop, vprintfRound]
  by_cases hPlain : m ptr ≠ ascii '%'
  · rw [if_pos hPlain, if_pos hPlain]
    rfl
  · rw [if_neg hPlain, if_neg hPlain, Option.bind_map]
    rfl

/-- **One round of the loop** prints one piece. -/
theorem vprintfRound_prints {piece : Piece} (hWf : piece.WellFormed m)
    (hFormat : Holds m p piece.format) {args : List (BitVec 64)}
    (hArgs : s.args = piece.slots ++ args) (hFuel : piece.render.length < fuel) :
    ∃ s', vprintfRound m fuel p s = some (p + piece.format.length, s') ∧
      Prints s s' piece.slots piece.render := by
  by_cases hPlain : ∃ c, piece = .plain c
  · obtain ⟨c, rfl⟩ := hPlain
    have hChar : m p = c := hFormat.head
    obtain ⟨hNonzero, hPercent⟩ := hWf
    rw [vprintfRound, hChar, if_pos hPercent, Piece.render]
    by_cases hNewline : c = ascii '\n'
    · rw [if_pos hNewline, if_pos hNewline]
      exact ⟨_, rfl, (prints_one s (ascii '\r')).trans (prints_one _ c)⟩
    · rw [if_neg hNewline, if_neg hNewline]
      exact ⟨_, rfl, prints_one s c⟩
  · have hConversion : ∀ c, piece ≠ .plain c := fun c hEq => hPlain ⟨c, hEq⟩
    have hChar := conversion_head hConversion hFormat
    have hPos := format_length_pos piece
    obtain ⟨s', hEq, hPrints⟩ := convert_prints hWf hConversion hFormat hArgs hFuel
    refine ⟨s', ?_, hPrints⟩
    rw [vprintfRound, hChar, if_neg (not_not_intro rfl), hEq, Option.map_some]
    simp only
    rw [Nat.add_assoc, Nat.sub_add_cancel hPos]

/-- A piece does not start with the end of the format. -/
theorem format_head_ne_zero {piece : Piece} (hWf : piece.WellFormed m)
    (hFormat : Holds m p piece.format) : m p ≠ 0 := by
  by_cases hPlain : ∃ c, piece = .plain c
  · obtain ⟨c, rfl⟩ := hPlain
    rw [hFormat.head]
    exact hWf.1
  · rw [conversion_head (fun c hEq => hPlain ⟨c, hEq⟩) hFormat]
    decide

/-- **The loop** prints the pieces one after the other. -/
theorem vprintfLoop_prints {pieces : List Piece} (hWf : ∀ piece ∈ pieces, piece.WellFormed m)
    (hFormat : Holds m p (pieces.flatMap Piece.format ++ [0])) {args : List (BitVec 64)}
    (hArgs : s.args = pieces.flatMap Piece.slots ++ args)
    (hFuel : pieces.length + (pieces.flatMap Piece.render).length < fuel) :
    ∃ s', vprintfLoop m fuel p s = some s' ∧
      Prints s s' (pieces.flatMap Piece.slots) (pieces.flatMap Piece.render) := by
  induction pieces generalizing p s fuel with
  | nil =>
    obtain ⟨fuel, rfl⟩ : ∃ n, fuel = n + 1 := ⟨fuel - 1, by omega⟩
    refine ⟨s, ?_, Prints.refl s⟩
    rw [vprintfLoop, if_pos hFormat.head]
  | cons piece pieces ih =>
    rw [List.flatMap_cons, List.append_assoc] at hFormat hArgs
    rw [List.flatMap_cons, List.length_append, List.length_cons] at hFuel
    obtain ⟨fuel, rfl⟩ : ∃ n, fuel = n + 1 := ⟨fuel - 1, by omega⟩
    have hFuelPiece : piece.render.length < fuel := by omega
    have hFuelRest : pieces.length + (pieces.flatMap Piece.render).length < fuel := by omega
    obtain ⟨hPiece, hRest⟩ := holds_append.mp hFormat
    have hWfPiece := hWf piece List.mem_cons_self
    obtain ⟨s', hStep, hPrints⟩ := vprintfRound_prints hWfPiece hPiece hArgs hFuelPiece
    have hArgs' : s'.args = pieces.flatMap Piece.slots ++ args :=
      List.append_cancel_left (hPrints.args_eq.symm.trans hArgs)
    obtain ⟨s'', hEq, hPrints'⟩ := ih (fun q hq => hWf q (List.mem_cons_of_mem _ hq)) hRest hArgs'
      hFuelRest
    refine ⟨s'', ?_, hPrints.trans hPrints'⟩
    rw [vprintfLoop_succ, if_neg (format_head_ne_zero hWfPiece hPiece), hStep]
    exact hEq

/--
**`vprintf` renders every supported format.** With a console set, for every format
in memory that is a row of well-formed pieces and every list that supplies their
arguments in order: what is passed to `putc` is the renderings of the pieces, one
after the other, each piece reads its own argument and no more, and the count
returned is the number of characters as long as an `int` can hold it.
-/
theorem vprintf_renders {serialConsole : Serial} (hConsole : serialConsole.putc ≠ 0) {m : Mem}
    {format : Nat} {pieces : List Piece} (hWf : ∀ piece ∈ pieces, piece.WellFormed m)
    (hFormat : Holds m format (pieces.flatMap Piece.format ++ [0]))
    (rest : List (BitVec 64)) (buf : Mem) :
    ∃ fuel₀, ∀ fuel, fuel₀ ≤ fuel →
      ∃ s, vprintf serialConsole m fuel format (pieces.flatMap Piece.slots ++ rest) buf = some s ∧
        s.out = pieces.flatMap Piece.render ∧ s.args = rest ∧
        (s.out.length < 2 ^ 31 → s.printed.toInt = s.out.length) := by
  refine ⟨pieces.length + (pieces.flatMap Piece.render).length + 1, fun fuel hFuel => ?_⟩
  obtain ⟨s, hEq, hPrints⟩ := vprintfLoop_prints
    (s := ⟨pieces.flatMap Piece.slots ++ rest, buf, [], 0⟩) hWf hFormat rfl hFuel
  refine ⟨s, ?_, hPrints.out_eq, (List.append_cancel_left hPrints.args_eq).symm, fun hShort => ?_⟩
  · rw [vprintf, if_neg hConsole]
    exact hEq
  · have hOut : s.out = pieces.flatMap Piece.render := hPrints.out_eq
    have hPrinted : s.printed = BitVec.ofNat 32 s.out.length := by
      rw [hPrints.printed_eq, ← hOut]
      exact BitVec.zero_add _
    have hCount : s.printed.toNat = s.out.length := by
      rw [hPrinted, BitVec.toNat_ofNat, Nat.mod_eq_of_lt (by omega)]
    rw [BitVec.toInt_eq_toNat_of_lt (by omega), hCount]

/-- A signed number, the least there is, and a null string. -/
def leastPieces : List Piece :=
  [.decimal 0x8000000000000000, .plain (ascii ' '), .nullString, .plain (ascii '\n')]

theorem vprintf_renders_least :
    let m : Mem := fun i => (asciiString "%d %s\n").getD i 0
    ∃ fuel₀, ∀ fuel, fuel₀ ≤ fuel →
      ∃ s, vprintf ⟨1, 1⟩ m fuel 0 [0x8000000000000000, 0] (fun _ => 0xFF) = some s ∧
        s.out = asciiString "-9223372036854775808 (null)\r\n" ∧ s.args = [] := by
  intro m
  have hConsole : (Serial.mk 1 1).putc ≠ 0 := Nat.one_ne_zero
  have hWf : ∀ piece ∈ leastPieces, piece.WellFormed m := by
    simp [leastPieces, Piece.WellFormed, ascii]
  have hFormat : Holds m 0 (leastPieces.flatMap Piece.format ++ [0]) :=
    ⟨rfl, rfl, rfl, rfl, rfl, rfl, rfl, trivial⟩
  obtain ⟨fuel₀, hAll⟩ := vprintf_renders hConsole hWf hFormat [] (fun _ => 0xFF)
  refine ⟨fuel₀, fun fuel hFuel => ?_⟩
  obtain ⟨s, hEq, hOut, hArgs, -⟩ := hAll fuel hFuel
  exact ⟨s, hEq, hOut.trans (by decide +kernel), hArgs⟩

end Kernalite
