import Mathlib.Data.List.Basic
import Kernalite.Utils.Scan
import Kernalite.Utils.SignedArgument

/-!
# Kernalite — the modifier `l`

`vprintf` takes any conversion behind an `l` for a hexadecimal one. A format written
with and without `l` prints the same text if and only if the numbers it makes
hexadecimal have one digit.

* `eq_of_flatMap_eq` — texts of equal total length, no part longer than its
  counterpart, agree part by part;
* `markedRender_eq_iff` — one format, with and without `l`;
* `longModifier_iff` — the two calls of `vprintf`.
-/

namespace Kernalite

open ByteMemory ByteString Numeral

-- ---------------------------------------------------------------------------
-- Texts in parts
-- ---------------------------------------------------------------------------

section Parts

variable {ι γ : Type*} {xs ys : ι → List γ} {items : List ι}

theorem length_flatMap_le (hLe : ∀ i ∈ items, (ys i).length ≤ (xs i).length) :
    (items.flatMap ys).length ≤ (items.flatMap xs).length := by
  induction items with
  | nil => exact Nat.le_refl 0
  | cons i items ih =>
    rw [List.flatMap_cons, List.flatMap_cons, List.length_append, List.length_append]
    exact Nat.add_le_add (hLe i List.mem_cons_self)
      (ih fun j hj => hLe j (List.mem_cons_of_mem i hj))

/-- **No part is longer than its counterpart**, so equal texts have equal parts. -/
theorem eq_of_flatMap_eq (hLe : ∀ i ∈ items, (ys i).length ≤ (xs i).length)
    (h : items.flatMap ys = items.flatMap xs) : ∀ i ∈ items, ys i = xs i := by
  induction items with
  | nil => exact fun i hi => absurd hi List.not_mem_nil
  | cons i items ih =>
    rw [List.flatMap_cons, List.flatMap_cons] at h
    have hHere := hLe i List.mem_cons_self
    have hRest := length_flatMap_le fun j hj => hLe j (List.mem_cons_of_mem i hj)
    have hLength := congrArg List.length h
    rw [List.length_append, List.length_append] at hLength
    obtain ⟨hFirst, hOthers⟩ := List.append_inj h (by omega)
    exact List.forall_mem_cons.mpr
      ⟨hFirst, ih (fun j hj => hLe j (List.mem_cons_of_mem i hj)) hOthers⟩

end Parts

-- ---------------------------------------------------------------------------
-- A format with and without the modifier
-- ---------------------------------------------------------------------------

/-- A piece of a format, written with an `l` if it is chosen and is a `d`, `u` or `x`. -/
def markedChunk : Piece × Bool → Chunk
  | (.decimal slot, true) => .long (ascii 'd') slot
  | (.unsigned slot, true) => .long (ascii 'u') slot
  | (.hex slot, true) => .long (ascii 'x') slot
  | (piece, _) => .piece piece

/-- A number that the modifier makes hexadecimal has one digit. -/
def OneDigit : Piece × Bool → Prop
  | (.decimal slot, true) | (.unsigned slot, true) => slot.toNat < 10
  | _ => True

/-- What becomes of a piece: nothing, or a decimal number becomes hexadecimal. -/
theorem markedChunk_cases (c : Piece × Bool) :
    ((markedChunk c).render = c.1.render ∧ OneDigit c) ∨
    ∃ slot, (c.1 = .decimal slot ∨ c.1 = .unsigned slot) ∧
      (markedChunk c).render = digitBytes 16 slot.toNat ∧ (OneDigit c ↔ slot.toNat < 10) := by
  obtain ⟨piece, chosen⟩ := c
  cases chosen with
  | false => exact Or.inl ⟨by cases piece <;> rfl, by cases piece <;> trivial⟩
  | true =>
    cases piece with
    | decimal slot => exact Or.inr ⟨slot, Or.inl rfl, rfl, Iff.rfl⟩
    | unsigned slot => exact Or.inr ⟨slot, Or.inr rfl, rfl, Iff.rfl⟩
    | _ => exact Or.inl ⟨rfl, trivial⟩

-- ---------------------------------------------------------------------------
-- Decimal and hexadecimal texts
-- ---------------------------------------------------------------------------

theorem signedBytes_of_nonneg {slot : BitVec 64} (h : 0 ≤ slot.toInt) :
    Piece.signedBytes slot.toInt = digitBytes 10 slot.toNat := by
  have hAbs : slot.toInt.natAbs = slot.toNat := by
    rw [BitVec.toInt_eq_toNat_cond] at h ⊢
    split_ifs at h ⊢
    · rfl
    · omega
  rw [Piece.signedBytes, if_neg (Int.not_lt.mpr h), hAbs]

/-- A hexadecimal text is no longer than the decimal one. -/
theorem digitBytes_length_anti (n : Nat) :
    (digitBytes 16 n).length ≤ (digitBytes 10 n).length := by
  have hPos := digitBytes_length_pos 10 n
  have hDecimal : n < 10 ^ (digitBytes 10 n).length := by
    rw [digitBytes, List.length_map] at hPos ⊢
    exact (Nat.length_toDigits_le_iff (by omega) hPos).mp (Nat.le_refl _)
  exact digitBytes_length_le (by omega) hPos
    (Nat.lt_of_lt_of_le hDecimal (Nat.pow_le_pow_left (by omega) _))

/-- The two texts of a number are the same if and only if it has one digit. -/
theorem digitBytes_hex_iff (n : Nat) : digitBytes 16 n = digitBytes 10 n ↔ n < 10 := by
  constructor
  · intro hSame
    have hHex := digitBytes_spells (by omega) (by omega : 16 ≤ 16) n
    rw [hSame] at hHex
    exact (digitBytes_spells (by omega) (by omega) n).small (by omega) (by omega) hHex
  · intro hSmall
    have hAll : ∀ d : Fin 10, digitBytes 16 d = digitBytes 10 d := by decide
    exact hAll ⟨n, hSmall⟩

/-- The sign of a negative number is not in its hexadecimal text. -/
theorem filter_minus_digitBytes (n : Nat) :
    (digitBytes 16 n).filter (· = ascii '-') = [] := by
  rw [List.filter_eq_nil_iff]
  intro b hb hMinus
  rw [decide_eq_true_eq] at hMinus
  exact minus_not_mem_digitBytes (by omega) (by omega) n (hMinus ▸ hb)

/-- A number whose sign the modifier does not remove is printed as an unsigned one. -/
theorem render_of_filter_minus {c : Piece × Bool} {slot : BitVec 64}
    (hPiece : c.1 = .decimal slot ∨ c.1 = .unsigned slot)
    (hMinus : c.1.render.filter (· = ascii '-') = []) :
    c.1.render = digitBytes 10 slot.toNat := by
  rcases hPiece with hPiece | hPiece
  · rw [hPiece, Piece.render] at hMinus ⊢
    refine signedBytes_of_nonneg (Int.not_lt.mp fun hNegative => ?_)
    rw [Piece.signedBytes, if_pos hNegative, List.filter_cons_of_pos (by decide)] at hMinus
    exact List.cons_ne_nil _ _ hMinus
  · rw [hPiece, Piece.render]

theorem markedRender_of_oneDigit {c : Piece × Bool} (h : OneDigit c) :
    (markedChunk c).render = c.1.render := by
  rcases markedChunk_cases c with ⟨hRender, -⟩ | ⟨slot, hPiece, hRender, hDigit⟩
  · exact hRender
  · have hSmall : slot.toNat < 10 := hDigit.mp h
    have hNonneg : 0 ≤ slot.toInt := by
      rw [BitVec.toInt_eq_toNat_of_lt (by omega)]
      exact Int.natCast_nonneg _
    rw [hRender, (digitBytes_hex_iff slot.toNat).mpr hSmall]
    rcases hPiece with hPiece | hPiece
    · rw [hPiece, Piece.render, signedBytes_of_nonneg hNonneg]
    · rw [hPiece, Piece.render]

/-- **The texts of a format** with and without the modifier. -/
theorem markedRender_eq_iff (choices : List (Piece × Bool)) :
    choices.flatMap (fun c => (markedChunk c).render) = choices.flatMap (fun c => c.1.render) ↔
      ∀ c ∈ choices, OneDigit c := by
  refine ⟨fun hSame => ?_, fun hDigits =>
    List.flatMap_congr fun c hc => markedRender_of_oneDigit (hDigits c hc)⟩
  -- a sign that the modifier removes is missing in the whole text
  have hMinus : ∀ c ∈ choices, (markedChunk c).render.filter (· = ascii '-') =
      c.1.render.filter (· = ascii '-') := by
    have hFiltered := congrArg (List.filter (· = ascii '-')) hSame
    rw [List.filter_flatMap, List.filter_flatMap] at hFiltered
    refine eq_of_flatMap_eq (fun c _ => ?_) hFiltered
    rcases markedChunk_cases c with ⟨hRender, -⟩ | ⟨slot, -, hRender, -⟩
    · rw [hRender]
    · rw [hRender, filter_minus_digitBytes]
      exact Nat.zero_le _
  have hDecimal : ∀ c ∈ choices, ∀ slot, (c.1 = .decimal slot ∨ c.1 = .unsigned slot) →
      (markedChunk c).render = digitBytes 16 slot.toNat →
      c.1.render = digitBytes 10 slot.toNat := by
    intro c hc slot hPiece hRender
    have hNone := hMinus c hc
    rw [hRender, filter_minus_digitBytes] at hNone
    exact render_of_filter_minus hPiece hNone.symm
  -- so no part becomes longer
  have hParts : ∀ c ∈ choices, (markedChunk c).render = c.1.render := by
    refine eq_of_flatMap_eq (fun c hc => ?_) hSame
    rcases markedChunk_cases c with ⟨hRender, -⟩ | ⟨slot, hPiece, hRender, -⟩
    · rw [hRender]
    · rw [hDecimal c hc slot hPiece hRender, hRender]
      exact digitBytes_length_anti slot.toNat
  intro c hc
  rcases markedChunk_cases c with ⟨-, hDigit⟩ | ⟨slot, hPiece, hRender, hDigit⟩
  · exact hDigit
  · have hText := hParts c hc
    rw [hDecimal c hc slot hPiece hRender, hRender] at hText
    exact hDigit.mpr ((digitBytes_hex_iff slot.toNat).mp hText)

-- ---------------------------------------------------------------------------
-- The two calls
-- ---------------------------------------------------------------------------

/-- What a caller sees of a call of `vprintf` is the same. -/
def SamePrint (s s' : PrintState) : Prop :=
  s'.out = s.out ∧ s'.args = s.args ∧ s'.printed = s.printed

variable {m : Mem}

theorem markedChunk_slots (c : Piece × Bool) : (markedChunk c).slots = c.1.slots := by
  obtain ⟨piece, chosen⟩ := c
  cases chosen <;> cases piece <;> rfl

theorem markedChunk_wellFormed {c : Piece × Bool} (h : c.1.WellFormed m) :
    (markedChunk c).WellFormed m := by
  obtain ⟨piece, chosen⟩ := c
  cases chosen with
  | false => cases piece <;> exact h
  | true =>
    cases piece with
    | decimal slot => exact (by decide : ascii 'd' ≠ 0)
    | unsigned slot => exact (by decide : ascii 'u' ≠ 0)
    | hex slot => exact (by decide : ascii 'x' ≠ 0)
    | _ => exact h

/-- The call on a row of chunks, one for each choice. -/
theorem vprintf_row {f : Piece × Bool → Chunk} {choices : List (Piece × Bool)}
    {serialConsole : Serial} (hConsole : serialConsole.putc ≠ 0)
    (hWf : ∀ c ∈ choices, (f c).WellFormed m) (hSlots : ∀ c, (f c).slots = c.1.slots) {format : Nat}
    (hFormat : Holds m format (choices.flatMap (fun c => (f c).format) ++ [0]))
    (rest : List (BitVec 64)) (buf : Mem) {fuel : Nat}
    (hFuel : (choices.flatMap fun c => (f c).render).length < fuel) :
    ∃ s, vprintf serialConsole m (choices.length + fuel) format
        (choices.flatMap (fun c => c.1.slots) ++ rest) buf = some s ∧
      s.out = choices.flatMap (fun c => (f c).render) ∧ s.args = rest ∧
      s.printed = BitVec.ofNat 32 s.out.length := by
  have hRowSlots : (choices.map f).flatMap Chunk.slots = choices.flatMap fun c => c.1.slots := by
    rw [List.flatMap_map]
    exact List.flatMap_congr fun c _ => hSlots c
  have hRowFormat : (choices.map f).flatMap Chunk.format = choices.flatMap fun c => (f c).format :=
    List.flatMap_map ..
  have hRowRender : (choices.map f).flatMap Chunk.render = choices.flatMap fun c => (f c).render :=
    List.flatMap_map ..
  rw [← hRowFormat] at hFormat
  rw [← hRowRender] at hFuel
  obtain ⟨s, hRun, hPrints⟩ := vprintfLoop_chunks
    (s := ⟨choices.flatMap (fun c => c.1.slots) ++ rest, buf, [], 0⟩)
    (List.forall_mem_map.mpr hWf) hFormat (congrArg (· ++ rest) hRowSlots.symm) hFuel
  rw [List.length_map] at hRun
  have hOut : s.out = (choices.map f).flatMap Chunk.render := hPrints.out_eq
  have hArgs := hPrints.args_eq
  rw [hRowSlots] at hArgs
  refine ⟨s, ?_, hOut.trans hRowRender, (List.append_cancel_left hArgs).symm, ?_⟩
  · rw [vprintf, if_neg hConsole]
    exact hRun
  · rw [hPrints.printed_eq, hOut]
    exact BitVec.zero_add _

/--
**When the modifier `l` changes nothing.** For every format of well-formed pieces, every
list that supplies their arguments and every choice of conversions `d`, `u` and `x`:
the format with an `l` in the chosen ones prints the same text, reads the same arguments
and returns the same count as the format without, if and only if there is no console or
every chosen `d` and `u` has a number of one digit.
-/
theorem longModifier_iff {choices : List (Piece × Bool)} (hWf : ∀ c ∈ choices, c.1.WellFormed m)
    {format marked : Nat}
    (hFormat : Holds m format (choices.flatMap (fun c => c.1.format) ++ [0]))
    (hMarked : Holds m marked (choices.flatMap (fun c => (markedChunk c).format) ++ [0]))
    (serialConsole : Serial) (rest : List (BitVec 64)) (buf : Mem) :
    ∃ fuel₀, ∀ fuel, fuel₀ ≤ fuel → ∃ s s',
      vprintf serialConsole m fuel format (choices.flatMap (fun c => c.1.slots) ++ rest) buf =
        some s ∧
      vprintf serialConsole m fuel marked (choices.flatMap (fun c => c.1.slots) ++ rest) buf =
        some s' ∧
      (SamePrint s s' ↔ serialConsole.putc = 0 ∨ ∀ c ∈ choices, OneDigit c) := by
  refine ⟨choices.length + ((choices.flatMap fun c => c.1.render).length +
    (choices.flatMap fun c => (markedChunk c).render).length + 1), fun fuel hFuel => ?_⟩
  obtain ⟨fuel, rfl⟩ := Nat.exists_eq_add_of_le (Nat.le_trans (Nat.le_add_right _ _) hFuel)
  have hEnough := Nat.le_of_add_le_add_left hFuel
  by_cases hConsole : serialConsole.putc = 0
  · exact ⟨_, _, if_pos hConsole, if_pos hConsole, iff_of_true ⟨rfl, rfl, rfl⟩ (Or.inl hConsole)⟩
  have hFuelPlain : (choices.flatMap fun c => (Chunk.piece c.1).render).length < fuel :=
    Nat.lt_of_lt_of_le (Nat.lt_succ_of_le (Nat.le_add_right _ _)) hEnough
  have hFuelMarked : (choices.flatMap fun c => (markedChunk c).render).length < fuel :=
    Nat.lt_of_lt_of_le (Nat.lt_succ_of_le (Nat.le_add_left _ _)) hEnough
  obtain ⟨s, hRun, hOut, hArgs, hPrinted⟩ := vprintf_row (f := fun c => .piece c.1) hConsole hWf
    (fun _ => rfl) hFormat rest buf hFuelPlain
  obtain ⟨s', hRun', hOut', hArgs', hPrinted'⟩ := vprintf_row (f := markedChunk) hConsole
    (fun c hc => markedChunk_wellFormed (hWf c hc)) markedChunk_slots hMarked rest buf hFuelMarked
  refine ⟨s, s', hRun, hRun', ?_⟩
  have hTexts : s'.out = s.out ↔ ∀ c ∈ choices, OneDigit c := by
    rw [hOut, hOut']
    exact markedRender_eq_iff choices
  constructor
  · rintro ⟨hSame, -, -⟩
    exact Or.inr (hTexts.mp hSame)
  · rintro (hZero | hDigits)
    · exact absurd hZero hConsole
    · have hSame := hTexts.mpr hDigits
      exact ⟨hSame, hArgs'.trans hArgs.symm, by rw [hPrinted', hPrinted, hSame]⟩

/-- `%x %u` and `%lx %lu` with a number of one digit for the `u`. -/
theorem longModifier_iff_digit :
    let m : Mem := fun i => (asciiString "%x %u" ++ 0 :: asciiString "%lx %lu").getD i 0
    ∃ fuel₀, ∀ fuel, fuel₀ ≤ fuel → ∃ s s',
      vprintf ⟨1, 1⟩ m fuel 0 [0xABC, 7] (fun _ => 0xFF) = some s ∧
      vprintf ⟨1, 1⟩ m fuel 6 [0xABC, 7] (fun _ => 0xFF) = some s' ∧ SamePrint s s' := by
  intro m
  let choices : List (Piece × Bool) :=
    [(.hex 0xABC, true), (.plain (ascii ' '), false), (.unsigned 7, true)]
  have hWf : ∀ c ∈ choices, c.1.WellFormed m := by simp [choices, Piece.WellFormed, ascii]
  have hFormat : Holds m 0 (choices.flatMap (fun c => c.1.format) ++ [0]) :=
    ⟨rfl, rfl, rfl, rfl, rfl, rfl, trivial⟩
  have hMarked : Holds m 6 (choices.flatMap (fun c => (markedChunk c).format) ++ [0]) :=
    ⟨rfl, rfl, rfl, rfl, rfl, rfl, rfl, rfl, trivial⟩
  obtain ⟨fuel₀, hAll⟩ := longModifier_iff hWf hFormat hMarked ⟨1, 1⟩ [] (fun _ => 0xFF)
  refine ⟨fuel₀, fun fuel hFuel => ?_⟩
  obtain ⟨s, s', hRun, hRun', hSame⟩ := hAll fuel hFuel
  exact ⟨s, s', hRun, hRun', hSame.mpr (Or.inr (by simp [choices, OneDigit]))⟩

/-- The offset that `page_init` prints with `%lu`, here 4095 bytes. -/
theorem longModifier_fails :
    let m : Mem := fun i =>
      (asciiString "offset: %u bytes" ++ 0 :: asciiString "offset: %lu bytes").getD i 0
    ∃ s s', vprintf ⟨1, 1⟩ m 64 0 [4095] (fun _ => 0xFF) = some s ∧
      vprintf ⟨1, 1⟩ m 64 17 [4095] (fun _ => 0xFF) = some s' ∧
      s.out = asciiString "offset: 4095 bytes" ∧ s'.out = asciiString "offset: fff bytes" ∧
      ¬ SamePrint s s' := by
  intro m
  have hPlain : (vprintf ⟨1, 1⟩ m 64 0 [4095] (fun _ => 0xFF)).map (·.out) =
      some (asciiString "offset: 4095 bytes") := by decide +kernel
  have hLong : (vprintf ⟨1, 1⟩ m 64 17 [4095] (fun _ => 0xFF)).map (·.out) =
      some (asciiString "offset: fff bytes") := by decide +kernel
  obtain ⟨s, hRun, hOut⟩ := Option.map_eq_some_iff.mp hPlain
  obtain ⟨s', hRun', hOut'⟩ := Option.map_eq_some_iff.mp hLong
  refine ⟨s, s', hRun, hRun', hOut, hOut', fun hSame => ?_⟩
  have hTexts := hSame.1
  rw [hOut, hOut'] at hTexts
  exact absurd hTexts (by decide +kernel)

end Kernalite
