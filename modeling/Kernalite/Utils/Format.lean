import Kernalite.Utils.Vprintf

/-!
# Kernalite — format strings

Every string is a row of tokens and perhaps the beginning of a conversion that it
does not finish. `Chunk` is a token with its argument.

* `tokenize_format`, `tokenize_dangling` — a string is its tokens and what dangles;
* `vprintfRound_chunk` — one round of the loop prints one chunk;
* `Supplies` — the arguments a format needs.
-/

namespace Kernalite

open ByteMemory ByteString

/-- What `vprintf` takes from the format between two tests for its end. -/
inductive Token where
  | plain (c : Byte)
  | conversion (c : Byte)
  | long (c : Byte)
  deriving DecidableEq, Repr

def Token.format : Token → List Byte
  | plain c => [c]
  | conversion c => [ascii '%', c]
  | long c => [ascii '%', ascii 'l', c]

/-- The tokens of a string, and what dangles at its end: nothing, `%` or `%l`. -/
def tokenize : List Byte → List Token × List Byte
  | [] => ([], [])
  | c :: s =>
    if c ≠ ascii '%' then (.plain c :: (tokenize s).1, (tokenize s).2)
    else
      match s with
      | [] => ([], [ascii '%'])
      | c :: s =>
        if c ≠ ascii 'l' then (.conversion c :: (tokenize s).1, (tokenize s).2)
        else
          match s with
          | [] => ([], [ascii '%', ascii 'l'])
          | c :: s => (.long c :: (tokenize s).1, (tokenize s).2)

/-- The string does not end inside a conversion. -/
def Complete (s : List Byte) : Prop := (tokenize s).2 = []

instance (s : List Byte) : Decidable (Complete s) := inferInstanceAs (Decidable (_ = _))

/-- **A string is its tokens and what dangles.** -/
theorem tokenize_format (s : List Byte) :
    (tokenize s).1.flatMap Token.format ++ (tokenize s).2 = s := by
  fun_induction tokenize s with
  | case1 => rfl
  | case2 c s hPlain ih => exact congrArg (c :: ·) ih
  | case3 c hPercent => rw [Decidable.not_not.mp hPercent]; rfl
  | case4 c hPercent k s hConversion ih =>
    rw [Decidable.not_not.mp hPercent]
    exact congrArg (ascii '%' :: k :: ·) ih
  | case5 c hPercent k hLong =>
    rw [Decidable.not_not.mp hPercent, Decidable.not_not.mp hLong]
    rfl
  | case6 c hPercent k hLong d s ih =>
    rw [Decidable.not_not.mp hPercent, Decidable.not_not.mp hLong]
    exact congrArg (ascii '%' :: ascii 'l' :: d :: ·) ih

theorem tokenize_dangling (s : List Byte) :
    Complete s ∨ (tokenize s).2 = [ascii '%'] ∨ (tokenize s).2 = [ascii '%', ascii 'l'] := by
  unfold Complete
  fun_induction tokenize s with
  | case1 => exact Or.inl rfl
  | case2 c s hPlain ih => exact ih
  | case3 c hPercent => exact Or.inr (Or.inl rfl)
  | case4 c hPercent k s hConversion ih => exact ih
  | case5 c hPercent k hLong => exact Or.inr (Or.inr rfl)
  | case6 c hPercent k hLong d s ih => exact ih

-- ---------------------------------------------------------------------------
-- Chunks
-- ---------------------------------------------------------------------------

/-- A token with its argument: a piece, or an `l` in front of any character. -/
inductive Chunk where
  | piece (piece : Piece)
  | long (c : Byte) (slot : BitVec 64)

namespace Chunk

def token : Chunk → Token
  | piece (.plain c) => .plain c
  | piece .percent => .conversion (ascii '%')
  | piece (.unsupported c) => .conversion c
  | piece (.char _) => .conversion (ascii 'c')
  | piece (.string _ _) | piece .nullString => .conversion (ascii 's')
  | piece (.decimal _) => .conversion (ascii 'd')
  | piece (.unsigned _) => .conversion (ascii 'u')
  | piece (.hex _) => .conversion (ascii 'x')
  | piece (.pointer _) => .conversion (ascii 'p')
  | piece (.longHex _) => .long (ascii 'x')
  | long c _ => .long c

/-- The characters of the format. -/
def format : Chunk → List Byte
  | piece q => q.format
  | long c _ => [ascii '%', ascii 'l', c]

/-- The arguments it consumes. -/
def slots : Chunk → List (BitVec 64)
  | piece q => q.slots
  | long _ slot => [slot]

/-- The characters it is printed as: behind an `l`, every number is hexadecimal. -/
def render : Chunk → List Byte
  | piece q => q.render
  | long c slot => (if c = ascii 'p' then asciiString "0x" else []) ++ digitBytes 16 slot.toNat

def WellFormed (m : Mem) : Chunk → Prop
  | piece q => q.WellFormed m
  | long c _ => c ≠ 0

theorem token_format (chunk : Chunk) : chunk.token.format = chunk.format := by
  cases chunk with
  | piece q => cases q <;> rfl
  | long c slot => rfl

end Chunk

variable {m : Mem} {fuel p : Nat} {s : PrintState} {chunk : Chunk}

theorem chunk_head_ne_zero (hWf : chunk.WellFormed m) (hFormat : Holds m p chunk.format) :
    m p ≠ 0 := by
  cases chunk with
  | piece q => exact format_head_ne_zero hWf hFormat
  | long c slot =>
    rw [hFormat.head]
    decide

/-- A number is printed without a zero character. -/
theorem zero_notMem_digitBytes {base : Nat} (hBase : 1 < base) (hHex : base ≤ 16) (num : Nat) :
    0 ∉ digitBytes base num := fun hMem => digitBytes_ne_zero hBase hHex num 0 hMem rfl

/-- Only `%c` prints a zero character. -/
theorem zero_mem_render (hWf : chunk.WellFormed m) :
    0 ∈ chunk.render ↔ ∃ slot, chunk = .piece (.char slot) ∧ slot.setWidth 8 = (0 : Byte) := by
  have hDecimal : ∀ num, 0 ∉ digitBytes 10 num := zero_notMem_digitBytes (by omega) (by omega)
  have hHex : ∀ num, 0 ∉ digitBytes 16 num := zero_notMem_digitBytes (by omega) (by omega)
  cases chunk with
  | long c slot =>
    refine iff_of_false (fun hMem => ?_) (by simp)
    rcases List.mem_append.mp hMem with hPrefix | hDigits
    · split_ifs at hPrefix
      · exact absurd hPrefix (by decide)
      · exact absurd hPrefix List.not_mem_nil
    · exact hHex _ hDigits
  | piece q =>
    cases q with
    | char slot => simp [Chunk.render, Piece.render, eq_comm]
    | plain c =>
      refine iff_of_false (fun hMem => ?_) (by simp)
      have hChar : c ≠ 0 := hWf.1
      simp only [Chunk.render, Piece.render] at hMem
      split_ifs at hMem with hLine
      · rw [hLine] at hMem
        exact absurd hMem (by decide)
      · exact hChar (List.mem_singleton.mp hMem).symm
    | unsupported c =>
      refine iff_of_false (fun hMem => ?_) (by simp)
      rcases List.mem_cons.mp hMem with hPercent | hChar
      · exact absurd hPercent (by decide)
      · exact hWf.1 (List.mem_singleton.mp hChar).symm
    | string slot text => exact iff_of_false (fun hMem => hWf.2.nonzero 0 hMem rfl) (by simp)
    | percent => exact iff_of_false (by decide) (by simp)
    | nullString => exact iff_of_false (by decide) (by simp)
    | decimal slot =>
      refine iff_of_false (fun hMem => ?_) (by simp)
      simp only [Chunk.render, Piece.render, Piece.signedBytes] at hMem
      split_ifs at hMem
      · rcases List.mem_cons.mp hMem with hSign | hDigits
        · exact absurd hSign (by decide)
        · exact hDecimal _ hDigits
      · exact hDecimal _ hMem
    | unsigned slot => exact iff_of_false (hDecimal _) (by simp)
    | hex slot => exact iff_of_false (hHex _) (by simp)
    | longHex slot => exact iff_of_false (hHex _) (by simp)
    | pointer slot =>
      refine iff_of_false (fun hMem => ?_) (by simp)
      rcases List.mem_append.mp hMem with hPrefix | hDigits
      · exact absurd hPrefix (by decide)
      · exact hHex _ hDigits

/-- The chunks of a text without conversions. -/
theorem plain_wellFormed {xs : List Byte}
    (h : (xs.all fun c => c ≠ 0 ∧ c ≠ ascii '%') = true) :
    ∀ chunk ∈ xs.map (Chunk.piece ∘ Piece.plain), chunk.WellFormed m := by
  refine List.forall_mem_map.mpr fun c hc => ?_
  have hPlain : c ≠ 0 ∧ c ≠ ascii '%' := of_decide_eq_true (List.all_eq_true.mp h c hc)
  exact hPlain

/-- Behind an `l` any character is taken for `x` or `p`, the end of the format, too. -/
theorem vprintfRound_long {c : Byte} {slot : BitVec 64} {args : List (BitVec 64)}
    (hFormat : Holds m p [ascii '%', ascii 'l', c]) (hArgs : s.args = slot :: args)
    (hFuel : (digitBytes 16 slot.toNat).length < fuel) :
    ∃ s', vprintfRound m fuel p s = some (p + 3, s') ∧
      Prints s s' [slot] (Chunk.long c slot).render := by
  have hPercent : m p = ascii '%' := hFormat.head
  have hLong : m (p + 1) = ascii 'l' := hFormat.2.1
  have hChar : m (p + 1 + 1) = c := hFormat.2.2.1
  obtain ⟨s', hEq, hPrints⟩ := putHex_prints (m := m) (p := p + 1 + 1) hArgs hFuel
  refine ⟨s', ?_, by rwa [hChar] at hPrints⟩
  rw [vprintfRound, hPercent, if_neg (not_not_intro rfl), convert, hLong, if_pos rfl, hEq]
  rfl

/-- **One round of the loop** prints one chunk. -/
theorem vprintfRound_chunk (hWf : chunk.WellFormed m) (hFormat : Holds m p chunk.format)
    {args : List (BitVec 64)} (hArgs : s.args = chunk.slots ++ args)
    (hFuel : chunk.render.length < fuel) :
    ∃ s', vprintfRound m fuel p s = some (p + chunk.format.length, s') ∧
      Prints s s' chunk.slots chunk.render := by
  cases chunk with
  | piece q => exact vprintfRound_prints hWf hFormat hArgs hFuel
  | long c slot =>
    rw [Chunk.render, List.length_append] at hFuel
    exact vprintfRound_long hFormat hArgs (Nat.lt_of_le_of_lt (Nat.le_add_left _ _) hFuel)

-- ---------------------------------------------------------------------------
-- The arguments of a format
-- ---------------------------------------------------------------------------

/-- The arguments supply the conversions of a format, one chunk for each of its tokens;
`%l` at the end takes one, too. -/
structure Supplies (m : Mem) (format : List Byte) (args : List (BitVec 64)) (chunks : List Chunk)
    (rest : List (BitVec 64)) : Prop where
  tokens_eq  : chunks.map Chunk.token = (tokenize format).1
  wellFormed : ∀ chunk ∈ chunks, chunk.WellFormed m
  args_eq    : args = chunks.flatMap Chunk.slots ++ rest
  dangling   : (tokenize format).2 = [ascii '%', ascii 'l'] → rest ≠ []

theorem Supplies.format_eq {format : List Byte} {args rest : List (BitVec 64)}
    {chunks : List Chunk} (h : Supplies m format args chunks rest) :
    format = chunks.flatMap Chunk.format ++ (tokenize format).2 := by
  have hTokens : (tokenize format).1.flatMap Token.format = chunks.flatMap Chunk.format := by
    rw [← h.tokens_eq, List.flatMap_map]
    exact congrArg (List.flatMap · chunks) (funext Chunk.token_format)
  rw [← hTokens, tokenize_format]

end Kernalite
