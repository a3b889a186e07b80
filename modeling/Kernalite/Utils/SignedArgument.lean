import Kernalite.Utils.RoundTrip
import Kernalite.Utils.Scan

/-!
# Kernalite — the argument of `%d`

`vprintf` reads a `long` for `%d`; its callers pass an `int`, which fills the lower half
of the slot.

* `signedBytes_inj` — the decimal text of a number determines it;
* `scan_emits` — what the round at a chunk sends;
* `decimal_emitted_iff` — `%d` prints the `int` if and only if the slot is its sign
  extension.
-/

namespace Kernalite

open ByteMemory ByteString Numeral

-- ---------------------------------------------------------------------------
-- Decimal texts
-- ---------------------------------------------------------------------------

theorem digitBytes_inj {base a b : Nat} (hBase : 1 < base) (hHex : base ≤ 16)
    (h : digitBytes base a = digitBytes base b) : a = b := by
  have hSpells := digitBytes_spells hBase hHex a
  rw [h] at hSpells
  exact hSpells.unique (digitBytes_spells hBase hHex b)

/-- A sign is not a digit. -/
theorem minus_not_mem_digitBytes {base : Nat} (hBase : 1 < base) (hHex : base ≤ 16) (num : Nat) :
    ascii '-' ∉ digitBytes base num := by
  intro hMem
  obtain ⟨d, hDigit, -⟩ := (digitBytes_spells hBase hHex num).digit_of_mem hMem
  have hNone : digitOf (ascii '-') = none := by decide
  exact absurd (hNone.symm.trans hDigit) nofun

/-- **The decimal text of a number** determines it. -/
theorem signedBytes_inj {a b : Int} (h : Piece.signedBytes a = Piece.signedBytes b) : a = b := by
  have hPlus : ∀ n, ascii '-' ∉ digitBytes 10 n := minus_not_mem_digitBytes (by omega) (by omega)
  unfold Piece.signedBytes at h
  split_ifs at h with ha hb hb
  · have hAbs := digitBytes_inj (by omega) (by omega) (List.cons.inj h).2
    omega
  · exact absurd (h ▸ List.mem_cons_self) (hPlus b.natAbs)
  · exact absurd (h ▸ List.mem_cons_self) (hPlus a.natAbs)
  · have hAbs := digitBytes_inj (by omega) (by omega) h
    omega

-- ---------------------------------------------------------------------------
-- The conversion in its run
-- ---------------------------------------------------------------------------

/-- Round `i` of the run starts at `ptr` and sends exactly these characters. -/
def EmitsAt (scan : List (Nat × PrintState)) (i ptr : Nat) (xs : List Byte) : Prop :=
  ∃ s ptr' s', scan[i]? = some (ptr, s) ∧ scan[i + 1]? = some (ptr', s') ∧ s'.out = s.out ++ xs

theorem EmitsAt.unique {scan : List (Nat × PrintState)} {i ptr : Nat} {xs ys : List Byte}
    (h : EmitsAt scan i ptr xs) (h' : EmitsAt scan i ptr ys) : xs = ys := by
  obtain ⟨s, q, t, hFrom, hTo, hOut⟩ := h
  obtain ⟨s', q', t', hFrom', hTo', hOut'⟩ := h'
  obtain rfl : s = s' := congrArg Prod.snd (Option.some.inj (hFrom.symm.trans hFrom'))
  obtain rfl : t = t' := congrArg Prod.snd (Option.some.inj (hTo.symm.trans hTo'))
  exact List.append_cancel_left (hOut.symm.trans hOut')

variable {m : Mem} {format : Nat} {text : List Byte} {pre post : List Chunk}
  {args rest : List (BitVec 64)} {serialConsole : Serial}

/-- **The round at a chunk** sends the characters it is rendered as. -/
theorem scan_emits {chunk : Chunk} (hConsole : serialConsole.putc ≠ 0)
    (hFormat : CString m format text) (hArgs : Supplies m text args (pre ++ chunk :: post) rest)
    (buf : Mem) {fuel : Nat}
    (hFuel : (pre.flatMap Chunk.render).length + chunk.render.length + 2 ≤ fuel) :
    EmitsAt (vprintfScan serialConsole m (pre.length + fuel) format args buf) pre.length
      (format + (pre.flatMap Chunk.format).length) chunk.render := by
  have hHolds := hFormat.holds
  have hSlots := hArgs.args_eq
  rw [hArgs.format_eq, List.flatMap_append, List.flatMap_cons] at hHolds
  rw [List.flatMap_append, List.flatMap_cons] at hSlots
  simp only [List.append_assoc, holds_append] at hHolds hSlots
  obtain ⟨hPre, hHere, -⟩ := hHolds
  have hWf := List.forall_mem_append.mp hArgs.wellFormed
  have hWfHere := hWf.2 chunk List.mem_cons_self
  obtain ⟨fuel, rfl⟩ := Nat.exists_eq_add_of_le' (by omega : 2 ≤ fuel)
  have hPreFuel : (pre.flatMap Chunk.render).length < fuel + 2 := by omega
  have hHereFuel : chunk.render.length < fuel + 1 := by omega
  obtain ⟨hs, s, hRun, hCount, -, hPrints⟩ :=
    vprintfHeaders_chunks (s := ⟨args, buf, [], 0⟩) hWf.1 hPre hSlots hPreFuel
  have hNext := List.append_cancel_left (hPrints.args_eq.symm.trans hSlots)
  obtain ⟨s', hRound, hPrints'⟩ := vprintfRound_chunk hWfHere hHere hNext hHereFuel
  obtain ⟨hs', hRest⟩ := vprintfHeaders_head (m := m) (s := s') (Nat.succ_pos fuel)
  rw [vprintfHeaders_round (chunk_head_ne_zero hWfHere hHere) hRound, hRest] at hRun
  rw [vprintfScan_eq hConsole, hRun, ← hCount]
  refine ⟨s, format + (pre.flatMap Chunk.format).length + chunk.format.length, s', ?_, ?_,
    hPrints'.out_eq⟩
  · rw [List.getElem?_append_right (Nat.le_refl _), Nat.sub_self]
    rfl
  · rw [List.getElem?_append_right (Nat.le_add_right _ _), Nat.add_sub_cancel_left]
    rfl

/--
**When `%d` prints the `int` that was passed.** For every format in memory, every list
that supplies its arguments, every `%d` in it and every `int` in the lower half of its
slot: the round at that conversion sends the decimal text of the `int` if and only if
a console is set and the slot is the `int` with its sign extended.
-/
theorem decimal_emitted_iff (hFormat : CString m format text) {v hi : BitVec 32}
    (hArgs : Supplies m text args (pre ++ .piece (.decimal (hi ++ v)) :: post) rest)
    (serialConsole : Serial) (buf : Mem) :
    ∃ fuel₀, ∀ fuel, fuel₀ ≤ fuel →
      (EmitsAt (vprintfScan serialConsole m fuel format args buf) pre.length
          (format + (pre.flatMap Chunk.format).length) (Piece.signedBytes v.toInt) ↔
        serialConsole.putc ≠ 0 ∧ hi ++ v = v.signExtend 64) := by
  refine ⟨pre.length + ((pre.flatMap Chunk.render).length +
    (Piece.signedBytes (hi ++ v).toInt).length + 2), fun fuel hFuel => ?_⟩
  obtain ⟨fuel, rfl⟩ := Nat.exists_eq_add_of_le (Nat.le_trans (Nat.le_add_right _ _) hFuel)
  by_cases hConsole : serialConsole.putc = 0
  · refine iff_of_false ?_ fun h => h.1 hConsole
    rintro ⟨s, q, s', hFrom, -, -⟩
    rw [vprintfScan, if_pos hConsole] at hFrom
    exact absurd hFrom nofun
  · have hEmits := scan_emits hConsole hFormat hArgs buf (Nat.le_of_add_le_add_left hFuel)
    constructor
    · intro hWanted
      have hInt : (hi ++ v).toInt = v.toInt := signedBytes_inj (hEmits.unique hWanted)
      refine ⟨hConsole, BitVec.eq_of_toInt_eq ?_⟩
      rw [hInt, BitVec.toInt_signExtend_of_le (by omega)]
    · rintro ⟨-, hSlot⟩
      have hInt : (hi ++ v).toInt = v.toInt := by
        rw [hSlot]
        exact BitVec.toInt_signExtend_of_le (by omega)
      rw [← hInt]
      exact hEmits

/-- A negative `int` whose slot is sign-extended. -/
theorem decimal_emitted_iff_extended :
    let text := asciiString "%d"
    let m : Mem := fun i => text.getD i 0
    let slot := (0xFFFFFFFF : BitVec 32) ++ (0xFFFFFFF8 : BitVec 32)
    ∃ fuel₀, ∀ fuel, fuel₀ ≤ fuel →
      EmitsAt (vprintfScan ⟨1, 1⟩ m fuel 0 [slot] (fun _ => 0xFF)) 0 0
        (Piece.signedBytes (0xFFFFFFF8 : BitVec 32).toInt) := by
  intro text m slot
  have hFormat : CString m 0 text := cString_getD (by decide)
  have hArgs : Supplies m text [slot] ([] ++ .piece (.decimal slot) :: []) [] :=
    ⟨by decide, by simp [Chunk.WellFormed, Piece.WellFormed], rfl, by decide⟩
  obtain ⟨fuel₀, hAll⟩ := decimal_emitted_iff hFormat hArgs ⟨1, 1⟩ (fun _ => 0xFF)
  exact ⟨fuel₀, fun fuel hFuel => (hAll fuel hFuel).mpr ⟨by decide, by decide +kernel⟩⟩

/-- The message of `check_fdt` for an error it does not know. -/
def unknownErrorText : List Byte := asciiString "FDT Error: Unknown error code %d\n"

def unknownErrorBefore : List Chunk :=
  (asciiString "FDT Error: Unknown error code ").map (Chunk.piece ∘ Piece.plain)

/-- The `int` `-8` in a slot whose upper half a 32-bit write has cleared. -/
def clearedSlot : BitVec 64 := (0 : BitVec 32) ++ (0xFFFFFFF8 : BitVec 32)

theorem unknownError_supplied (m : Mem) : Supplies m unknownErrorText [clearedSlot]
    (unknownErrorBefore ++ .piece (.decimal clearedSlot) :: [.piece (.plain (ascii '\n'))]) [] where
  tokens_eq := by decide +kernel
  wellFormed := by
    refine List.forall_mem_append.mpr ⟨plain_wellFormed (by decide +kernel), ?_⟩
    simp [Chunk.WellFormed, Piece.WellFormed, ascii]
  args_eq := by decide +kernel
  dangling := by decide +kernel

/-- The error `-8` is printed as a large positive number. -/
theorem decimal_emitted_fails :
    let m : Mem := fun i => unknownErrorText.getD i 0
    CString m 0 unknownErrorText ∧ (∃ chunks, Supplies m unknownErrorText [clearedSlot] chunks []) ∧
      ∀ fuel, 72 ≤ fuel →
        let scan := vprintfScan ⟨1, 1⟩ m fuel 0 [clearedSlot] (fun _ => 0xFF)
        EmitsAt scan 30 30 (asciiString "4294967288") ∧
          ¬ EmitsAt scan 30 30 (Piece.signedBytes (0xFFFFFFF8 : BitVec 32).toInt) := by
  intro m
  have hFormat : CString m 0 unknownErrorText := cString_getD (by decide +kernel)
  refine ⟨hFormat, ⟨_, unknownError_supplied m⟩, fun fuel hFuel => ?_⟩
  obtain ⟨fuel, rfl⟩ := Nat.exists_eq_add_of_le (Nat.le_trans (by omega : 30 ≤ 72) hFuel)
  have hCount : unknownErrorBefore.length = 30 := by decide +kernel
  have hOffset : (unknownErrorBefore.flatMap Chunk.format).length = 30 := by decide +kernel
  have hRendered : (unknownErrorBefore.flatMap Chunk.render).length = 30 := by decide +kernel
  have hPrinted : Chunk.render (.piece (.decimal clearedSlot)) = asciiString "4294967288" := by
    decide +kernel
  have hTen : (asciiString "4294967288").length = 10 := by decide +kernel
  have hConsole : (Serial.mk 1 1).putc ≠ 0 := Nat.one_ne_zero
  have hEnough : (unknownErrorBefore.flatMap Chunk.render).length +
      (Chunk.render (.piece (.decimal clearedSlot))).length + 2 ≤ fuel := by
    rw [hRendered, hPrinted, hTen]
    omega
  have hEmits := scan_emits hConsole hFormat (unknownError_supplied m) (fun _ => 0xFF) hEnough
  rw [hCount, hOffset, hPrinted] at hEmits
  refine ⟨hEmits, fun hWanted => ?_⟩
  exact absurd (hEmits.unique hWanted) (by decide +kernel)

end Kernalite
