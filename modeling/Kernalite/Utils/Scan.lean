import Kernalite.Utils.Format

/-!
# Kernalite — the scan of the format

`vprintf` as a run: the states in which its loop tests for the end of the format. The
pointer moves in three places and is tested in one.

* `vprintfLoop_eq_some_iff` — the result of `vprintf` is the last state of its run;
* `vprintfHeaders_chunks`, `vprintfLoop_chunks` — the run over a row of chunks;
* `vprintfRound_congr`, `roundEcho_sent` — what one round reads and sends of the format;
* `vprintfHeaders_congr`, `ScanSafe.congr`, `ScanSafe.echo_sent` — so the run depends on no
  other address, and sends what its rounds echo;
* `vprintf_scanSafe_iff` — the run stays within the format if and only if the format
  does not end inside a conversion.
-/

namespace Kernalite

open ByteMemory ByteString

-- ---------------------------------------------------------------------------
-- Runs
-- ---------------------------------------------------------------------------

/-- Where the loop tests for the end of the format, and what it has printed by then. -/
def vprintfHeaders (m : Mem) : Nat → Nat → PrintState → List (Nat × PrintState)
  | 0, _, _ => []
  | fuel + 1, ptr, s =>
    (ptr, s) ::
      if m ptr = 0 then []
      else
        match vprintfRound m fuel ptr s with
        | none => []
        | some (ptr, s) => vprintfHeaders m fuel ptr s

/-- The run of a call of `vprintf`; without a console there is none. -/
def vprintfScan (serialConsole : Serial) (m : Mem) (fuel format : Nat) (args : List (BitVec 64))
    (buf : Mem) : List (Nat × PrintState) :=
  if serialConsole.putc = 0 then [] else vprintfHeaders m fuel format ⟨args, buf, [], 0⟩

variable {m : Mem} {fuel p : Nat} {s s' : PrintState}

/-- **The result of the loop** is the last state of its run. -/
theorem vprintfLoop_eq_some_iff :
    vprintfLoop m fuel p s = some s' ↔
      ∃ q, (vprintfHeaders m fuel p s).getLast? = some (q, s') ∧ m q = 0 := by
  induction fuel generalizing p s with
  | zero => exact iff_of_false nofun (by rintro ⟨q, hLast, -⟩; exact absurd hLast nofun)
  | succ fuel ih =>
    rw [vprintfLoop_succ, vprintfHeaders]
    by_cases hEnd : m p = 0
    · rw [if_pos hEnd, if_pos hEnd, List.getLast?_singleton]
      constructor
      · rintro ⟨⟩
        exact ⟨p, rfl, hEnd⟩
      · rintro ⟨q, ⟨⟩, -⟩
        rfl
    · rw [if_neg hEnd, if_neg hEnd]
      have hNotHere : ∀ q, some (p, s) = some (q, s') → m q ≠ 0 := by
        rintro q ⟨⟩
        exact hEnd
      cases hRound : vprintfRound m fuel p s with
      | none =>
        refine iff_of_false nofun ?_
        rintro ⟨q, hLast, hZero⟩
        exact hNotHere q hLast hZero
      | some next =>
        obtain ⟨q, t⟩ := next
        simp only [Option.bind_some]
        rw [ih]
        cases hRest : vprintfHeaders m fuel q t with
        | nil =>
          refine iff_of_false (by rintro ⟨q, hLast, -⟩; exact absurd hLast nofun) ?_
          rintro ⟨q, hLast, hZero⟩
          exact hNotHere q hLast hZero
        | cons h hs => rw [List.getLast?_cons_cons]

/-- The run starts at the format. -/
theorem vprintfHeaders_head (hFuel : 0 < fuel) :
    ∃ hs, vprintfHeaders m fuel p s = (p, s) :: hs := by
  obtain ⟨fuel, rfl⟩ := Nat.exists_eq_succ_of_ne_zero (Nat.ne_of_gt hFuel)
  exact ⟨_, rfl⟩

theorem vprintfHeaders_end (hFuel : 0 < fuel) (hEnd : m p = 0) :
    vprintfHeaders m fuel p s = [(p, s)] := by
  obtain ⟨fuel, rfl⟩ := Nat.exists_eq_succ_of_ne_zero (Nat.ne_of_gt hFuel)
  rw [vprintfHeaders, if_pos hEnd]

theorem vprintfHeaders_round {q : Nat} (hNotEnd : m p ≠ 0)
    (hRound : vprintfRound m fuel p s = some (q, s')) :
    vprintfHeaders m (fuel + 1) p s = (p, s) :: vprintfHeaders m fuel q s' := by
  rw [vprintfHeaders, if_neg hNotEnd, hRound]

/-- The address is the first of a chunk that lies between `lo` and `hi`. -/
def AtChunk (m : Mem) (lo hi : Nat) (ptr : Nat) : Prop :=
  ∃ chunk : Chunk, chunk.WellFormed m ∧ Holds m ptr chunk.format ∧ lo ≤ ptr ∧
    ptr + chunk.format.length ≤ hi

/-- **The run over a row of chunks**: one round for each of them. -/
theorem vprintfHeaders_chunks {chunks : List Chunk} {args : List (BitVec 64)}
    (hWf : ∀ chunk ∈ chunks, chunk.WellFormed m)
    (hFormat : Holds m p (chunks.flatMap Chunk.format))
    (hArgs : s.args = chunks.flatMap Chunk.slots ++ args)
    (hFuel : (chunks.flatMap Chunk.render).length < fuel) :
    ∃ hs s', vprintfHeaders m (chunks.length + fuel) p s =
        hs ++ vprintfHeaders m fuel (p + (chunks.flatMap Chunk.format).length) s' ∧
      hs.length = chunks.length ∧
      (∀ h ∈ hs, AtChunk m p (p + (chunks.flatMap Chunk.format).length) h.1) ∧
      Prints s s' (chunks.flatMap Chunk.slots) (chunks.flatMap Chunk.render) := by
  induction chunks generalizing p s with
  | nil =>
    refine ⟨[], s, ?_, rfl, fun h hh => absurd hh List.not_mem_nil, Prints.refl s⟩
    rw [List.length_nil, Nat.zero_add]
    rfl
  | cons chunk chunks ih =>
    simp only [List.flatMap_cons] at hFormat hArgs hFuel ⊢
    rw [List.append_assoc] at hArgs
    rw [List.length_append] at hFuel ⊢
    obtain ⟨hChunk, hRest⟩ := holds_append.mp hFormat
    have hWfChunk := hWf chunk List.mem_cons_self
    have hEnough : chunk.render.length < chunks.length + fuel := by omega
    obtain ⟨t, hRound, hPrints⟩ := vprintfRound_chunk hWfChunk hChunk hArgs hEnough
    have hArgs' : t.args = chunks.flatMap Chunk.slots ++ args :=
      List.append_cancel_left (hPrints.args_eq.symm.trans hArgs)
    obtain ⟨hs, s', hRun, hCount, hAt, hPrints'⟩ :=
      ih (fun q hq => hWf q (List.mem_cons_of_mem _ hq)) hRest hArgs' (by omega)
    refine ⟨(p, s) :: hs, s', ?_, by rw [List.length_cons, List.length_cons, hCount], ?_,
      hPrints.trans hPrints'⟩
    · rw [List.length_cons, Nat.add_right_comm,
        vprintfHeaders_round (chunk_head_ne_zero hWfChunk hChunk) hRound, hRun, Nat.add_assoc]
      rfl
    · rintro h (_ | ⟨_, hh⟩)
      · exact ⟨chunk, hWfChunk, hChunk, Nat.le_refl p, by dsimp only; omega⟩
      · obtain ⟨q, hq, hHolds, hlo, hhi⟩ := hAt h hh
        exact ⟨q, hq, hHolds, by omega, by omega⟩

/-- **The loop over a row of chunks** prints them one after the other. -/
theorem vprintfLoop_chunks {chunks : List Chunk} {args : List (BitVec 64)}
    (hWf : ∀ chunk ∈ chunks, chunk.WellFormed m)
    (hFormat : Holds m p (chunks.flatMap Chunk.format ++ [0]))
    (hArgs : s.args = chunks.flatMap Chunk.slots ++ args)
    (hFuel : (chunks.flatMap Chunk.render).length < fuel) :
    ∃ s', vprintfLoop m (chunks.length + fuel) p s = some s' ∧
      Prints s s' (chunks.flatMap Chunk.slots) (chunks.flatMap Chunk.render) := by
  obtain ⟨hChunks, hEnd⟩ := holds_append.mp hFormat
  obtain ⟨hs, s', hRun, -, -, hPrints⟩ := vprintfHeaders_chunks hWf hChunks hArgs hFuel
  refine ⟨s', vprintfLoop_eq_some_iff.mpr ⟨_, ?_, hEnd.head⟩, hPrints⟩
  rw [hRun, vprintfHeaders_end (Nat.zero_lt_of_lt hFuel) hEnd.head, List.getLast?_concat]

-- ---------------------------------------------------------------------------
-- What a round takes from the format
-- ---------------------------------------------------------------------------

/-- The addresses of the format that are read from one test for its end to the next. -/
def roundReads (m : Mem) (ptr : Nat) : List Nat :=
  if m ptr ≠ ascii '%' then [ptr]
  else if m (ptr + 1) = ascii 'l' then [ptr, ptr + 1, ptr + 2]
  else [ptr, ptr + 1]

/-- The characters of the format that a round passes to `putc`: a plain one, and the one
behind `%` in the `default` branch. -/
def roundEcho (m : Mem) (ptr : Nat) : List Byte :=
  if m ptr = 0 then []
  else if m ptr ≠ ascii '%' then [m ptr]
  else if m (ptr + 1) ∈ [ascii 'l', ascii 'x', ascii 'p', ascii 'c', ascii 's', ascii 'd',
    ascii 'u', ascii '%'] then []
  else [m (ptr + 1)]

/-- The first address is that of the test itself. -/
theorem mem_roundReads (m : Mem) (ptr : Nat) : ptr ∈ roundReads m ptr := by
  unfold roundReads
  split_ifs <;> exact List.mem_cons_self

/-- The address is read by a loop over the string at `str`, its end included. -/
def InString (m : Mem) (str a : Nat) : Prop := str ≤ a ∧ ∀ b, str ≤ b → b < a → m b ≠ 0

/-- The address is read by a round that prints a string argument. -/
def RoundString (m : Mem) (ptr : Nat) (s : PrintState) (a : Nat) : Prop :=
  m ptr = ascii '%' ∧ m (ptr + 1) = ascii 's' ∧
    ∃ str t, vaArg s = some (str, t) ∧ str ≠ 0 ∧ InString m str.toNat a

theorem putString_congr {m' : Mem} {str : Nat} (hSame : ∀ a, InString m str a → m' a = m a) :
    putString m' fuel str s = putString m fuel str s := by
  induction fuel generalizing str s with
  | zero => rfl
  | succ fuel ih =>
    have hChar : m' str = m str :=
      hSame str ⟨Nat.le_refl str, fun b hLow hHigh => absurd hHigh (Nat.not_lt.mpr hLow)⟩
    rw [putString, putString, hChar]
    split_ifs with hEnd
    · rfl
    · refine ih fun a ha => hSame a ⟨Nat.le_of_succ_le ha.1, fun b hLow hHigh => ?_⟩
      rcases Nat.eq_or_lt_of_le hLow with rfl | hBehind
      · exact hEnd
      · exact ha.2 b hBehind hHigh

/-- The case `'s'`. -/
theorem convert_string (hChar : m p = ascii 's') :
    convert m fuel p s = (vaArg s).bind fun (str, s) =>
      (if str = 0 then putString (fun i => (asciiString "(null)").getD i 0) fuel 0 s
        else putString m fuel str.toNat s).map (p, ·) := by
  rw [convert, hChar, if_neg (by decide), if_neg (by decide), if_neg (by decide), if_pos rfl]

/-- **A round depends on no other address**: on those it reads of the format, and on the string
it prints if it prints one. -/
theorem vprintfRound_congr {m' : Mem} (hSame : ∀ a ∈ roundReads m p, m' a = m a)
    (hString : ∀ a, RoundString m p s a → m' a = m a) :
    vprintfRound m' fuel p s = vprintfRound m fuel p s := by
  unfold roundReads at hSame
  by_cases hPlain : m p ≠ ascii '%'
  · rw [if_pos hPlain] at hSame
    have hChar : m' p = m p := hSame p (by simp)
    rw [vprintfRound, vprintfRound, hChar, if_pos hPlain, if_pos hPlain]
  · rw [if_neg hPlain] at hSame
    by_cases hLong : m (p + 1) = ascii 'l'
    · rw [if_pos hLong] at hSame
      have hChar : m' p = m p := hSame p (by simp)
      have hNext : m' (p + 1) = m (p + 1) := hSame (p + 1) (by simp)
      have hThird : m' (p + 1 + 1) = m (p + 1 + 1) := hSame (p + 2) (by simp)
      simp only [vprintfRound, convert, putHex, hChar, hNext, hThird, if_pos hLong]
    · rw [if_neg hLong] at hSame
      have hChar : m' p = m p := hSame p (by simp)
      have hNext : m' (p + 1) = m (p + 1) := hSame (p + 1) (by simp)
      by_cases hPercentS : m (p + 1) = ascii 's'
      · -- the string is read from memory, too
        have hConvert : convert m' fuel (p + 1) s = convert m fuel (p + 1) s := by
          rw [convert_string (hNext.trans hPercentS), convert_string hPercentS]
          refine Option.bind_congr fun next hArg => ?_
          obtain ⟨str, t⟩ := next
          have hPut : str ≠ 0 → putString m' fuel str.toNat t = putString m fuel str.toNat t :=
            fun hNull => putString_congr fun a ha => hString a
              ⟨Decidable.not_not.mp hPlain, hPercentS, str, t, hArg, hNull, ha⟩
          dsimp only
          split_ifs with hNull
          · rfl
          · rw [hPut hNull]
        rw [vprintfRound, vprintfRound, hChar, if_neg hPlain, if_neg hPlain, hConvert]
      · simp only [vprintfRound, convert, putHex, hChar, hNext, if_neg hLong, if_neg hPercentS]

/-- **A run depends on no other address** than its rounds do. The induction is on the rounds:
memories that agree on what a round reads go on in the same state. -/
theorem vprintfHeaders_congr {m' : Mem}
    (hSame : ∀ h ∈ vprintfHeaders m fuel p s, ∀ a ∈ roundReads m h.1, m' a = m a)
    (hString : ∀ h ∈ vprintfHeaders m fuel p s, ∀ a, RoundString m h.1 h.2 a → m' a = m a) :
    vprintfHeaders m' fuel p s = vprintfHeaders m fuel p s := by
  induction fuel generalizing p s with
  | zero => rfl
  | succ fuel ih =>
    have hHere : (p, s) ∈ vprintfHeaders m (fuel + 1) p s := by
      rw [vprintfHeaders]
      exact List.mem_cons_self
    have hChar : m' p = m p := hSame _ hHere p (mem_roundReads m p)
    have hRound : vprintfRound m' fuel p s = vprintfRound m fuel p s :=
      vprintfRound_congr (hSame _ hHere) (hString _ hHere)
    by_cases hEnd : m p = 0
    · rw [vprintfHeaders, vprintfHeaders, hChar, if_pos hEnd, if_pos hEnd]
    · cases hNext : vprintfRound m fuel p s with
      | none => rw [vprintfHeaders, vprintfHeaders, hChar, hRound, hNext]
      | some next =>
        obtain ⟨q, t⟩ := next
        have hLater : ∀ h ∈ vprintfHeaders m fuel q t, h ∈ vprintfHeaders m (fuel + 1) p s := by
          intro h hh
          rw [vprintfHeaders_round hEnd hNext]
          exact List.mem_cons_of_mem _ hh
        rw [vprintfHeaders_round hEnd hNext, vprintfHeaders_round (by rwa [hChar])
            (hRound.trans hNext), ih (fun h hh => hSame h (hLater h hh))
          fun h hh => hString h (hLater h hh)]

/-- What is echoed is the last thing a round prints. -/
theorem roundEcho_sent {c : Byte} (h : roundEcho m p = [c]) :
    ∃ q s', vprintfRound m fuel p s = some (q, s') ∧ s'.out.getLast? = some c := by
  unfold roundEcho at h
  split_ifs at h with hEnd hPlain hConversion
  · obtain rfl : m p = c := List.singleton_inj.mp h
    exact ⟨_, _, if_pos hPlain, List.getLast?_concat⟩
  · obtain rfl : m (p + 1) = c := List.singleton_inj.mp h
    simp only [List.mem_cons, List.not_mem_nil, or_false, not_or] at hConversion
    obtain ⟨hL, hX, hP, hC, hS, hD, hU, hPercent⟩ := hConversion
    have hDefault : convert m fuel (p + 1) s =
        some (p + 1, ((s.putc (ascii '%')).putc (m (p + 1))).count 2) := by
      rw [convert, if_neg hL, if_neg (not_or.mpr ⟨hX, hP⟩), if_neg hC, if_neg hS, if_neg hD,
        if_neg hU, if_neg hPercent]
    rw [vprintfRound, if_neg hPlain, hDefault]
    exact ⟨_, _, rfl, List.getLast?_concat⟩

/-- The three forms of a chunk. -/
theorem chunk_format_cases {chunk : Chunk} (hWf : chunk.WellFormed m) :
    (∃ c, chunk.format = [c] ∧ c ≠ 0 ∧ c ≠ ascii '%') ∨
    (∃ c, chunk.format = [ascii '%', c] ∧ c ≠ 0 ∧ c ≠ ascii 'l') ∨
    ∃ c, chunk.format = [ascii '%', ascii 'l', c] ∧ c ≠ 0 := by
  cases chunk with
  | long c slot => exact Or.inr (Or.inr ⟨c, rfl, hWf⟩)
  | piece q =>
    cases q with
    | plain c => exact Or.inl ⟨c, rfl, hWf⟩
    | longHex slot => exact Or.inr (Or.inr ⟨ascii 'x', rfl, by decide⟩)
    | unsupported c =>
      exact Or.inr (Or.inl ⟨c, rfl, hWf.1, fun hLong => hWf.2 (hLong ▸ List.mem_cons_self)⟩)
    | _ => exact Or.inr (Or.inl ⟨_, rfl, by decide, by decide⟩)

/-- A round at a chunk reads the chunk. -/
theorem roundReads_chunk {chunk : Chunk} (hWf : chunk.WellFormed m)
    (hFormat : Holds m p chunk.format) {a : Nat} (ha : a ∈ roundReads m p) :
    p ≤ a ∧ a < p + chunk.format.length := by
  unfold roundReads at ha
  rcases chunk_format_cases hWf with ⟨c, hEq, -, hPlain⟩ | ⟨c, hEq, -, hLong⟩ | ⟨c, hEq, -⟩
  · rw [hEq] at hFormat ⊢
    have hFirst : m p = c := hFormat.head
    rw [hFirst, if_pos hPlain, List.mem_singleton] at ha
    subst ha
    exact ⟨Nat.le_refl a, Nat.lt_succ_self a⟩
  · rw [hEq] at hFormat ⊢
    have hFirst : m p = ascii '%' := hFormat.head
    have hSecond : m (p + 1) = c := hFormat.2.1
    rw [hFirst, hSecond, if_neg (not_not_intro rfl), if_neg hLong] at ha
    simp only [List.mem_cons, List.not_mem_nil, or_false] at ha
    simp only [List.length_cons, List.length_nil]
    omega
  · rw [hEq] at hFormat ⊢
    have hFirst : m p = ascii '%' := hFormat.head
    have hSecond : m (p + 1) = ascii 'l' := hFormat.2.1
    rw [hFirst, hSecond, if_neg (not_not_intro rfl), if_pos rfl] at ha
    simp only [List.mem_cons, List.not_mem_nil, or_false] at ha
    simp only [List.length_cons, List.length_nil]
    omega

/-- A round at a chunk echoes none but its characters. -/
theorem roundEcho_chunk {chunk : Chunk} (hWf : chunk.WellFormed m)
    (hFormat : Holds m p chunk.format) : 0 ∉ roundEcho m p := by
  intro hZero
  unfold roundEcho at hZero
  rcases chunk_format_cases hWf with
    ⟨c, hEq, hNonzero, hPlain⟩ | ⟨c, hEq, hNonzero, -⟩ | ⟨c, hEq, -⟩
  · rw [hEq] at hFormat
    have hFirst : m p = c := hFormat.head
    rw [hFirst, if_neg hNonzero, if_pos hPlain, List.mem_singleton] at hZero
    exact hNonzero hZero.symm
  · rw [hEq] at hFormat
    have hFirst : m p = ascii '%' := hFormat.head
    have hSecond : m (p + 1) = c := hFormat.2.1
    rw [hFirst, hSecond, if_neg (by decide), if_neg (not_not_intro rfl)] at hZero
    split_ifs at hZero
    · exact List.not_mem_nil hZero
    · exact hNonzero (List.mem_singleton.mp hZero).symm
  · rw [hEq] at hFormat
    have hFirst : m p = ascii '%' := hFormat.head
    have hSecond : m (p + 1) = ascii 'l' := hFormat.2.1
    rw [hFirst, hSecond, if_neg (by decide), if_neg (not_not_intro rfl),
      if_pos List.mem_cons_self] at hZero
    exact List.not_mem_nil hZero

-- ---------------------------------------------------------------------------
-- Reading within the format
-- ---------------------------------------------------------------------------

/-- The run of a call reads the format up to its end at `nul` and no further, sends no
zero byte for it, and stops at the end. -/
structure ScanSafe (serialConsole : Serial) (m : Mem) (fuel format : Nat)
    (args : List (BitVec 64)) (buf : Mem) (nul : Nat) : Prop where
  reads  : ∀ h ∈ vprintfScan serialConsole m fuel format args buf,
             ∀ a ∈ roundReads m h.1, format ≤ a ∧ a ≤ nul
  echoes : ∀ h ∈ vprintfScan serialConsole m fuel format args buf, 0 ∉ roundEcho m h.1
  stops  : serialConsole.putc ≠ 0 →
             ∃ s, (vprintfScan serialConsole m fuel format args buf).getLast? = some (nul, s) ∧
               vprintf serialConsole m fuel format args buf = some s

section ScanSafe

variable {serialConsole : Serial} {format : Nat} {text : List Byte} {chunks : List Chunk}
  {args rest : List (BitVec 64)} {buf : Mem}

theorem vprintfScan_eq (hConsole : serialConsole.putc ≠ 0) :
    vprintfScan serialConsole m fuel format args buf =
      vprintfHeaders m fuel format ⟨args, buf, [], 0⟩ := if_neg hConsole

/-- **A safe run depends on the format up to its end only**, and on the strings it prints: in
any memory that agrees on these it is the same run, with the same result. -/
theorem ScanSafe.congr {nul : Nat} (hSafe : ScanSafe serialConsole m fuel format args buf nul)
    {m' : Mem} (hFormat : ∀ a, format ≤ a → a ≤ nul → m' a = m a)
    (hStrings : ∀ h ∈ vprintfScan serialConsole m fuel format args buf, ∀ a,
      RoundString m h.1 h.2 a → m' a = m a) :
    vprintfScan serialConsole m' fuel format args buf =
        vprintfScan serialConsole m fuel format args buf ∧
      vprintf serialConsole m' fuel format args buf =
        vprintf serialConsole m fuel format args buf := by
  by_cases hConsole : serialConsole.putc = 0
  · exact ⟨(if_pos hConsole).trans (if_pos hConsole).symm,
      (if_pos hConsole).trans (if_pos hConsole).symm⟩
  · have hReads := hSafe.reads
    rw [vprintfScan_eq hConsole] at hReads hStrings
    have hRun : vprintfHeaders m' fuel format ⟨args, buf, [], 0⟩ =
        vprintfHeaders m fuel format ⟨args, buf, [], 0⟩ :=
      vprintfHeaders_congr (fun h hh a ha => hFormat a (hReads h hh a ha).1 (hReads h hh a ha).2)
        hStrings
    obtain ⟨t, hLast, hResult⟩ := hSafe.stops hConsole
    rw [vprintfScan_eq hConsole] at hLast
    refine ⟨?_, ?_⟩
    · rw [vprintfScan_eq hConsole, vprintfScan_eq hConsole, hRun]
    · rw [vprintf, if_neg hConsole] at hResult
      obtain ⟨q, hLast', hEnd⟩ := vprintfLoop_eq_some_iff.mp hResult
      obtain ⟨rfl, -⟩ := Prod.mk.inj (Option.some.inj (hLast.symm.trans hLast'))
      have hBounds := hReads _ (List.mem_of_getLast? hLast) nul (mem_roundReads m nul)
      rw [vprintf, vprintf, if_neg hConsole, if_neg hConsole, hResult, vprintfLoop_eq_some_iff]
      exact ⟨nul, by rw [hRun, hLast], (hFormat nul hBounds.1 hBounds.2).trans hEnd⟩

/-- **What its rounds echo is sent**, so a safe run sends no zero byte for the format. -/
theorem ScanSafe.echo_sent {nul : Nat}
    (hSafe : ScanSafe serialConsole m fuel format args buf nul) {h : Nat × PrintState}
    (hh : h ∈ vprintfScan serialConsole m fuel format args buf) {c : Byte}
    (hEcho : c ∈ roundEcho m h.1) :
    c ≠ 0 ∧ ∃ q s', vprintfRound m fuel h.1 h.2 = some (q, s') ∧ s'.out.getLast? = some c := by
  refine ⟨fun hZero => hSafe.echoes h hh (hZero ▸ hEcho), roundEcho_sent ?_⟩
  unfold roundEcho at hEcho ⊢
  split_ifs at hEcho ⊢
  · exact absurd hEcho List.not_mem_nil
  · rw [List.mem_singleton.mp hEcho]
  · exact absurd hEcho List.not_mem_nil
  · rw [List.mem_singleton.mp hEcho]

/-- The run up to the end of the last chunk. -/
theorem vprintfScan_chunks (hConsole : serialConsole.putc ≠ 0) (hFormat : CString m format text)
    (hArgs : Supplies m text args chunks rest)
    (hFuel : (chunks.flatMap Chunk.render).length < fuel) (buf : Mem) :
    ∃ hs s, vprintfScan serialConsole m (chunks.length + fuel) format args buf =
        hs ++ vprintfHeaders m fuel (format + (chunks.flatMap Chunk.format).length) s ∧
      (∀ h ∈ hs, AtChunk m format (format + (chunks.flatMap Chunk.format).length) h.1) ∧
      s.args = rest := by
  have hHolds := hFormat.holds
  rw [hArgs.format_eq, List.append_assoc, holds_append] at hHolds
  obtain ⟨hs, s, hRun, -, hAt, hPrints⟩ := vprintfHeaders_chunks (s := ⟨args, buf, [], 0⟩)
    hArgs.wellFormed hHolds.1 hArgs.args_eq hFuel
  refine ⟨hs, s, (vprintfScan_eq hConsole).trans hRun, hAt, ?_⟩
  exact (List.append_cancel_left (hArgs.args_eq.symm.trans hPrints.args_eq)).symm

/-- **A complete format** is read to its end. -/
theorem scanSafe_of_complete (hConsole : serialConsole.putc ≠ 0) (hFormat : CString m format text)
    (hArgs : Supplies m text args chunks rest) (hComplete : Complete text)
    (hFuel : (chunks.flatMap Chunk.render).length < fuel) :
    ScanSafe serialConsole m (chunks.length + fuel) format args buf (format + text.length) := by
  obtain ⟨hs, s, hRun, hAt, -⟩ := vprintfScan_chunks hConsole hFormat hArgs hFuel buf
  have hText : text = chunks.flatMap Chunk.format := by
    have hEq := hArgs.format_eq
    rwa [hComplete, List.append_nil] at hEq
  have hNul : m (format + text.length) = 0 := (holds_append.mp hFormat.holds).2.head
  rw [← hText, vprintfHeaders_end (Nat.zero_lt_of_lt hFuel) hNul] at hRun
  rw [← hText] at hAt
  have hNulReads : roundReads m (format + text.length) = [format + text.length] := by
    rw [roundReads, hNul, if_pos (by decide)]
  have hNulEcho : roundEcho m (format + text.length) = [] := by rw [roundEcho, if_pos hNul]
  constructor
  case reads =>
    intro h hh a ha
    rw [hRun, List.mem_append, List.mem_singleton] at hh
    rcases hh with hh | rfl
    · obtain ⟨chunk, hWf, hHolds, hlo, hhi⟩ := hAt h hh
      have hRead := roundReads_chunk hWf hHolds ha
      omega
    · rw [hNulReads, List.mem_singleton] at ha
      omega
  case echoes =>
    intro h hh
    rw [hRun, List.mem_append, List.mem_singleton] at hh
    rcases hh with hh | rfl
    · obtain ⟨chunk, hWf, hHolds, -, -⟩ := hAt h hh
      exact roundEcho_chunk hWf hHolds
    · rw [hNulEcho]
      exact List.not_mem_nil
  case stops =>
    intro _
    have hLast : (vprintfScan serialConsole m (chunks.length + fuel) format args buf).getLast? =
        some (format + text.length, s) := by rw [hRun, List.getLast?_concat]
    refine ⟨s, hLast, ?_⟩
    rw [vprintf, if_neg hConsole, vprintfLoop_eq_some_iff]
    exact ⟨_, (vprintfScan_eq hConsole) ▸ hLast, hNul⟩

/-- **A conversion left open** takes the zero byte for its character. -/
theorem not_scanSafe_of_open (hConsole : serialConsole.putc ≠ 0) (hFormat : CString m format text)
    (hArgs : Supplies m text args chunks rest) (hOpen : ¬ Complete text)
    (hFuel : (chunks.flatMap Chunk.render).length + 20 ≤ fuel) :
    ¬ ScanSafe serialConsole m (chunks.length + fuel) format args buf (format + text.length) := by
  intro hSafe
  have hChunkFuel : (chunks.flatMap Chunk.render).length < fuel := by omega
  obtain ⟨hs, s, hRun, -, hRest⟩ := vprintfScan_chunks hConsole hFormat hArgs hChunkFuel buf
  have hText := hArgs.format_eq
  have hHolds := hFormat.holds
  rcases tokenize_dangling text with hComplete | hPercent | hLong
  · exact hOpen hComplete
  · rw [hPercent] at hText
    rw [hText, List.append_assoc, holds_append] at hHolds
    generalize format + (chunks.flatMap Chunk.format).length = p at hRun hHolds
    have hFirst : m p = ascii '%' := hHolds.2.head
    have hNul : m (p + 1) = 0 := hHolds.2.2.1
    obtain ⟨hs', hHere⟩ := vprintfHeaders_head (m := m) (p := p) (s := s) (by omega : 0 < fuel)
    have hMem : (p, s) ∈ vprintfScan serialConsole m (chunks.length + fuel) format args buf := by
      rw [hRun, hHere]
      exact List.mem_append_right _ List.mem_cons_self
    -- the character behind `%` is the zero byte, which no case of the `switch` is
    have hEcho : roundEcho m p = [0] := by
      rw [roundEcho, hFirst, hNul]
      decide
    exact hSafe.echoes _ hMem (hEcho ▸ List.mem_cons_self)
  · obtain ⟨slot, rest, rfl⟩ := List.exists_cons_of_ne_nil (hArgs.dangling hLong)
    rw [hLong] at hText
    have hLength := congrArg List.length hText
    rw [List.length_append] at hLength
    rw [hText, List.append_assoc, holds_append] at hHolds
    have hEnd : format + text.length = format + (chunks.flatMap Chunk.format).length + 2 := by
      rw [hLength]
      rfl
    generalize format + (chunks.flatMap Chunk.format).length = p at hRun hHolds hEnd
    have hOpenEnd : Holds m p [ascii '%', ascii 'l', 0] := hHolds.2
    have hDigits : (digitBytes 16 slot.toNat).length ≤ 16 :=
      digitBytes_length_le (by omega) (by omega) slot.isLt
    obtain ⟨fuel, rfl⟩ := Nat.exists_eq_add_of_le' (by omega : 2 ≤ fuel)
    have hEnough : (digitBytes 16 slot.toNat).length < fuel + 1 := by omega
    obtain ⟨s', hRound, -⟩ := vprintfRound_long hOpenEnd hRest hEnough
    have hNotEnd : m p ≠ 0 := by
      rw [hOpenEnd.head]
      decide
    have hMem : (p + 3, s') ∈
        vprintfScan serialConsole m (chunks.length + (fuel + 2)) format args buf := by
      obtain ⟨hs', hNext⟩ := vprintfHeaders_head (m := m) (p := p + 3) (s := s')
        (Nat.succ_pos fuel)
      rw [hRun, vprintfHeaders_round hNotEnd hRound, hNext]
      exact List.mem_append_right _ (List.mem_cons_of_mem _ List.mem_cons_self)
    -- the next test is one past the zero byte
    have hBound := (hSafe.reads _ hMem _ (mem_roundReads m (p + 3))).2
    omega

end ScanSafe

/--
**When `vprintf` stays within its format.** For every string in memory as a format and
every list that supplies its arguments: the run reads no character behind the zero byte
at its end, sends no zero byte for the format and stops at its end, if and only if
there is no console or the format does not end inside a conversion.
-/
theorem vprintf_scanSafe_iff {format : Nat} {text : List Byte} (hFormat : CString m format text)
    {args rest : List (BitVec 64)} {chunks : List Chunk}
    (hArgs : Supplies m text args chunks rest) (serialConsole : Serial) (buf : Mem) :
    ∃ fuel₀, ∀ fuel, fuel₀ ≤ fuel →
      (ScanSafe serialConsole m fuel format args buf (format + text.length) ↔
        serialConsole.putc = 0 ∨ Complete text) := by
  refine ⟨chunks.length + ((chunks.flatMap Chunk.render).length + 20), fun fuel hFuel => ?_⟩
  obtain ⟨fuel, rfl⟩ := Nat.exists_eq_add_of_le (Nat.le_trans (Nat.le_add_right _ _) hFuel)
  have hEnough : (chunks.flatMap Chunk.render).length + 20 ≤ fuel := by omega
  by_cases hConsole : serialConsole.putc = 0
  · have hNoRun : vprintfScan serialConsole m (chunks.length + fuel) format args buf = [] :=
      if_pos hConsole
    refine iff_of_true ⟨?_, ?_, fun h => absurd hConsole h⟩ (Or.inl hConsole)
    · rw [hNoRun]
      exact fun h hh => absurd hh List.not_mem_nil
    · rw [hNoRun]
      exact fun h hh => absurd hh List.not_mem_nil
  · constructor
    · intro hSafe
      by_contra hNot
      exact not_scanSafe_of_open hConsole hFormat hArgs (fun h => hNot (Or.inr h)) hEnough hSafe
    · rintro (h | hComplete)
      · exact absurd h hConsole
      · exact scanSafe_of_complete hConsole hFormat hArgs hComplete (by omega)

/-- A number and a percent sign that is written twice. -/
theorem vprintf_scanSafe_iff_percent :
    let text := asciiString "%u%%"
    let m : Mem := fun i => text.getD i 0
    ∃ fuel₀, ∀ fuel, fuel₀ ≤ fuel → ScanSafe ⟨1, 1⟩ m fuel 0 [100] (fun _ => 0xFF) (0 + 4) := by
  intro text m
  have hFormat : CString m 0 text := cString_getD (by decide)
  have hArgs : Supplies m text [100] [.piece (.unsigned 100), .piece .percent] [] :=
    ⟨by decide, by simp [Chunk.WellFormed, Piece.WellFormed], rfl, by decide⟩
  obtain ⟨fuel₀, hAll⟩ := vprintf_scanSafe_iff hFormat hArgs ⟨1, 1⟩ (fun _ => 0xFF)
  exact ⟨fuel₀, fun fuel hFuel => (hAll fuel hFuel).mpr (Or.inr (by decide))⟩

/-- A format that ends in a percent sign: the zero byte behind it is sent to the console,
and the scan goes on behind it. -/
theorem vprintf_scanSafe_fails :
    let text := asciiString "100%"
    let m : Mem := fun i => text.getD i 0
    CString m 0 text ∧ (∃ chunks, Supplies m text [] chunks []) ∧
      (vprintfScan ⟨1, 1⟩ m 8 0 [] (fun _ => 0xFF)).map Prod.fst = [0, 1, 2, 3, 5] ∧
      (vprintf ⟨1, 1⟩ m 8 0 [] (fun _ => 0xFF)).map (·.out) = some (text ++ [0]) ∧
      ¬ ScanSafe ⟨1, 1⟩ m 8 0 [] (fun _ => 0xFF) 4 := by
  intro text m
  have hRun : (vprintfScan ⟨1, 1⟩ m 8 0 [] (fun _ => 0xFF)).map Prod.fst = [0, 1, 2, 3, 5] := by
    decide +kernel
  have hArgs : Supplies m text [] ((asciiString "100").map (Chunk.piece ∘ Piece.plain)) [] :=
    ⟨by decide, plain_wellFormed (by decide), rfl, by decide⟩
  refine ⟨cString_getD (by decide), ⟨_, hArgs⟩, hRun, by decide +kernel, fun hSafe => ?_⟩
  obtain ⟨h, hMem, hPtr⟩ : ∃ h ∈ vprintfScan ⟨1, 1⟩ m 8 0 [] (fun _ => 0xFF), h.1 = 5 := by
    rw [← List.mem_map, hRun]
    decide
  have hRead : 5 ∈ roundReads m h.1 := by
    rw [hPtr]
    exact mem_roundReads m 5
  exact absurd (hSafe.reads h hMem 5 hRead).2 (by omega)

end Kernalite
