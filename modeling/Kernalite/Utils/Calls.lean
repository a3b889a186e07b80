import Kernalite.Utils.Console

/-!
# Kernalite — calls of `kprintf` and their formats

The compiler does not compare the arguments of `kprintf` with the format, and `vprintf`
reads with `va_arg` what the format asks for. `Supplied` says that a call passes
one argument of the right kind for each conversion, and no other.

* `vprintf_reads` — what `vprintf` returns from has been passed an argument for each of
  its conversions;
* `Supplied.prints`, `starved_prints_nothing` — supplied calls print a text, and calls
  with too few arguments have no result.
-/

namespace Kernalite

open ByteMemory ByteString

/-- How an argument is passed. -/
inductive ArgKind where
  | word
  | str
  deriving DecidableEq, Repr

def Arg.kind : Arg → ArgKind
  | .word _ => .word
  | .str _ => .str

/-- The arguments a token reads. -/
def Token.reads : Token → List ArgKind
  | .plain _ => []
  | .long _ => [.word]
  | .conversion c =>
    if c = ascii 's' then [.str] else if Token.consumes c then [.word] else []

/-- The arguments a format reads. -/
def formatReads (format : String) : List ArgKind :=
  (tokenize (asciiString format)).1.flatMap Token.reads

/-- The call passes what its format reads, neither more nor less. -/
def Supplied (call : String × List Arg) : Prop :=
  Complete (asciiString call.1) ∧ formatReads call.1 = call.2.map Arg.kind

/-- The same of the characters of a format and the kinds of the arguments, to be run. -/
def suppliedCheck (text : List Byte) (kinds : List ArgKind) : Bool :=
  (tokenize text).2.isEmpty && (tokenize text).1.flatMap Token.reads == kinds

theorem supplied_ofList {cs : List Char} {args : List Arg}
    (h : suppliedCheck (cs.map ascii) (args.map Arg.kind) = true) :
    Supplied (String.ofList cs, args) := by
  obtain ⟨hEmpty, hSame⟩ := Bool.and_eq_true_iff.mp h
  refine ⟨?_, ?_⟩
  · rw [asciiString_ofList]
    exact List.isEmpty_iff.mp hEmpty
  · rw [formatReads, asciiString_ofList]
    exact beq_iff_eq.mp hSame

-- ---------------------------------------------------------------------------
-- Enough arguments
-- ---------------------------------------------------------------------------

variable {serialConsole : Serial} {m : Mem} {lit : String → BitVec 64} {fuel p q : Nat}
  {s s' : PrintState}

theorem Token.reads_fixed {t : Token} {chunk : Chunk} (h : t.fixedChunk = some chunk) :
    t.reads = [] := by
  cases t with
  | plain c => rfl
  | long c => cases h
  | conversion c =>
    rw [Token.fixedChunk] at h
    split_ifs at h with hPercent hOther
    · rw [hPercent]
      rfl
    · have hNotString : c ≠ ascii 's' := fun hString => hOther (hString ▸ rfl)
      rw [Token.reads, if_neg hNotString, if_neg hOther]

/-- A token that reads an argument takes any of the kind it reads. -/
theorem Token.reads_arg {t : Token} (h : t.fixedChunk = none) :
    ∃ kind, t.reads = [kind] ∧
      ∀ (lit : String → BitVec 64) (arg : Arg), arg.kind = kind → ∃ chunk, t.argChunk lit arg = some chunk := by
  cases t with
  | plain c => cases h
  | long c =>
    refine ⟨.word, rfl, fun lit arg hKind => ?_⟩
    cases arg with
    | word n => exact ⟨_, rfl⟩
    | str s => cases hKind
  | conversion c =>
    rw [Token.fixedChunk] at h
    split_ifs at h with hPercent hReads
    by_cases hString : c = ascii 's'
    · refine ⟨.str, if_pos hString, fun lit arg hKind => ?_⟩
      cases arg with
      | word n => cases hKind
      | str s => exact ⟨_, if_pos hString⟩
    · refine ⟨.word, (if_neg hString).trans (if_pos hReads), fun lit arg hKind => ?_⟩
      cases arg with
      | str s => cases hKind
      | word n =>
        have hMem := List.contains_iff_mem.mp hReads
        simp only [List.mem_cons, List.not_mem_nil, or_false, hString, false_or] at hMem
        simp only [Token.argChunk]
        split_ifs
        all_goals first
          | exact ⟨_, rfl⟩
          | tauto

/-- Arguments of the kinds a row of tokens reads make up its chunks. -/
theorem chunksOf_of_reads {ts : List Token} {args : List Arg} (lit : String → BitVec 64)
    (h : ts.flatMap Token.reads <+: args.map Arg.kind) : ∃ chunks, chunksOf lit ts args = some chunks := by
  induction ts generalizing args with
  | nil => exact ⟨[], rfl⟩
  | cons t ts ih =>
    rw [List.flatMap_cons] at h
    cases hFixed : t.fixedChunk with
    | some chunk =>
      rw [Token.reads_fixed hFixed, List.nil_append] at h
      obtain ⟨chunks, hChunks⟩ := ih h
      exact ⟨chunk :: chunks, by rw [chunksOf_fixed hFixed, hChunks]; rfl⟩
    | none =>
      obtain ⟨kind, hReads, hArg⟩ := Token.reads_arg hFixed
      rw [hReads, List.singleton_append] at h
      cases args with
      | nil => exact absurd (List.prefix_nil.mp h) (List.cons_ne_nil _ _)
      | cons arg args =>
        rw [List.map_cons, List.cons_prefix_cons] at h
        obtain ⟨chunk, hChunk⟩ := hArg lit arg h.1.symm
        obtain ⟨chunks, hChunks⟩ := ih h.2
        refine ⟨chunk :: chunks, ?_⟩
        rw [chunksOf_arg hFixed, hChunk, Option.bind_some, hChunks]
        rfl

/-- **A supplied call prints a text.** -/
theorem Supplied.prints {call : String × List Arg} (h : Supplied call)
    (hConsole : serialConsole.putc ≠ 0) (hCall : CallIn m lit call) :
    ∃ text, CallsPrint serialConsole m lit [call] text := by
  have hReads : formatReads call.1 <+: call.2.map Arg.kind := h.2 ▸ List.prefix_rfl
  obtain ⟨chunks, hChunks⟩ := chunksOf_of_reads lit hReads
  exact ⟨_, callPrints_of_chunks hConsole hCall h.1 hChunks⟩

-- ---------------------------------------------------------------------------
-- Too few arguments
-- ---------------------------------------------------------------------------

theorem putString_args (h : putString m fuel p s = some s') : s'.args = s.args := by
  induction fuel generalizing p s with
  | zero => cases h
  | succ fuel ih =>
    rw [putString] at h
    split_ifs at h
    · cases h
      rfl
    · have hRest : s'.args = ((s.putc (m p)).count 1).args := ih h
      exact hRest

theorem putNumber_args {num : BitVec 64} {base : Nat} (h : putNumber fuel num base s = some s') :
    s'.args = s.args := by
  rw [putNumber] at h
  have hKept := putString_args h
  exact hKept

/-- `va_arg` takes one argument. -/
theorem vaArg_args {arg : BitVec 64} (h : vaArg s = some (arg, s')) :
    s.args.length = s'.args.length + 1 := by
  rw [vaArg] at h
  cases hArgs : s.args with
  | nil =>
    rw [hArgs] at h
    cases h
  | cons x xs =>
    rw [hArgs] at h
    cases h
    rfl

theorem putHex_args (h : putHex m fuel p s = some s') : s.args.length = s'.args.length + 1 := by
  rw [putHex] at h
  obtain ⟨⟨num, t⟩, hArg, hNumber⟩ := Option.bind_eq_some_iff.mp h
  have hKept := putNumber_args hNumber
  rw [hKept, ← vaArg_args hArg]
  split_ifs <;> rfl

/-- **A conversion** reads its argument. -/
theorem convert_args {c : Byte} (hChar : m p = c) (hShort : c ≠ ascii 'l')
    (h : convert m fuel p s = some (q, s')) :
    q = p ∧ s.args.length = s'.args.length + (Token.conversion c).reads.length := by
  subst hChar
  rw [convert, if_neg hShort] at h
  split_ifs at h with hHex hC hS hD hU hPercent
  · obtain ⟨t, hPut, hEq⟩ := Option.map_eq_some_iff.mp h
    cases hEq
    refine ⟨rfl, ?_⟩
    rw [putHex_args hPut]
    rcases hHex with hX | hP
    · rw [hX]
      rfl
    · rw [hP]
      rfl
  · obtain ⟨⟨arg, t⟩, hArg, hEq⟩ := Option.map_eq_some_iff.mp h
    cases hEq
    refine ⟨rfl, ?_⟩
    rw [vaArg_args hArg, hC]
    rfl
  · obtain ⟨⟨str, t⟩, hArg, hPut⟩ := Option.bind_eq_some_iff.mp h
    obtain ⟨u, hString, hEq⟩ := Option.map_eq_some_iff.mp hPut
    cases hEq
    have hKept : s'.args = t.args := by
      split_ifs at hString
      · exact putString_args hString
      · exact putString_args hString
    refine ⟨rfl, ?_⟩
    rw [vaArg_args hArg, hKept, hS]
    rfl
  · obtain ⟨⟨num, t⟩, hArg, hPut⟩ := Option.bind_eq_some_iff.mp h
    obtain ⟨u, hNumber, hEq⟩ := Option.map_eq_some_iff.mp hPut
    cases hEq
    have hKept := putNumber_args hNumber
    refine ⟨rfl, ?_⟩
    rw [vaArg_args hArg, hKept, hD]
    split_ifs <;> rfl
  · obtain ⟨⟨num, t⟩, hArg, hPut⟩ := Option.bind_eq_some_iff.mp h
    obtain ⟨u, hNumber, hEq⟩ := Option.map_eq_some_iff.mp hPut
    cases hEq
    refine ⟨rfl, ?_⟩
    rw [vaArg_args hArg, putNumber_args hNumber, hU]
    rfl
  · cases h
    refine ⟨rfl, ?_⟩
    rw [hPercent]
    rfl
  · -- printed as it stands
    cases h
    have hNone : (Token.conversion (m p)).reads = [] := by
      have hReads : ¬ Token.consumes (m p) := fun hReads => by
        have hMem := List.contains_iff_mem.mp hReads
        simp only [List.mem_cons, List.not_mem_nil, or_false] at hMem
        tauto
      rw [Token.reads, if_neg hS, if_neg hReads]
    rw [hNone]
    exact ⟨rfl, rfl⟩

/-- **One round** reads the arguments of one token. -/
theorem vprintfRound_reads {t : Token} (hLexed : t.Lexed) (hFormat : Holds m p t.format)
    (h : vprintfRound m fuel p s = some (q, s')) :
    q = p + t.format.length ∧ s.args.length = s'.args.length + t.reads.length := by
  rw [vprintfRound] at h
  cases t with
  | plain c =>
    have hChar : m p = c := hFormat.head
    rw [hChar, if_pos hLexed.2] at h
    cases h
    refine ⟨rfl, ?_⟩
    split_ifs <;> rfl
  | conversion c =>
    have hPercent : m p = ascii '%' := hFormat.head
    rw [hPercent, if_neg (not_not_intro rfl)] at h
    obtain ⟨⟨r, t⟩, hConvert, hEq⟩ := Option.map_eq_some_iff.mp h
    cases hEq
    obtain ⟨rfl, hArgs⟩ := convert_args hFormat.2.1 hLexed.2 hConvert
    exact ⟨rfl, hArgs⟩
  | long c =>
    have hPercent : m p = ascii '%' := hFormat.head
    have hLong : m (p + 1) = ascii 'l' := hFormat.2.1
    rw [hPercent, if_neg (not_not_intro rfl), convert, hLong, if_pos rfl] at h
    obtain ⟨⟨r, t⟩, hConvert, hEq⟩ := Option.map_eq_some_iff.mp h
    obtain ⟨u, hPut, hNext⟩ := Option.map_eq_some_iff.mp hConvert
    cases hEq
    cases hNext
    exact ⟨rfl, putHex_args hPut⟩

/-- A token does not start with the end of the format. -/
theorem token_head_ne_zero {t : Token} (hLexed : t.Lexed) (hFormat : Holds m p t.format) : m p ≠ 0 := by
  cases t with
  | plain c =>
    rw [hFormat.head]
    exact hLexed.1
  | conversion c =>
    rw [hFormat.head]
    decide
  | long c =>
    rw [hFormat.head]
    decide

/-- **The loop** reads the arguments of all tokens. -/
theorem vprintfLoop_reads {ts : List Token} (hLexed : ∀ t ∈ ts, t.Lexed)
    (hFormat : Holds m p (ts.flatMap Token.format ++ [0])) (h : vprintfLoop m fuel p s = some s') :
    s.args.length = s'.args.length + (ts.flatMap Token.reads).length := by
  induction ts generalizing p s fuel with
  | nil =>
    cases fuel with
    | zero => cases h
    | succ fuel =>
      rw [vprintfLoop, if_pos hFormat.head] at h
      cases h
      rfl
  | cons t ts ih =>
    cases fuel with
    | zero => cases h
    | succ fuel =>
      rw [List.flatMap_cons, List.append_assoc] at hFormat
      obtain ⟨hFirst, hRest⟩ := holds_append.mp hFormat
      have hLexedFirst := hLexed t List.mem_cons_self
      rw [vprintfLoop_succ, if_neg (token_head_ne_zero hLexedFirst hFirst)] at h
      obtain ⟨⟨r, u⟩, hRound, hLoop⟩ := Option.bind_eq_some_iff.mp h
      obtain ⟨rfl, hArgs⟩ := vprintfRound_reads hLexedFirst hFirst hRound
      have hOthers := ih (fun t' ht' => hLexed t' (List.mem_cons_of_mem t ht')) hRest hLoop
      rw [hArgs, hOthers, List.flatMap_cons, List.length_append]
      omega

/-- **What `vprintf` returns from has been passed enough**: an argument for each conversion
of the format. -/
theorem vprintf_reads (hConsole : serialConsole.putc ≠ 0) {format : Nat} {text : List Byte}
    (hFormat : CString m format text) (hComplete : Complete text) {args : List (BitVec 64)}
    {buf : Mem} (h : vprintf serialConsole m fuel format args buf = some s) :
    args.length = s.args.length + ((tokenize text).1.flatMap Token.reads).length := by
  rw [vprintf, if_neg hConsole] at h
  have hText := tokenize_format text
  rw [hComplete, List.append_nil] at hText
  have hHolds := hFormat.holds
  rw [← hText] at hHolds
  exact vprintfLoop_reads (tokenize_lexed hFormat.nonzero) hHolds h

/-- **A call with too few arguments** has no result. -/
theorem starved_prints_nothing (hConsole : serialConsole.putc ≠ 0) {call : String × List Arg}
    (hCall : CallIn m lit call) (hComplete : Complete (asciiString call.1))
    (hShort : call.2.length < (formatReads call.1).length) (fuel : Nat) (bufs : Nat → Mem) :
    printCalls serialConsole m fuel lit bufs [call] = none := by
  rw [printCalls]
  cases hRun : vprintf serialConsole m fuel (lit call.1).toNat (call.2.map (Arg.slot lit)) (bufs 0) with
  | none => rfl
  | some s =>
    have hReads := vprintf_reads hConsole hCall.1.2 hComplete hRun
    rw [List.length_map] at hReads
    unfold formatReads at hShort
    omega

end Kernalite
