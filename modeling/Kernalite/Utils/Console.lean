import Kernalite.Kernel
import Kernalite.Utils.Readback

/-!
# Kernalite — the console as text

`Kernel.console` lists the `kprintf` calls. Here they are run: `printCalls` passes each
call to `vprintf`, with the format and the strings of its arguments as literals in
memory, and collects what is sent to the console.

* `chunksOf_supplies` — arguments of the right kinds supply a format;
* `callPrints_of_chunks`, `CallsPrint.append` — what one call prints, and a row of them;
* `call_readBack`, `call_reads` — the text of a call, read back by its format;
* `plain_prints` — text without conversions;
* `literalTable_literalIn` — literals that lie in memory one behind the other.
-/

namespace Kernalite

open ByteMemory ByteString TextScan

/-- The slot of an argument; `lit` gives the addresses of string literals. -/
def Arg.slot (lit : String → BitVec 64) : Arg → BitVec 64
  | .word n => BitVec.ofNat 64 n
  | .str s => lit s

/-- The literal lies in memory. -/
def LiteralIn (m : Mem) (lit : String → BitVec 64) (s : String) : Prop :=
  lit s ≠ 0 ∧ CString m (lit s).toNat (asciiString s)

/-- The literals of a call lie in memory. -/
def CallIn (m : Mem) (lit : String → BitVec 64) (call : String × List Arg) : Prop :=
  LiteralIn m lit call.1 ∧ ∀ s, Arg.str s ∈ call.2 → LiteralIn m lit s

/-- The calls one after the other; `bufs` is what each call finds in its local buffer. -/
def printCalls (serialConsole : Serial) (m : Mem) (fuel : Nat) (lit : String → BitVec 64) :
    (Nat → Mem) → List (String × List Arg) → Option (List Byte)
  | _, [] => some []
  | bufs, (format, args) :: calls =>
    (vprintf serialConsole m fuel (lit format).toNat (args.map (Arg.slot lit)) (bufs 0)).bind fun s =>
      (printCalls serialConsole m fuel lit (fun i => bufs (i + 1)) calls).map (s.out ++ ·)

-- ---------------------------------------------------------------------------
-- Arguments of a format
-- ---------------------------------------------------------------------------

/-- The chunk of a token that consumes no argument. -/
def Token.fixedChunk : Token → Option Chunk
  | .plain c => some (.piece (.plain c))
  | .long _ => none
  | .conversion c =>
    if c = ascii '%' then some (.piece .percent)
    else if Token.consumes c then none
    else some (.piece (.unsupported c))

/-- The chunk of a token with its argument, if that is of the right kind. -/
def Token.argChunk (lit : String → BitVec 64) : Token → Arg → Option Chunk
  | .plain _, _ => none
  | .long c, .word n => some (.long c (BitVec.ofNat 64 n))
  | .long _, .str _ => none
  | .conversion c, .str s =>
    if c = ascii 's' then some (.piece (.string (lit s) (asciiString s))) else none
  | .conversion c, .word n =>
    let slot := BitVec.ofNat 64 n
    if c = ascii 'x' then some (.piece (.hex slot))
    else if c = ascii 'p' then some (.piece (.pointer slot))
    else if c = ascii 'c' then some (.piece (.char slot))
    else if c = ascii 'd' then some (.piece (.decimal slot))
    else if c = ascii 'u' then some (.piece (.unsigned slot))
    else none

/-- The chunks of a row of tokens. -/
def chunksOf (lit : String → BitVec 64) : List Token → List Arg → Option (List Chunk)
  | [], _ => some []
  | t :: ts, args =>
    match t.fixedChunk, args with
    | some chunk, args => (chunksOf lit ts args).map (chunk :: ·)
    | none, [] => none
    | none, arg :: args =>
      (t.argChunk lit arg).bind fun chunk => (chunksOf lit ts args).map (chunk :: ·)

/-- What the tokens of a string can be. -/
def Token.Lexed : Token → Prop
  | .plain c => c ≠ 0 ∧ c ≠ ascii '%'
  | .conversion c => c ≠ 0 ∧ c ≠ ascii 'l'
  | .long c => c ≠ 0

theorem tokenize_lexed {s : List Byte} (h : ∀ b ∈ s, b ≠ 0) : ∀ t ∈ (tokenize s).1, t.Lexed := by
  fun_induction tokenize s with
  | case1 => exact fun t ht => absurd ht List.not_mem_nil
  | case2 c s hPlain ih =>
    have hRest : ∀ b ∈ s, b ≠ 0 := fun b hb => h b (by simp [hb])
    exact List.forall_mem_cons.mpr ⟨⟨h c (by simp), hPlain⟩, ih hRest⟩
  | case3 c hPercent => exact fun t ht => absurd ht List.not_mem_nil
  | case4 c hPercent k s hConversion ih =>
    have hRest : ∀ b ∈ s, b ≠ 0 := fun b hb => h b (by simp [hb])
    exact List.forall_mem_cons.mpr ⟨⟨h k (by simp), hConversion⟩, ih hRest⟩
  | case5 c hPercent k hLong => exact fun t ht => absurd ht List.not_mem_nil
  | case6 c hPercent k hLong d s ih =>
    have hRest : ∀ b ∈ s, b ≠ 0 := fun b hb => h b (by simp [hb])
    exact List.forall_mem_cons.mpr ⟨h d (by simp), ih hRest⟩

variable {serialConsole : Serial} {m : Mem} {lit : String → BitVec 64} {chunks : List Chunk}

theorem chunksOf_fixed {t : Token} {chunk : Chunk} (h : t.fixedChunk = some chunk) (ts : List Token)
    (args : List Arg) : chunksOf lit (t :: ts) args = (chunksOf lit ts args).map (chunk :: ·) := by
  simp only [chunksOf, h]

theorem chunksOf_arg {t : Token} (h : t.fixedChunk = none) (ts : List Token) (arg : Arg)
    (args : List Arg) :
    chunksOf lit (t :: ts) (arg :: args) =
      (t.argChunk lit arg).bind fun chunk => (chunksOf lit ts args).map (chunk :: ·) := by
  simp only [chunksOf, h]

theorem chunksOf_noArg {t : Token} (h : t.fixedChunk = none) (ts : List Token) :
    chunksOf lit (t :: ts) [] = none := by
  simp only [chunksOf, h]

theorem Token.fixedChunk_spec {t : Token} {chunk : Chunk} (hLexed : t.Lexed)
    (h : t.fixedChunk = some chunk) :
    chunk.token = t ∧ chunk.WellFormed m ∧ chunk.slots = [] ∧ chunk.fields = [] ∧
      chunk.base = none ∧ chunk.string = none := by
  cases t with
  | plain c =>
    cases h
    exact ⟨rfl, hLexed, rfl, rfl, rfl, rfl⟩
  | long c => cases h
  | conversion c =>
    rw [Token.fixedChunk] at h
    split_ifs at h with hPercent hOther
    · cases h
      exact ⟨by rw [hPercent]; rfl, trivial, rfl, rfl, rfl, rfl⟩
    · cases h
      refine ⟨rfl, ⟨hLexed.1, ?_⟩, rfl, rfl, rfl, rfl⟩
      have hOther := mt List.contains_iff_mem.mpr hOther
      simp only [List.mem_cons, List.not_mem_nil, or_false, not_or] at hOther ⊢
      exact ⟨hLexed.2, hOther.1, hOther.2.1, hOther.2.2.1, hOther.2.2.2.1, hOther.2.2.2.2.1,
        hOther.2.2.2.2.2, hPercent⟩

theorem Token.argChunk_spec {t : Token} {arg : Arg} {chunk : Chunk} (hLexed : t.Lexed)
    (hLit : ∀ s, arg = .str s → LiteralIn m lit s) (h : t.argChunk lit arg = some chunk) :
    chunk.token = t ∧ chunk.WellFormed m ∧ chunk.slots = [arg.slot lit] := by
  cases t with
  | plain c => cases h
  | long c =>
    cases arg with
    | word n =>
      cases h
      exact ⟨rfl, hLexed, rfl⟩
    | str s => cases h
  | conversion c =>
    cases arg with
    | word n =>
      simp only [Token.argChunk] at h
      split_ifs at h
      all_goals
        cases h
        exact ⟨by subst c; rfl, trivial, rfl⟩
    | str s =>
      rw [Token.argChunk] at h
      split_ifs at h with hS
      cases h
      exact ⟨by rw [hS]; rfl, hLit s rfl, rfl⟩

/-- **The chunks of a row of tokens** belong to them and consume the arguments in order. -/
theorem chunksOf_spec {ts : List Token} {args : List Arg} (hLexed : ∀ t ∈ ts, t.Lexed)
    (hLit : ∀ s, Arg.str s ∈ args → LiteralIn m lit s) (h : chunksOf lit ts args = some chunks) :
    chunks.map Chunk.token = ts ∧ (∀ chunk ∈ chunks, chunk.WellFormed m) ∧
      ∃ unread, args.map (Arg.slot lit) = chunks.flatMap Chunk.slots ++ unread := by
  induction ts generalizing args chunks with
  | nil =>
    cases h
    exact ⟨rfl, fun q hq => absurd hq List.not_mem_nil, _, rfl⟩
  | cons t ts ih =>
    have hFirst := hLexed t List.mem_cons_self
    have hOthers : ∀ t' ∈ ts, t'.Lexed := fun t' ht' => hLexed t' (List.mem_cons_of_mem t ht')
    cases hFixed : t.fixedChunk with
    | some chunk =>
      obtain ⟨hToken, hWf, hSlots, -⟩ := Token.fixedChunk_spec (m := m) hFirst hFixed
      rw [chunksOf_fixed hFixed] at h
      obtain ⟨qs, hRest, rfl⟩ := Option.map_eq_some_iff.mp h
      obtain ⟨hTokens, hAll, unread, hArgs⟩ := ih hOthers hLit hRest
      refine ⟨by rw [List.map_cons, hToken, hTokens], List.forall_mem_cons.mpr ⟨hWf, hAll⟩, unread,
        ?_⟩
      rw [List.flatMap_cons, hSlots, List.nil_append, hArgs]
    | none =>
      cases args with
      | nil =>
        rw [chunksOf_noArg hFixed] at h
        cases h
      | cons arg args =>
        rw [chunksOf_arg hFixed] at h
        obtain ⟨chunk, hChunk, hMap⟩ := Option.bind_eq_some_iff.mp h
        obtain ⟨qs, hRest, rfl⟩ := Option.map_eq_some_iff.mp hMap
        obtain ⟨hToken, hWf, hSlots⟩ := Token.argChunk_spec hFirst
          (fun s hs => hLit s (hs ▸ List.mem_cons_self)) hChunk
        obtain ⟨hTokens, hAll, unread, hArgs⟩ := ih hOthers
          (fun s hs => hLit s (List.mem_cons_of_mem arg hs)) hRest
        refine ⟨by rw [List.map_cons, hToken, hTokens], List.forall_mem_cons.mpr ⟨hWf, hAll⟩,
          unread, ?_⟩
        rw [List.flatMap_cons, hSlots, List.map_cons, hArgs]
        rfl

/-- Arguments of the right kinds supply the format. -/
theorem chunksOf_supplies {format : String} {args : List Arg} (hCall : CallIn m lit (format, args))
    (hComplete : Complete (asciiString format))
    (h : chunksOf lit (tokenize (asciiString format)).1 args = some chunks) :
    ∃ unread, Supplies m (asciiString format) (args.map (Arg.slot lit)) chunks unread := by
  obtain ⟨⟨-, hFormat⟩, hLit⟩ := hCall
  obtain ⟨hTokens, hWf, unread, hArgs⟩ :=
    chunksOf_spec (tokenize_lexed hFormat.nonzero) hLit h
  refine ⟨unread, hTokens, hWf, hArgs, fun hLong => ?_⟩
  rw [Complete] at hComplete
  rw [hComplete] at hLong
  cases hLong

-- ---------------------------------------------------------------------------
-- Calls
-- ---------------------------------------------------------------------------

/-- The calls print the text, whatever their local buffers held. -/
def CallsPrint (serialConsole : Serial) (m : Mem) (lit : String → BitVec 64)
    (calls : List (String × List Arg)) (text : List Byte) : Prop :=
  ∃ fuel₀, ∀ fuel, fuel₀ ≤ fuel → ∀ bufs,
    printCalls serialConsole m fuel lit bufs calls = some text

theorem CallsPrint.nil : CallsPrint serialConsole m lit [] [] := ⟨0, fun _ _ _ => rfl⟩

theorem printCalls_append (fuel : Nat) (bufs : Nat → Mem) (calls calls' : List (String × List Arg)) :
    printCalls serialConsole m fuel lit bufs (calls ++ calls') =
      (printCalls serialConsole m fuel lit bufs calls).bind fun text =>
        (printCalls serialConsole m fuel lit (fun i => bufs (i + calls.length)) calls').map
          (text ++ ·) := by
  induction calls generalizing bufs with
  | nil => exact Option.map_id'.symm
  | cons call calls ih =>
    simp only [List.cons_append, printCalls, ih, List.length_cons, Option.bind_assoc,
      Option.map_bind, Option.bind_map, Option.map_map, Function.comp_def, List.append_assoc,
      Nat.add_assoc]

theorem CallsPrint.append {calls calls' : List (String × List Arg)} {text text' : List Byte}
    (h : CallsPrint serialConsole m lit calls text)
    (h' : CallsPrint serialConsole m lit calls' text') :
    CallsPrint serialConsole m lit (calls ++ calls') (text ++ text') := by
  obtain ⟨fuel₁, hFirst⟩ := h
  obtain ⟨fuel₂, hRest⟩ := h'
  refine ⟨max fuel₁ fuel₂, fun fuel hFuel bufs => ?_⟩
  rw [printCalls_append, hFirst fuel (by omega), Option.bind_some, hRest fuel (by omega)]
  rfl

/-- **A call prints its chunks.** -/
theorem callPrints_of_chunks (hConsole : serialConsole.putc ≠ 0) {format : String} {args : List Arg}
    (hCall : CallIn m lit (format, args)) (hComplete : Complete (asciiString format))
    (h : chunksOf lit (tokenize (asciiString format)).1 args = some chunks) :
    CallsPrint serialConsole m lit [(format, args)] (chunks.flatMap Chunk.render) := by
  obtain ⟨unread, hArgs⟩ := chunksOf_supplies hCall hComplete h
  obtain ⟨fuel₀, hRun⟩ := vprintf_supplied hConsole hCall.1.2 hComplete hArgs
  refine ⟨fuel₀, fun fuel hFuel bufs => ?_⟩
  obtain ⟨s, hEq, hOut, -⟩ := hRun fuel hFuel (bufs 0)
  rw [printCalls, hEq, Option.bind_some, hOut, printCalls, Option.map_some, List.append_nil]

/-- Rows of calls that are each read back. -/
theorem callsPrint_flatMap {α β : Type} {calls : α → List (String × List Arg)} {value : α → β}
    {r : Reader Byte β} {xs : List α}
    (h : ∀ x ∈ xs, ∃ text, CallsPrint serialConsole m lit (calls x) text ∧
      ∀ rest, Reads r text rest (value x)) :
    ∃ texts, CallsPrint serialConsole m lit (xs.flatMap calls) texts.flatten ∧
      List.Forall₂ (fun text y => ∀ rest, Reads r text rest y) texts (xs.map value) := by
  induction xs with
  | nil => exact ⟨[], CallsPrint.nil, List.Forall₂.nil⟩
  | cons x xs ih =>
    obtain ⟨text, hPrint, hRead⟩ := h x List.mem_cons_self
    obtain ⟨texts, hPrints, hReads⟩ := ih fun y hy => h y (List.mem_cons_of_mem x hy)
    exact ⟨text :: texts, hPrint.append hPrints, List.Forall₂.cons hRead hReads⟩

-- ---------------------------------------------------------------------------
-- Reading a call back
-- ---------------------------------------------------------------------------

/-- The conversions of a row of tokens, each with the character behind it. -/
def conversions : List Token → List (Token × Option Byte)
  | [] => []
  | t :: ts =>
    match t.fixedChunk with
    | some _ => conversions ts
    | none => (t, ts.head?.bind Token.lead) :: conversions ts

/-- What the conversions show of the arguments, if the character behind each ends it. -/
def showFields (lit : String → BitVec 64) :
    List (Token × Option Byte) → List Arg → Option (List Field)
  | [], _ => some []
  | _ :: _, [] => none
  | (t, next) :: ts, arg :: args =>
    (t.argChunk lit arg).bind fun chunk =>
      if chunk.EndsAt next then (showFields lit ts args).map (chunk.fields ++ ·) else none

/-- The conversions decide what is shown of a call. -/
theorem chunksOf_of_showFields {ts : List Token} {args : List Arg} {fields : List Field}
    (hLexed : ∀ t ∈ ts, t.Lexed) (hLit : ∀ s, Arg.str s ∈ args → LiteralIn m lit s)
    (h : showFields lit (conversions ts) args = some fields) :
    ∃ chunks, chunksOf lit ts args = some chunks ∧ Delimited chunks ∧
      chunks.flatMap Chunk.fields = fields := by
  induction ts generalizing args fields with
  | nil =>
    cases h
    exact ⟨[], rfl, trivial, rfl⟩
  | cons t ts ih =>
    have hFirst := hLexed t List.mem_cons_self
    have hOthers : ∀ t' ∈ ts, t'.Lexed := fun t' ht' => hLexed t' (List.mem_cons_of_mem t ht')
    cases hFixed : t.fixedChunk with
    | some chunk =>
      obtain ⟨-, -, -, hFields, hBase, hString⟩ := Token.fixedChunk_spec (m := m) hFirst hFixed
      rw [conversions, hFixed] at h
      obtain ⟨chunks, hChunks, hDelimited, hShown⟩ := ih hOthers hLit h
      refine ⟨chunk :: chunks, ?_, ⟨⟨?_, ?_⟩, hDelimited⟩, ?_⟩
      · rw [chunksOf_fixed hFixed, hChunks]
        rfl
      · rw [hBase]
        exact fun b hb => absurd hb (Option.not_mem_none b)
      · rw [hString]
        exact fun s hs => absurd hs (Option.not_mem_none s)
      · rw [List.flatMap_cons, hFields, List.nil_append, hShown]
    | none =>
      rw [conversions, hFixed] at h
      cases args with
      | nil => cases h
      | cons arg args =>
        obtain ⟨chunk, hChunk, hShow⟩ := Option.bind_eq_some_iff.mp h
        split_ifs at hShow with hEnds
        obtain ⟨shown, hRest, rfl⟩ := Option.map_eq_some_iff.mp hShow
        have hLit' : ∀ s, Arg.str s ∈ args → LiteralIn m lit s :=
          fun s hs => hLit s (List.mem_cons_of_mem arg hs)
        obtain ⟨chunks, hChunks, hDelimited, rfl⟩ := ih hOthers hLit' hRest
        obtain ⟨hTokens, -⟩ := chunksOf_spec hOthers hLit' hChunks
        refine ⟨chunk :: chunks, ?_, ⟨?_, hDelimited⟩, rfl⟩
        · rw [chunksOf_arg hFixed, hChunk, Option.bind_some, hChunks]
          rfl
        · rw [← hTokens, List.head?_map, Option.bind_map] at hEnds
          exact hEnds

/-- **A call prints a text that its format reads back.** -/
theorem call_readBack (hConsole : serialConsole.putc ≠ 0) {format : String} {args : List Arg}
    {fields : List Field} (hCall : CallIn m lit (format, args))
    (hComplete : Complete (asciiString format))
    (h : showFields lit (conversions (tokenize (asciiString format)).1) args = some fields) :
    ∃ text, CallsPrint serialConsole m lit [(format, args)] text ∧
      ∀ behind, readBack (asciiString format) (text ++ behind) = some (fields, behind) := by
  have hLexed := tokenize_lexed hCall.1.2.nonzero
  obtain ⟨chunks, hChunks, hDelimited, rfl⟩ := chunksOf_of_showFields hLexed hCall.2 h
  obtain ⟨hTokens, hWf, -⟩ := chunksOf_spec hLexed hCall.2 hChunks
  refine ⟨_, callPrints_of_chunks hConsole hCall hComplete hChunks, fun behind => ?_⟩
  rw [readBack, ← hTokens]
  exact scan_reads hWf hDelimited behind

/-- The reader of a call, by its format and what is done with the fields. -/
def callReader {α : Type} (format : String) (value : List Field → Option α) : Reader Byte α :=
  fun text => (readBack (asciiString format) text).bind fun p => (value p.1).map fun x => (x, p.2)

theorem call_reads {α : Type} {value : List Field → Option α} {x : α}
    (hConsole : serialConsole.putc ≠ 0) {format : String} {args : List Arg}
    {fields : List Field} (hCall : CallIn m lit (format, args))
    (hComplete : Complete (asciiString format))
    (h : showFields lit (conversions (tokenize (asciiString format)).1) args = some fields)
    (hValue : value fields = some x) :
    ∃ text, CallsPrint serialConsole m lit [(format, args)] text ∧
      ∀ rest, Reads (callReader format value) text rest x := by
  obtain ⟨text, hPrint, hRead⟩ := call_readBack hConsole hCall hComplete h
  refine ⟨text, hPrint, fun rest => ?_⟩
  rw [Reads, callReader, hRead, Option.bind_some, hValue]
  rfl

theorem literal_head {γ : Type} [DecidableEq γ] {c : γ} {cs text : List γ} {p : Unit × List γ}
    (h : literal (c :: cs) text = some p) : text.head? = some c := by
  rw [literal] at h
  split_ifs at h with hPrefix
  cases text with
  | nil => cases hPrefix
  | cons b text =>
    rw [List.isPrefixOf, Bool.and_eq_true, beq_iff_eq] at hPrefix
    rw [List.head?_cons, hPrefix.1]

/-- A text that is read starts with what the format starts with. -/
theorem callReader_head {α : Type} {format : String} {value : List Field → Option α}
    {text : List Byte} {p : α × List Byte} (h : callReader format value text = some p) {k c : Byte}
    (hFirst : (tokenize (asciiString format)).1.head? = some (.plain k))
    (hLead : (Token.plain k).lead = some c) : text.head? = some c := by
  obtain ⟨ts, hTokens⟩ := List.head?_eq_some_iff.mp hFirst
  rw [callReader, readBack, hTokens, scan] at h
  obtain ⟨q, hScan, -⟩ := Option.bind_eq_some_iff.mp h
  obtain ⟨q', hFixed, -⟩ := Option.bind_eq_some_iff.mp hScan
  obtain ⟨u, hLiteral, -⟩ := Option.map_eq_some_iff.mp hFixed
  rw [Piece.render] at hLiteral
  rw [← hLead, Token.lead]
  split_ifs at hLiteral ⊢ with hLine
  · exact literal_head hLiteral
  · exact literal_head hLiteral

/-- A line without arguments is read as nothing. -/
theorem title_reads (hConsole : serialConsole.putc ≠ 0) {format : String}
    (hFormat : LiteralIn m lit format) (hComplete : Complete (asciiString format))
    (hTitle : conversions (tokenize (asciiString format)).1 = []) :
    ∃ text, CallsPrint serialConsole m lit [(format, [])] text ∧
      ∀ rest, Reads (callReader format some) text rest [] := by
  refine call_reads hConsole ⟨hFormat, fun s hs => absurd hs List.not_mem_nil⟩ hComplete ?_ rfl
  rw [hTitle]
  rfl

theorem tokenize_plain {s : List Byte} (h : ascii '%' ∉ s) : tokenize s = (s.map .plain, []) := by
  induction s with
  | nil => rfl
  | cons c s ih =>
    have hFirst : c ≠ ascii '%' := fun hEq => h (hEq ▸ List.mem_cons_self)
    rw [tokenize.eq_def]
    simp only [if_pos hFirst, ih fun hMem => h (List.mem_cons_of_mem c hMem)]
    rfl

theorem chunksOf_plain (s : List Byte) (ts : List Token) (args : List Arg) :
    chunksOf lit (s.map .plain ++ ts) args =
      (chunksOf lit ts args).map ((s.map fun c => .piece (.plain c)) ++ ·) := by
  induction s with
  | nil => exact Option.map_id'.symm
  | cons c s ih =>
    rw [List.map_cons, List.cons_append, chunksOf_fixed rfl, ih, Option.map_map]
    rfl

theorem plain_render {s : List Byte} (hLine : ascii '\n' ∉ s) :
    (s.map fun c => Chunk.piece (.plain c)).flatMap Chunk.render = s := by
  induction s with
  | nil => rfl
  | cons c s ih =>
    have hFirst : c ≠ ascii '\n' := fun hEq => hLine (hEq ▸ List.mem_cons_self)
    rw [List.map_cons, List.flatMap_cons, ih fun hMem => hLine (List.mem_cons_of_mem c hMem),
      Chunk.render, Piece.render, if_neg hFirst]
    rfl

/-- **Text without conversions and line ends** is printed as it stands. -/
theorem plain_prints (hConsole : serialConsole.putc ≠ 0) {format : String}
    (hFormat : LiteralIn m lit format) (hPlain : ascii '%' ∉ asciiString format)
    (hLine : ascii '\n' ∉ asciiString format) :
    CallsPrint serialConsole m lit [(format, [])] (asciiString format) := by
  have hTokens := tokenize_plain hPlain
  have hArgs : CallIn m lit (format, []) := ⟨hFormat, fun s hs => absurd hs List.not_mem_nil⟩
  have hChunks : chunksOf lit (tokenize (asciiString format)).1 [] =
      some ((asciiString format).map fun c => .piece (.plain c)) := by
    rw [hTokens, ← List.append_nil ((asciiString format).map Token.plain), chunksOf_plain, chunksOf,
      Option.map_some, List.append_nil]
  have hPrint := callPrints_of_chunks hConsole hArgs (congrArg Prod.snd hTokens) hChunks
  rwa [plain_render hLine] at hPrint

-- ---------------------------------------------------------------------------
-- What a conversion shows
-- ---------------------------------------------------------------------------

section ShowFields

variable {k c : Byte} {n : Nat} {ts : List (Token × Option Byte)} {args : List Arg}

theorem showFields_long (hn : n < 2 ^ 64) (hStop : Numeral.run digitOf 16 [c] = []) :
    showFields lit ((.long k, some c) :: ts) (.word n :: args) =
      (showFields lit ts args).map (.number n :: ·) := by
  have hEnds : (Chunk.long k (BitVec.ofNat 64 n)).EndsAt (some c) :=
    ⟨fun b hb => ⟨c, rfl, Option.some.inj hb ▸ hStop⟩, fun s hs => absurd hs (Option.not_mem_none s)⟩
  rw [showFields, Token.argChunk, Option.bind_some, if_pos hEnds, Chunk.fields, BitVec.toNat_ofNat,
    Nat.mod_eq_of_lt hn]
  rfl

theorem showFields_unsigned (hn : n < 2 ^ 64) (hStop : Numeral.run digitOf 10 [c] = []) :
    showFields lit ((.conversion (ascii 'u'), some c) :: ts) (.word n :: args) =
      (showFields lit ts args).map (.number n :: ·) := by
  have hArg : Token.argChunk lit (.conversion (ascii 'u')) (.word n) =
      some (.piece (.unsigned (BitVec.ofNat 64 n))) := rfl
  have hEnds : (Chunk.piece (.unsigned (BitVec.ofNat 64 n))).EndsAt (some c) :=
    ⟨fun b hb => ⟨c, rfl, Option.some.inj hb ▸ hStop⟩, fun s hs => absurd hs (Option.not_mem_none s)⟩
  rw [showFields, hArg, Option.bind_some, if_pos hEnds, Chunk.fields, BitVec.toNat_ofNat,
    Nat.mod_eq_of_lt hn]
  rfl

theorem showFields_string {s : String} (hStop : c ∉ asciiString s) :
    showFields lit ((.conversion (ascii 's'), some c) :: ts) (.str s :: args) =
      (showFields lit ts args).map (.text (asciiString s) :: ·) := by
  have hEnds : (Chunk.piece (.string (lit s) (asciiString s))).EndsAt (some c) :=
    ⟨fun b hb => absurd hb (Option.not_mem_none b), fun t ht => ⟨c, rfl, Option.some.inj ht ▸ hStop⟩⟩
  rw [showFields, Token.argChunk, if_pos rfl, Option.bind_some, if_pos hEnds]
  rfl

end ShowFields

-- ---------------------------------------------------------------------------
-- Literals in memory
-- ---------------------------------------------------------------------------

/-- Literals one behind the other, each with its zero byte. -/
def literalBytes : List String → List Byte
  | [] => []
  | s :: ss => asciiString s ++ 0 :: literalBytes ss

/-- Where a literal lies among them. -/
def literalOffset (s : String) : List String → Nat
  | [] => 0
  | t :: ts => if t = s then 0 else (asciiString t).length + 1 + literalOffset s ts

/-- A table of literals at an address. -/
def literalTable (base : Nat) (table : List String) : Mem := fun a =>
  (literalBytes table).getD (a - base) 0

theorem literalOffset_le (s : String) (table : List String) :
    literalOffset s table ≤ (literalBytes table).length := by
  induction table with
  | nil => exact Nat.le_refl 0
  | cons t ts ih =>
    rw [literalOffset, literalBytes, List.length_append, List.length_cons]
    split_ifs <;> omega

theorem literalBytes_holds {m : Mem} {base : Nat} {table : List String} {s : String}
    (h : Holds m base (literalBytes table)) (hMem : s ∈ table) :
    Holds m (base + literalOffset s table) (asciiString s ++ [0]) := by
  induction table generalizing base with
  | nil => exact absurd hMem List.not_mem_nil
  | cons t ts ih =>
    rw [literalBytes, List.append_cons, holds_append] at h
    rw [literalOffset]
    split_ifs with hFirst
    · exact hFirst ▸ h.1
    · have hRest := ih h.2 (List.mem_of_ne_of_mem (Ne.symm hFirst) hMem)
      rwa [List.length_append, List.length_singleton, Nat.add_assoc] at hRest

/-- **The literals of a table lie in memory.** -/
theorem literalTable_literalIn {base : Nat} {table : List String} {s : String}
    (hBase : 0 < base) (hEnd : base + (literalBytes table).length < 2 ^ 64)
    (hText : ∀ t ∈ table, 0 ∉ asciiString t) (hMem : s ∈ table) :
    LiteralIn (literalTable base table) (fun t => BitVec.ofNat 64 (base + literalOffset t table)) s := by
  have hAll : Holds (literalTable base table) base (literalBytes table) := by
    refine holds_iff.mpr fun i hi => ?_
    rw [literalTable, Nat.add_sub_cancel_left, List.getD_eq_getElem?_getD,
      List.getElem?_eq_getElem hi]
    rfl
  have hBound := literalOffset_le s table
  have hAddr : (BitVec.ofNat 64 (base + literalOffset s table)).toNat =
      base + literalOffset s table := by
    rw [BitVec.toNat_ofNat, Nat.mod_eq_of_lt (by omega)]
  refine ⟨fun hZero => ?_, ?_⟩
  · change BitVec.ofNat 64 (base + literalOffset s table) = 0 at hZero
    rw [hZero] at hAddr
    exact absurd hAddr (by change 0 ≠ _; omega)
  · rw [hAddr]
    exact ⟨literalBytes_holds hAll hMem, fun b hb hZero => hText s hMem (hZero ▸ hb)⟩

end Kernalite
