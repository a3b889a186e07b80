import Kernalite.Lib.Numeral

/-!
# Reading a text from its head

A reader takes a value from the head of a text and leaves the rest. `Reads` says
that it takes a given text, with a given rest behind it. Readers of lists are put one
behind the other with `append`, and a reader is repeated with `many` as long as it
succeeds.

* `literal_reads`, `number_reads`, `upTo_reads` — the readers of single fields;
* `append_reads`, `all_reads` — rows of fields.
-/

namespace TextScan

open Numeral

variable {γ α β : Type*}

/-- A reader of values of type `α`. -/
abbrev Reader (γ α : Type*) := List γ → Option (α × List γ)

/-- The reader takes `text` for `x`, with `rest` behind it. -/
def Reads (r : Reader γ α) (text rest : List γ) (x : α) : Prop := r (text ++ rest) = some (x, rest)

/-- Nothing is read. -/
def nothing : Reader γ (List α) := fun text => some ([], text)

/-- The value is used in another form. -/
def mapTo (f : α → β) (r : Reader γ α) : Reader γ β := fun text =>
  (r text).map fun p => (f p.1, p.2)

/-- One reader behind the other. -/
def append (r r' : Reader γ (List α)) : Reader γ (List α) := fun text =>
  (r text).bind fun p => (r' p.2).map fun q => (p.1 ++ q.1, q.2)

/-- A text that is given. -/
def literal [DecidableEq γ] (p : List γ) : Reader γ Unit := fun text =>
  if p.isPrefixOf text then some ((), text.drop p.length) else none

/-- The longest numeral at the head of the text, at least one digit. -/
def number (digitOf : γ → Option Nat) (base : Nat) : Reader γ Nat := fun text =>
  if run digitOf base text = [] then none
  else some (value base (run digitOf base text), text.drop (run digitOf base text).length)

/-- Everything in front of a character. -/
def upTo [DecidableEq γ] (stop : γ) : Reader γ (List γ) := fun text =>
  some (text.takeWhile (· ≠ stop), text.dropWhile (· ≠ stop))

/-- As many values as there are, `n` at most. -/
def many (r : Reader γ α) : Nat → Reader γ (List α)
  | 0, text => some ([], text)
  | n + 1, text =>
    match r text with
    | none => some ([], text)
    | some (x, rest) => (many r n rest).map fun p => (x :: p.1, p.2)

/-- As many values as there are. -/
def all (r : Reader γ α) : Reader γ (List α) := fun text => many r text.length text

variable {r : Reader γ α} {text rest : List γ} {x : α}

theorem mapTo_reads {f : α → β} (h : Reads r text rest x) : Reads (mapTo f r) text rest (f x) :=
  congrArg (Option.map fun p : α × List γ => (f p.1, p.2)) h

theorem append_reads {r r' : Reader γ (List α)} {text' : List γ} {xs ys : List α}
    (h : Reads r text (text' ++ rest) xs) (h' : Reads r' text' rest ys) :
    Reads (append r r') (text ++ text') rest (xs ++ ys) := by
  rw [Reads, append, List.append_assoc, h]
  exact congrArg (Option.map fun p : List α × List γ => (xs ++ p.1, p.2)) h'

theorem literal_reads [DecidableEq γ] (p rest : List γ) : Reads (literal p) p rest () := by
  rw [Reads, literal, if_pos (List.isPrefixOf_iff_prefix.mpr (List.prefix_append p rest)),
    List.drop_left]

/-- A numeral ends where no digit follows. -/
theorem number_reads {digitOf : γ → Option Nat} {base n : Nat} (h : Spells digitOf base text n)
    (hSome : text ≠ []) (hStop : run digitOf base rest = []) :
    Reads (number digitOf base) text rest n := by
  have hRun : run digitOf base (text ++ rest) = run digitOf base text := by
    rw [run_append h.full, hStop, List.append_nil]
  have hDigits : run digitOf base text ≠ [] := fun hNone => by
    have hFull := h.full
    rw [hNone] at hFull
    exact hSome (List.length_eq_zero_iff.mp hFull.symm)
  rw [Reads, number, hRun, if_neg hDigits, h.value_eq, h.full, List.drop_left]

theorem upTo_reads [DecidableEq γ] {stop : γ} (hStop : stop ∉ text) (rest : List γ) :
    Reads (upTo stop) text (stop :: rest) text := by
  have hAll : ∀ c ∈ text, decide (c ≠ stop) = true := fun c hc =>
    decide_eq_true fun hEq => hStop (hEq ▸ hc)
  rw [Reads, upTo, List.takeWhile_append_of_pos hAll, List.dropWhile_append_of_pos hAll,
    List.takeWhile_cons_of_neg (by simp), List.dropWhile_cons_of_neg (by simp), List.append_nil]

/-- A row of texts is read up to where the reader fails. -/
theorem many_reads {texts : List (List γ)} {xs : List α} (hStop : r rest = none)
    (hReads : List.Forall₂ (fun text x => ∀ rest, Reads r text rest x) texts xs) {n : Nat}
    (hn : xs.length ≤ n) : Reads (many r n) texts.flatten rest xs := by
  induction hReads generalizing n with
  | nil =>
    cases n with
    | zero => rfl
    | succ n =>
      rw [Reads, List.flatten_nil, List.nil_append, many, hStop]
  | @cons text x texts xs hFirst _ ih =>
    obtain ⟨n, rfl⟩ : ∃ k, n = k + 1 := ⟨n - 1, by rw [List.length_cons] at hn; omega⟩
    have hRest := ih (Nat.le_of_succ_le_succ hn)
    rw [Reads] at hRest
    rw [Reads, List.flatten_cons, List.append_assoc, many, hFirst (texts.flatten ++ rest)]
    exact congrArg (Option.map fun p : List α × List γ => (x :: p.1, p.2)) hRest

/-- Every text is longer than nothing, since the reader fails behind the last. -/
theorem length_le_flatten {texts : List (List γ)} {xs : List α} (hStop : r rest = none)
    (hReads : List.Forall₂ (fun text x => ∀ rest, Reads r text rest x) texts xs) :
    xs.length ≤ texts.flatten.length := by
  induction hReads with
  | nil => exact Nat.zero_le _
  | @cons text x texts xs hFirst _ ih =>
    have hSome : text ≠ [] := by
      rintro rfl
      have hRead : r ([] ++ rest) = some (x, rest) := hFirst rest
      rw [List.nil_append, hStop] at hRead
      cases hRead
    have hPos := List.length_pos_iff.mpr hSome
    rw [List.flatten_cons, List.length_append, List.length_cons]
    omega

/-- **A row of texts** is read, and nothing behind it. -/
theorem all_reads {texts : List (List γ)} {xs : List α} (hStop : r rest = none)
    (hReads : List.Forall₂ (fun text x => ∀ rest, Reads r text rest x) texts xs) :
    Reads (all r) texts.flatten rest xs := by
  have hLength := length_le_flatten hStop hReads
  refine many_reads hStop hReads ?_
  rw [List.length_append]
  omega

end TextScan
