import Kernalite.Lib.A64
import Kernalite.Lib.Words

/-!
# A data cache under A64

`A64.step` has one flat memory, to which cache maintenance does nothing. Here a data cache
with lines of a fixed size lies in front of that memory. The program's own accesses are
uncached, as they are while the cache is disabled; the lines were left by whoever ran before,
and go only by maintenance: `dc ivac` drops a line, `dc civac` writes a dirty one back first.

* `cachedStep_clean` — without dirty lines the flat memory is the right picture;
* `CachedSteps.block` — straight-line code.
-/

namespace A64

open ByteMemory Relation

/-- The copy of a line in the cache, by address. -/
structure CacheLine where
  dirty : Bool
  bytes : Nat → BitVec 8

/-- The lines in the cache, by their numbers. -/
abbrev Cache := Nat → Option CacheLine

namespace Cache

/-- The cache without line `n`. -/
def evict (n : Nat) (c : Cache) : Cache := Function.update c n none

/-- Memory after line `n` was written back, if it is dirty. -/
def writeBack (size n : Nat) (c : Cache) (m : Mem) : Mem := fun a =>
  match c n with
  | some line => if line.dirty ∧ a / size = n then line.bytes a else m a
  | none => m a

/-- The byte that must not get lost: the one in a dirty line, or else the one in memory. -/
def settled (size : Nat) (c : Cache) (m : Mem) (a : Nat) : BitVec 8 :=
  match c (a / size) with
  | some line => if line.dirty then line.bytes a else m a
  | none => m a

/-- No line is dirty. -/
def Clean (c : Cache) : Prop := ∀ n line, c n = some line → line.dirty = false

variable {size n a : Nat} {c : Cache} {m : Mem}

theorem writeBack_of_clean (h : c.Clean) (n : Nat) : c.writeBack size n m = m := by
  funext a
  rw [writeBack]
  cases hLine : c n with
  | none => rfl
  | some line => simp [h n line hLine]

theorem clean_empty : Clean fun _ => none := by
  intro n line h
  cases h

theorem settled_of_clean (h : c.Clean) (a : Nat) : c.settled size m a = m a := by
  rw [settled]
  cases hLine : c (a / size) with
  | none => rfl
  | some line => simp [h _ line hLine]

theorem Clean.evict (h : c.Clean) (n : Nat) : (c.evict n).Clean := by
  intro i line hLine
  rw [Cache.evict, Function.update_apply] at hLine
  split_ifs at hLine
  exact h i line hLine

/-- Cleaning settles the line: what was in it is in memory. -/
theorem writeBack_apply (size n : Nat) (c : Cache) (m : Mem) (a : Nat) :
    c.writeBack size n m a = if a / size = n then c.settled size m a else m a := by
  by_cases hIn : a / size = n
  · subst hIn
    rw [if_pos rfl, writeBack, settled]
    simp
  · rw [if_neg hIn, writeBack]
    split
    · rw [if_neg fun hBoth => hIn hBoth.2]
    · rfl

end Cache

-- ---------------------------------------------------------------------------
-- Stages of maintenance
-- ---------------------------------------------------------------------------

/-- What a stage does to the cache and to memory: the lines `removed` go, those `cleaned` among
them are written back. -/
structure Stage (size : Nat) (removed cleaned : Nat → Prop) (m : Mem) (c : Cache) (m' : Mem)
    (c' : Cache) : Prop where
  gone    : ∀ n, removed n → c' n = none
  kept    : ∀ n, ¬ removed n → c' n = c n
  written : ∀ a, cleaned (a / size) → m' a = c.settled size m a
  same    : ∀ a, ¬ cleaned (a / size) → m' a = m a

namespace Stage

variable {size : Nat} {m m' m'' : Mem} {c c' c'' : Cache}
  {removed removed' cleaned cleaned' : Nat → Prop}

theorem nothing (hNone : ∀ n, ¬ removed n) (hNone' : ∀ n, ¬ cleaned n) :
    Stage size removed cleaned m c m c :=
  ⟨fun n h => absurd h (hNone n), fun _ _ => rfl, fun _ h => absurd h (hNone' _), fun _ _ => rfl⟩

theorem civac (n : Nat) :
    Stage size (· = n) (· = n) m c (c.writeBack size n m) (c.evict n) where
  gone i h := by rw [Cache.evict, h, Function.update_self]
  kept i h := by rw [Cache.evict, Function.update_of_ne h]
  written a h := by rw [Cache.writeBack_apply, if_pos h]
  same a h := by rw [Cache.writeBack_apply, if_neg h]

theorem ivac (n : Nat) : Stage size (· = n) (fun _ => False) m c m (c.evict n) where
  gone i h := by rw [Cache.evict, h, Function.update_self]
  kept i h := by rw [Cache.evict, Function.update_of_ne h]
  written _ h := h.elim
  same _ _ := rfl

/-- Two stages, where the second writes back nothing the first has dropped. -/
theorem trans (h : Stage size removed cleaned m c m' c')
    (h' : Stage size removed' cleaned' m' c' m'' c'') (hSub : ∀ n, cleaned n → removed n)
    (hOrder : ∀ n, cleaned' n → removed n → cleaned n) :
    Stage size (fun n => removed n ∨ removed' n) (fun n => cleaned n ∨ cleaned' n) m c m'' c''
    where
  gone n hAny := by
    by_cases hLater : removed' n
    · exact h'.gone n hLater
    · rw [h'.kept n hLater]
      exact h.gone n (hAny.resolve_right hLater)
  kept n hNot := by
    rw [not_or] at hNot
    rw [h'.kept n hNot.2, h.kept n hNot.1]
  written a hAny := by
    have hSettled : cleaned (a / size) → c'.settled size m' a = c.settled size m a := fun hFirst => by
      rw [Cache.settled, h.gone _ (hSub _ hFirst)]
      exact h.written a hFirst
    by_cases hLater : cleaned' (a / size)
    · rw [h'.written a hLater]
      by_cases hFirst : cleaned (a / size)
      · exact hSettled hFirst
      · have hStays : ¬ removed (a / size) := fun hGone => hFirst (hOrder _ hLater hGone)
        rw [Cache.settled, h.kept _ hStays, h.same a hFirst, Cache.settled]
    · rw [h'.same a hLater]
      exact h.written a (hAny.resolve_right hLater)
  same a hNot := by
    rw [not_or] at hNot
    rw [h'.same a hNot.2, h.same a hNot.1]

theorem congr (h : Stage size removed cleaned m c m' c') (hRemoved : ∀ n, removed n ↔ removed' n)
    (hCleaned : ∀ n, cleaned n ↔ cleaned' n) : Stage size removed' cleaned' m c m' c' where
  gone n hn := h.gone n ((hRemoved n).mpr hn)
  kept n hn := h.kept n fun hOld => hn ((hRemoved n).mp hOld)
  written a ha := h.written a ((hCleaned _).mpr ha)
  same a ha := h.same a fun hOld => ha ((hCleaned _).mp hOld)

/-- The bytes that count after a stage: memory's where a line was dropped. -/
theorem settled_dropped (h : Stage size removed cleaned m c m' c') {a : Nat}
    (hGone : removed (a / size)) (hNot : ¬ cleaned (a / size)) : c'.settled size m' a = m a := by
  rw [Cache.settled, h.gone _ hGone]
  exact h.same a hNot

theorem settled_kept (h : Stage size removed cleaned m c m' c')
    (hSub : ∀ n, cleaned n → removed n) {a : Nat} (hNot : removed (a / size) → cleaned (a / size)) :
    c'.settled size m' a = c.settled size m a := by
  by_cases hGone : removed (a / size)
  · rw [Cache.settled, h.gone _ hGone]
    exact h.written a (hNot hGone)
  · rw [Cache.settled, h.kept _ hGone, h.same a fun hClean => hGone (hSub _ hClean), Cache.settled]

end Stage

-- ---------------------------------------------------------------------------
-- Lines
-- ---------------------------------------------------------------------------

section Lines

variable {a line : BitVec 64} {k : Nat}

theorem line_sub_one (hLine : line.toNat = 2 ^ k) : (line - 1).toNat = 2 ^ k - 1 := by
  have hPos := Nat.two_pow_pos k
  bv_omega

/-- The offset in a line. -/
theorem and_line (hLine : line.toNat = 2 ^ k) : (a &&& (line - 1)).toNat = a.toNat % 2 ^ k := by
  rw [BitVec.toNat_and, line_sub_one hLine, Nat.and_two_pow_sub_one_eq_mod]

/-- The start of a line. -/
theorem bic_line (hLine : line.toNat = 2 ^ k) :
    (a &&& ~~~(line - 1)).toNat = a.toNat / 2 ^ k * 2 ^ k := by
  have hPos := Nat.two_pow_pos k
  have hk : k ≤ 64 := (Nat.pow_lt_pow_iff_right (by decide)).mp (hLine ▸ line.isLt) |>.le
  have hMask : 2 ^ 64 - 1 - (2 ^ k - 1) = 2 ^ 64 - 2 ^ k := by omega
  rw [BitVec.toNat_and, BitVec.toNat_not, line_sub_one hLine, hMask,
    Words.and_not_low_mask a.isLt hk]

end Lines

-- ---------------------------------------------------------------------------
-- Steps
-- ---------------------------------------------------------------------------

section Semantics

variable {σ : Type}

/-- The address whose line an instruction maintains, and whether it cleans. -/
def Instr.maintains (s : State) : Instr σ → Option (Bool × BitVec 64)
  | .dcCivac n => some (true, s.get n)
  | .dcIvac n => some (false, s.get n)
  | _ => none

def Instr.isMaintenance : Instr σ → Bool
  | .dcCivac _ | .dcIvac _ => true
  | _ => false

theorem Instr.maintains_eq_none {i : Instr σ} (h : i.isMaintenance = false) (s : State) :
    i.maintains s = none := by
  cases i with
  | dcCivac n => cases h
  | dcIvac n => cases h
  | _ => rfl

/-- Maintenance of one line of `size` bytes, or none. -/
def Cache.maintain (size : Nat) (c : Cache) (m : Mem) : Option (Bool × BitVec 64) → Mem × Cache
  | some (clean, a) =>
    let line := a.toNat / size
    (if clean then c.writeBack size line m else m, c.evict line)
  | none => (m, c)

theorem Cache.Clean.maintain {c : Cache} (h : c.Clean) (size : Nat) (m : Mem)
    (op : Option (Bool × BitVec 64)) :
    (c.maintain size m op).1 = m ∧ (c.maintain size m op).2.Clean := by
  cases op with
  | none => exact ⟨rfl, h⟩
  | some op =>
    refine ⟨?_, h.evict _⟩
    rw [Cache.maintain, Cache.writeBack_of_clean h, ite_self]

variable [DecidableEq σ]

/-- A step with a cache whose lines have `size` bytes. -/
def cachedStep (P : Program σ) (size : Nat) (s : State) (c : Cache) : Option (State × Cache) :=
  match step P s with
  | .next s' =>
    let (m, c) := c.maintain size s'.mem ((code P.text)[s.pc]?.bind (·.maintains s))
    some ({ s' with mem := m }, c)
  | _ => none

/-- Any number of steps within the program. -/
def CachedSteps (P : Program σ) (size : Nat) : State × Cache → State × Cache → Prop :=
  ReflTransGen fun p q => cachedStep P size p.1 p.2 = some q

variable {P : Program σ} {size : Nat} {s s' t : State} {c c' c'' : Cache}

/--
**Without dirty lines** the machine with a cache takes the steps of the machine without, and no
line becomes dirty.
-/
theorem cachedStep_clean (size : Nat) (h : c.Clean) (s s' : State) :
    step P s = .next s' ↔ ∃ c', cachedStep P size s c = some (s', c') ∧ c'.Clean := by
  rw [cachedStep]
  cases step P s with
  | next t =>
    obtain ⟨hMem, hClean⟩ :=
      h.maintain size t.mem ((code P.text)[s.pc]?.bind (·.maintains s))
    simp only [hMem, Option.some.injEq, Prod.mk.injEq, Outcome.next.injEq]
    exact ⟨fun hEq => ⟨_, ⟨hEq, rfl⟩, hClean⟩, fun ⟨_, hEq, _⟩ => hEq.1⟩
  | call f t => simp
  | fault => simp

theorem CachedSteps.of_clean (size : Nat) (h : c.Clean) (hSteps : Steps P s t) :
    ∃ c', CachedSteps P size (s, c) (t, c') ∧ c'.Clean := by
  induction hSteps with
  | refl => exact ⟨c, ReflTransGen.refl, h⟩
  | tail _ hStep ih =>
    obtain ⟨c₁, hBefore, hClean⟩ := ih
    obtain ⟨c₂, hNext, hClean'⟩ := (cachedStep_clean size hClean _ _).mp hStep
    exact ⟨c₂, hBefore.tail hNext, hClean'⟩

/-- Without dirty lines the calls are those of the machine without a cache. -/
theorem Calls.cached {f : σ} (hCalls : Calls P s f t) (size : Nat) (h : c.Clean) :
    ∃ u c', CachedSteps P size (s, c) (u, c') ∧ step P u = .call f t ∧ c'.Clean := by
  obtain ⟨u, hSteps, hCall⟩ := hCalls
  obtain ⟨c', hCached, hClean⟩ := CachedSteps.of_clean size h hSteps
  exact ⟨u, c', hCached, hCall, hClean⟩

/-- What the machine does with a clean cache it does without. -/
theorem CachedSteps.steps {q : State × Cache} (hSteps : CachedSteps P size (s, c) q)
    (h : c.Clean) : Steps P s q.1 ∧ q.2.Clean := by
  induction hSteps with
  | refl => exact ⟨ReflTransGen.refl, h⟩
  | @tail q r _ hStep ih =>
    obtain ⟨hBefore, hClean⟩ := ih
    cases hNext : step P q.1 with
    | next u =>
      obtain ⟨c', hCached, hClean'⟩ := (cachedStep_clean size hClean _ _).mp hNext
      rw [hStep, Option.some.injEq] at hCached
      subst hCached
      exact ⟨hBefore.tail hNext, hClean'⟩
    | call f u => simp [cachedStep, hNext] at hStep
    | fault => simp [cachedStep, hNext] at hStep

theorem CachedSteps.one (h : cachedStep P size s c = some (s', c')) :
    CachedSteps P size (s, c) (s', c') := ReflTransGen.single h

theorem CachedSteps.trans (h : CachedSteps P size (s, c) (s', c'))
    (h' : CachedSteps P size (s', c') (t, c'')) : CachedSteps P size (s, c) (t, c'') :=
  ReflTransGen.trans h h'

/-- Instructions other than maintenance leave the cache alone. -/
theorem CachedSteps.other {i : Instr σ} (hCode : (code P.text)[s.pc]? = some i)
    (hOther : i.isMaintenance = false) (hStep : step P s = .next s') :
    CachedSteps P size (s, c) (s', c) := by
  refine CachedSteps.one ?_
  rw [cachedStep, hStep, hCode, Option.bind_some, Instr.maintains_eq_none hOther]
  rfl

/-- `dc civac` -/
theorem CachedSteps.civac {n : Reg} (hCode : (code P.text)[s.pc]? = some (.dcCivac n)) :
    CachedSteps P size (s, c)
      ({ s with pc := s.pc + 1, mem := c.writeBack size ((s.get n).toNat / size) s.mem },
        c.evict ((s.get n).toNat / size)) := by
  refine CachedSteps.one ?_
  rw [cachedStep, step_of_effect hCode rfl, hCode]
  rfl

/-- `dc ivac` -/
theorem CachedSteps.ivac {n : Reg} (hCode : (code P.text)[s.pc]? = some (.dcIvac n)) :
    CachedSteps P size (s, c)
      ({ s with pc := s.pc + 1 }, c.evict ((s.get n).toNat / size)) := by
  refine CachedSteps.one ?_
  rw [cachedStep, step_of_effect hCode rfl, hCode]
  rfl

/-- Straight-line code without maintenance that lies at the program counter. -/
theorem CachedSteps.prefix {is : List (Instr σ)} (hCode : is <+: (code P.text).drop s.pc)
    (hOther : is.any Instr.isMaintenance = false) (hRun : runBlock P.addr is s = some s') :
    CachedSteps P size (s, c) (s', c) := by
  induction is generalizing s with
  | nil =>
    rw [runBlock, Option.some.injEq] at hRun
    exact hRun ▸ ReflTransGen.refl
  | cons i is ih =>
    rw [runBlock] at hRun
    rw [List.any_cons, Bool.or_eq_false_iff] at hOther
    obtain ⟨rest, hRest⟩ := hCode
    have hHead : (code P.text)[s.pc]? = some i := by
      rw [← List.head?_drop, ← hRest]
      rfl
    split at hRun
    · next t hEffect =>
      have hFirst : CachedSteps P size (s, c) ({ t with pc := s.pc + 1 }, c) :=
        .other hHead hOther.1 (step_of_effect hHead hEffect)
      refine hFirst.trans (ih ?_ hOther.2 hRun)
      refine ⟨rest, ?_⟩
      rw [← List.tail_drop, ← hRest]
      rfl
    · exact absurd hRun (by simp)

/-- The next `n` instructions, if none of them branches or maintains the cache. -/
theorem CachedSteps.block (n : Nat)
    (hOther : (((code P.text).drop s.pc).take n).any Instr.isMaintenance = false)
    (hRun : runBlock P.addr (((code P.text).drop s.pc).take n) s = some s') :
    CachedSteps P size (s, c) (s', c) :=
  CachedSteps.prefix (List.take_prefix _ _) hOther hRun

/-- A pair of doublewords at `a`. -/
theorem CachedSteps.stp {r u n : Reg} {imm : BitVec 64} {a : Nat}
    (hCode : (code P.text)[s.pc]? = some (.stp r u n imm)) (hAddr : (s.get n + imm).toNat = a)
    (hAligned : a % 8 = 0) (hRoom : a + 16 ≤ 2 ^ 64) :
    CachedSteps P size (s, c) ({ s with
      pc := s.pc + 1
      mem := store64 (store64 s.mem a (s.get r)) (a + 8) (s.get u) }, c) :=
  .other hCode rfl (step_stp hCode hAddr hAligned hRoom)

theorem CachedSteps.noCbnz {n : Reg} {f : σ} (hCode : (code P.text)[s.pc]? = some (.cbnz n f))
    (hZero : s.get n = 0) : CachedSteps P size (s, c) ({ s with pc := s.pc + 1 }, c) :=
  .other hCode rfl (step_noCbnz hCode hZero)

/-- A conditional branch, taken. -/
theorem CachedSteps.branch {d : Cond} {f : σ} {i : Nat}
    (hCode : (code P.text)[s.pc]? = some (.bCond d f)) (hLabel : findLabel f P.text = some i)
    (hHolds : d.holds s.flags = true) : CachedSteps P size (s, c) ({ s with pc := i }, c) :=
  .other hCode rfl (by rw [step, hCode]; simp only [hHolds, if_true, jump, hLabel])

/-- A conditional branch, not taken. -/
theorem CachedSteps.noBranch {d : Cond} {f : σ} (hCode : (code P.text)[s.pc]? = some (.bCond d f))
    (hHolds : d.holds s.flags = false) :
    CachedSteps P size (s, c) ({ s with pc := s.pc + 1 }, c) :=
  .other hCode rfl (by rw [step, hCode]; simp only [hHolds, Bool.false_eq_true, if_false])

/-- A branch. -/
theorem CachedSteps.goto {f : σ} {i : Nat} (hCode : (code P.text)[s.pc]? = some (.b f))
    (hLabel : findLabel f P.text = some i) : CachedSteps P size (s, c) ({ s with pc := i }, c) :=
  .other hCode rfl (by rw [step, hCode]; simp only [jump, hLabel])

/-- A call within the program. -/
theorem CachedSteps.enter {f : σ} {i : Nat} (hCode : (code P.text)[s.pc]? = some (.bl f))
    (hLabel : findLabel f P.text = some i) :
    CachedSteps P size (s, c) ({ s.set (.x 30) (P.place (s.pc + 1)) with pc := i }, c) :=
  .other hCode rfl (by rw [step, hCode]; simp only [jump, hLabel])

/-- A return. -/
theorem CachedSteps.leave {i : Nat} (hCode : (code P.text)[s.pc]? = some .ret)
    (hFind : P.find (s.gpr 30) = some i) : CachedSteps P size (s, c) ({ s with pc := i }, c) :=
  .other hCode rfl (by rw [step, hCode]; simp only [hFind])

end Semantics

end A64
