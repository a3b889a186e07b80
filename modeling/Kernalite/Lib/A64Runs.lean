import Kernalite.Lib.A64

/-!
# Runs across calls

`A64.Steps` ends where a program calls a symbol it does not define. A `Run` goes on
behind the call, for any relation between the states in which the function is called
and returns, and logs every call.

* `Confined.steps` — what a stretch of code keeps that only a `ret` leaves;
* `Run.of_calls` — a run up to its first call, and the runs behind it;
* `Run.append`, `Calls.run` — runs put together.
-/

namespace A64

open ByteMemory Relation

variable {σ : Type}

-- ---------------------------------------------------------------------------
-- Stretches of code
-- ---------------------------------------------------------------------------

/-- A register that is neither the stack pointer nor the link register. -/
def Reg.general : Reg → Bool
  | .x n => n ≠ 30
  | .zr => true
  | .sp => false

/-- The instruction writes flags, general registers and, if `stores`, memory. -/
def Instr.quiet (stores : Bool) : Instr σ → Bool
  | .mrs d _ | .mov d _ | .movImm d _ | .ldrImm d _ | .ldrSym d _ | .adr d _ | .adrp d _
  | .addLo12 d _ _ | .addImm d _ _ | .subImm d _ _ | .andImm d _ _ | .add d _ _ | .orr d _ _
  | .bic d _ _ | .lsl d _ _ | .ubfm d _ _ _ | .subsImm d _ _ => d.general
  | .strPost _ n _ => stores && n.general
  | .cmp _ _ | .tst _ _ | .dcCivac _ | .dcIvac _ | .dmbSy | .dsbSy | .isb | .nop | .wfe => true
  | .msr _ _ | .stp _ _ _ _ | .stpPre _ _ _ _ | .ldpPost _ _ _ _ | .b _ | .bCond _ _ | .cbz _ _
  | .cbnz _ _ | .bl _ | .ret => false

/-- System registers, stack pointer and link register are as they were, and so is memory
unless it may have been stored to. -/
structure Kept (stores : Bool) (s t : State) : Prop where
  mem_eq   : stores = false → t.mem = s.mem
  sys_eq   : t.sys = s.sys
  stack_eq : t.stack = s.stack
  lr_eq    : t.gpr 30 = s.gpr 30

variable {stores : Bool}

theorem Kept.refl (s : State) : Kept stores s s := ⟨fun _ => rfl, rfl, rfl, rfl⟩

theorem Kept.trans {s t u : State} (h : Kept stores s t) (h' : Kept stores t u) : Kept stores s u :=
  ⟨fun hNone => (h'.mem_eq hNone).trans (h.mem_eq hNone), h'.sys_eq.trans h.sys_eq,
    h'.stack_eq.trans h.stack_eq, h'.lr_eq.trans h.lr_eq⟩

/-- A general register is set. -/
theorem Kept.set {s : State} {d : Reg} (hGeneral : d.general = true) (v : BitVec 64) :
    Kept stores s (s.set d v) := by
  cases d with
  | x n =>
    have hNe : (30 : Fin 31) ≠ n := fun hEq => of_decide_eq_true hGeneral hEq.symm
    exact ⟨fun _ => rfl, rfl, rfl, State.set_gpr_ne s v hNe⟩
  | zr => exact Kept.refl s
  | sp => exact absurd hGeneral Bool.false_ne_true

theorem Instr.quiet_effect {i : Instr σ} (hQuiet : i.quiet stores = true) {addr : σ → BitVec 64}
    {s t : State} (hEffect : i.effect addr s = some t) : Kept stores s t := by
  cases i with
  | mrs | mov | movImm | ldrImm | ldrSym | adr | adrp | addLo12 | addImm | subImm | andImm | add
  | orr | bic | lsl =>
    cases hEffect
    exact Kept.set hQuiet _
  | ubfm d n immr imms =>
    rw [Instr.effect] at hEffect
    split_ifs at hEffect
    all_goals
      cases hEffect
      exact Kept.set hQuiet _
  | subsImm d n imm =>
    cases hEffect
    obtain ⟨hMem, hSys, hStack, hLr⟩ := Kept.set (s := s) hQuiet (s.get n - imm)
    exact ⟨hMem, hSys, hStack, hLr⟩
  | strPost r n imm =>
    obtain ⟨hStores, hGeneral⟩ := (Bool.and_eq_true _ _).mp hQuiet
    obtain ⟨u, hStore, rfl⟩ := Option.map_eq_some_iff.mp hEffect
    rw [State.store] at hStore
    split_ifs at hStore
    cases hStore
    have hStored : Kept stores s { s with mem := store64 s.mem (s.get n).toNat (s.get r) } :=
      ⟨fun hNone => absurd (hNone.symm.trans hStores) Bool.false_ne_true, rfl, rfl, rfl⟩
    exact hStored.trans (Kept.set hGeneral _)
  | cmp | tst | dcCivac | dcIvac | dmbSy | dsbSy | isb | nop | wfe =>
    cases hEffect
    exact ⟨fun _ => rfl, rfl, rfl, rfl⟩
  | msr | stp | stpPre | ldpPost | b | bCond | cbz | cbnz | bl | ret =>
    exact absurd hQuiet Bool.false_ne_true

variable [DecidableEq σ]

/-- The label stands in `[lo, hi)`. -/
def labelIn (text : List (Line σ)) (lo hi : Nat) (f : σ) : Bool :=
  match findLabel f text with
  | some i => decide (lo ≤ i ∧ i < hi)
  | none => false

/-- Instruction `i` is quiet, a branch, or a call of another object, and goes on in
`[lo, hi)`, or it is a `ret` where there may be one. -/
def confinedAt (text : List (Line σ)) (stores rets : Bool) (lo hi i : Nat) : Bool :=
  match (code text)[i]? with
  | none => false
  | some (.b f) => labelIn text lo hi f
  | some (.bCond _ f) | some (.cbz _ f) | some (.cbnz _ f) =>
    labelIn text lo hi f && decide (i + 1 < hi)
  | some (.bl f) => (findLabel f text).isNone
  | some .ret => rets
  | some ins => ins.quiet stores && decide (i + 1 < hi)

/-- The instructions `[lo, hi)` are quiet, and nothing but a `ret` leaves them. -/
def Confined (text : List (Line σ)) (stores rets : Bool) (lo hi : Nat) : Prop :=
  ∀ n, n < hi - lo → confinedAt text stores rets lo hi (lo + n) = true

instance (text : List (Line σ)) (rets : Bool) (lo hi : Nat) :
    Decidable (Confined text stores rets lo hi) :=
  inferInstanceAs (Decidable (∀ n, n < hi - lo → confinedAt text stores rets lo hi (lo + n) = true))

variable {P : Program σ} {s t u : State} {rets : Bool} {lo hi : Nat}

/-- A jump to a label of the stretch. -/
theorem jump_labelIn {f : σ} (h : labelIn P.text lo hi f = true) (hStep : jump P f s = .next t) :
    Kept stores s t ∧ lo ≤ t.pc ∧ t.pc < hi := by
  rw [labelIn] at h
  rw [jump] at hStep
  cases hLabel : findLabel f P.text with
  | none =>
    rw [hLabel] at h
    exact absurd h Bool.false_ne_true
  | some i =>
    rw [hLabel] at h hStep
    cases hStep
    exact ⟨⟨fun _ => rfl, rfl, rfl, rfl⟩, of_decide_eq_true h⟩

/-- A conditional branch, taken or not. -/
theorem branch_labelIn {f : σ} {taken : Prop} [Decidable taken] (hLo : lo ≤ s.pc)
    (h : (labelIn P.text lo hi f && decide (s.pc + 1 < hi)) = true)
    (hStep : (if taken then jump P f s else .next { s with pc := s.pc + 1 }) = .next t) :
    Kept stores s t ∧ lo ≤ t.pc ∧ t.pc < hi := by
  obtain ⟨hLabel, hNext⟩ := (Bool.and_eq_true _ _).mp h
  by_cases hTaken : taken
  · rw [if_pos hTaken] at hStep
    exact jump_labelIn hLabel hStep
  · rw [if_neg hTaken] at hStep
    cases hStep
    exact ⟨⟨fun _ => rfl, rfl, rfl, rfl⟩, Nat.le_succ_of_le hLo, of_decide_eq_true hNext⟩

/-- One step inside: to another instruction of the stretch, or back to the caller. -/
theorem Confined.step (hConfined : Confined P.text stores rets lo hi) (hLo : lo ≤ s.pc)
    (hHi : s.pc < hi) (hStep : step P s = .next t) :
    Kept stores s t ∧ (lo ≤ t.pc ∧ t.pc < hi ∨ rets = true ∧ P.find (s.gpr 30) = some t.pc) := by
  have hAt : confinedAt P.text stores rets lo hi s.pc = true := by
    have h := hConfined (s.pc - lo) (by omega)
    rwa [Nat.add_sub_cancel' hLo] at h
  rw [confinedAt] at hAt
  cases hCode : (code P.text)[s.pc]? with
  | none =>
    rw [hCode] at hAt
    exact absurd hAt Bool.false_ne_true
  | some i =>
    rw [hCode] at hAt
    rw [A64.step, hCode] at hStep
    cases i with
    | b f => exact (jump_labelIn hAt hStep).imp_right Or.inl
    | bCond c f => exact (branch_labelIn hLo hAt hStep).imp_right Or.inl
    | cbz n f => exact (branch_labelIn hLo hAt hStep).imp_right Or.inl
    | cbnz n f => exact (branch_labelIn hLo hAt hStep).imp_right Or.inl
    | bl f =>
      simp only [jump, Option.isNone_iff_eq_none.mp hAt] at hStep
      cases hStep
    | ret =>
      simp only at hStep
      split at hStep
      · next i hFind =>
        cases hStep
        exact ⟨⟨fun _ => rfl, rfl, rfl, rfl⟩, Or.inr ⟨hAt, hFind⟩⟩
      · cases hStep
    | _ =>
      obtain ⟨hQuiet, hNext⟩ := (Bool.and_eq_true _ _).mp hAt
      simp only at hStep
      split at hStep
      · next u hEffect =>
        cases hStep
        obtain ⟨hMem, hSys, hStack, hLr⟩ := Instr.quiet_effect hQuiet hEffect
        exact ⟨⟨hMem, hSys, hStack, hLr⟩, Or.inl ⟨Nat.le_succ_of_le hLo, of_decide_eq_true hNext⟩⟩
      · cases hStep

/-- **A stretch of code keeps** what each of its instructions keeps, up to its return. -/
theorem Confined.steps (hConfined : Confined P.text stores rets lo hi) (hLo : lo ≤ s.pc)
    (hHi : s.pc < hi) (hSteps : Steps P s t) :
    (Kept stores s t ∧ lo ≤ t.pc ∧ t.pc < hi) ∨ rets = true ∧
      ∃ u, Steps P s u ∧ Steps P u t ∧ Kept stores s u ∧ P.find (s.gpr 30) = some u.pc := by
  induction hSteps with
  | refl => exact Or.inl ⟨Kept.refl s, hLo, hHi⟩
  | @tail v w hRest hStep ih =>
    rcases ih with ⟨hKept, hvLo, hvHi⟩ | ⟨hRets, u, hBefore, hAfter, hKept, hFind⟩
    · obtain ⟨hKept', hIn | ⟨hRets, hFind⟩⟩ := hConfined.step hvLo hvHi hStep
      · exact Or.inl ⟨hKept.trans hKept', hIn⟩
      · rw [hKept.lr_eq] at hFind
        exact Or.inr ⟨hRets, w, hRest.tail hStep, ReflTransGen.refl, hKept.trans hKept', hFind⟩
    · exact Or.inr ⟨hRets, u, hBefore, hAfter.tail hStep, hKept, hFind⟩

/-- A stretch of code without a `ret` is not left but by calls. -/
theorem Confined.stays (hConfined : Confined P.text stores false lo hi) (hLo : lo ≤ s.pc)
    (hHi : s.pc < hi) (hSteps : Steps P s t) : Kept stores s t ∧ lo ≤ t.pc ∧ t.pc < hi := by
  rcases hConfined.steps hLo hHi hSteps with hIn | ⟨hRets, -⟩
  · exact hIn
  · exact absurd hRets Bool.false_ne_true

-- ---------------------------------------------------------------------------
-- Runs
-- ---------------------------------------------------------------------------

/-- A machine at an instruction of the program, or inside a function of another object
that was called in state `s`. -/
inductive Config (σ : Type) where
  | at (s : State)
  | inside (f : σ) (s : State)

/-- Runs from `s` with the calls they make. `returns f u v`: the function `f`, called in
state `u`, may return in state `v`. -/
inductive Run (P : Program σ) (returns : σ → State → State → Prop) (s : State) :
    List (σ × State) → Config σ → Prop where
  | start : Run P returns s [] (.at s)
  | step {log t u} (hRun : Run P returns s log (.at t)) (hStep : step P t = .next u) :
      Run P returns s log (.at u)
  | call {log t f u} (hRun : Run P returns s log (.at t)) (hCall : step P t = .call f u) :
      Run P returns s (log ++ [(f, u)]) (.inside f u)
  | resume {log f u v} (hRun : Run P returns s log (.inside f u)) (hReturns : returns f u v) :
      Run P returns s log (.at v)

variable {returns : σ → State → State → Prop} {log : List (σ × State)} {c : Config σ}

/-- **A run up to its first call**, and what follows when the function has returned. -/
theorem Run.of_calls {f : σ} (hCalls : Calls P s f u) (hRun : Run P returns s log c) :
    (log = [] ∧ ∃ t, c = .at t ∧ Steps P s t) ∨ (log = [(f, u)] ∧ c = .inside f u) ∨
      ∃ v rest, log = (f, u) :: rest ∧ returns f u v ∧ Run P returns v rest c := by
  induction hRun with
  | start => exact Or.inl ⟨rfl, s, rfl, ReflTransGen.refl⟩
  | @step log t w _ hStep ih =>
    rcases ih with ⟨hLog, t', hAt, hSteps⟩ | ⟨-, hAt⟩ | ⟨v, rest, hLog, hReturns, hRest⟩
    · cases hAt
      exact Or.inl ⟨hLog, w, rfl, hSteps.tail hStep⟩
    · cases hAt
    · exact Or.inr (Or.inr ⟨v, rest, hLog, hReturns, hRest.step hStep⟩)
  | @call log t g w _ hCall ih =>
    rcases ih with ⟨hLog, t', hAt, hSteps⟩ | ⟨-, hAt⟩ | ⟨v, rest, hLog, hReturns, hRest⟩
    · cases hAt
      obtain ⟨rfl, rfl⟩ := hCalls.unique ⟨t, hSteps, hCall⟩
      exact Or.inr (Or.inl ⟨by rw [hLog, List.nil_append], rfl⟩)
    · cases hAt
    · exact Or.inr (Or.inr ⟨v, rest ++ [(g, w)], by rw [hLog, List.cons_append], hReturns,
        hRest.call hCall⟩)
  | @resume log g w v _ hReturns ih =>
    rcases ih with ⟨-, t', hAt, -⟩ | ⟨hLog, hAt⟩ | ⟨v', rest, hLog, hReturns', hRest⟩
    · cases hAt
    · cases hAt
      exact Or.inr (Or.inr ⟨v, [], hLog, hReturns, Run.start⟩)
    · exact Or.inr (Or.inr ⟨v', rest, hLog, hReturns', hRest.resume hReturns⟩)

/-- A run behind a run. -/
theorem Run.append {log' : List (σ × State)} (hRun : Run P returns s log (.at t))
    (hRest : Run P returns t log' c) : Run P returns s (log ++ log') c := by
  induction hRest with
  | start => rwa [List.append_nil]
  | step _ hStep ih => exact ih.step hStep
  | call _ hCall ih =>
    rw [← List.append_assoc]
    exact ih.call hCall
  | resume _ hReturns ih => exact ih.resume hReturns

theorem Steps.run (hSteps : Steps P s t) : Run P returns s [] (.at t) := by
  induction hSteps with
  | refl => exact Run.start
  | tail _ hStep ih => exact ih.step hStep

/-- The run to a call. -/
theorem Calls.run {f : σ} (hCalls : Calls P s f u) : Run P returns s [(f, u)] (.inside f u) := by
  obtain ⟨t, hSteps, hCall⟩ := hCalls
  exact (Steps.run hSteps).call hCall

/-- The state goes on for ever within the program. -/
def Diverges (P : Program σ) (s : State) : Prop := ∀ t, Steps P s t → ∃ u, step P t = .next u

/-- A set of states that a step leads back into. -/
theorem Diverges.of_invariant (inv : State → Prop)
    (hStep : ∀ t, inv t → ∃ u, step P t = .next u ∧ inv u) (hStart : inv s) : Diverges P s := by
  intro t hSteps
  have hInv : inv t := by
    induction hSteps with
    | refl => exact hStart
    | tail _ hNext ih =>
      obtain ⟨u, hNext', hu⟩ := hStep _ ih
      rwa [← Outcome.next.inj (hNext'.symm.trans hNext)]
  obtain ⟨u, hNext, -⟩ := hStep t hInv
  exact ⟨u, hNext⟩

/-- A run that diverges makes no call. -/
theorem Run.of_diverges (hDiverges : Diverges P s) (hRun : Run P returns s log c) :
    log = [] ∧ ∃ t, c = .at t ∧ Steps P s t := by
  induction hRun with
  | start => exact ⟨rfl, s, rfl, ReflTransGen.refl⟩
  | @step log t w _ hStep ih =>
    obtain ⟨hLog, t', hAt, hSteps⟩ := ih
    cases hAt
    exact ⟨hLog, w, rfl, hSteps.tail hStep⟩
  | call _ hCall ih =>
    obtain ⟨-, t', hAt, hSteps⟩ := ih
    cases hAt
    obtain ⟨u, hNext⟩ := hDiverges _ hSteps
    rw [hNext] at hCall
    cases hCall
  | resume _ _ ih =>
    obtain ⟨-, t', hAt, -⟩ := ih
    cases hAt

theorem Calls.after {f : σ} (hSteps : Steps P s t) (hCalls : Calls P t f u) : Calls P s f u := by
  obtain ⟨v, hRest, hCall⟩ := hCalls
  exact ⟨v, hSteps.trans hRest, hCall⟩

/-- A call that lies ahead still does after some steps. -/
theorem Calls.of_steps {f : σ} (hCalls : Calls P s f u) (hSteps : Steps P s t) :
    Calls P t f u := by
  induction hSteps using ReflTransGen.head_induction_on with
  | refl => exact hCalls
  | head hNext _ ih =>
    obtain ⟨v, hSteps', hCall⟩ := hCalls
    cases hSteps' using ReflTransGen.head_induction_on with
    | refl =>
      rw [hNext] at hCall
      cases hCall
    | head hNext' hRest =>
      obtain rfl := Outcome.next.inj (hNext.symm.trans hNext')
      exact ih ⟨v, hRest, hCall⟩

/-- A run to a call that does not return: it is on the way there, or inside. -/
theorem Run.of_lastCall {f : σ} (hCalls : Calls P s f u) (hLast : ∀ v, ¬ returns f u v)
    (hRun : Run P returns s log c) :
    (log = [] ∨ log = [(f, u)]) ∧ ∀ t, c = .at t → Calls P t f u := by
  rcases hRun.of_calls hCalls with ⟨hLog, t, hAt, hSteps⟩ | ⟨hLog, hInside⟩ | ⟨v, -, -, hReturns, -⟩
  · refine ⟨Or.inl hLog, fun t' ht => ?_⟩
    rw [hAt] at ht
    cases ht
    exact hCalls.of_steps hSteps
  · refine ⟨Or.inr hLog, fun t ht => ?_⟩
    rw [hInside] at ht
    cases ht
  · exact absurd hReturns (hLast v)

end A64
