import Mathlib.Logic.Relation
import Mathlib.Logic.Function.Basic
import Mathlib.Algebra.Group.Nat.Defs
import Mathlib.Algebra.GroupWithZero.Nat
import Kernalite.Lib.ByteMemory

/-!
# A subset of A64

The instructions a boot path is made of, on a state of general registers, stack
pointer, flags, system registers and flat memory. A program is a list of labels
and instructions; its labels and the symbols of other objects are one type `σ`.
Memory holds data only, and cache maintenance and barriers do nothing to it.
Accesses must be aligned, as they must be to device memory.

* `Steps.block` — a stretch of straight-line code runs as `runBlock` computes;
* `Calls.unique` — execution is deterministic, so what a program calls with which
  state is determined.
-/

namespace A64

open ByteMemory Relation

inductive SysReg where
  | mpidrEl1
  | ctrEl0
  | currentEl
  | sctlrEl1
  | vbarEl1
  deriving DecidableEq, Repr

/-- Register numbers are written as numerals. -/
instance gprCount_neZero : NeZero 31 := ⟨by decide⟩

inductive Reg where
  | x (n : Fin 31)
  | zr
  | sp
  deriving DecidableEq, Repr

structure Flags where
  n : Bool
  z : Bool
  c : Bool
  v : Bool
  deriving DecidableEq, Repr

structure State where
  pc : Nat
  gpr : Fin 31 → BitVec 64
  stack : BitVec 64
  flags : Flags
  sys : SysReg → BitVec 64
  mem : Mem

inductive Cond where
  | eq
  | ne
  | lo
  deriving DecidableEq, Repr

def Cond.holds (f : Flags) : Cond → Bool
  | .eq => f.z
  | .ne => !f.z
  | .lo => !f.c

/-- Instructions; `σ` names labels and symbols. -/
inductive Instr (σ : Type) where
  | mrs (d : Reg) (r : SysReg)
  | msr (r : SysReg) (n : Reg)
  | mov (d n : Reg)
  | movImm (d : Reg) (imm : BitVec 64)
  | ldrImm (d : Reg) (imm : BitVec 64)
  | ldrSym (d : Reg) (s : σ)
  | adr (d : Reg) (s : σ)
  | adrp (d : Reg) (s : σ)
  | addLo12 (d n : Reg) (s : σ)
  | addImm (d n : Reg) (imm : BitVec 64)
  | subImm (d n : Reg) (imm : BitVec 64)
  | andImm (d n : Reg) (imm : BitVec 64)
  | add (d n m : Reg)
  | orr (d n m : Reg)
  | bic (d n m : Reg)
  | lsl (d n m : Reg)
  | ubfm (d n : Reg) (immr imms : Nat)
  | cmp (n m : Reg)
  | tst (n m : Reg)
  | subsImm (d n : Reg) (imm : BitVec 64)
  | strPost (t n : Reg) (imm : BitVec 64)
  | stp (t u n : Reg) (imm : BitVec 64)
  | stpPre (t u n : Reg) (imm : BitVec 64)
  | ldpPost (t u n : Reg) (imm : BitVec 64)
  | dcCivac (n : Reg)
  | dcIvac (n : Reg)
  | dmbSy
  | dsbSy
  | isb
  | nop
  | wfe
  | b (s : σ)
  | bCond (c : Cond) (s : σ)
  | cbz (n : Reg) (s : σ)
  | cbnz (n : Reg) (s : σ)
  | bl (s : σ)
  | ret

inductive Line (σ : Type) where
  | label (s : σ)
  | instr (i : Instr σ)

namespace State

def get (s : State) : Reg → BitVec 64
  | .x n => s.gpr n
  | .zr => 0
  | .sp => s.stack

def set (s : State) (r : Reg) (v : BitVec 64) : State :=
  match r with
  | .x n => { s with gpr := Function.update s.gpr n v }
  | .zr => s
  | .sp => { s with stack := v }

@[simp] theorem set_gpr_self (s : State) (n : Fin 31) (v : BitVec 64) :
    (s.set (.x n) v).gpr n = v := by
  simp only [set, Function.update_self]

theorem set_gpr_ne (s : State) {n m : Fin 31} (v : BitVec 64) (h : m ≠ n) :
    (s.set (.x n) v).gpr m = s.gpr m := by
  simp only [set, Function.update_of_ne h]

/-- Flags of a comparison `a - b`. -/
def subFlags (a b : BitVec 64) : Flags where
  n := (a - b).msb
  z := a == b
  c := decide (b.toNat ≤ a.toNat)
  v := (a.msb != b.msb) && ((a - b).msb != a.msb)

/-- Store a doubleword, if the address is aligned. -/
def store (s : State) (a : BitVec 64) (v : BitVec 64) : Option State :=
  if a.toNat % 8 = 0 then some { s with mem := store64 s.mem a.toNat v } else none

/-- Load a doubleword, if the address is aligned. -/
def load (s : State) (a : BitVec 64) : Option (BitVec 64) :=
  if a.toNat % 8 = 0 then some (load64 s.mem a.toNat) else none

end State

/-- What an instruction that is no branch does, apart from the program counter;
`addr` gives the addresses of symbols. `none` is a fault. -/
def Instr.effect {σ : Type} (addr : σ → BitVec 64) (s : State) : Instr σ → Option State
  | .mrs d r => some (s.set d (s.sys r))
  | .msr r n => some { s with sys := Function.update s.sys r (s.get n) }
  | .mov d n => some (s.set d (s.get n))
  | .movImm d imm | .ldrImm d imm => some (s.set d imm)
  | .ldrSym d a | .adr d a => some (s.set d (addr a))
  | .adrp d a => some (s.set d ((addr a >>> 12) <<< 12))
  | .addLo12 d n a => some (s.set d (s.get n + (addr a &&& 0xFFF)))
  | .addImm d n imm => some (s.set d (s.get n + imm))
  | .subImm d n imm => some (s.set d (s.get n - imm))
  | .andImm d n imm => some (s.set d (s.get n &&& imm))
  | .add d n m => some (s.set d (s.get n + s.get m))
  | .orr d n m => some (s.set d (s.get n ||| s.get m))
  | .bic d n m => some (s.set d (s.get n &&& ~~~s.get m))
  | .lsl d n m => some (s.set d (s.get n <<< ((s.get m).toNat % 64)))
  | .ubfm d n immr imms =>
    if immr ≤ imms then
      some (s.set d (((s.get n >>> immr).setWidth (imms - immr + 1)).setWidth 64))
    else some (s.set d (((s.get n).setWidth (imms + 1)).setWidth 64 <<< (64 - immr)))
  | .cmp n m => some { s with flags := State.subFlags (s.get n) (s.get m) }
  | .tst n m =>
    some { s with flags := ⟨(s.get n &&& s.get m).msb, s.get n &&& s.get m == 0, false, false⟩ }
  | .subsImm d n imm =>
    some { s.set d (s.get n - imm) with flags := State.subFlags (s.get n) imm }
  | .strPost t n imm => (s.store (s.get n) (s.get t)).map (·.set n (s.get n + imm))
  | .stp t u n imm =>
    (s.store (s.get n + imm) (s.get t)).bind (·.store (s.get n + imm + 8) (s.get u))
  | .stpPre t u n imm =>
    ((s.store (s.get n + imm) (s.get t)).bind (·.store (s.get n + imm + 8) (s.get u))).map
      (·.set n (s.get n + imm))
  | .ldpPost t u n imm =>
    (s.load (s.get n)).bind fun v => (s.load (s.get n + 8)).map fun w =>
      ((s.set t v).set u w).set n (s.get n + imm)
  | .dcCivac _ | .dcIvac _ | .dmbSy | .dsbSy | .isb | .nop | .wfe => some s
  | .b _ | .bCond _ _ | .cbz _ _ | .cbnz _ _ | .bl _ | .ret => none

/-- The instructions of a listing. -/
def code {σ : Type} : List (Line σ) → List (Instr σ)
  | [] => []
  | .label _ :: rest => code rest
  | .instr i :: rest => i :: code rest

/-- The index of the instruction a label stands before. -/
def findLabel {σ : Type} [DecidableEq σ] (s : σ) : List (Line σ) → Option Nat
  | [] => none
  | .label l :: rest => if l = s then some 0 else findLabel s rest
  | .instr _ :: rest => (findLabel s rest).map (· + 1)

/-- A listing, the addresses of its symbols, and where its instructions are
placed. -/
structure Program (σ : Type) where
  text : List (Line σ)
  addr : σ → BitVec 64
  place : Nat → BitVec 64
  find : BitVec 64 → Option Nat
  find_place : ∀ i, i < (code text).length → find (place i) = some i

/-- A step goes on, or calls a symbol the program does not define, or faults. -/
inductive Outcome (σ : Type) where
  | next (s : State)
  | call (f : σ) (s : State)
  | fault

section Semantics

variable {σ : Type} [DecidableEq σ] (P : Program σ)

/-- Continue at a label. -/
def jump (f : σ) (s : State) : Outcome σ :=
  match findLabel f P.text with
  | some i => .next { s with pc := i }
  | none => .call f s

def step (s : State) : Outcome σ :=
  match (code P.text)[s.pc]? with
  | none => .fault
  | some (.b f) => jump P f s
  | some (.bCond c f) => if c.holds s.flags then jump P f s else .next { s with pc := s.pc + 1 }
  | some (.cbz n f) => if s.get n = 0 then jump P f s else .next { s with pc := s.pc + 1 }
  | some (.cbnz n f) => if s.get n ≠ 0 then jump P f s else .next { s with pc := s.pc + 1 }
  | some (.bl f) => jump P f (s.set (.x 30) (P.place (s.pc + 1)))
  | some .ret =>
    match P.find (s.gpr 30) with
    | some i => .next { s with pc := i }
    | none => .fault
  | some i =>
    match i.effect P.addr s with
    | some s' => .next { s' with pc := s.pc + 1 }
    | none => .fault

/-- Any number of steps within the program. -/
def Steps : State → State → Prop := ReflTransGen fun s s' => step P s = .next s'

/-- Execution from `s` comes to call `f`, in state `s'`. -/
def Calls (s : State) (f : σ) (s' : State) : Prop := ∃ t, Steps P s t ∧ step P t = .call f s'

variable {P} {s s' t : State}

theorem Steps.one (h : step P s = .next s') : Steps P s s' := ReflTransGen.single h

theorem Steps.trans (h : Steps P s s') (h' : Steps P s' t) : Steps P s t := ReflTransGen.trans h h'

/-- **Execution is deterministic.** -/
theorem Calls.unique {f g : σ} (h : Calls P s f s') (h' : Calls P s g t) : f = g ∧ s' = t := by
  obtain ⟨u, hSteps, hCall⟩ := h
  obtain ⟨v, hSteps', hCall'⟩ := h'
  induction hSteps using ReflTransGen.head_induction_on with
  | refl =>
    cases hSteps' using ReflTransGen.head_induction_on with
    | refl =>
      rw [hCall] at hCall'
      cases hCall'
      exact ⟨rfl, rfl⟩
    | head hStep _ =>
      rw [hCall] at hStep
      cases hStep
  | head hStep _ ih =>
    cases hSteps' using ReflTransGen.head_induction_on with
    | refl =>
      rw [hCall'] at hStep
      cases hStep
    | head hStep' hRest =>
      rw [hStep] at hStep'
      cases hStep'
      exact ih hRest

-- ---------------------------------------------------------------------------
-- Straight-line code
-- ---------------------------------------------------------------------------

/-- The effect of a stretch of code without branches. -/
def runBlock (addr : σ → BitVec 64) : List (Instr σ) → State → Option State
  | [], s => some s
  | i :: is, s =>
    match i.effect addr s with
    | some s' => runBlock addr is { s' with pc := s.pc + 1 }
    | none => none

theorem step_of_effect {i : Instr σ} (hCode : (code P.text)[s.pc]? = some i)
    (hEffect : i.effect P.addr s = some s') : step P s = .next { s' with pc := s.pc + 1 } := by
  cases i with
  | b | bCond | cbz | cbnz | bl | ret => exact absurd hEffect (by simp [Instr.effect])
  | _ => simp only [step, hCode, hEffect]

/-- Straight-line code that lies at the program counter runs through. -/
theorem Steps.prefix {is : List (Instr σ)} (hCode : is <+: (code P.text).drop s.pc)
    (hRun : runBlock P.addr is s = some s') : Steps P s s' := by
  induction is generalizing s with
  | nil =>
    rw [runBlock, Option.some.injEq] at hRun
    exact hRun ▸ ReflTransGen.refl
  | cons i is ih =>
    rw [runBlock] at hRun
    obtain ⟨rest, hRest⟩ := hCode
    have hHead : (code P.text)[s.pc]? = some i := by
      rw [← List.head?_drop, ← hRest]
      rfl
    split at hRun
    · next t hEffect =>
      refine (Steps.one (step_of_effect hHead hEffect)).trans (ih ?_ hRun)
      refine ⟨rest, ?_⟩
      rw [← List.tail_drop, ← hRest]
      rfl
    · exact absurd hRun (by simp)

/-- **Straight-line code**: the next `n` instructions, if none of them branches. -/
theorem Steps.block (n : Nat) (hRun : runBlock P.addr (((code P.text).drop s.pc).take n) s = some s') :
    Steps P s s' :=
  Steps.prefix (List.take_prefix _ _) hRun

-- ---------------------------------------------------------------------------
-- Stores
-- ---------------------------------------------------------------------------

theorem Steps.strPost {r n : Reg} {imm : BitVec 64}
    (hCode : (code P.text)[s.pc]? = some (.strPost r n imm)) (hAligned : (s.get n).toNat % 8 = 0) :
    Steps P s { State.set { s with mem := store64 s.mem (s.get n).toNat (s.get r) } n
      (s.get n + imm) with pc := s.pc + 1 } := by
  refine Steps.one (step_of_effect hCode ?_)
  simp only [Instr.effect, State.store, hAligned, if_true, Option.map_some]

/-- A pair of doublewords at `a`. -/
theorem step_stp {r u n : Reg} {imm : BitVec 64} {a : Nat}
    (hCode : (code P.text)[s.pc]? = some (.stp r u n imm)) (hAddr : (s.get n + imm).toNat = a)
    (hAligned : a % 8 = 0) (hRoom : a + 16 ≤ 2 ^ 64) :
    step P s = .next { s with
      pc := s.pc + 1
      mem := store64 (store64 s.mem a (s.get r)) (a + 8) (s.get u) } := by
  have hNext : (s.get n + imm + 8).toNat = a + 8 := by
    rw [BitVec.toNat_add, hAddr]
    exact Nat.mod_eq_of_lt (show a + 8 < 2 ^ 64 by omega)
  have hEffect : (Instr.stp r u n imm).effect P.addr s =
      some { s with mem := store64 (store64 s.mem a (s.get r)) (a + 8) (s.get u) } := by
    simp only [Instr.effect, State.store, hAddr, hNext, hAligned, Nat.add_mod_right, if_true,
      Option.bind_some]
  exact step_of_effect hCode hEffect

/-- A pair of doublewords at `a`, to which the address register is moved. -/
theorem Steps.stpPre {r u n : Reg} {d : BitVec 64} {a : Nat}
    (hCode : (code P.text)[s.pc]? = some (.stpPre r u n d)) (hAddr : (s.get n + d).toNat = a)
    (hAligned : a % 8 = 0) (hRoom : a + 16 ≤ 2 ^ 64) :
    Steps P s { State.set { s with
        mem := store64 (store64 s.mem a (s.get r)) (a + 8) (s.get u) } n (s.get n + d) with
      pc := s.pc + 1 } := by
  have hNext : (s.get n + d + 8).toNat = a + 8 := by
    rw [BitVec.toNat_add, hAddr]
    exact Nat.mod_eq_of_lt (show a + 8 < 2 ^ 64 by omega)
  refine Steps.one (step_of_effect hCode ?_)
  simp only [Instr.effect, State.store, hAddr, hNext, hAligned, Nat.add_mod_right, if_true,
    Option.bind_some, Option.map_some]

/-- A pair of doublewords is loaded from an aligned address. -/
theorem step_ldpPost {r u n : Reg} {d : BitVec 64}
    (hCode : (code P.text)[s.pc]? = some (.ldpPost r u n d)) (hAligned : (s.get n).toNat % 8 = 0) :
    ∃ t, step P s = .next t ∧ t.pc = s.pc + 1 := by
  have hNext : (s.get n + 8).toNat % 8 = 0 := by
    rw [BitVec.toNat_add]
    change ((s.get n).toNat + 8) % 2 ^ 64 % 8 = 0
    omega
  have hEffect : (Instr.ldpPost r u n d).effect P.addr s =
      some (((s.set r (load64 s.mem (s.get n).toNat)).set u (load64 s.mem (s.get n + 8).toNat)).set n
        (s.get n + d)) := by
    simp only [Instr.effect, State.load, hAligned, hNext, if_true, Option.bind_some, Option.map_some]
  exact ⟨_, step_of_effect hCode hEffect, rfl⟩

-- ---------------------------------------------------------------------------
-- Branches
-- ---------------------------------------------------------------------------

/-- A conditional branch, taken. -/
theorem Steps.branch {c : Cond} {f : σ} {i : Nat} (hCode : (code P.text)[s.pc]? = some (.bCond c f))
    (hLabel : findLabel f P.text = some i) (hHolds : c.holds s.flags = true) :
    Steps P s { s with pc := i } :=
  Steps.one (by rw [step, hCode]; simp only [hHolds, if_true, jump, hLabel])

/-- A conditional branch, not taken. -/
theorem Steps.noBranch {c : Cond} {f : σ} (hCode : (code P.text)[s.pc]? = some (.bCond c f))
    (hHolds : c.holds s.flags = false) : Steps P s { s with pc := s.pc + 1 } :=
  Steps.one (by rw [step, hCode]; simp only [hHolds, Bool.false_eq_true, if_false])

theorem Steps.cbz {n : Reg} {f : σ} {i : Nat} (hCode : (code P.text)[s.pc]? = some (.cbz n f))
    (hLabel : findLabel f P.text = some i) (hZero : s.get n = 0) : Steps P s { s with pc := i } :=
  Steps.one (by rw [step, hCode]; simp only [hZero, if_true, jump, hLabel])

theorem Steps.noCbz {n : Reg} {f : σ} (hCode : (code P.text)[s.pc]? = some (.cbz n f))
    (hNonzero : s.get n ≠ 0) : Steps P s { s with pc := s.pc + 1 } :=
  Steps.one (by rw [step, hCode]; simp only [hNonzero, if_false])

theorem step_noCbnz {n : Reg} {f : σ} (hCode : (code P.text)[s.pc]? = some (.cbnz n f))
    (hZero : s.get n = 0) : step P s = .next { s with pc := s.pc + 1 } := by
  rw [step, hCode]
  simp only [hZero, ne_eq, not_true_eq_false, if_false]

theorem Steps.cbnz {n : Reg} {f : σ} {i : Nat} (hCode : (code P.text)[s.pc]? = some (.cbnz n f))
    (hLabel : findLabel f P.text = some i) (hNonzero : s.get n ≠ 0) :
    Steps P s { s with pc := i } :=
  Steps.one (by rw [step, hCode]; simp only [hNonzero, ne_eq, not_false_eq_true, if_true, jump, hLabel])

theorem Steps.goto {f : σ} {i : Nat} (hCode : (code P.text)[s.pc]? = some (.b f))
    (hLabel : findLabel f P.text = some i) : Steps P s { s with pc := i } :=
  Steps.one (by rw [step, hCode]; simp only [jump, hLabel])

/-- A call within the program. -/
theorem Steps.enter {f : σ} {i : Nat} (hCode : (code P.text)[s.pc]? = some (.bl f))
    (hLabel : findLabel f P.text = some i) :
    Steps P s { s.set (.x 30) (P.place (s.pc + 1)) with pc := i } :=
  Steps.one (by rw [step, hCode]; simp only [jump, hLabel])

/-- A return. -/
theorem Steps.leave {i : Nat} (hCode : (code P.text)[s.pc]? = some .ret)
    (hFind : P.find (s.gpr 30) = some i) : Steps P s { s with pc := i } :=
  Steps.one (by rw [step, hCode]; simp only [hFind])

end Semantics

end A64
