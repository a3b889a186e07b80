import Kernalite.Lib.A64Runs
import Kernalite.Boot.HandOff

/-!
# Kernalite — what the entry code can come to

`primary_entry` for every core, exception level and image, across the C functions it
calls. These are a parameter: of what they do, only the calling convention is assumed
(`Conforms`).

* `halt_calls`, `notEl1_calls`, `el1_calls` — the call each way of the code ends in;
* `panicPrintC_diverges` — behind the panic message the core waits for ever;
* `primaryEntry_runs` — the calls of every run, and that no run faults.
-/

namespace Kernalite

open A64 ByteMemory

variable {I : BootImage} {s t u : State}

/-- `emergency_stack` in `.data`: aligned, with its 256 bytes below the top. -/
structure EmergencyStack (I : BootImage) : Prop where
  aligned : (I.addr .emergencyStackTop).toNat % 16 = 0
  start   : align 8 I.sections.rodataEnd + 256 ≤ (I.addr .emergencyStackTop).toNat
  inData  : (I.addr .emergencyStackTop).toNat ≤ I.sections.dataEnd

/-- The calling convention: a function returns to its caller, with the stack pointer it
was given. `exit` does not return. -/
structure Conforms (I : BootImage) (returns : BootSym → State → State → Prop) : Prop where
  toCaller : ∀ {f u v}, returns f u v → I.find (u.gpr 30) = some v.pc
  stack_eq : ∀ {f u v}, returns f u v → v.stack = u.stack
  noreturn : ∀ {u v}, ¬ returns .exit u v

/-- `exit` is called on the kernel's stack with the `x0` of state `s`; memory and system
registers are as they were there. -/
structure ExitCall (I : BootImage) (s u : State) : Prop where
  x0_eq    : u.gpr 0 = s.gpr 0
  stack_eq : u.stack = I.addr .stackTop
  mem_eq   : u.mem = s.mem
  sys_eq   : u.sys = s.sys

/-- `panic_print_c(ERROR_CODE_NOT_EL1)` is called on the emergency stack; no memory but the
boot arguments and its frame was written, and no system register. -/
structure PanicCall (I : BootImage) (s u : State) : Prop where
  x0_eq     : u.gpr 0 = errorCodeNotEl1
  stack_eq  : u.stack.toNat + 16 = (I.addr .emergencyStackTop).toNat
  link_eq   : I.find (u.gpr 30) = some 38
  sys_eq    : u.sys = s.sys
  mem_frame : ∀ a, (a < I.bootArgs ∨ I.bootArgs + 32 ≤ a) →
    (a < u.stack.toNat ∨ u.stack.toNat + 16 ≤ a) → u.mem a = s.mem a

/-- `SCTLR_EL1` with the MMU and the data cache off, little endian, alignment checks and
the instruction cache on; the other bits as they were. -/
def SctlrSetUp (before after : BitVec 64) : Prop :=
  ∀ i, i < 64 → after.getLsbD i =
    if i ∈ [0, 2, 24, 25] then false else if i ∈ [1, 12] then true else before.getLsbD i

/-- `main(boot_args)` is called on the kernel's stack, with the control register set up,
the exception vectors installed and `.bss` cleared. -/
structure MainCall (I : BootImage) (s u : State) : Prop where
  x0_eq     : u.gpr 0 = BitVec.ofNat 64 I.bootArgs
  stack_eq  : u.stack = I.addr .stackTop
  link_eq   : I.find (u.gpr 30) = some 24
  sctlr     : SctlrSetUp (s.sys .sctlrEl1) (u.sys .sctlrEl1)
  vbar_eq   : u.sys .vbarEl1 = I.addr .vectorTable
  sys_eq    : ∀ r, r ≠ .sctlrEl1 → r ≠ .vbarEl1 → u.sys r = s.sys r
  mem_eq    : ∀ a, u.mem a = if I.sections.bssStart ≤ a ∧ a < I.sections.bssEnd then 0 else s.mem a

-- ---------------------------------------------------------------------------
-- `halt`
-- ---------------------------------------------------------------------------

/-- From `halt` the code calls `exit`. -/
theorem halt_calls (hPc : s.pc = 24) : ∃ u, Calls I.program s .exit u ∧ ExitCall I s u := by
  obtain ⟨pc, gpr, stack, flags, sys, mem⟩ := s
  subst hPc
  have hBlock : ∃ t, Steps I.program ⟨24, gpr, stack, flags, sys, mem⟩ t ∧ t.pc = 26 ∧
      t.gpr 0 = gpr 0 ∧ t.stack = I.addr .stackTop ∧ t.mem = mem ∧ t.sys = sys :=
    ⟨_, Steps.block 2 rfl, rfl, rfl, rfl, rfl, rfl⟩
  obtain ⟨⟨pc, gpr', stack', flags', sys', mem'⟩, hSteps, hPc, hX0, hStack, hMem, hSys⟩ := hBlock
  obtain rfl : pc = 26 := hPc
  exact ⟨_, ⟨_, hSteps, rfl⟩, hX0, hStack, hMem, hSys⟩

/-- Every other core goes to `halt`. -/
theorem otherCore_calls (hPc : s.pc = 0) (hCore : s.sys .mpidrEl1 &&& 0xFF ≠ 0) :
    ∃ u, Calls I.program s .exit u ∧ ExitCall I s u := by
  have hBlock : ∃ t, Steps I.program s t ∧ t.pc = 2 ∧ t.gpr 19 = s.sys .mpidrEl1 &&& 0xFF ∧
      t.gpr 0 = s.gpr 0 ∧ t.mem = s.mem ∧ t.sys = s.sys := by
    obtain ⟨pc, gpr, stack, flags, sys, mem⟩ := s
    subst hPc
    exact ⟨_, Steps.block 2 rfl, rfl, rfl, rfl, rfl, rfl⟩
  obtain ⟨t, hSteps, hPc', h19, hX0, hMem, hSys⟩ := hBlock
  have hJump : Steps I.program t { t with pc := 24 } := by
    obtain ⟨pc, gpr, stack, flags, sys, mem⟩ := t
    obtain rfl : pc = 2 := hPc'
    exact Steps.cbnz (n := xr 19) rfl rfl fun hZero => hCore (h19.symm.trans hZero)
  obtain ⟨u, hCalls, hExit⟩ := halt_calls (I := I) (s := { t with pc := 24 }) rfl
  exact ⟨u, hCalls.after (hSteps.trans hJump), hExit.x0_eq.trans hX0, hExit.stack_eq,
    hExit.mem_eq.trans hMem, hExit.sys_eq.trans hSys⟩

-- ---------------------------------------------------------------------------
-- Subroutines
-- ---------------------------------------------------------------------------

/-- `dcache_inval_poc` is confined to its own code. -/
theorem dcacheInvalPoc_confined : Confined bootText false true 58 79 := by decide

/-- A call of `dcache_inval_poc` comes back with memory, system registers and stack pointer as
they were. -/
theorem dcacheInvalPoc_kept (hPc : s.pc = 10) :
    ∃ t, Steps I.program s t ∧ t.pc = 11 ∧ t.mem = s.mem ∧ t.sys = s.sys ∧ t.stack = s.stack := by
  have hEnter : Steps I.program s { s.set (xr 30) (I.place 11) with pc := 58 } := by
    obtain ⟨pc, gpr, stack, flags, sys, mem⟩ := s
    subst hPc
    exact Steps.enter rfl rfl
  have hFind : I.find ((s.set (xr 30) (I.place 11)).gpr 30) = some 11 := by
    rw [State.set_gpr_self]
    exact I.find_place 11 (by decide)
  obtain ⟨t, hSteps, hPc', -⟩ := dcacheInvalPoc_returns (I := I)
    (s := { s.set (xr 30) (I.place 11) with pc := 58 }) rfl hFind
  have hConfined := dcacheInvalPoc_confined
  rcases Confined.steps (P := I.program) hConfined (Nat.le_refl 58) (show 58 < 79 by omega) hSteps
    with ⟨-, hLo, -⟩ | ⟨-, u, hBefore, -, hKept, hFind'⟩
  · omega
  · exact ⟨u, hEnter.trans hBefore, Option.some.inj (hFind'.symm.trans hFind), hKept.mem_eq rfl,
      hKept.sys_eq, hKept.stack_eq⟩

/-- On core 0 the boot arguments are stored and their cache lines invalidated. -/
theorem core0_prepares (hPc : findLabel BootSym.primaryEntry bootText = some s.pc)
    (hCore : s.sys .mpidrEl1 &&& 0xFF = 0) :
    ∃ t, Steps I.program s t ∧ t.pc = 11 ∧ t.mem = storedArgs I s ∧ t.sys = s.sys := by
  obtain ⟨t₁, hGate, hPc₁, hMem₁, hSys₁, h0, h1, h2, h3⟩ := primaryEntry_core0 (I := I) hPc hCore
  obtain ⟨t₂, hSave, hPc₂, hMem₂, hSys₂⟩ := saveArgs (I := I) hPc₁
  obtain ⟨t₃, hInval, hPc₃, hMem₃, hSys₃, -⟩ := dcacheInvalPoc_kept (I := I) hPc₂
  refine ⟨t₃, (hGate.trans hSave).trans hInval, hPc₃, ?_, hSys₃.trans (hSys₂.trans hSys₁)⟩
  rw [hMem₃, hMem₂, storedArgs, storedArgs, hMem₁, h0, h1, h2, h3]

/-- The exception level is compared. -/
theorem setupSctlrEl1_compares (hPc : s.pc = 11) :
    ∃ t, Steps I.program s t ∧ t.pc = 30 ∧ t.mem = s.mem ∧ t.sys = s.sys ∧
      t.gpr 30 = I.place 12 ∧ t.flags = State.subFlags (s.sys .currentEl) el1Value := by
  obtain ⟨pc, gpr, stack, flags, sys, mem⟩ := s
  subst hPc
  have hEnter : Steps I.program ⟨11, gpr, stack, flags, sys, mem⟩
      ⟨27, Function.update gpr 30 (I.place 12), stack, flags, sys, mem⟩ := Steps.enter rfl rfl
  have hBlock : ∃ t, Steps I.program
      ⟨27, Function.update gpr 30 (I.place 12), stack, flags, sys, mem⟩ t ∧ t.pc = 30 ∧
      t.mem = mem ∧ t.sys = sys ∧ t.gpr 30 = I.place 12 ∧
      t.flags = State.subFlags (sys .currentEl) el1Value :=
    ⟨_, Steps.block 3 rfl, rfl, rfl, rfl, rfl, rfl⟩
  obtain ⟨t, hSteps, hRest⟩ := hBlock
  exact ⟨t, hEnter.trans hSteps, hRest⟩

-- ---------------------------------------------------------------------------
-- The assertion fails
-- ---------------------------------------------------------------------------

/-- The emergency stack and the call of `panic_print_c`. -/
theorem panicPrint_calls (hStack : EmergencyStack I) (hPc : s.pc = 31) :
    ∃ u, Calls I.program s .panicPrintC u ∧ u.gpr 0 = errorCodeNotEl1 ∧
      u.stack.toNat + 16 = (I.addr .emergencyStackTop).toNat ∧ I.find (u.gpr 30) = some 38 ∧
      u.sys = s.sys ∧
      ∀ a, (a < u.stack.toNat ∨ u.stack.toNat + 16 ≤ a) → u.mem a = s.mem a := by
  obtain ⟨hAligned, hStart, -⟩ := hStack
  obtain ⟨pc, gpr, stack, flags, sys, mem⟩ := s
  subst hPc
  have hSwitch : ∃ t, Steps I.program ⟨31, gpr, stack, flags, sys, mem⟩ t ∧ t.pc = 34 ∧
      t.stack = I.addr .emergencyStackTop ∧ t.mem = mem ∧ t.sys = sys :=
    ⟨_, Steps.block 3 rfl, rfl, adrp_add_lo12 _, rfl, rfl⟩
  obtain ⟨⟨pc, gpr', stack', flags', sys', mem'⟩, hSwitch, hPc', hTop, hMem, hSys⟩ := hSwitch
  obtain rfl : pc = 34 := hPc'
  simp only at hTop hMem hSys
  have hTopNat := (I.addr .emergencyStackTop).isLt
  have hFrame : (stack' + -16).toNat + 16 = (I.addr .emergencyStackTop).toNat := by
    rw [hTop]
    bv_omega
  have hPush := Steps.stpPre (P := I.program) (s := ⟨34, gpr', stack', flags', sys', mem'⟩)
    (r := xr 29) (u := xr 20) (n := .sp) (d := -16) (a := (stack' + -16).toNat) rfl rfl
    (by omega) (by omega)
  have hArgument : ∃ t, Steps I.program ⟨35, gpr', stack' + -16, flags', sys',
      store64 (store64 mem' (stack' + -16).toNat (gpr' 29)) ((stack' + -16).toNat + 8) (gpr' 20)⟩ t ∧
      t.pc = 37 ∧ t.gpr 0 = errorCodeNotEl1 ∧ t.stack = stack' + -16 ∧ t.sys = sys' ∧
      t.mem = store64 (store64 mem' (stack' + -16).toNat (gpr' 29)) ((stack' + -16).toNat + 8)
        (gpr' 20) := ⟨_, Steps.block 2 rfl, rfl, rfl, rfl, rfl, rfl⟩
  obtain ⟨t, hArgument, hPcT, hX0, hStackT, hSysT, hMemT⟩ := hArgument
  have hCall : step I.program t = .call .panicPrintC (t.set (xr 30) (I.place 38)) := by
    obtain ⟨pc, gpr, stack, flags, sys, mem⟩ := t
    obtain rfl : pc = 37 := hPcT
    rfl
  refine ⟨_, ⟨t, (hSwitch.trans hPush).trans hArgument, hCall⟩, ?_, ?_, ?_, hSysT.trans hSys, ?_⟩
  · exact (State.set_gpr_ne _ _ (by decide)).trans hX0
  · rw [← hFrame, ← hStackT]
    rfl
  · rw [State.set_gpr_self]
    exact I.find_place 38 (by decide)
  · intro a ha
    change a < t.stack.toNat ∨ t.stack.toNat + 16 ≤ a at ha
    change t.mem a = mem a
    rw [hStackT] at ha
    rw [hMemT, ← hMem, store64_outside (by omega), store64_outside (by omega)]

/-- Off EL1, core 0 prints the panic message and nothing else. -/
theorem notEl1_calls (hStack : EmergencyStack I)
    (hPc : findLabel BootSym.primaryEntry bootText = some s.pc)
    (hCore : s.sys .mpidrEl1 &&& 0xFF = 0) (hEl : s.sys .currentEl ≠ el1Value) :
    ∃ u, Calls I.program s .panicPrintC u ∧ PanicCall I s u := by
  obtain ⟨t₁, hPrepare, hPc₁, hMem₁, hSys₁⟩ := core0_prepares (I := I) hPc hCore
  obtain ⟨t₂, hCompare, hPc₂, hMem₂, hSys₂, -, hFlags⟩ := setupSctlrEl1_compares (I := I) hPc₁
  have hFails : Cond.eq.holds t₂.flags = false := by
    rw [hFlags, hSys₁]
    exact beq_eq_false_iff_ne.mpr hEl
  have hAssert : Steps I.program t₂ { t₂ with pc := 31 } := by
    obtain ⟨pc, gpr, stack, flags, sys, mem⟩ := t₂
    obtain rfl : pc = 30 := hPc₂
    exact Steps.noBranch rfl hFails
  obtain ⟨u, hCalls, hX0, hTop, hLink, hSys, hMem⟩ := panicPrint_calls hStack
    (s := { t₂ with pc := 31 }) rfl
  refine ⟨u, hCalls.after ((hPrepare.trans hCompare).trans hAssert), hX0, hTop, hLink,
    hSys.trans (hSys₂.trans hSys₁), fun a hArgs hFrame => ?_⟩
  rw [hMem a hFrame, hMem₂, hMem₁]
  unfold storedArgs
  rw [store64_outside (by omega), store64_outside (by omega), store64_outside (by omega),
    store64_outside (by omega)]

/-- **Behind the panic message the core waits for ever**, whatever `panic_print_c` left in
memory and registers. -/
theorem panicPrintC_diverges (hPc : s.pc = 38) (hAligned : s.stack.toNat % 8 = 0) :
    Diverges I.program s := by
  refine Diverges.of_invariant
    (fun t => (t.pc = 38 ∧ t.stack.toNat % 8 = 0) ∨ t.pc = 39 ∨ t.pc = 40) (fun t ht => ?_)
    (Or.inl ⟨hPc, hAligned⟩)
  obtain ⟨pc, gpr, stack, flags, sys, mem⟩ := t
  rcases ht with ⟨rfl, hStack⟩ | rfl | rfl
  · obtain ⟨t, hStep, hPcT⟩ := step_ldpPost (P := I.program)
      (s := ⟨38, gpr, stack, flags, sys, mem⟩) (r := xr 29) (u := xr 30) (n := .sp) (d := 16) rfl
      hStack
    exact ⟨t, hStep, Or.inr (Or.inl hPcT)⟩
  · exact ⟨⟨40, gpr, stack, flags, sys, mem⟩, rfl, Or.inr (Or.inr rfl)⟩
  · exact ⟨⟨39, gpr, stack, flags, sys, mem⟩, rfl, Or.inr (Or.inl rfl)⟩

-- ---------------------------------------------------------------------------
-- The assertion holds
-- ---------------------------------------------------------------------------

/-- `=1 << k` -/
def bitMask (k : Nat) : BitVec 64 := BitVec.ofNat 64 (1 <<< k)

theorem getLsbD_bitMask {k i : Nat} (hi : i < 64) : (bitMask k).getLsbD i = decide (k = i) := by
  rw [bitMask, BitVec.getLsbD_ofNat, Nat.one_shiftLeft, Nat.testBit_two_pow, decide_eq_true hi,
    Bool.true_and]

/-- `ldr x0, =1 << k` and `bic` -/
theorem getLsbD_bic (v : BitVec 64) (k : Nat) {i : Nat} (hi : i < 64) :
    (v &&& ~~~bitMask k).getLsbD i = if k = i then false else v.getLsbD i := by
  rw [BitVec.getLsbD_and, BitVec.getLsbD_not, getLsbD_bitMask hi, decide_eq_true hi]
  by_cases hEq : k = i <;> simp [hEq]

/-- `ldr x0, =1 << k` and `orr` -/
theorem getLsbD_orr (v : BitVec 64) (k : Nat) {i : Nat} (hi : i < 64) :
    (v ||| bitMask k).getLsbD i = if k = i then true else v.getLsbD i := by
  rw [BitVec.getLsbD_or, getLsbD_bitMask hi]
  by_cases hEq : k = i <;> simp [hEq]

/-- The value `setup_sctlr_el1` computes. -/
def sctlrValue (v : BitVec 64) : BitVec 64 :=
  (((((v &&& ~~~bitMask 0) ||| bitMask 1) &&& ~~~bitMask 2) ||| bitMask 12) &&& ~~~bitMask 24) &&&
    ~~~bitMask 25

theorem sctlrValue_setUp (v : BitVec 64) : SctlrSetUp v (sctlrValue v) := by
  intro i hi
  rw [sctlrValue, getLsbD_bic _ _ hi, getLsbD_bic _ _ hi, getLsbD_orr _ _ hi, getLsbD_bic _ _ hi,
    getLsbD_orr _ _ hi, getLsbD_bic _ _ hi]
  simp only [List.mem_cons, List.not_mem_nil, or_false]
  split_ifs <;> first | rfl | omega

/-- At EL1 `setup_sctlr_el1` returns with the control register set up. -/
theorem setupSctlrEl1_sets (hPc : s.pc = 11) (hEl : s.sys .currentEl = el1Value) :
    ∃ t, Steps I.program s t ∧ t.pc = 12 ∧ t.mem = s.mem ∧
      t.sys = Function.update s.sys .sctlrEl1 (sctlrValue (s.sys .sctlrEl1)) := by
  obtain ⟨t, hCompare, hPc', hMem, hSys, hLink, hFlags⟩ := setupSctlrEl1_compares (I := I) hPc
  have hHolds : Cond.eq.holds t.flags = true := by
    rw [hFlags, hEl]
    exact beq_self_eq_true el1Value
  obtain ⟨pc, gpr, stack, flags, sys, mem⟩ := t
  obtain rfl : pc = 30 := hPc'
  obtain rfl : sys = s.sys := hSys
  have hAssert : Steps I.program ⟨30, gpr, stack, flags, s.sys, mem⟩
      ⟨41, gpr, stack, flags, s.sys, mem⟩ := Steps.branch rfl rfl hHolds
  have hUpdate : ∃ u, Steps I.program ⟨41, gpr, stack, flags, s.sys, mem⟩ u ∧ u.pc = 57 ∧
      u.mem = mem ∧ u.gpr 30 = gpr 30 ∧
      u.sys = Function.update s.sys .sctlrEl1 (sctlrValue (s.sys .sctlrEl1)) :=
    ⟨_, Steps.block 16 rfl, rfl, rfl, rfl, rfl⟩
  obtain ⟨⟨pc, gpr', stack', flags', sys', mem'⟩, hUpdate, hPcU, hMemU, hLinkU, hSysU⟩ := hUpdate
  obtain rfl : pc = 57 := hPcU
  have hFind : I.find (gpr' 30) = some 12 :=
    (congrArg I.find (hLinkU.trans hLink)).trans (I.find_place 12 (by decide))
  have hRet : Steps I.program ⟨57, gpr', stack', flags', sys', mem'⟩
      ⟨12, gpr', stack', flags', sys', mem'⟩ := Steps.leave rfl hFind
  exact ⟨_, ((hCompare.trans hAssert).trans hUpdate).trans hRet, rfl, hMemU.trans hMem, hSysU⟩

/-- `install_vectors` returns with the vector base set. -/
theorem installVectors_sets (hPc : s.pc = 12) :
    ∃ t, Steps I.program s t ∧ t.pc = 13 ∧ t.mem = s.mem ∧
      t.sys = Function.update s.sys .vbarEl1 (I.addr .vectorTable) := by
  obtain ⟨pc, gpr, stack, flags, sys, mem⟩ := s
  subst hPc
  have hEnter : Steps I.program ⟨12, gpr, stack, flags, sys, mem⟩
      ⟨79, Function.update gpr 30 (I.place 13), stack, flags, sys, mem⟩ := Steps.enter rfl rfl
  have hBlock : ∃ t, Steps I.program
      ⟨79, Function.update gpr 30 (I.place 13), stack, flags, sys, mem⟩ t ∧ t.pc = 82 ∧
      t.mem = mem ∧ t.gpr 30 = I.place 13 ∧
      t.sys = Function.update sys .vbarEl1 (I.addr .vectorTable) :=
    ⟨_, Steps.block 3 rfl, rfl, rfl, rfl, rfl⟩
  obtain ⟨⟨pc, gpr', stack', flags', sys', mem'⟩, hBlock, hPc', hMem, hLink, hSys⟩ := hBlock
  obtain rfl : pc = 82 := hPc'
  have hFind : I.find (gpr' 30) = some 13 :=
    (congrArg I.find hLink).trans (I.find_place 13 (by decide))
  have hRet : Steps I.program ⟨82, gpr', stack', flags', sys', mem'⟩
      ⟨13, gpr', stack', flags', sys', mem'⟩ := Steps.leave rfl hFind
  exact ⟨_, (hEnter.trans hBlock).trans hRet, rfl, hMem, hSys⟩

/-- The loop at `clear_bss` and the call behind it keep to themselves. -/
theorem clearBss_confined : Confined bootText true false 17 24 := by decide

/-- The stack is set, `.bss` cleared, and `main` called. -/
theorem jumpMain_calls (hPc : s.pc = 13) :
    ∃ u, Calls I.program s .main u ∧ u.gpr 0 = BitVec.ofNat 64 I.bootArgs ∧
      u.stack = I.addr .stackTop ∧ I.find (u.gpr 30) = some 24 ∧ u.sys = s.sys ∧
      ∀ a, u.mem a = if I.sections.bssStart ≤ a ∧ a < I.sections.bssEnd then 0 else s.mem a := by
  have hOrder := I.sections.bssStart_le_bssEnd
  have hSize := I.sections.bssSize_mul
  have hStack := I.sections.bssEnd_lt_stackTop
  have hFits : I.sections.stackTop < 2 ^ 64 := I.fits
  have hStart : I.sections.bssStart % 16 = 0 := align_mod _
  have hBounds : ∃ t, Steps I.program s t ∧ t.pc = 17 ∧ t.mem = s.mem ∧ t.sys = s.sys ∧
      t.stack = I.addr .stackTop ∧ t.gpr 0 = BitVec.ofNat 64 I.sections.bssStart ∧
      t.gpr 1 = BitVec.ofNat 64 I.sections.bssSize := by
    obtain ⟨pc, gpr, stack, flags, sys, mem⟩ := s
    subst hPc
    exact ⟨_, Steps.block 4 rfl, rfl, rfl, rfl, rfl, rfl, rfl⟩
  obtain ⟨t₁, hBounds, hPc₁, hMem₁, hSys₁, hTop, h0, h1⟩ := hBounds
  obtain ⟨t₂, hClear, hPc₂, hMem₂⟩ := clearBss_spec (I := I) hPc₁ (by omega) (by omega) h0 h1
  have hPointer : ∃ t, Steps I.program t₂ t ∧ t.pc = 23 ∧ t.mem = t₂.mem ∧
      t.gpr 0 = BitVec.ofNat 64 I.bootArgs := by
    obtain ⟨pc, gpr, stack, flags, sys, mem⟩ := t₂
    obtain rfl : pc = 21 := hPc₂
    exact ⟨_, Steps.block 2 rfl, rfl, rfl, adrp_add_lo12 _⟩
  obtain ⟨t₃, hPointer, hPc₃, hMem₃, hX0⟩ := hPointer
  obtain ⟨hKept, -⟩ := Confined.stays (P := I.program) clearBss_confined (by omega) (by omega)
    (hClear.trans hPointer)
  have hCall : step I.program t₃ = .call .main (t₃.set (xr 30) (I.place 24)) := by
    obtain ⟨pc, gpr, stack, flags, sys, mem⟩ := t₃
    obtain rfl : pc = 23 := hPc₃
    rfl
  refine ⟨_, ⟨t₃, (hBounds.trans hClear).trans hPointer, hCall⟩, ?_, hKept.stack_eq.trans hTop, ?_,
    hKept.sys_eq.trans hSys₁, fun a => ?_⟩
  · exact (State.set_gpr_ne _ _ (by decide)).trans hX0
  · rw [State.set_gpr_self]
    exact I.find_place 24 (by decide)
  · change t₃.mem a = _
    rw [hMem₃, hMem₂, hMem₁]
    split_ifs <;> first | rfl | omega

/-- At EL1, core 0 calls `main`. -/
theorem el1_calls (hEntry : Entry s) : ∃ u, Calls I.program s .main u ∧ MainCall I s u := by
  obtain ⟨t₁, hPrepare, hPc₁, hMem₁, hSys₁⟩ := core0_prepares (I := I) hEntry.pc_eq hEntry.core0
  have hEl : t₁.sys .currentEl = el1Value := by rw [hSys₁, hEntry.el1]
  obtain ⟨t₂, hSetup, hPc₂, hMem₂, hSys₂⟩ := setupSctlrEl1_sets (I := I) hPc₁ hEl
  obtain ⟨t₃, hInstall, hPc₃, hMem₃, hSys₃⟩ := installVectors_sets (I := I) hPc₂
  obtain ⟨u, hCalls, hX0, hStack, hLink, hSys, hMem⟩ := jumpMain_calls (I := I) hPc₃
  have hSysU : u.sys = Function.update (Function.update s.sys .sctlrEl1
      (sctlrValue (s.sys .sctlrEl1))) .vbarEl1 (I.addr .vectorTable) := by
    rw [hSys, hSys₃, hSys₂, hSys₁]
  refine ⟨u, hCalls.after ((hPrepare.trans hSetup).trans hInstall), hX0, hStack, hLink, ?_, ?_,
    fun r hSctlr hVbar => ?_, fun a => ?_⟩
  · rw [hSysU, Function.update_of_ne (by decide), Function.update_self]
    exact sctlrValue_setUp _
  · rw [hSysU, Function.update_self]
  · rw [hSysU, Function.update_of_ne hVbar, Function.update_of_ne hSctlr]
  · rw [hMem, hMem₃, hMem₂, hMem₁]
    split_ifs with hBss
    · rfl
    · exact storedArgs_outside (by omega)

-- ---------------------------------------------------------------------------
-- Whole runs
-- ---------------------------------------------------------------------------

variable {returns : BootSym → State → State → Prop} {log : List (BootSym × State)}
  {c : Config BootSym}

/-- A run that has come to an instruction goes on to a call, or it waits for ever behind
the panic message. -/
def GoesOn (I : BootImage) (log : List (BootSym × State)) (c : Config BootSym) : Prop :=
  ∀ t, c = .at t → (∃ f u, Calls I.program t f u) ∨
    (Diverges I.program t ∧ ∃ u, log = [(.panicPrintC, u)])

theorem goesOn_inside (f : BootSym) (u : State) : GoesOn I log (.inside f u) := by
  intro t ht
  cases ht

/-- On the way to a call. -/
theorem goesOn_of_calls {f : BootSym} (hCalls : Calls I.program s f u)
    (hSteps : Steps I.program s t) : GoesOn I log (.at t) := by
  intro t' ht
  cases ht
  exact Or.inl ⟨f, u, hCalls.of_steps hSteps⟩

/-- A run that calls `exit` next. -/
theorem exit_runs (hConv : Conforms I returns) (hCalls : Calls I.program s .exit u)
    (hRun : Run I.program returns s log c) :
    (log = [] ∨ log = [(.exit, u)]) ∧ ∀ t, c = .at t → ∃ f u, Calls I.program t f u := by
  obtain ⟨hLog, hNext⟩ := hRun.of_lastCall hCalls fun v => hConv.noreturn
  exact ⟨hLog, fun t ht => ⟨_, _, hNext t ht⟩⟩

theorem otherCore_runs (hConv : Conforms I returns) (hPc : s.pc = 0)
    (hCore : s.sys .mpidrEl1 &&& 0xFF ≠ 0) (hRun : Run I.program returns s log c) :
    GoesOn I log c ∧ (log = [] ∨ ∃ u, log = [(.exit, u)] ∧ ExitCall I s u) := by
  obtain ⟨u, hCalls, hExit⟩ := otherCore_calls (I := I) hPc hCore
  obtain ⟨hLog, hNext⟩ := exit_runs hConv hCalls hRun
  exact ⟨fun t ht => Or.inl (hNext t ht), hLog.imp_right fun hLog => ⟨u, hLog, hExit⟩⟩

theorem notEl1_runs (hStack : EmergencyStack I) (hConv : Conforms I returns)
    (hPc : findLabel BootSym.primaryEntry bootText = some s.pc)
    (hCore : s.sys .mpidrEl1 &&& 0xFF = 0) (hEl : s.sys .currentEl ≠ el1Value)
    (hRun : Run I.program returns s log c) :
    GoesOn I log c ∧ (log = [] ∨ ∃ u, log = [(.panicPrintC, u)] ∧ PanicCall I s u) := by
  obtain ⟨u, hCalls, hPanic⟩ := notEl1_calls hStack hPc hCore hEl
  rcases hRun.of_calls hCalls with ⟨rfl, t, rfl, hSteps⟩ | ⟨rfl, rfl⟩ | ⟨v, rest, rfl, hReturns, hRest⟩
  · exact ⟨goesOn_of_calls hCalls hSteps, Or.inl rfl⟩
  · exact ⟨goesOn_inside _ _, Or.inr ⟨u, rfl, hPanic⟩⟩
  · -- `panic_print_c` has returned to the waiting loop
    have hPcV : v.pc = 38 := Option.some.inj ((hConv.toCaller hReturns).symm.trans hPanic.link_eq)
    have hStackV : v.stack.toNat % 8 = 0 := by
      have hTop := hPanic.stack_eq
      have hAligned := hStack.aligned
      rw [hConv.stack_eq hReturns]
      omega
    have hWaits : Diverges I.program v := panicPrintC_diverges hPcV hStackV
    obtain ⟨rfl, t, rfl, hSteps⟩ := hRest.of_diverges hWaits
    refine ⟨fun t' ht => ?_, Or.inr ⟨u, rfl, hPanic⟩⟩
    cases ht
    exact Or.inr ⟨fun t' hSteps' => hWaits t' (hSteps.trans hSteps'), u, rfl⟩

theorem el1_runs (hConv : Conforms I returns) (hEntry : Entry s)
    (hRun : Run I.program returns s log c) :
    GoesOn I log c ∧ (log = [] ∨ ∃ u, MainCall I s u ∧ (log = [(.main, u)] ∨
      ∃ v w, returns .main u v ∧ log = [(.main, u), (.exit, w)] ∧ ExitCall I v w)) := by
  obtain ⟨u, hCalls, hMain⟩ := el1_calls (I := I) hEntry
  rcases hRun.of_calls hCalls with ⟨rfl, t, rfl, hSteps⟩ | ⟨rfl, rfl⟩ | ⟨v, rest, rfl, hReturns, hRest⟩
  · exact ⟨goesOn_of_calls hCalls hSteps, Or.inl rfl⟩
  · exact ⟨goesOn_inside _ _, Or.inr ⟨u, hMain, Or.inl rfl⟩⟩
  · -- `main` has returned to `halt`
    have hPcV : v.pc = 24 := Option.some.inj ((hConv.toCaller hReturns).symm.trans hMain.link_eq)
    obtain ⟨w, hHalt, hExit⟩ := halt_calls (I := I) hPcV
    obtain ⟨hLog, hNext⟩ := exit_runs hConv hHalt hRest
    refine ⟨fun t ht => Or.inl (hNext t ht), Or.inr ⟨u, hMain, ?_⟩⟩
    rcases hLog with rfl | rfl
    · exact Or.inl rfl
    · exact Or.inr ⟨v, w, hReturns, rfl, hExit⟩

/--
**Every run of the entry code**, for every core, exception level, register and memory
contents, and for all C functions that keep the calling convention. Other cores than
core 0 call `exit` with the `x0` they were given, and memory and system registers as they
found them. Core 0 off EL1 calls `panic_print_c` on the emergency stack and waits for ever
when that returns. Core 0 at EL1 calls `main` on the kernel's stack, with the control register
and the vectors set up and `.bss` cleared, and then `exit` with what `main` returned. No run
makes another call, and none faults: from every instruction it goes on to the next call, or it
waits.
-/
theorem primaryEntry_runs (hStack : EmergencyStack I) (hConv : Conforms I returns)
    (hPc : findLabel BootSym.primaryEntry bootText = some s.pc)
    (hRun : Run I.program returns s log c) :
    GoesOn I log c ∧
    (s.sys .mpidrEl1 &&& 0xFF ≠ 0 → log = [] ∨ ∃ u, log = [(.exit, u)] ∧ ExitCall I s u) ∧
    (s.sys .mpidrEl1 &&& 0xFF = 0 → s.sys .currentEl ≠ el1Value →
      log = [] ∨ ∃ u, log = [(.panicPrintC, u)] ∧ PanicCall I s u) ∧
    (s.sys .mpidrEl1 &&& 0xFF = 0 → s.sys .currentEl = el1Value →
      log = [] ∨ ∃ u, MainCall I s u ∧ (log = [(.main, u)] ∨
        ∃ v w, returns .main u v ∧ log = [(.main, u), (.exit, w)] ∧ ExitCall I v w)) := by
  have hStart : s.pc = 0 := (Option.some.inj hPc).symm
  refine ⟨?_, fun hCore => (otherCore_runs hConv hStart hCore hRun).2,
    fun hCore hEl => (notEl1_runs hStack hConv hPc hCore hEl hRun).2,
    fun hCore hEl => (el1_runs hConv ⟨hPc, hCore, hEl⟩ hRun).2⟩
  by_cases hCore : s.sys .mpidrEl1 &&& 0xFF = 0
  · by_cases hEl : s.sys .currentEl = el1Value
    · exact (el1_runs hConv ⟨hPc, hCore, hEl⟩ hRun).1
    · exact (notEl1_runs hStack hConv hPc hCore hEl hRun).1
  · exact (otherCore_runs hConv hStart hCore hRun).1

/-- The small kernel with an emergency stack as all of its `.data`. -/
def emergencyImage : BootImage where
  sections := ⟨64, 4096, 0, 256, 32⟩
  fits := by decide
  bootArgs := 0x40001140
  bootArgs_aligned := by decide
  bootArgs_ge := by decide
  bootArgs_end := by decide
  other := fun s => if s = .emergencyStackTop then 0x40001140 else 0x40000000
  place := smallImage.place
  find := smallImage.find
  find_place := smallImage.find_place

theorem emergencyImage_stack : EmergencyStack emergencyImage := ⟨by decide, by decide, by decide⟩

/-- Functions that return at once with 1, but for `exit`. -/
def returnsOne (I : BootImage) (f : BootSym) (u v : State) : Prop :=
  f ≠ .exit ∧ I.find (u.gpr 30) = some v.pc ∧ v.stack = u.stack ∧ v.gpr 0 = 1

theorem returnsOne_conforms (I : BootImage) : Conforms I (returnsOne I) where
  toCaller := fun h => h.2.1
  stack_eq := fun h => h.2.2.1
  noreturn := fun h => h.1 rfl

/-- The secure firmware hands over at EL3. -/
def el3Entry : State := { fdtEntry with sys := fun r => if r = .currentEl then 0xC else 0 }

/-- The run that panics there. -/
theorem primaryEntry_runs_el3 :
    ∃ u, Run emergencyImage.program (returnsOne emergencyImage) el3Entry [(.panicPrintC, u)]
        (.inside .panicPrintC u) ∧ PanicCall emergencyImage el3Entry u := by
  obtain ⟨u, hCalls, -⟩ := notEl1_calls (s := el3Entry) emergencyImage_stack rfl rfl (by decide)
  have hRun : Run emergencyImage.program (returnsOne emergencyImage) el3Entry [(.panicPrintC, u)]
      (.inside .panicPrintC u) := hCalls.run
  obtain ⟨-, -, hPanic, -⟩ := primaryEntry_runs emergencyImage_stack
    (returnsOne_conforms emergencyImage) rfl hRun
  rcases hPanic rfl (by decide) with hNone | ⟨w, hLog, hCall⟩
  · cases hNone
  · cases hLog
    exact ⟨u, hRun, hCall⟩

end Kernalite
