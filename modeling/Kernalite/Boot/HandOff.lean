import Kernalite.Lib.Words
import Kernalite.Lib.A64Cache
import Kernalite.Boot.Program

/-!
# Kernalite — the hand-off to `main`

What memory holds when `primary_entry` calls `main`. The three subroutines keep
data memory (`dcacheInvalPoc_returns`, `setupSctlrEl1_returns`,
`installVectors_returns`), and the loop at `clear_bss` zeroes every byte of
`.bss` (`clearBss_spec`), `boot_args` included, which the entry code had stored
there before (`primaryEntry_calls`).

* `handOff_iff` — the boot arguments survive exactly when all four are zero.
-/

namespace Kernalite

open A64 ByteMemory

variable {I : BootImage} {s : State}

/-- `primary_entry` on core 0 at EL1. -/
structure Entry (s : State) : Prop where
  pc_eq : findLabel BootSym.primaryEntry bootText = some s.pc
  core0 : s.sys .mpidrEl1 &&& 0xFF = 0
  el1   : s.sys .currentEl = el1Value

/-- What `main` may rely on: the pointer in `x0` leads to the entry values of
`x0` to `x3`, and the rest of `.bss` is zero. -/
structure HandOff (I : BootImage) (entry s : State) : Prop where
  args : ∀ i : Fin 4, load64 s.mem ((s.gpr 0).toNat + 8 * i) = entry.gpr (i.castLE (by decide))
  rest : ∀ a, I.sections.bssStart ≤ a → a + 8 ≤ I.sections.bssEnd → a % 8 = 0 →
    (a + 8 ≤ (s.gpr 0).toNat ∨ (s.gpr 0).toNat + 32 ≤ a) → load64 s.mem a = 0

/-- From `s` to `s'` at instruction `n`, with data memory, exception level and
return address as they were. -/
structure QuietRun (I : BootImage) (s : State) (n : Nat) (s' : State) : Prop where
  steps  : Steps I.program s s'
  pc_eq  : s'.pc = n
  mem_eq : s'.mem = s.mem
  el_eq  : s'.sys .currentEl = s.sys .currentEl
  lr_eq  : s'.gpr 30 = s.gpr 30

theorem QuietRun.trans {t u : State} {m n : Nat} (h : QuietRun I s m t) (h' : QuietRun I t n u) :
    QuietRun I s n u :=
  ⟨h.steps.trans h'.steps, h'.pc_eq, h'.mem_eq.trans h.mem_eq, h'.el_eq.trans h.el_eq,
    h'.lr_eq.trans h.lr_eq⟩

theorem QuietRun.branch {n i : Nat} {c : Cond} {f : BootSym} (hPc : s.pc = n)
    (hCode : (code bootText)[n]? = some (.bCond c f)) (hLabel : findLabel f bootText = some i)
    (hHolds : c.holds s.flags = true) : QuietRun I s i { s with pc := i } := by
  subst hPc
  exact ⟨Steps.branch hCode hLabel hHolds, rfl, rfl, rfl, rfl⟩

theorem QuietRun.noBranch {n : Nat} {c : Cond} {f : BootSym} (hPc : s.pc = n)
    (hCode : (code bootText)[n]? = some (.bCond c f)) (hFails : c.holds s.flags = false) :
    QuietRun I s (n + 1) { s with pc := n + 1 } := by
  subst hPc
  exact ⟨Steps.noBranch hCode hFails, rfl, rfl, rfl, rfl⟩

/-- A subroutine entered in `s` returns to instruction `r`, with data memory and
exception level as they were. -/
def Returns (I : BootImage) (s : State) (r : Nat) : Prop :=
  ∃ s', Steps I.program s s' ∧ s'.pc = r ∧ s'.mem = s.mem ∧ s'.sys .currentEl = s.sys .currentEl

/-- A quiet run up to a `ret`. -/
theorem QuietRun.returns {t : State} {n r : Nat} (h : QuietRun I s n t)
    (hRet : (code bootText)[n]? = some .ret) (hFind : I.find (s.gpr 30) = some r) :
    Returns I s r := by
  obtain ⟨hSteps, rfl, hMem, hEl, hLr⟩ := h
  exact ⟨{ t with pc := r }, hSteps.trans (Steps.leave hRet (hLr ▸ hFind)), rfl, hMem, hEl⟩

-- ---------------------------------------------------------------------------
-- `install_vectors` and `setup_sctlr_el1`
-- ---------------------------------------------------------------------------

theorem installVectors_returns {r : Nat} (hPc : s.pc = 79) (hFind : I.find (s.gpr 30) = some r) :
    Returns I s r := by
  obtain ⟨pc, gpr, stack, flags, sys, mem⟩ := s
  subst hPc
  have hBody : ∃ t, QuietRun I ⟨79, gpr, stack, flags, sys, mem⟩ 82 t :=
    ⟨_, Steps.block 3 rfl, rfl, rfl, rfl, rfl⟩
  obtain ⟨t, h⟩ := hBody
  exact h.returns rfl hFind

/-- At EL1 the assertion holds and the control register is rewritten. -/
theorem setupSctlrEl1_returns {r : Nat} (hPc : s.pc = 27) (hEl : s.sys .currentEl = el1Value)
    (hFind : I.find (s.gpr 30) = some r) : Returns I s r := by
  have hCompare : ∃ t, QuietRun I s 30 t ∧
      t.flags = State.subFlags (s.sys .currentEl) el1Value := by
    obtain ⟨pc, gpr, stack, flags, sys, mem⟩ := s
    subst hPc
    exact ⟨_, ⟨Steps.block 3 rfl, rfl, rfl, rfl, rfl⟩, rfl⟩
  obtain ⟨t, hRun, hFlags⟩ := hCompare
  have hHolds : Cond.eq.holds t.flags = true := by
    rw [hFlags, hEl]
    exact beq_self_eq_true el1Value
  have hAssert : QuietRun I t 41 { t with pc := 41 } := .branch hRun.pc_eq rfl rfl hHolds
  have hUpdate : ∃ u, QuietRun I { t with pc := 41 } 57 u :=
    ⟨_, Steps.block 16 rfl, rfl, rfl, rfl, rfl⟩
  obtain ⟨u, hRest⟩ := hUpdate
  exact ((hRun.trans hAssert).trans hRest).returns rfl hFind

-- ---------------------------------------------------------------------------
-- `dcache_inval_poc`
-- ---------------------------------------------------------------------------

/-- Aligning down leaves room for one more line below `2 ^ 64`. -/
theorem bic_line_le (a : BitVec 64) {line : BitVec 64} (hLine : 0 < line.toNat) :
    (a &&& ~~~(line - 1)).toNat + line.toNat ≤ 2 ^ 64 := by
  have hMask : (a &&& ~~~(line - 1)).toNat ≤ (~~~(line - 1)).toNat := by
    rw [BitVec.toNat_and]
    exact Nat.and_le_right
  have hSub : (line - 1).toNat = line.toNat - 1 := by bv_omega
  rw [BitVec.toNat_not, hSub] at hMask
  omega

/-- One pass of the invalidation loop: `add`, `cmp` and the branch at 76. -/
theorem dcacheLoop_pass (hPc : s.pc = 74) :
    ∃ t, QuietRun I s 76 t ∧ t.gpr 0 = s.gpr 0 + s.gpr 2 ∧ t.gpr 1 = s.gpr 1 ∧
      t.gpr 2 = s.gpr 2 ∧ t.flags = State.subFlags (s.gpr 0 + s.gpr 2) (s.gpr 1) := by
  obtain ⟨pc, gpr, stack, flags, sys, mem⟩ := s
  subst hPc
  exact ⟨_, ⟨Steps.block 2 rfl, rfl, rfl, rfl, rfl⟩, rfl, rfl, rfl, rfl⟩

/-- **The loop ends**: the address grows by a line until it reaches the end. -/
theorem dcacheLoop_ends (hPc : s.pc = 74) (hLine : 0 < (s.gpr 2).toNat)
    (hRoom : (s.gpr 1).toNat + (s.gpr 2).toNat ≤ 2 ^ 64) : ∃ t, QuietRun I s 77 t := by
  -- on the distance from the next address to the end
  induction hDist : (s.gpr 1).toNat - (s.gpr 0 + s.gpr 2).toNat using Nat.strong_induction_on
    generalizing s with
  | _ n ih =>
    obtain ⟨t, hPass, h0, h1, h2, hFlags⟩ := dcacheLoop_pass (I := I) hPc
    by_cases hMore : (t.gpr 0).toNat < (t.gpr 1).toNat
    · have hHolds : Cond.lo.holds t.flags = true := by
        rw [hFlags, ← h0, ← h1]
        simp only [Cond.holds, State.subFlags, Bool.not_eq_true', decide_eq_false_iff_not]
        omega
      have hBranch : QuietRun I t 73 { t with pc := 73 } := .branch hPass.pc_eq rfl rfl hHolds
      have hInval : QuietRun I { t with pc := 73 } 74 { t with pc := 74 } :=
        ⟨Steps.block 1 rfl, rfl, rfl, rfl, rfl⟩
      have hNext : (t.gpr 0 + t.gpr 2).toNat = (t.gpr 0).toNat + (t.gpr 2).toNat := by
        rw [BitVec.toNat_add, h2, Nat.mod_eq_of_lt]
        rw [h1] at hMore
        omega
      rw [← h0, ← h1] at hDist
      rw [← h1, ← h2] at hRoom
      rw [← h2] at hLine
      have hLess : (t.gpr 1).toNat - (t.gpr 0 + t.gpr 2).toNat < n := by omega
      obtain ⟨u, hRest⟩ := ih _ hLess (s := { t with pc := 74 }) rfl hLine hRoom rfl
      exact ⟨u, ((hPass.trans hBranch).trans hInval).trans hRest⟩
    · have hFails : Cond.lo.holds t.flags = false := by
        rw [hFlags, ← h0, ← h1]
        simp only [Cond.holds, State.subFlags, Bool.not_eq_false', decide_eq_true_eq]
        omega
      exact ⟨_, hPass.trans (.noBranch hPass.pc_eq rfl hFails)⟩

/-- `dcache_line_size`: four bytes shifted by a field of four bits. -/
theorem lineSize_pos (ctr : BitVec 64) :
    0 < ((4 : BitVec 64) <<< ((((ctr >>> 16).setWidth 4).setWidth 64).toNat % 64)).toNat := by
  have hShift : (((ctr >>> 16).setWidth 4).setWidth 64).toNat < 16 := by
    rw [BitVec.toNat_setWidth]
    exact Nat.lt_of_le_of_lt (Nat.mod_le _ _) ((ctr >>> 16).setWidth 4).isLt
  generalize (((ctr >>> 16).setWidth 4).setWidth 64).toNat = k at hShift
  have hAll : ∀ j : Fin 16, 0 < ((4 : BitVec 64) <<< (j.val % 64)).toNat := by decide
  exact hAll ⟨k, hShift⟩

/-- The line size is read and the end of the range aligned down to a line. -/
theorem dcache_alignEnd (hPc : s.pc = 58) :
    ∃ t, QuietRun I s 66 t ∧ 0 < (t.gpr 2).toNat ∧
      (t.gpr 1).toNat + (t.gpr 2).toNat ≤ 2 ^ 64 := by
  have hBlock : ∃ t, QuietRun I s 66 t ∧ t.gpr 1 = s.gpr 1 &&& ~~~(t.gpr 2 - 1) ∧
      t.gpr 2 = (4 : BitVec 64) <<<
        ((((s.sys .ctrEl0 >>> 16).setWidth 4).setWidth 64).toNat % 64) := by
    obtain ⟨pc, gpr, stack, flags, sys, mem⟩ := s
    subst hPc
    exact ⟨_, ⟨Steps.block 8 rfl, rfl, rfl, rfl, rfl⟩, rfl, rfl⟩
  obtain ⟨t, hRun, hEnd, hLine⟩ := hBlock
  have hPos : 0 < (t.gpr 2).toNat := hLine ▸ lineSize_pos _
  exact ⟨t, hRun, hPos, hEnd ▸ bic_line_le (s.gpr 1) hPos⟩

/-- A partial last line is cleaned, and the start aligned down. -/
theorem dcache_alignStart (hPc : s.pc = 66) :
    ∃ t, QuietRun I s 70 t ∧ t.gpr 1 = s.gpr 1 ∧ t.gpr 2 = s.gpr 2 := by
  have hClean : QuietRun I s 68 { s with pc := 68 } := by
    cases hZ : s.flags.z with
    | true => exact .branch hPc rfl rfl hZ
    | false =>
      have hBlock : QuietRun I { s with pc := 67 } 68 { s with pc := 68 } :=
        ⟨Steps.block 1 rfl, rfl, rfl, rfl, rfl⟩
      exact (QuietRun.noBranch hPc rfl hZ).trans hBlock
  have hBlock : ∃ t, QuietRun I { s with pc := 68 } 70 t ∧ t.gpr 1 = s.gpr 1 ∧
      t.gpr 2 = s.gpr 2 := ⟨_, ⟨Steps.block 2 rfl, rfl, rfl, rfl, rfl⟩, rfl, rfl⟩
  obtain ⟨t, hRun, hKept⟩ := hBlock
  exact ⟨t, hClean.trans hRun, hKept⟩

/-- A partial first line is cleaned, a whole one invalidated. -/
theorem dcache_firstLine (hPc : s.pc = 70) : QuietRun I s 74 { s with pc := 74 } := by
  cases hZ : s.flags.z with
  | true =>
    have hInval : QuietRun I { s with pc := 73 } 74 { s with pc := 74 } :=
      ⟨Steps.block 1 rfl, rfl, rfl, rfl, rfl⟩
    exact (QuietRun.branch hPc rfl rfl hZ).trans hInval
  | false =>
    have hClean : QuietRun I { s with pc := 71 } 72 { s with pc := 72 } :=
      ⟨Steps.block 1 rfl, rfl, rfl, rfl, rfl⟩
    have hGoto : QuietRun I { s with pc := 72 } 74 { s with pc := 74 } :=
      ⟨Steps.goto rfl rfl, rfl, rfl, rfl, rfl⟩
    exact ((QuietRun.noBranch hPc rfl hZ).trans hClean).trans hGoto

/-- **`dcache_inval_poc` returns**, for every line size and every range. -/
theorem dcacheInvalPoc_returns {r : Nat} (hPc : s.pc = 58) (hFind : I.find (s.gpr 30) = some r) :
    Returns I s r := by
  obtain ⟨t₁, hEnd, hLine, hRoom⟩ := dcache_alignEnd (I := I) hPc
  obtain ⟨t₂, hStart, h1, h2⟩ := dcache_alignStart (I := I) hEnd.pc_eq
  rw [← h1, ← h2] at hRoom
  rw [← h2] at hLine
  obtain ⟨t₃, hLoop⟩ := dcacheLoop_ends (I := I) (s := { t₂ with pc := 74 }) rfl hLine hRoom
  have hBarrier : ∃ t₄, QuietRun I t₃ 78 t₄ := by
    obtain ⟨pc, gpr, stack, flags, sys, mem⟩ := t₃
    obtain rfl : pc = 77 := hLoop.pc_eq
    exact ⟨_, Steps.block 1 rfl, rfl, rfl, rfl, rfl⟩
  obtain ⟨t₄, hLast⟩ := hBarrier
  have hRun := (((hEnd.trans hStart).trans (dcache_firstLine hStart.pc_eq)).trans hLoop).trans hLast
  exact hRun.returns rfl hFind

-- ---------------------------------------------------------------------------
-- `clear_bss`
-- ---------------------------------------------------------------------------

/-- One round of the loop: a doubleword is cleared and the count goes down. -/
theorem clearBss_round {a n : Nat} (hPc : s.pc = 17) (hAligned : a % 8 = 0)
    (hRoom : a + 8 * (n + 1) < 2 ^ 64) (hAddr : s.gpr 0 = BitVec.ofNat 64 a)
    (hCount : s.gpr 1 = BitVec.ofNat 64 (n + 1)) :
    ∃ t, Steps I.program s t ∧ t.pc = 20 ∧ t.gpr 0 = BitVec.ofNat 64 (a + 8) ∧
      t.gpr 1 = BitVec.ofNat 64 n ∧ t.flags.z = decide (n = 0) ∧ t.mem = store64 s.mem a 0 := by
  obtain ⟨pc, gpr, stack, flags, sys, mem⟩ := s
  subst hPc
  simp only at hAddr hCount
  have hNat : (gpr 0).toNat = a := by rw [hAddr, BitVec.toNat_ofNat, Nat.mod_eq_of_lt (by omega)]
  have hNonzero : gpr 1 ≠ 0 := by
    rw [hCount]
    bv_omega
  have hTest : Steps I.program ⟨17, gpr, stack, flags, sys, mem⟩
      ⟨18, gpr, stack, flags, sys, mem⟩ := Steps.noCbz rfl hNonzero
  have hStore := Steps.strPost (P := I.program) (s := ⟨18, gpr, stack, flags, sys, mem⟩) rfl
    (show (gpr 0).toNat % 8 = 0 by omega)
  have hCountDown : ∃ t, Steps I.program ⟨19, Function.update gpr 0 (gpr 0 + 8), stack, flags, sys,
      store64 mem (gpr 0).toNat 0⟩ t ∧ t.pc = 20 ∧ t.gpr 0 = gpr 0 + 8 ∧ t.gpr 1 = gpr 1 - 1 ∧
      t.flags = State.subFlags (gpr 1) 1 ∧ t.mem = store64 mem (gpr 0).toNat 0 :=
    ⟨_, Steps.block 1 rfl, rfl, rfl, rfl, rfl, rfl⟩
  obtain ⟨t, hRest, hPc, h0, h1, hFlags, hMem⟩ := hCountDown
  refine ⟨t, (hTest.trans hStore).trans hRest, hPc, ?_, ?_, ?_, ?_⟩
  · rw [h0, hAddr]
    exact (BitVec.ofNat_add a 8).symm
  · rw [h1, hCount, BitVec.ofNat_add]
    exact BitVec.add_sub_cancel _ _
  · rw [hFlags, hCount]
    change (BitVec.ofNat 64 (n + 1) == 1) = decide (n = 0)
    rw [Bool.eq_iff_iff, beq_iff_eq, decide_eq_true_eq]
    bv_omega
  · rw [hMem, hNat]

/-- **The loop clears** `n` doublewords from `a` and nothing else. -/
theorem clearBss_spec {a n : Nat} (hPc : s.pc = 17) (hAligned : a % 8 = 0)
    (hRoom : a + 8 * n < 2 ^ 64) (hAddr : s.gpr 0 = BitVec.ofNat 64 a)
    (hCount : s.gpr 1 = BitVec.ofNat 64 n) :
    ∃ t, Steps I.program s t ∧ t.pc = 21 ∧
      ∀ x, t.mem x = if a ≤ x ∧ x < a + 8 * n then 0 else s.mem x := by
  induction n generalizing s a with
  | zero =>
    have hJump : Steps I.program s { s with pc := 21 } := by
      obtain ⟨pc, gpr, stack, flags, sys, mem⟩ := s
      subst hPc
      exact Steps.cbz rfl rfl hCount
    refine ⟨_, hJump, rfl, fun x => ?_⟩
    rw [if_neg (by omega)]
  | succ n ih =>
    obtain ⟨t, hRound, hPc', h0, h1, hZ, hMem⟩ := clearBss_round (I := I) hPc hAligned hRoom hAddr
      hCount
    have hByte : ∀ x, t.mem x = if a ≤ x ∧ x < a + 8 then 0 else s.mem x := by
      intro x
      rw [hMem]
      split_ifs with hIn
      · exact store64_zero_inside hIn.1 hIn.2
      · exact store64_outside (by omega)
    by_cases hLast : n = 0
    · have hZero : t.flags.z = true := hZ.trans (decide_eq_true hLast)
      have hExit : Steps I.program t { t with pc := 21 } := by
        obtain ⟨pc, gpr, stack, flags, sys, mem⟩ := t
        obtain rfl : pc = 20 := hPc'
        exact Steps.noBranch rfl (congrArg not hZero)
      refine ⟨_, hRound.trans hExit, rfl, fun x => ?_⟩
      rw [hLast]
      exact hByte x
    · have hMore : t.flags.z = false := hZ.trans (decide_eq_false hLast)
      have hBack : Steps I.program t { t with pc := 17 } := by
        obtain ⟨pc, gpr, stack, flags, sys, mem⟩ := t
        obtain rfl : pc = 20 := hPc'
        exact Steps.branch rfl rfl (congrArg not hMore)
      obtain ⟨u, hRest, hPcU, hMemU⟩ := ih (s := { t with pc := 17 }) (a := a + 8) rfl (by omega)
        (by omega) h0 h1
      refine ⟨u, (hRound.trans hBack).trans hRest, hPcU, fun x => ?_⟩
      rw [hMemU, hByte]
      split_ifs <;> first | rfl | omega

-- ---------------------------------------------------------------------------
-- `primary_entry`
-- ---------------------------------------------------------------------------

/-- `adr_l` yields the address of the symbol. -/
theorem adrp_add_lo12 (a : BitVec 64) : ((a >>> 12) <<< 12) + (a &&& 0xFFF) = a := by
  apply BitVec.eq_of_toNat_eq
  have hLow : (a &&& 0xFFF).toNat = a.toNat % 2 ^ 12 := by
    rw [BitVec.toNat_and]
    exact Nat.and_two_pow_sub_one_eq_mod a.toNat 12
  have hBound := a.isLt
  rw [BitVec.toNat_add, hLow, BitVec.toNat_shiftLeft, BitVec.toNat_ushiftRight,
    Nat.shiftRight_eq_div_pow, Nat.shiftLeft_eq]
  omega

/-- The entry values of `x0` to `x3` at `boot_args`. -/
def storedArgs (I : BootImage) (s : State) : Mem :=
  store64 (store64 (store64 (store64 s.mem I.bootArgs (s.gpr 0)) (I.bootArgs + 8) (s.gpr 1))
    (I.bootArgs + 16) (s.gpr 2)) (I.bootArgs + 24) (s.gpr 3)

theorem BootImage.bootArgs_toNat (I : BootImage) : (BitVec.ofNat 64 I.bootArgs).toNat = I.bootArgs := by
  have hEnd := I.bootArgs_end
  have hStack := I.sections.bssEnd_lt_stackTop
  have hFits : I.sections.stackTop < 2 ^ 64 := I.fits
  rw [BitVec.toNat_ofNat]
  exact Nat.mod_eq_of_lt (by omega)

/-- The boot arguments are recorded, whatever the cache holds, and their range is passed to
`dcache_inval_poc`. -/
theorem saveArgs_cached (size : Nat) (c : Cache) (hPc : s.pc = 3) :
    ∃ t, CachedSteps I.program size (s, c) (t, c) ∧ t.pc = 10 ∧ t.mem = storedArgs I s ∧
      t.sys = s.sys ∧ t.gpr 0 = BitVec.ofNat 64 I.bootArgs ∧ t.gpr 1 = t.gpr 0 + 0x20 := by
  have hEnd := I.bootArgs_end
  have hStack := I.sections.bssEnd_lt_stackTop
  have hFits : I.sections.stackTop < 2 ^ 64 := I.fits
  have hAligned := I.bootArgs_aligned
  have hPtr := I.bootArgs_toNat
  -- the pointer
  have hLoad : ∃ t, CachedSteps I.program size (s, c) (t, c) ∧ t.pc = 6 ∧ t.mem = s.mem ∧
      t.sys = s.sys ∧ t.gpr 0 = BitVec.ofNat 64 I.bootArgs ∧ t.gpr 21 = s.gpr 0 ∧
      t.gpr 1 = s.gpr 1 ∧ t.gpr 2 = s.gpr 2 ∧ t.gpr 3 = s.gpr 3 := by
    obtain ⟨pc, gpr, stack, flags, sys, mem⟩ := s
    subst hPc
    exact ⟨_, CachedSteps.block 3 rfl rfl, rfl, rfl, rfl, adrp_add_lo12 _, rfl, rfl, rfl, rfl⟩
  obtain ⟨t, hSteps, hPc', hMem, hSys, h0, h21, h1, h2, h3⟩ := hLoad
  obtain ⟨pc, gpr, stack, flags, sys, mem⟩ := t
  obtain rfl : pc = 6 := hPc'
  simp only at hMem hSys h0 h21 h1 h2 h3
  -- the stores
  have hFirst : (gpr 0 + 0).toNat = I.bootArgs := by
    rw [h0]
    exact (congrArg BitVec.toNat (BitVec.add_zero _)).trans hPtr
  have hSecond : (gpr 0 + 16).toNat = I.bootArgs + 16 := by
    rw [h0, BitVec.toNat_add, hPtr]
    exact Nat.mod_eq_of_lt (show I.bootArgs + 16 < 2 ^ 64 by omega)
  have hPair : CachedSteps I.program size (⟨6, gpr, stack, flags, sys, mem⟩, c)
      (⟨7, gpr, stack, flags, sys,
        store64 (store64 mem I.bootArgs (gpr 21)) (I.bootArgs + 8) (gpr 1)⟩, c) :=
    CachedSteps.stp (r := xr 21) (u := xr 1) rfl hFirst hAligned (by omega)
  have hPair' : CachedSteps I.program size (⟨7, gpr, stack, flags, sys,
      store64 (store64 mem I.bootArgs (gpr 21)) (I.bootArgs + 8) (gpr 1)⟩, c)
      (⟨8, gpr, stack, flags, sys, storedArgs I s⟩, c) := by
    rw [storedArgs, ← hMem, ← h21, ← h1, ← h2, ← h3]
    exact CachedSteps.stp (r := xr 2) (u := xr 3) rfl hSecond (by omega) (by omega)
  have hEndArg : ∃ t, CachedSteps I.program size (⟨8, gpr, stack, flags, sys, storedArgs I s⟩, c)
      (t, c) ∧ t.pc = 10 ∧ t.mem = storedArgs I s ∧ t.sys = sys ∧ t.gpr 0 = gpr 0 ∧
      t.gpr 1 = t.gpr 0 + 0x20 := ⟨_, CachedSteps.block 2 rfl rfl, rfl, rfl, rfl, rfl, rfl⟩
  obtain ⟨t, hRest, hPcT, hMemT, hSysT, hPtrT, hEndT⟩ := hEndArg
  exact ⟨t, ((hSteps.trans hPair).trans hPair').trans hRest, hPcT, hMemT, hSysT.trans hSys,
    hPtrT.trans h0, hEndT⟩

theorem saveArgs (hPc : s.pc = 3) :
    ∃ t, Steps I.program s t ∧ t.pc = 10 ∧ t.mem = storedArgs I s ∧ t.sys = s.sys := by
  obtain ⟨t, hSteps, hPc', hMem, hSys, -⟩ := saveArgs_cached (I := I) 1 _ hPc
  exact ⟨t, (hSteps.steps Cache.clean_empty).1, hPc', hMem, hSys⟩

/-- On core 0 the entry code goes on. -/
theorem primaryEntry_core0_cached (size : Nat) (c : Cache)
    (hPc : findLabel BootSym.primaryEntry bootText = some s.pc)
    (hCore : s.sys .mpidrEl1 &&& 0xFF = 0) :
    ∃ t, CachedSteps I.program size (s, c) (t, c) ∧ t.pc = 3 ∧ t.mem = s.mem ∧ t.sys = s.sys ∧
      t.gpr 0 = s.gpr 0 ∧ t.gpr 1 = s.gpr 1 ∧ t.gpr 2 = s.gpr 2 ∧ t.gpr 3 = s.gpr 3 := by
  obtain ⟨pc, gpr, stack, flags, sys, mem⟩ := s
  obtain rfl : 0 = pc := Option.some.inj hPc
  have hRead : ∃ t, CachedSteps I.program size (⟨0, gpr, stack, flags, sys, mem⟩, c)
        (⟨2, t, stack, flags, sys, mem⟩, c) ∧
      t 19 = sys .mpidrEl1 &&& 0xFF ∧ t 0 = gpr 0 ∧ t 1 = gpr 1 ∧ t 2 = gpr 2 ∧ t 3 = gpr 3 :=
    ⟨_, CachedSteps.block 2 rfl rfl, rfl, rfl, rfl, rfl, rfl⟩
  obtain ⟨gpr', hSteps, h19, hArgs⟩ := hRead
  have hTest : CachedSteps I.program size (⟨2, gpr', stack, flags, sys, mem⟩, c)
      (⟨3, gpr', stack, flags, sys, mem⟩, c) :=
    CachedSteps.noCbnz (n := xr 19) rfl (h19.trans hCore)
  exact ⟨_, hSteps.trans hTest, rfl, rfl, rfl, hArgs⟩

theorem primaryEntry_core0 (hPc : findLabel BootSym.primaryEntry bootText = some s.pc)
    (hCore : s.sys .mpidrEl1 &&& 0xFF = 0) :
    ∃ t, Steps I.program s t ∧ t.pc = 3 ∧ t.mem = s.mem ∧ t.sys = s.sys ∧ t.gpr 0 = s.gpr 0 ∧
      t.gpr 1 = s.gpr 1 ∧ t.gpr 2 = s.gpr 2 ∧ t.gpr 3 = s.gpr 3 := by
  obtain ⟨t, hSteps, hRest⟩ := primaryEntry_core0_cached (I := I) 1 _ hPc hCore
  exact ⟨t, (hSteps.steps Cache.clean_empty).1, hRest⟩

/-- A call of a subroutine that returns. -/
theorem Returns.call {n i : Nat} {f : BootSym} (hPc : s.pc = n)
    (hCode : (code bootText)[n]? = some (.bl f)) (hLabel : findLabel f bootText = some i)
    (hNext : n + 1 < (code bootText).length)
    (hBody : ∀ t : State, t.pc = i → t.sys .currentEl = s.sys .currentEl →
      I.find (t.gpr 30) = some (n + 1) → Returns I t (n + 1)) : Returns I s (n + 1) := by
  subst hPc
  have hEnter : Steps I.program s { s.set (xr 30) (I.place (s.pc + 1)) with pc := i } :=
    Steps.enter hCode hLabel
  have hFind : I.find (I.place (s.pc + 1)) = some (s.pc + 1) := I.find_place _ hNext
  have hLink : (s.set (xr 30) (I.place (s.pc + 1))).gpr 30 = I.place (s.pc + 1) :=
    State.set_gpr_self _ _ _
  obtain ⟨t, hSteps, hPc, hMem, hEl⟩ := hBody { s.set (xr 30) (I.place (s.pc + 1)) with pc := i }
    rfl rfl ((congrArg I.find hLink).trans hFind)
  exact ⟨t, hEnter.trans hSteps, hPc, hMem, hEl⟩

/-- Up to the stack pointer, the boot arguments are all that memory has gained. -/
theorem primaryEntry_prepares (hEntry : Entry s) :
    ∃ t, Steps I.program s t ∧ t.pc = 13 ∧ t.mem = storedArgs I s := by
  obtain ⟨t₁, hCore, hPc₁, hMem₁, hSys₁, h0, h1, h2, h3⟩ :=
    primaryEntry_core0 (I := I) hEntry.pc_eq hEntry.core0
  obtain ⟨t₂, hSave, hPc₂, hMem₂, hSys₂⟩ := saveArgs (I := I) hPc₁
  have hStored : storedArgs I t₁ = storedArgs I s := by
    rw [storedArgs, storedArgs, hMem₁, h0, h1, h2, h3]
  have hInval : Returns I t₂ 11 := Returns.call hPc₂ rfl rfl (by decide) fun _ hPc _ hFind =>
    dcacheInvalPoc_returns hPc hFind
  obtain ⟨t₃, hInval, hPc₃, hMem₃, hEl₃⟩ := hInval
  have hEl : t₃.sys .currentEl = el1Value := by rw [hEl₃, hSys₂, hSys₁, hEntry.el1]
  have hSetup : Returns I t₃ 12 := Returns.call hPc₃ rfl rfl (by decide) fun _ hPc hEl' hFind =>
    setupSctlrEl1_returns hPc (hEl'.trans hEl) hFind
  obtain ⟨t₄, hSetup, hPc₄, hMem₄, -⟩ := hSetup
  have hInstall : Returns I t₄ 13 := Returns.call hPc₄ rfl rfl (by decide) fun _ hPc _ hFind =>
    installVectors_returns hPc hFind
  obtain ⟨t₅, hInstall, hPc₅, hMem₅, -⟩ := hInstall
  refine ⟨t₅, (((hCore.trans hSave).trans hInval).trans hSetup).trans hInstall, hPc₅, ?_⟩
  rw [hMem₅, hMem₄, hMem₃, hMem₂, hStored]

/-- The boot arguments were stored inside `.bss`. -/
theorem storedArgs_outside {x : Nat} (h : x < I.sections.bssStart ∨ I.sections.bssEnd ≤ x) :
    storedArgs I s x = s.mem x := by
  have hStart := I.bootArgs_ge
  have hEnd := I.bootArgs_end
  unfold storedArgs
  rw [store64_outside (by omega), store64_outside (by omega), store64_outside (by omega),
    store64_outside (by omega)]

/-- **`primary_entry` calls `main`**, with the address of `boot_args`, and with
every byte of `.bss` zero. -/
theorem primaryEntry_calls (hEntry : Entry s) :
    ∃ t, Calls I.program s .main t ∧ t.gpr 0 = BitVec.ofNat 64 I.bootArgs ∧
      ∀ x, t.mem x = if I.sections.bssStart ≤ x ∧ x < I.sections.bssEnd then 0 else s.mem x := by
  have hOrder := I.sections.bssStart_le_bssEnd
  have hSize := I.sections.bssSize_mul
  have hStack := I.sections.bssEnd_lt_stackTop
  have hFits : I.sections.stackTop < 2 ^ 64 := I.fits
  have hStart : I.sections.bssStart % 16 = 0 := align_mod _
  obtain ⟨t₁, hPrepare, hPc₁, hMem₁⟩ := primaryEntry_prepares (I := I) hEntry
  -- the stack pointer and the bounds of the loop
  have hBounds : ∃ t, Steps I.program t₁ t ∧ t.pc = 17 ∧ t.mem = t₁.mem ∧
      t.gpr 0 = BitVec.ofNat 64 I.sections.bssStart ∧
      t.gpr 1 = BitVec.ofNat 64 I.sections.bssSize := by
    obtain ⟨pc, gpr, stack, flags, sys, mem⟩ := t₁
    obtain rfl : pc = 13 := hPc₁
    exact ⟨_, Steps.block 4 rfl, rfl, rfl, rfl, rfl⟩
  obtain ⟨t₂, hBounds, hPc₂, hMem₂, h0, h1⟩ := hBounds
  obtain ⟨t₃, hClear, hPc₃, hMem₃⟩ := clearBss_spec hPc₂ (by omega) (by omega) h0 h1
  -- the pointer to `boot_args`, and the call
  have hPointer : ∃ t, Steps I.program t₃ t ∧ t.pc = 23 ∧ t.mem = t₃.mem ∧
      t.gpr 0 = BitVec.ofNat 64 I.bootArgs := by
    obtain ⟨pc, gpr, stack, flags, sys, mem⟩ := t₃
    obtain rfl : pc = 21 := hPc₃
    exact ⟨_, Steps.block 2 rfl, rfl, rfl, adrp_add_lo12 _⟩
  obtain ⟨t₄, hPointer, hPc₄, hMem₄, hX0⟩ := hPointer
  have hCall : step I.program t₄ = .call .main (t₄.set (xr 30) (I.place 24)) := by
    obtain ⟨pc, gpr, stack, flags, sys, mem⟩ := t₄
    obtain rfl : pc = 23 := hPc₄
    rfl
  refine ⟨_, ⟨t₄, ((hPrepare.trans hBounds).trans hClear).trans hPointer, hCall⟩, ?_, fun x => ?_⟩
  · exact (State.set_gpr_ne _ _ (by omega)).trans hX0
  · change t₄.mem x = _
    rw [hMem₄, hMem₃, hMem₂, hMem₁]
    split_ifs with hLoop hBss hBss
    · rfl
    · omega
    · omega
    · exact storedArgs_outside (by omega)

-- ---------------------------------------------------------------------------
-- The hand-off
-- ---------------------------------------------------------------------------

/-- In a cleared `.bss`, only zero arguments are intact. -/
theorem handOff_of_cleared {t : State} (hX0 : t.gpr 0 = BitVec.ofNat 64 I.bootArgs)
    (hClear : ∀ x, I.sections.bssStart ≤ x → x < I.sections.bssEnd → t.mem x = 0) :
    HandOff I s t ↔ ∀ i : Fin 4, s.gpr (i.castLE (by decide)) = 0 := by
  have hZero : ∀ a, I.sections.bssStart ≤ a → a + 8 ≤ I.sections.bssEnd → load64 t.mem a = 0 :=
    fun a hLow hHigh => load64_of_zero fun x hx hx' => hClear x (by omega) (by omega)
  have hStart := I.bootArgs_ge
  have hEnd := I.bootArgs_end
  have hPtr : (t.gpr 0).toNat = I.bootArgs := hX0 ▸ I.bootArgs_toNat
  have hArg : ∀ i : Fin 4, load64 t.mem ((t.gpr 0).toNat + 8 * i) = 0 := by
    intro i
    rw [hPtr]
    exact hZero _ (by omega) (by omega)
  constructor
  · intro hHandOff i
    rw [← hHandOff.args i]
    exact hArg i
  · intro hArgs
    exact ⟨fun i => (hArg i).trans (hArgs i).symm, fun a hLow hHigh _ _ => hZero a hLow hHigh⟩

/-- **When the boot arguments survive.** `primary_entry` calls `main` and nothing
else, once; what `main` then finds at the pointer are the entry values of `x0` to
`x3` exactly if they are all zero. -/
theorem handOff_iff (hEntry : Entry s) :
    ∃ t, (∀ f u, Calls I.program s f u ↔ f = .main ∧ u = t) ∧
      (HandOff I s t ↔ ∀ i : Fin 4, s.gpr (i.castLE (by decide)) = 0) := by
  obtain ⟨t, hCalls, hX0, hMem⟩ := primaryEntry_calls (I := I) hEntry
  refine ⟨t, fun f u => ⟨fun h => h.unique hCalls, ?_⟩, ?_⟩
  · rintro ⟨rfl, rfl⟩
    exact hCalls
  · exact handOff_of_cleared hX0 fun x hLow hHigh => by rw [hMem, if_pos ⟨hLow, hHigh⟩]

/-- The small kernel, with `boot_args` alone in `.bss`, placed from `0x40000040`. -/
def smallImage : BootImage where
  sections := smallKernel
  fits := smallKernel_fits
  bootArgs := smallKernel.bssStart
  bootArgs_aligned := by decide
  bootArgs_ge := by decide
  bootArgs_end := by decide
  other := fun _ => 0x40000000
  place := fun i => BitVec.ofNat 64 (0x40000040 + 4 * i)
  find := fun a => some ((a.toNat - 0x40000040) / 4)
  find_place := fun i hi => by
    have hLength : (code bootText).length = 83 := rfl
    rw [hLength] at hi
    rw [BitVec.toNat_ofNat, Nat.mod_eq_of_lt (by omega), Option.some.injEq]
    omega

/-- Core 0 at EL1 with a device tree at `0x48000000`, as the boot protocol has it. -/
def fdtEntry : State where
  pc := 0
  gpr := fun n => if n = 0 then 0x48000000 else 0
  stack := 0
  flags := ⟨false, false, false, false⟩
  sys := fun r => if r = .currentEl then el1Value else 0
  mem := fun _ => 0

theorem fdtEntry_entry : Entry fdtEntry := ⟨rfl, rfl, rfl⟩

theorem handOff_iff_fdtEntry :
    ∃ t, (∀ f u, Calls smallImage.program fdtEntry f u ↔ f = .main ∧ u = t) ∧
      (HandOff smallImage fdtEntry t ↔ ∀ i : Fin 4, fdtEntry.gpr (i.castLE (by decide)) = 0) :=
  handOff_iff fdtEntry_entry

/-- The pointer to the device tree is lost. -/
theorem fdtEntry_not_handed_off :
    ∃ t, Calls smallImage.program fdtEntry .main t ∧ ¬ HandOff smallImage fdtEntry t := by
  obtain ⟨t, hCalls, hX0, hMem⟩ := primaryEntry_calls (I := smallImage) fdtEntry_entry
  have hZero : ∀ x, smallKernel.bssStart ≤ x → x < smallKernel.bssEnd → t.mem x = 0 :=
    fun x hLow hHigh => (hMem x).trans (if_pos ⟨hLow, hHigh⟩)
  refine ⟨t, hCalls, fun hHandOff => ?_⟩
  have hX0Zero : fdtEntry.gpr 0 = 0 := (handOff_of_cleared hX0 hZero).mp hHandOff 0
  exact absurd hX0Zero (by decide)

end Kernalite
