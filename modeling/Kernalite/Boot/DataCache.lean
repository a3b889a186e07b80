import Kernalite.Lib.A64Cache
import Kernalite.Boot.HandOff

/-!
# Kernalite — `dcache_inval_poc` and the cache

What the routine does to the lines a boot loader left in the data cache, for every range and
every line size. The lines of the range go; the partial ones at its ends are written back
first.

* `dcacheLoop_evicts` — the loop over whole lines;
* `dcacheInvalPoc_coherent` — which lines go and which bytes count afterwards;
* `bootArgs_reachMemory_iff` — when the arguments stored at entry are in memory after it;
* `primaryEntry_calls_cached` — a cache without dirty lines changes nothing up to `main`.
-/

namespace Kernalite

open A64 ByteMemory Relation

/-- `dcache_line_size`: the bytes of a line, by the field `DminLine` of `CTR_EL0`. -/
def dcacheLine (ctr : BitVec 64) : Nat := 2 ^ (2 + (ctr.extractLsb' 16 4).toNat)

/-- The lines `dcache_inval_poc(start, end)` removes without writing them back: those that lie
in the range, and for an empty range the one that begins there. -/
def Dropped (size start stop n : Nat) : Prop :=
  start ≤ n * size ∧ n * size + size ≤ stop ∨ stop ≤ start ∧ start = n * size

/-- The line reaches over an end of the range. -/
def Partial (size start stop n : Nat) : Prop :=
  start % size ≠ 0 ∧ n = start / size ∨ stop % size ≠ 0 ∧ n = stop / size

/-- The lines the routine removes. -/
def Removed (size start stop n : Nat) : Prop :=
  n = start / size ∨ stop % size ≠ 0 ∧ n = stop / size ∨ start / size < n ∧ n < stop / size

variable {I : BootImage} {s : State} {c : Cache} {size : Nat}

/-- The size the routine computes. -/
theorem lineSize_toNat (ctr : BitVec 64) :
    ((4 : BitVec 64) <<< ((((ctr >>> 16).setWidth 4).setWidth 64).toNat % 64)).toNat =
      dcacheLine ctr := by
  have hField : (((ctr >>> 16).setWidth 4).setWidth 64).toNat = (ctr.extractLsb' 16 4).toNat := by
    rw [BitVec.extractLsb'_toNat, BitVec.toNat_setWidth, BitVec.toNat_setWidth,
      BitVec.toNat_ushiftRight]
    exact Nat.mod_eq_of_lt (Nat.lt_of_lt_of_le (Nat.mod_lt _ (by decide)) (by decide))
  rw [hField, dcacheLine]
  have hAll : ∀ j : BitVec 4, ((4 : BitVec 64) <<< (j.toNat % 64)).toNat = 2 ^ (2 + j.toNat) := by
    decide
  exact hAll _

/-- A run with the cache to instruction `n`, with the return address as it was. -/
structure CachedRun (I : BootImage) (size : Nat) (s : State) (c : Cache) (n : Nat) (t : State)
    (c' : Cache) : Prop where
  steps : CachedSteps I.program size (s, c) (t, c')
  pc_eq : t.pc = n
  lr_eq : t.gpr 30 = s.gpr 30

theorem CachedRun.trans {t u : State} {c' c'' : Cache} {m n : Nat}
    (h : CachedRun I size s c m t c') (h' : CachedRun I size t c' n u c'') :
    CachedRun I size s c n u c'' :=
  ⟨CachedSteps.trans h.steps h'.steps, h'.pc_eq, h'.lr_eq.trans h.lr_eq⟩

theorem CachedRun.branch {n i : Nat} {d : Cond} {f : BootSym} (hPc : s.pc = n)
    (hCode : (code bootText)[n]? = some (.bCond d f)) (hLabel : findLabel f bootText = some i)
    (hHolds : d.holds s.flags = true) : CachedRun I size s c i { s with pc := i } c := by
  subst hPc
  exact ⟨CachedSteps.branch hCode hLabel hHolds, rfl, rfl⟩

theorem CachedRun.noBranch {n : Nat} {d : Cond} {f : BootSym} (hPc : s.pc = n)
    (hCode : (code bootText)[n]? = some (.bCond d f)) (hFails : d.holds s.flags = false) :
    CachedRun I size s c (n + 1) { s with pc := n + 1 } c := by
  subst hPc
  exact ⟨CachedSteps.noBranch hCode hFails, rfl, rfl⟩

theorem CachedRun.civac {n : Nat} {d : Reg} (hPc : s.pc = n)
    (hCode : (code bootText)[n]? = some (.dcCivac d)) :
    CachedRun I size s c (n + 1)
      { s with pc := n + 1, mem := c.writeBack size ((s.get d).toNat / size) s.mem }
      (c.evict ((s.get d).toNat / size)) := by
  subst hPc
  exact ⟨CachedSteps.civac hCode, rfl, rfl⟩

theorem CachedRun.ivac {n : Nat} {d : Reg} (hPc : s.pc = n)
    (hCode : (code bootText)[n]? = some (.dcIvac d)) :
    CachedRun I size s c (n + 1) { s with pc := n + 1 } (c.evict ((s.get d).toNat / size)) := by
  subst hPc
  exact ⟨CachedSteps.ivac hCode, rfl, rfl⟩

/-- The end of the range is compared with a line and aligned down. -/
theorem dcache_alignsEnd (I : BootImage) (size : Nat) (c : Cache) (hPc : s.pc = 58) :
    ∃ t, CachedRun I size s c 66 t c ∧ t.mem = s.mem ∧ t.gpr 0 = s.gpr 0 ∧
      (t.gpr 1).toNat = (s.gpr 1).toNat / dcacheLine (s.sys .ctrEl0) * dcacheLine (s.sys .ctrEl0) ∧
      (t.gpr 2).toNat = dcacheLine (s.sys .ctrEl0) ∧ t.gpr 3 = t.gpr 2 - 1 ∧
      (t.flags.z = true ↔ (s.gpr 1).toNat % dcacheLine (s.sys .ctrEl0) = 0) := by
  have hBlock : ∃ t, CachedRun I size s c 66 t c ∧ t.mem = s.mem ∧ t.gpr 0 = s.gpr 0 ∧
      t.gpr 1 = s.gpr 1 &&& ~~~(t.gpr 2 - 1) ∧
      t.gpr 2 = (4 : BitVec 64) <<<
        ((((s.sys .ctrEl0 >>> 16).setWidth 4).setWidth 64).toNat % 64) ∧
      t.gpr 3 = t.gpr 2 - 1 ∧ t.flags.z = (s.gpr 1 &&& (t.gpr 2 - 1) == 0) := by
    obtain ⟨pc, gpr, stack, flags, sys, mem⟩ := s
    subst hPc
    exact ⟨_, ⟨CachedSteps.block 8 rfl rfl, rfl, rfl⟩, rfl, rfl, rfl, rfl, rfl, rfl⟩
  obtain ⟨t, hRun, hMem, h0, h1, h2, h3, hZ⟩ := hBlock
  have hLine : (t.gpr 2).toNat = dcacheLine (s.sys .ctrEl0) := by rw [h2, lineSize_toNat]
  refine ⟨t, hRun, hMem, h0, ?_, hLine, h3, ?_⟩
  · rw [h1, bic_line hLine, dcacheLine]
  · rw [hZ, beq_iff_eq, ← BitVec.toNat_inj, and_line hLine, dcacheLine]
    rfl

/-- A partial last line is written back and removed. -/
theorem dcache_cleansEnd (I : BootImage) (size : Nat) (c : Cache) (hPc : s.pc = 66)
    {aligned : Prop} (hZ : s.flags.z = true ↔ aligned) :
    ∃ t c', CachedRun I size s c 68 t c' ∧ t.gpr = s.gpr ∧
      Stage size (fun n => ¬ aligned ∧ n = (s.gpr 1).toNat / size)
        (fun n => ¬ aligned ∧ n = (s.gpr 1).toNat / size) s.mem c t.mem c' := by
  cases hCase : s.flags.z with
  | true =>
    have hAligned : aligned := hZ.mp hCase
    have hBranch : CachedRun I size s c 68 { s with pc := 68 } c := .branch hPc rfl rfl hCase
    refine ⟨_, _, hBranch, rfl, .nothing ?_ ?_⟩ <;> exact fun n hn => hn.1 hAligned
  | false =>
    have hNot : ¬ aligned := fun hAligned => Bool.false_ne_true (hCase.symm.trans (hZ.mpr hAligned))
    have hBranch : CachedRun I size s c 67 { s with pc := 67 } c := .noBranch hPc rfl hCase
    refine ⟨_, _, hBranch.trans (.civac rfl rfl), rfl, (Stage.civac _).congr ?_ ?_⟩ <;>
      exact fun n => (and_iff_right hNot).symm

/-- The start of the range is compared with a line and aligned down. -/
theorem dcache_alignsStart (c : Cache) {k : Nat} (hPc : s.pc = 68)
    (hLine : (s.gpr 2).toNat = 2 ^ k) (hMask : s.gpr 3 = s.gpr 2 - 1) :
    ∃ t, CachedRun I (2 ^ k) s c 70 t c ∧ t.mem = s.mem ∧
      (t.gpr 0).toNat = (s.gpr 0).toNat / 2 ^ k * 2 ^ k ∧ t.gpr 1 = s.gpr 1 ∧ t.gpr 2 = s.gpr 2 ∧
      (t.flags.z = true ↔ (s.gpr 0).toNat % 2 ^ k = 0) := by
  have hBlock : ∃ t, CachedRun I (2 ^ k) s c 70 t c ∧ t.mem = s.mem ∧
      t.gpr = Function.update s.gpr 0 (s.gpr 0 &&& ~~~(s.gpr 3)) ∧
      t.flags.z = (s.gpr 0 &&& s.gpr 3 == 0) := by
    obtain ⟨pc, gpr, stack, flags, sys, mem⟩ := s
    subst hPc
    exact ⟨_, ⟨CachedSteps.block 2 rfl rfl, rfl, rfl⟩, rfl, rfl, rfl⟩
  obtain ⟨t, hRun, hMem, hGpr, hZ⟩ := hBlock
  refine ⟨t, hRun, hMem, ?_, ?_, ?_, ?_⟩
  · rw [hGpr, Function.update_self, hMask, bic_line hLine]
  · rw [hGpr, Function.update_of_ne (by decide)]
  · rw [hGpr, Function.update_of_ne (by decide)]
  · rw [hZ, beq_iff_eq, ← BitVec.toNat_inj, hMask, and_line hLine]
    rfl

/-- The line the range starts in is removed, after it was written back if it is partial. -/
theorem dcache_firstLineGoes {k : Nat} (hPc : s.pc = 68) (hLine : (s.gpr 2).toNat = 2 ^ k)
    (hMask : s.gpr 3 = s.gpr 2 - 1) :
    ∃ t c', CachedRun I (2 ^ k) s c 74 t c' ∧
      (t.gpr 0).toNat = (s.gpr 0).toNat / 2 ^ k * 2 ^ k ∧ t.gpr 1 = s.gpr 1 ∧
      t.gpr 2 = s.gpr 2 ∧
      Stage (2 ^ k) (fun n => n = (s.gpr 0).toNat / 2 ^ k)
        (fun n => (s.gpr 0).toNat % 2 ^ k ≠ 0 ∧ n = (s.gpr 0).toNat / 2 ^ k) s.mem c t.mem c' := by
  obtain ⟨t, hRun, hMem, h0, h1, h2, hAligned⟩ := dcache_alignsStart (I := I) c hPc hLine hMask
  have hFirst : (t.get (xr 0)).toNat / 2 ^ k = (s.gpr 0).toNat / 2 ^ k := by
    change (t.gpr 0).toNat / 2 ^ k = _
    rw [h0, Nat.mul_div_cancel _ (Nat.two_pow_pos k)]
  rw [← hMem]
  cases hCase : t.flags.z with
  | true =>
    have hBranch : CachedRun I (2 ^ k) t c 73 { t with pc := 73 } c :=
      .branch hRun.pc_eq rfl rfl hCase
    have hInval : CachedRun I (2 ^ k) { t with pc := 73 } c 74 { t with pc := 74 }
        (c.evict ((t.get (xr 0)).toNat / 2 ^ k)) := .ivac (n := 73) (d := xr 0) rfl rfl
    rw [hFirst] at hInval
    refine ⟨_, _, (hRun.trans hBranch).trans hInval, h0, h1, h2,
      (Stage.ivac _).congr (fun n => Iff.rfl) fun n => ?_⟩
    exact ⟨False.elim, fun hn => hn.1 (hAligned.mp hCase)⟩
  | false =>
    have hNot : (s.gpr 0).toNat % 2 ^ k ≠ 0 := fun hEq =>
      Bool.false_ne_true (hCase.symm.trans (hAligned.mpr hEq))
    have hBranch : CachedRun I (2 ^ k) t c 71 { t with pc := 71 } c :=
      .noBranch hRun.pc_eq rfl hCase
    have hClean : CachedRun I (2 ^ k) { t with pc := 71 } c 72
        { t with pc := 72, mem := c.writeBack (2 ^ k) ((t.get (xr 0)).toNat / 2 ^ k) t.mem }
        (c.evict ((t.get (xr 0)).toNat / 2 ^ k)) := .civac (n := 71) (d := xr 0) rfl rfl
    rw [hFirst] at hClean
    refine ⟨_, _, ((hRun.trans hBranch).trans hClean).trans ⟨CachedSteps.goto rfl rfl, rfl, rfl⟩,
      h0, h1, h2, (Stage.civac _).congr (fun n => Iff.rfl) fun n => ?_⟩
    exact (and_iff_right hNot).symm

/-- The loop goes on to the next line and compares it with the end of the range. -/
theorem dcacheLoop_next (c : Cache) {k i stop : Nat} (hPc : s.pc = 74)
    (hNext : (s.gpr 0).toNat = i * 2 ^ k) (hStop : (s.gpr 1).toNat = stop * 2 ^ k)
    (hLine : (s.gpr 2).toNat = 2 ^ k) (hRoom : (i + 1) * 2 ^ k < 2 ^ 64) :
    ∃ t, CachedRun I (2 ^ k) s c 76 t c ∧ t.mem = s.mem ∧ (t.gpr 0).toNat = (i + 1) * 2 ^ k ∧
      t.gpr 1 = s.gpr 1 ∧ t.gpr 2 = s.gpr 2 ∧ Cond.lo.holds t.flags = decide (i + 1 < stop) := by
  have hBlock : ∃ t, CachedRun I (2 ^ k) s c 76 t c ∧ t.mem = s.mem ∧
      t.gpr = Function.update s.gpr 0 (s.gpr 0 + s.gpr 2) ∧
      t.flags = State.subFlags (s.gpr 0 + s.gpr 2) (s.gpr 1) := by
    obtain ⟨pc, gpr, stack, flags, sys, mem⟩ := s
    subst hPc
    exact ⟨_, ⟨CachedSteps.block 2 rfl rfl, rfl, rfl⟩, rfl, rfl, rfl⟩
  obtain ⟨t, hRun, hMem, hGpr, hFlags⟩ := hBlock
  have hSum : (s.gpr 0 + s.gpr 2).toNat = (i + 1) * 2 ^ k := by
    rw [Nat.succ_mul] at hRoom ⊢
    rw [BitVec.toNat_add, hNext, hLine, Nat.mod_eq_of_lt hRoom]
  refine ⟨t, hRun, hMem, ?_, ?_, ?_, ?_⟩
  · rw [hGpr, Function.update_self, hSum]
  · rw [hGpr, Function.update_of_ne (by decide)]
  · rw [hGpr, Function.update_of_ne (by decide)]
  · rw [hFlags, Bool.eq_iff_iff]
    simp only [Cond.holds, State.subFlags, Bool.not_eq_true', decide_eq_false_iff_not, hSum, hStop,
      Nat.not_le, Nat.mul_lt_mul_right (Nat.two_pow_pos k), decide_eq_true_eq]

/-- **The loop** removes the whole lines behind the first one. -/
theorem dcacheLoop_evicts {k i stop : Nat} (hPc : s.pc = 74)
    (hNext : (s.gpr 0).toNat = i * 2 ^ k) (hStop : (s.gpr 1).toNat = stop * 2 ^ k)
    (hLine : (s.gpr 2).toNat = 2 ^ k) (hRoom : (i + 1) * 2 ^ k < 2 ^ 64) :
    ∃ t c', CachedRun I (2 ^ k) s c 77 t c' ∧
      Stage (2 ^ k) (fun n => i < n ∧ n < stop) (fun _ => False) s.mem c t.mem c' := by
  -- on the number of lines left
  induction hLeft : stop - i using Nat.strong_induction_on generalizing s c i with
  | _ n ih =>
    obtain ⟨t, hRun, hMem, h0, h1, h2, hLess⟩ :=
      dcacheLoop_next (I := I) c hPc hNext hStop hLine hRoom
    rw [← hMem]
    by_cases hMore : i + 1 < stop
    · have hBranch : CachedRun I (2 ^ k) t c 73 { t with pc := 73 } c :=
        .branch hRun.pc_eq rfl rfl (hLess.trans (decide_eq_true hMore))
      have hNumber : (t.get (xr 0)).toNat / 2 ^ k = i + 1 := by
        change (t.gpr 0).toNat / 2 ^ k = i + 1
        rw [h0, Nat.mul_div_cancel _ (Nat.two_pow_pos k)]
      have hInval : CachedRun I (2 ^ k) { t with pc := 73 } c 74 { t with pc := 74 }
          (c.evict ((t.get (xr 0)).toNat / 2 ^ k)) := .ivac (n := 73) (d := xr 0) rfl rfl
      rw [hNumber] at hInval
      have hTop : (i + 1 + 1) * 2 ^ k < 2 ^ 64 := by
        have hBound := (s.gpr 1).isLt
        rw [hStop] at hBound
        exact Nat.lt_of_le_of_lt (Nat.mul_le_mul_right _ hMore) hBound
      obtain ⟨u, c', hRest, hStage⟩ := ih (stop - (i + 1)) (by omega) (s := { t with pc := 74 })
        (c := c.evict (i + 1)) (i := i + 1) rfl h0 (h1 ▸ hStop) (h2 ▸ hLine) hTop rfl
      refine ⟨u, c', ((hRun.trans hBranch).trans hInval).trans hRest,
        (((Stage.ivac (i + 1)).trans hStage (fun _ => False.elim) fun _ h => h.elim).congr
          (fun n => ?_) fun n => ?_)⟩
      · omega
      · exact or_self_iff
    · have hBranch : CachedRun I (2 ^ k) t c 77 { t with pc := 77 } c :=
        .noBranch hRun.pc_eq rfl (hLess.trans (decide_eq_false hMore))
      refine ⟨_, _, hRun.trans hBranch, .nothing (fun n hn => ?_) fun _ => id⟩
      omega

/-- **What the routine does**, stage by stage. -/
theorem dcacheInvalPoc_stages {r : Nat} (hPc : s.pc = 58) (hFind : I.find (s.gpr 30) = some r)
    (hTop : ((s.gpr 0).toNat / dcacheLine (s.sys .ctrEl0) + 1) * dcacheLine (s.sys .ctrEl0)
      < 2 ^ 64) (c : Cache) :
    ∃ t c', CachedSteps I.program (dcacheLine (s.sys .ctrEl0)) (s, c) (t, c') ∧ t.pc = r ∧
      Stage (dcacheLine (s.sys .ctrEl0))
        (Removed (dcacheLine (s.sys .ctrEl0)) (s.gpr 0).toNat (s.gpr 1).toNat)
        (Partial (dcacheLine (s.sys .ctrEl0)) (s.gpr 0).toNat (s.gpr 1).toNat)
        s.mem c t.mem c' := by
  generalize hk : 2 + ((s.sys .ctrEl0).extractLsb' 16 4).toNat = k
  have hSize : dcacheLine (s.sys .ctrEl0) = 2 ^ k := by rw [dcacheLine, hk]
  have hPow := Nat.two_pow_pos k
  obtain ⟨t₁, hAlign, hMem, h0, h1, h2, h3, hZ⟩ := dcache_alignsEnd I (2 ^ k) c hPc
  rw [hSize] at hTop h1 h2 hZ ⊢
  obtain ⟨t₂, c₂, hEnd, hGpr, hStage₂⟩ := dcache_cleansEnd I (2 ^ k) c hAlign.pc_eq hZ
  rw [← hGpr] at h0 h1 h2 h3 hStage₂
  obtain ⟨t₃, c₃, hStart, hNext, h1', h2', hStage₃⟩ := dcache_firstLineGoes (I := I) (c := c₂)
    hEnd.pc_eq h2 h3
  rw [h0] at hNext hStage₃
  obtain ⟨t₄, c₄, hLoop, hStage₄⟩ := dcacheLoop_evicts (I := I) (c := c₃) hStart.pc_eq hNext
    (h1' ▸ h1) (h2' ▸ h2) hTop
  have hAll := hAlign.trans (hEnd.trans (hStart.trans hLoop))
  have hLast : CachedSteps I.program (2 ^ k) (t₄, c₄) ({ t₄ with pc := r }, c₄) := by
    have hLr : t₄.gpr 30 = s.gpr 30 := hAll.lr_eq
    have hPc₄ := hAll.pc_eq
    obtain ⟨pc, gpr, stack, flags, sys, mem⟩ := t₄
    obtain rfl : pc = 77 := hPc₄
    have hBarrier : CachedSteps I.program (2 ^ k) (⟨77, gpr, stack, flags, sys, mem⟩, c₄)
        (⟨78, gpr, stack, flags, sys, mem⟩, c₄) := CachedSteps.block 1 rfl rfl
    exact hBarrier.trans (CachedSteps.leave rfl (by rw [← hFind, ← hLr]; rfl))
  have hEndLine : (t₂.gpr 1).toNat / 2 ^ k = (s.gpr 1).toNat / 2 ^ k := by
    rw [h1, Nat.mul_div_cancel _ hPow]
  rw [hEndLine, hMem] at hStage₂
  have hFirstTwo := hStage₂.trans hStage₃ (fun _ => id) fun n hn hGone => hGone
  have hStages := hFirstTwo.trans hStage₄ (fun n hn => hn.imp id And.right) fun _ hn => hn.elim
  refine ⟨_, c₄, CachedSteps.trans hAll.steps hLast, rfl, hStages.congr (fun n => ?_) fun n => ?_⟩
  · rw [Removed]
    tauto
  · rw [Partial]
    tauto

-- ---------------------------------------------------------------------------
-- Ranges and lines
-- ---------------------------------------------------------------------------

section Ranges

variable {start stop n : Nat}

theorem start_le_line (hSize : 0 < size) :
    start ≤ n * size ↔ start / size < n ∨ start / size = n ∧ start % size = 0 := by
  have hSplit := Nat.div_add_mod start size
  have hMod := Nat.mod_lt start hSize
  rcases Nat.lt_trichotomy (start / size) n with hLt | hEq | hGt
  · have hNext := (Nat.div_lt_iff_lt_mul hSize).mp hLt
    exact iff_of_true hNext.le (Or.inl hLt)
  · rw [Nat.mul_comm, hEq] at hSplit
    omega
  · have hBelow := (Nat.le_div_iff_mul_le hSize).mp hGt
    rw [Nat.succ_mul] at hBelow
    omega

theorem line_le_stop (hSize : 0 < size) : n * size + size ≤ stop ↔ n < stop / size := by
  rw [← Nat.succ_mul, ← Nat.le_div_iff_mul_le hSize]
  exact Nat.succ_le_iff

/-- Removed without being written back. -/
theorem removed_not_partial_iff (hSize : 0 < size) :
    Removed size start stop n ∧ ¬ Partial size start stop n ↔ Dropped size start stop n := by
  have hStart := Nat.div_add_mod start size
  have hStop := Nat.div_add_mod stop size
  have hEq : start = n * size ↔ start / size = n ∧ start % size = 0 := by
    constructor
    · rintro rfl
      exact ⟨Nat.mul_div_cancel _ hSize, Nat.mul_mod_left _ _⟩
    · rintro ⟨rfl, hZero⟩
      rw [Nat.mul_comm]
      omega
  have hLe : stop ≤ start ↔
      stop / size < start / size ∨ stop / size = start / size ∧ stop % size ≤ start % size := by
    rcases Nat.lt_trichotomy (stop / size) (start / size) with hLt | hSame | hGt
    · have hBelow := (Nat.div_lt_iff_lt_mul hSize).mp hLt
      have hLine := Nat.div_mul_le_self start size
      omega
    · rw [hSame] at hStop ⊢
      omega
    · have hBelow := (Nat.div_lt_iff_lt_mul hSize).mp hGt
      have hLine := Nat.div_mul_le_self stop size
      omega
  rw [Removed, Partial, Dropped, start_le_line hSize, line_le_stop hSize, hEq, hLe]
  omega

/-- Every line with a byte of the range is removed. -/
theorem removed_of_mem {a : Nat} (hLow : start ≤ a) (hHigh : a < stop) :
    Removed size start stop (a / size) := by
  have hFirst : start / size ≤ a / size := Nat.div_le_div_right hLow
  have hLast : a / size ≤ stop / size := Nat.div_le_div_right hHigh.le
  have hStop := Nat.div_add_mod stop size
  have hLine := Nat.mul_div_le a size
  by_cases hEnd : a / size = stop / size
  · rw [hEnd] at hLine
    exact Or.inr (Or.inl ⟨by omega, hEnd⟩)
  · rw [Removed]
    omega

/-- A removed line behind the first has a byte of the range. -/
theorem mem_of_removed (hSize : 0 < size) (hRange : start ≤ stop) (hFirst : n ≠ start / size)
    (hRemoved : Removed size start stop n) : ∃ a, start ≤ a ∧ a < stop ∧ a / size = n := by
  have hOrder : start / size ≤ stop / size := Nat.div_le_div_right hRange
  have hStop := Nat.div_add_mod stop size
  have hBehind : start / size < n := by
    rcases hRemoved with hEq | ⟨-, rfl⟩ | ⟨hLt, -⟩
    · exact absurd hEq hFirst
    · omega
    · exact hLt
  refine ⟨n * size, (start_le_line hSize).mpr (Or.inl hBehind), ?_, Nat.mul_div_cancel _ hSize⟩
  rcases hRemoved with hEq | ⟨hPartial, rfl⟩ | ⟨-, hLt⟩
  · exact absurd hEq hFirst
  · rw [Nat.mul_comm]
    omega
  · have hLine := (line_le_stop hSize).mpr hLt
    omega

theorem partial_removed (h : Partial size start stop n) : Removed size start stop n :=
  h.elim (fun hFirst => Or.inl hFirst.2) fun hLast => Or.inr (Or.inl hLast)

end Ranges

section Inval

variable {start stop a : Nat} {m m' : Mem} {c' : Cache}

/-- In a line within the range memory counts. -/
theorem invalStage_dropped (hSize : 0 < size)
    (hStage : Stage size (Removed size start stop) (Partial size start stop) m c m' c')
    (hDropped : Dropped size start stop (a / size)) : c'.settled size m' a = m a := by
  obtain ⟨hGone, hPartial⟩ := (removed_not_partial_iff hSize).mpr hDropped
  exact hStage.settled_dropped hGone hPartial

/-- Elsewhere the byte stays that counted before. -/
theorem invalStage_kept (hSize : 0 < size)
    (hStage : Stage size (Removed size start stop) (Partial size start stop) m c m' c')
    (hNot : ¬ Dropped size start stop (a / size)) :
    c'.settled size m' a = c.settled size m a := by
  refine hStage.settled_kept (fun _ => partial_removed) fun hGone => ?_
  by_contra hPartial
  exact hNot ((removed_not_partial_iff hSize).mp ⟨hGone, hPartial⟩)

end Inval

/--
**What `dcache_inval_poc(start, end)` does to the cache.** For every line size of `CTR_EL0`, every
contents of the cache and every range whose first line is not the topmost: the routine returns,
and then no line with a byte of the range is in the cache, the other lines are as they were, and
the byte that counts is the same as before at every address, except that memory's counts where
a line lies in the range as a whole. An empty range at the start of a line loses that line.
-/
theorem dcacheInvalPoc_coherent {r : Nat}
    (hEntry : findLabel BootSym.dcacheInvalPoc bootText = some s.pc)
    (hFind : I.find (s.gpr 30) = some r) (hLine : dcacheLine (s.sys .ctrEl0) = size)
    (hTop : ((s.gpr 0).toNat / size + 1) * size < 2 ^ 64) (c : Cache) :
    ∃ t c', CachedSteps I.program size (s, c) (t, c') ∧ t.pc = r ∧
      (∀ a, (s.gpr 0).toNat ≤ a → a < (s.gpr 1).toNat → c' (a / size) = none) ∧
      ((s.gpr 0).toNat ≤ (s.gpr 1).toNat → ∀ n, n ≠ (s.gpr 0).toNat / size →
        (∀ a, (s.gpr 0).toNat ≤ a → a < (s.gpr 1).toNat → a / size ≠ n) → c' n = c n) ∧
      (∀ a, Dropped size (s.gpr 0).toNat (s.gpr 1).toNat (a / size) →
        c'.settled size t.mem a = s.mem a) ∧
      ∀ a, ¬ Dropped size (s.gpr 0).toNat (s.gpr 1).toNat (a / size) →
        c'.settled size t.mem a = c.settled size s.mem a := by
  have hPc : s.pc = 58 := (Option.some.inj hEntry).symm
  subst hLine
  have hSize : 0 < dcacheLine (s.sys .ctrEl0) := Nat.two_pow_pos _
  obtain ⟨t, c', hSteps, hEnd, hStage⟩ := dcacheInvalPoc_stages hPc hFind hTop c
  refine ⟨t, c', hSteps, hEnd, fun a hLow hHigh => ?_, fun hRange n hFirst hNone => ?_,
    fun a hDropped => ?_, fun a hNot => ?_⟩
  · exact hStage.gone _ (removed_of_mem hLow hHigh)
  · refine hStage.kept n fun hGone => ?_
    obtain ⟨a, hLow, hHigh, hLine⟩ := mem_of_removed hSize hRange hFirst hGone
    exact hNone a hLow hHigh hLine
  · exact invalStage_dropped hSize hStage hDropped
  · exact invalStage_kept hSize hStage hNot

/-- The routine called on `[0x1010, 0x10B0)` with lines of 64 bytes. -/
def rangeEntry : State where
  pc := 58
  gpr := fun n => if n = 0 then 0x1010 else if n = 1 then 0x10B0 else if n = 30 then 0x40000060 else 0
  stack := 0
  flags := ⟨false, false, false, false⟩
  sys := fun r => if r = .ctrEl0 then 0x40000 else 0
  mem := fun _ => 0

/-- A cache full of dirty lines of ones. -/
def dirtyOnes : Cache := fun _ => some ⟨true, fun _ => 1⟩

/-- The whole line in the middle is lost, what stood before the range in its first line is
written back. -/
theorem dcacheInvalPoc_coherent_range :
    ∃ t c', CachedSteps smallImage.program 64 (rangeEntry, dirtyOnes) (t, c') ∧ t.pc = 8 ∧
      c' (0x1010 / 64) = none ∧ c'.settled 64 t.mem 0x1040 = 0 ∧
      c'.settled 64 t.mem 0x1000 = 1 := by
  obtain ⟨t, c', hSteps, hPc, hGone, -, hDropped, hKept⟩ := dcacheInvalPoc_coherent
    (I := smallImage) (r := 8) rfl (by decide)
    (show dcacheLine (rangeEntry.sys .ctrEl0) = 64 by decide) (by decide) dirtyOnes
  have hWhole : Dropped 64 (rangeEntry.gpr 0).toNat (rangeEntry.gpr 1).toNat (0x1040 / 64) :=
    Or.inl (by decide)
  have hFirst : ¬ Dropped 64 (rangeEntry.gpr 0).toNat (rangeEntry.gpr 1).toNat (0x1000 / 64) := by
    rw [Dropped]
    decide
  exact ⟨t, c', hSteps, hPc, hGone 0x1010 (by decide) (by decide), hDropped _ hWhole,
    hKept _ hFirst⟩

-- ---------------------------------------------------------------------------
-- The boot arguments
-- ---------------------------------------------------------------------------

theorem load64_storedArgs (I : BootImage) (s : State) :
    ∀ i : Fin 4, load64 (storedArgs I s) (I.bootArgs + 8 * i) = s.gpr (i.castLE (by decide))
  | 0 => by
    change load64 (storedArgs I s) I.bootArgs = s.gpr 0
    rw [storedArgs, load64_store64_apart (by omega), load64_store64_apart (by omega),
      load64_store64_apart (by omega), load64_store64_same]
  | 1 => by
    change load64 (storedArgs I s) (I.bootArgs + 8) = s.gpr 1
    rw [storedArgs, load64_store64_apart (by omega), load64_store64_apart (by omega),
      load64_store64_same]
  | 2 => by
    change load64 (storedArgs I s) (I.bootArgs + 16) = s.gpr 2
    rw [storedArgs, load64_store64_apart (by omega), load64_store64_same]
  | 3 => load64_store64_same _ _ _

theorem argsAt_iff (I : BootImage) (s : State) (m : Mem) :
    (∀ i : Fin 4, load64 m (I.bootArgs + 8 * i) = s.gpr (i.castLE (by decide))) ↔
      ∀ a, I.bootArgs ≤ a → a < I.bootArgs + 32 → m a = storedArgs I s a := by
  have hArg : ∀ i : Fin 4, load64 m (I.bootArgs + 8 * i) = s.gpr (i.castLE (by decide)) ↔
      ∀ a, I.bootArgs + 8 * i ≤ a → a < I.bootArgs + 8 * i + 8 → m a = storedArgs I s a := by
    intro i
    rw [← load64_storedArgs I s i, load64_eq_iff]
  constructor
  · intro h a hLow hHigh
    exact (hArg ⟨(a - I.bootArgs) / 8, by omega⟩).mp (h _) a (by dsimp only; omega)
      (by dsimp only; omega)
  · intro h i
    exact (hArg i).mpr fun a hLow hHigh => h a (by omega) (by omega)

/-- The entry code enters the routine with the range of `boot_args`, the arguments stored. -/
theorem primaryEntry_invalidates (size : Nat) (c : Cache)
    (hPc : findLabel BootSym.primaryEntry bootText = some s.pc)
    (hCore : s.sys .mpidrEl1 &&& 0xFF = 0) :
    ∃ t, CachedSteps I.program size (s, c) (t, c) ∧ t.pc = 58 ∧ I.find (t.gpr 30) = some 11 ∧
      t.mem = storedArgs I s ∧ t.sys = s.sys ∧ (t.gpr 0).toNat = I.bootArgs ∧
      (t.gpr 1).toNat = I.bootArgs + 32 := by
  obtain ⟨t₁, hGate, hPc₁, hMem₁, hSys₁, h0, h1, h2, h3⟩ :=
    primaryEntry_core0_cached (I := I) size c hPc hCore
  obtain ⟨t₂, hSave, hPc₂, hMem₂, hSys₂, hPtr, hEnd⟩ := saveArgs_cached (I := I) size c hPc₁
  have hEnter : CachedSteps I.program size (t₂, c)
      ({ t₂.set (xr 30) (I.place (t₂.pc + 1)) with pc := 58 }, c) :=
    CachedSteps.enter (f := .dcacheInvalPoc) (by rw [hPc₂]; rfl) rfl
  have hLr : (t₂.set (xr 30) (I.place (t₂.pc + 1))).gpr 30 = I.place 11 := by
    rw [hPc₂]
    exact State.set_gpr_self _ _ _
  have hStored : storedArgs I t₁ = storedArgs I s := by
    rw [storedArgs, storedArgs, hMem₁, h0, h1, h2, h3]
  have hStart : (t₂.gpr 0).toNat = I.bootArgs := by rw [hPtr, I.bootArgs_toNat]
  have hStop : (t₂.gpr 1).toNat = I.bootArgs + 32 := by
    have hArgsEnd := I.bootArgs_end
    have hStack := I.sections.bssEnd_lt_stackTop
    have hFits : I.sections.stackTop < 2 ^ 64 := I.fits
    rw [hEnd, BitVec.toNat_add, hStart]
    exact Nat.mod_eq_of_lt (show I.bootArgs + 32 < 2 ^ 64 by omega)
  exact ⟨_, (hGate.trans hSave).trans hEnter, rfl,
    (congrArg I.find hLr).trans (I.find_place 11 (by decide)), hMem₂.trans hStored,
    hSys₂.trans hSys₁, hStart, hStop⟩

/--
**When the boot arguments reach memory.** The entry code stores `x0` to `x3` past the cache and
then has their lines invalidated. Whatever the cache holds, none of these lines is left in it, and
memory holds the entry values exactly if every dirty byte over them either lies in a line within
`boot_args` or agrees with what was stored.
-/
theorem bootArgs_reachMemory_iff
    (hPc : findLabel BootSym.primaryEntry bootText = some s.pc)
    (hCore : s.sys .mpidrEl1 &&& 0xFF = 0) (hLine : dcacheLine (s.sys .ctrEl0) = size)
    (hTop : (I.bootArgs / size + 1) * size < 2 ^ 64) (c : Cache) :
    ∃ t c', CachedSteps I.program size (s, c) (t, c') ∧ t.pc = 11 ∧
      (∀ a, I.bootArgs ≤ a → a < I.bootArgs + 32 → c' (a / size) = none) ∧
      ((∀ i : Fin 4, load64 t.mem (I.bootArgs + 8 * i) = s.gpr (i.castLE (by decide))) ↔
        ∀ a, I.bootArgs ≤ a → a < I.bootArgs + 32 →
          ¬ Dropped size I.bootArgs (I.bootArgs + 32) (a / size) →
            c.settled size (storedArgs I s) a = storedArgs I s a) := by
  obtain ⟨t, hEnters, hPcT, hFind, hMem, hSys, hStart, hStop⟩ :=
    primaryEntry_invalidates (I := I) size c hPc hCore
  have hLineT : dcacheLine (t.sys .ctrEl0) = size := by rw [hSys, hLine]
  have hSize : 0 < size := hLine ▸ Nat.two_pow_pos _
  obtain ⟨u, c', hInval, hPcU, hStage⟩ := dcacheInvalPoc_stages hPcT hFind
    (by rw [hStart, hLineT]; exact hTop) c
  rw [hLineT] at hInval
  rw [hLineT, hStart, hStop, hMem] at hStage
  have hGone : ∀ a, I.bootArgs ≤ a → a < I.bootArgs + 32 → c' (a / size) = none :=
    fun a hLow hHigh => hStage.gone _ (removed_of_mem hLow hHigh)
  refine ⟨u, c', hEnters.trans hInval, hPcU, hGone, (argsAt_iff I s u.mem).trans ?_⟩
  refine forall₃_congr fun a hLow hHigh => ?_
  -- behind the routine, memory is all that counts
  have hBare : c'.settled size u.mem a = u.mem a := by rw [Cache.settled, hGone a hLow hHigh]
  by_cases hDropped : Dropped size I.bootArgs (I.bootArgs + 32) (a / size)
  · rw [← hBare, invalStage_dropped hSize hStage hDropped]
    exact iff_of_true rfl fun hNot => absurd hDropped hNot
  · rw [← hBare, invalStage_kept hSize hStage hDropped]
    exact (imp_iff_right hDropped).symm

/-- The small kernel on a machine with lines of 64 bytes. -/
def longLines : State := { fdtEntry with sys := fun r => if r = .ctrEl0 then 0x40000 else 0 }

/-- No line of 64 bytes lies within `boot_args`: the dirty ones end up on top of the arguments. -/
theorem bootArgs_reachMemory_iff_longLines :
    ∃ t c', CachedSteps smallImage.program 64 (longLines, dirtyOnes) (t, c') ∧ t.pc = 11 ∧
      ¬ ∀ i : Fin 4, load64 t.mem (smallImage.bootArgs + 8 * i) =
        longLines.gpr (i.castLE (by decide)) := by
  obtain ⟨t, c', hSteps, hPc, -, hArgs⟩ := bootArgs_reachMemory_iff (I := smallImage)
    rfl (by decide) (show dcacheLine (longLines.sys .ctrEl0) = 64 by decide) (by decide) dirtyOnes
  refine ⟨t, c', hSteps, hPc, fun hAll => ?_⟩
  have hByte := hArgs.mp hAll smallImage.bootArgs le_rfl (by decide)
    (by rw [Dropped]; decide)
  have hFirst : storedArgs smallImage longLines smallImage.bootArgs = 0 := by
    decide
  rw [hFirst] at hByte
  exact absurd hByte (by decide)

/-- **Without dirty lines** the entry code calls `main` as it does without a cache. -/
theorem primaryEntry_calls_cached (hEntry : Entry s) (size : Nat) (hClean : c.Clean) :
    ∃ t u c', CachedSteps I.program size (s, c) (u, c') ∧ step I.program u = .call .main t ∧
      t.gpr 0 = BitVec.ofNat 64 I.bootArgs ∧ ∀ x, c'.settled size t.mem x =
        if I.sections.bssStart ≤ x ∧ x < I.sections.bssEnd then 0 else s.mem x := by
  obtain ⟨t, hCalls, hPtr, hMem⟩ := primaryEntry_calls (I := I) hEntry
  obtain ⟨u, c', hSteps, hCall, hClean'⟩ := hCalls.cached size hClean
  exact ⟨t, u, c', hSteps, hCall, hPtr,
    fun x => (Cache.settled_of_clean hClean' x).trans (hMem x)⟩

end Kernalite
