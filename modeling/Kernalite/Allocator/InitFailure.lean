import Kernalite.Allocator.Operations

/-!
# Kernalite — a failed `page_init`

`page_init` has two error exits. The first one, taken when alignment eats the
whole region, leaves the allocator alone. The second one, taken when the bitmap
area cannot describe the region, comes after `mem_base` and `total_pages` have
been assigned: the allocator is left with the page count of a region it has
just refused and with whatever bitmap pointer it had before.

* `failureSafe_iff` — a failing call is harmless exactly when it does not take
  the second exit, or finds the two variables at the values it writes;
* `runOps_bitmapInBounds` — in a run that meets this condition throughout, every
  bit the page count promises lies in the bitmap area, in every state.
-/

namespace Kernalite

open ByteMemory PackedBits Words Loop

/-- No call has reached the static variables yet: `.bss` is zero. -/
def NeverInitialised (k : Kernel) : Prop :=
  k.memBase = 0 ∧ k.bitmap = 0 ∧ k.totalPages = 0

/-- Every bit of the pool has its byte in the bitmap area, which does not
contain the null pointer. -/
def BitmapInBounds (L : Layout) (k : Kernel) : Prop :=
  ∀ i, i < k.totalPages → L.bitMapStart ≤ k.bitmapByte i ∧ k.bitmapByte i < L.bitMapEnd

/-- If this `page_init` fails, it changes neither the static variables nor
memory, no later sequence of calls can tell that it was made, and it does not
send the bitmap out of bounds. -/
def FailureSafe (L : Layout) (memStart memSize : Word) (k : Kernel) : Prop :=
  ∀ k', pageInit L memStart.toNat memSize.toNat k = (false, k') →
    (k'.memBase = k.memBase ∧ k'.totalPages = k.totalPages ∧ k'.bitmap = k.bitmap ∧
      k'.mem = k.mem) ∧
    (∀ ops, (runOps L ops k').1 = (runOps L ops k).1 ∧
      Relogged k.console k'.console (runOps L ops k).2 (runOps L ops k').2) ∧
    (BitmapInBounds L k → BitmapInBounds L k')

/-- The region is larger than the bitmap area can describe. -/
def TooLarge (L : Layout) (memStart memSize : Word) : Prop :=
  shiftUp memStart.toNat < memSize.toNat ∧
    bitmapArea L < bitmapBytes (managedPages memStart.toNat memSize.toNat)

/-- The region is not too large, or the static variables already hold what the
failing call assigns. -/
def InitSafe (L : Layout) (memStart memSize : Word) (k : Kernel) : Prop :=
  ¬ TooLarge L memStart memSize ∨
    k.memBase = (memStart.toNat + shiftUp memStart.toNat) % 2 ^ 64 ∧
      k.totalPages = managedPages memStart.toNat memSize.toNat

/-- A state with the same static variables and memory is as good, whatever was
printed in between. -/
theorem runOps_console {L : Layout} {k : Kernel} (c : List (String × List Arg))
    (ops : List AllocOp) :
    (runOps L ops { k with console := k.console ++ c }).1 = (runOps L ops k).1 ∧
      Relogged k.console (k.console ++ c) (runOps L ops k).2
        (runOps L ops { k with console := k.console ++ c }).2 :=
  runOps_relogged L ops ⟨[], by simp, by simp⟩

theorem failureSafe_iff (L : Layout) (memStart memSize : Word) (k : Kernel) :
    FailureSafe L memStart memSize k ↔ InitSafe L memStart memSize k := by
  rcases pageInit_cases L memStart.toNat memSize.isLt k with
    ⟨hShift, c, hEq⟩ | ⟨hShift, hFit, c, hEq⟩ | ⟨hShift, hFit, c, hEq⟩
  · -- the region is used up by alignment: only the console changes
    refine iff_of_true ?_ (Or.inl fun h => by have := h.1; omega)
    intro k' hk'
    obtain rfl := (Prod.mk.inj (hEq.symm.trans hk')).2
    exact ⟨⟨rfl, rfl, rfl, rfl⟩, runOps_console c, fun h => h⟩
  · constructor
    · intro hSafe
      obtain ⟨⟨hBase, hTotal, -, -⟩, -, -⟩ := hSafe _ hEq
      exact Or.inr ⟨hBase.symm, hTotal.symm⟩
    · rintro (hSmall | ⟨hBase, hTotal⟩) k' hk'
      · exact absurd ⟨hShift, hFit⟩ hSmall
      · rw [hEq, ← hBase, ← hTotal] at hk'
        obtain rfl := (Prod.mk.inj hk').2
        exact ⟨⟨rfl, rfl, rfl, rfl⟩, runOps_console c, fun h => h⟩
  · -- the call succeeds
    refine iff_of_true ?_ (Or.inl fun h => by have := h.2; omega)
    intro k' hk'
    exact absurd (hEq.symm.trans hk') (by simp)

-- ---------------------------------------------------------------------------
-- Runs
-- ---------------------------------------------------------------------------

/-- Every `page_init` of the run meets `InitSafe` when its turn comes. -/
def InitsSafe (L : Layout) : List AllocOp → Kernel → Prop
  | [], _ => True
  | op :: ops, k =>
    (∀ memStart memSize, op = .init memStart memSize → InitSafe L memStart memSize k) ∧
      InitsSafe L ops (op.run L k).2

theorem SameStatics.bitmapInBounds {L : Layout} {k k' : Kernel} (h : SameStatics k k')
    (hIn : BitmapInBounds L k) : BitmapInBounds L k' := by
  intro i hi
  rw [h.bitmapByte_eq]
  exact hIn i (h.totalPages_eq ▸ hi)

/-- A successful `page_init` points the bitmap at its area. -/
theorem bitmapInBounds_of_fit {L : Layout} {k : Kernel} (hBitmap : k.bitmap = L.bitMapStart)
    (hFit : bitmapBytes k.totalPages ≤ bitmapArea L) : BitmapInBounds L k := by
  intro i hi
  have hArea := L.bitMap_le
  have hTop := L.bitMapEnd_lt
  unfold bitmapBytes bitmapArea at hFit
  rw [Kernel.bitmapByte, hBitmap, add64_eq (by omega)]
  omega

theorem AllocOp.run_bitmapInBounds {L : Layout} {op : AllocOp} {k : Kernel}
    (hSafe : ∀ memStart memSize, op = .init memStart memSize → InitSafe L memStart memSize k)
    (hIn : BitmapInBounds L k) : BitmapInBounds L (op.run L k).2 := by
  cases op with
  | init memStart memSize =>
    cases hOk : (pageInit L memStart.toNat memSize.toNat k).1 with
    | false =>
      have hFail := (failureSafe_iff L memStart memSize k).mpr (hSafe _ _ rfl)
      exact (hFail _ (Prod.ext hOk rfl)).2.2 hIn
    | true =>
      change BitmapInBounds L (pageInit L memStart.toNat memSize.toNat k).2
      rcases pageInit_cases L memStart.toNat memSize.isLt k with
        ⟨-, c, hEq⟩ | ⟨-, -, c, hEq⟩ | ⟨-, hFit, c, hEq⟩
      · simp [hEq] at hOk
      · simp [hEq] at hOk
      · rw [hEq]
        exact bitmapInBounds_of_fit rfl hFit
  | reserve ptr numPages => exact (reservePage_static _ _ k).bitmapInBounds hIn
  | alloc numPages => exact (pageAlloc_static _ k).bitmapInBounds hIn
  | free ptr numPages => exact (pageFree_static _ _ k).bitmapInBounds hIn
  | dump => exact (pageDumpStatus_static k).bitmapInBounds hIn

theorem initsSafe_append {L : Layout} {pre post : List AllocOp} {k : Kernel}
    (hSafe : InitsSafe L (pre ++ post) k) :
    InitsSafe L pre k ∧ InitsSafe L post (runOps L pre k).2 := by
  induction pre generalizing k with
  | nil => exact ⟨trivial, hSafe⟩
  | cons op pre ih =>
    obtain ⟨hPre, hPost⟩ := ih hSafe.2
    exact ⟨⟨hSafe.1, hPre⟩, hPost⟩

theorem runOps_bitmapInBounds {L : Layout} (ops : List AllocOp) {k : Kernel}
    (hSafe : InitsSafe L ops k) (hIn : BitmapInBounds L k) :
    BitmapInBounds L (runOps L ops k).2 := by
  induction ops generalizing k with
  | nil => exact hIn
  | cons op ops ih => exact ih hSafe.2 (AllocOp.run_bitmapInBounds hSafe.1 hIn)

/--
**A failed `page_init` is harmless exactly when `InitSafe` holds.** In one step:
the call is `FailureSafe` if and only if the region is not too large, or the
static variables already hold the values it assigns. Over runs from the
uninitialised allocator whose `page_init` calls all meet that condition: every
state reached keeps its bits inside the bitmap area, and every `page_init` still
to come is `FailureSafe`.
-/
theorem failedInit_harmless_iff (L : Layout) :
    (∀ (memStart memSize : Word) (k : Kernel),
      FailureSafe L memStart memSize k ↔ InitSafe L memStart memSize k) ∧
    (∀ (k : Kernel) (pre post : List AllocOp),
      NeverInitialised k → InitsSafe L (pre ++ post) k →
        BitmapInBounds L (runOps L pre k).2 ∧
        ∀ memStart memSize rest, post = .init memStart memSize :: rest →
          FailureSafe L memStart memSize (runOps L pre k).2) := by
  refine ⟨failureSafe_iff L, ?_⟩
  intro k pre post hNever hSafe
  obtain ⟨hPre, hPost⟩ := initsSafe_append hSafe
  refine ⟨runOps_bitmapInBounds pre hPre fun i hi => ?_, ?_⟩
  · rw [hNever.2.2] at hi
    omega
  · rintro memStart memSize rest rfl
    exact (failureSafe_iff L memStart memSize _).mpr (hPost.1 memStart memSize rfl)

/-- 4 GiB of memory at `0x40000000`, which the 64 KiB bitmap cannot describe: the
call fails, the page count stays, and the next `page_alloc` hands out a page and
marks it in the byte at the null pointer. -/
theorem failedInit_leaves_pages :
    let k := Kernel.coldStart
    let k' := (pageInit smallLayout 0x40000000 0x100000000 k).2
    NeverInitialised k ∧
      (pageInit smallLayout 0x40000000 0x100000000 k).1 = false ∧
      k.totalPages = 0 ∧ k'.totalPages = 0x100000 ∧ k'.bitmap = 0 ∧
      (pageAlloc 1 k).1 = 0 ∧ (pageAlloc 1 k').1 = 0x40000000 ∧
      k'.mem 0 = 0 ∧ (pageAlloc 1 k').2.mem 0 = 1 ∧
      ¬ FailureSafe smallLayout 0x40000000 0x100000000 k := by
  intro k k'
  have hTotal : k'.totalPages = 0x100000 := by decide
  refine ⟨⟨rfl, rfl, rfl⟩, by decide, rfl, hTotal, by decide, by decide, by decide, by decide,
    by decide, ?_⟩
  intro hSafe
  have hSame := (hSafe k' (Prod.ext (by decide) rfl)).1.2.1
  rw [hTotal] at hSame
  exact absurd hSame (by decide)

/-- A second call refused in the same way finds the values of the first and changes nothing;
and a region that alignment uses up is refused by a running allocator, whose bits stay in
bounds. -/
theorem failedInit_harmless_iff_refused :
    let k := (pageInit smallLayout 0x40000000 0x100000000 Kernel.coldStart).2
    let ops : List AllocOp := [.init 0x40000000 0x8000000, .init 0x40000010 0x100, .alloc 3]
    (pageInit smallLayout 0x40000000 0x100000000 k).1 = false ∧
      (pageInit smallLayout 0x40000000 0x100000000 k).2.mem = k.mem ∧
      FailureSafe smallLayout 0x40000000 0x100000000 k ∧
      (pageInit smallLayout 0x40000010 0x100 (runOps smallLayout (ops.take 1)
        Kernel.coldStart).2).1 = false ∧
      BitmapInBounds smallLayout (runOps smallLayout ops Kernel.coldStart).2 := by
  intro k ops
  obtain ⟨hStep, hRuns⟩ := failedInit_harmless_iff smallLayout
  have hRefused : (pageInit smallLayout 0x40000000 0x100000000 k).1 = false := by decide
  have hSame : FailureSafe smallLayout 0x40000000 0x100000000 k :=
    (hStep _ _ _).mpr (Or.inr ⟨by decide, by decide⟩)
  have hFits : ∀ k, InitSafe smallLayout 0x40000000 0x8000000 k := fun k =>
    Or.inl fun hLarge => absurd hLarge.2 (by decide)
  have hUsedUp : ∀ k, InitSafe smallLayout 0x40000010 0x100 k := fun k =>
    Or.inl fun hLarge => absurd hLarge.1 (by decide)
  refine ⟨hRefused, (hSame _ (Prod.ext hRefused rfl)).1.2.2.2, hSame, by decide, ?_⟩
  refine (hRuns Kernel.coldStart ops [] ⟨rfl, rfl, rfl⟩ ⟨?_, ?_, ?_, trivial⟩).1
  · rintro memStart memSize h
    obtain ⟨rfl, rfl⟩ := AllocOp.init.inj h
    exact hFits _
  · rintro memStart memSize h
    obtain ⟨rfl, rfl⟩ := AllocOp.init.inj h
    exact hUsedUp _
  · intro memStart memSize h
    exact absurd h (by simp)

end Kernalite
