import Kernalite.Allocator.Init

/-!
# Kernalite — allocator operations

The calls a client of the page allocator can make, as data (`AllocOp`), and two
facts about all of them that hold in any state, sound or not:

* only `page_init` writes the static variables (`reservePage_static`,
  `pageAlloc_static`, `pageFree_static`, `pageDumpStatus_static`);
* none reads the console: two states that differ only in what was printed
  earlier give the same results, the same new output and the same state
  otherwise (`AllocOp.run_relogged`, `runOps_relogged`).
-/

namespace Kernalite

open ByteMemory PackedBits Words Loop

/-- A C value of type `size_t`, `uintptr_t` or pointer. -/
abbrev Word := BitVec 64

inductive AllocOp where
  | init (memStart memSize : Word)
  | reserve (ptr numPages : Word)
  | alloc (numPages : Word)
  | free (ptr numPages : Word)
  | dump
  deriving DecidableEq, Repr

/-- What a call returns. -/
inductive Ret where
  | bool (b : Bool)
  | ptr (p : Nat)
  | void
  deriving DecidableEq, Repr

def AllocOp.run (L : Layout) : AllocOp → Kernel → Ret × Kernel
  | .init memStart memSize, k =>
    let (ok, k) := pageInit L memStart.toNat memSize.toNat k
    (.bool ok, k)
  | .reserve ptr numPages, k =>
    let (ok, k) := reservePage ptr.toNat numPages.toNat k
    (.bool ok, k)
  | .alloc numPages, k =>
    let (p, k) := pageAlloc numPages.toNat k
    (.ptr p, k)
  | .free ptr numPages, k => (.void, pageFree ptr.toNat numPages.toNat k)
  | .dump, k => (.void, pageDumpStatus k)

/-- The calls one after the other, with everything they returned. -/
def runOps (L : Layout) : List AllocOp → Kernel → List Ret × Kernel
  | [], k => ([], k)
  | op :: ops, k =>
    let (r, k) := op.run L k
    let (rs, k) := runOps L ops k
    (r :: rs, k)

-- ---------------------------------------------------------------------------
-- Only `page_init` writes the static variables
-- ---------------------------------------------------------------------------

/-- `mem_base`, `bitmap` and `total_pages` are the same in both states. -/
structure SameStatics (k k' : Kernel) : Prop where
  memBase_eq    : k'.memBase = k.memBase
  bitmap_eq     : k'.bitmap = k.bitmap
  totalPages_eq : k'.totalPages = k.totalPages

theorem SameStatics.bitmapByte_eq {k k' : Kernel} (h : SameStatics k k') :
    k'.bitmapByte = k.bitmapByte := by
  funext i
  rw [Kernel.bitmapByte, Kernel.bitmapByte, h.bitmap_eq]

theorem SameStatics.trans {k k' k'' : Kernel} (h : SameStatics k k') (h' : SameStatics k' k'') :
    SameStatics k k'' :=
  ⟨h'.memBase_eq.trans h.memBase_eq, h'.bitmap_eq.trans h.bitmap_eq,
    h'.totalPages_eq.trans h.totalPages_eq⟩

/-- Readiness does not depend on memory or console. -/
theorem Ready.congr {L : Layout} {k k' : Kernel} (h : Ready L k) (hStatic : SameStatics k k') :
    Ready L k' := by
  obtain ⟨hBase, hBitmap, hTotal⟩ := hStatic
  exact ⟨hBitmap ▸ h.bitmap_eq, hBase ▸ h.base_aligned, by rw [hBase, hTotal]; exact h.top_lt,
    hTotal ▸ h.bits_fit⟩

theorem reservePage_static (ptr numPages : Nat) (k : Kernel) :
    SameStatics k (reservePage ptr numPages k).2 := by
  simp only [reservePage]
  split_ifs <;> exact ⟨rfl, rfl, rfl⟩

theorem pageAlloc_static (numPages : Nat) (k : Kernel) :
    SameStatics k (pageAlloc numPages k).2 := by
  simp only [pageAlloc]
  split_ifs
  · exact ⟨rfl, rfl, rfl⟩
  · exact ⟨rfl, rfl, rfl⟩
  · split <;> exact ⟨rfl, rfl, rfl⟩

theorem pageFree_static (ptr numPages : Nat) (k : Kernel) :
    SameStatics k (pageFree ptr numPages k) := by
  simp only [pageFree]
  split_ifs <;> exact ⟨rfl, rfl, rfl⟩

theorem pageDumpRound_static (i : Nat) (s : Kernel × Nat × Bool) :
    SameStatics s.1 (pageDumpRound i s).1 := by
  simp only [pageDumpRound]
  split_ifs <;> exact ⟨rfl, rfl, rfl⟩

theorem pageDumpStatus_static (k : Kernel) : SameStatics k (pageDumpStatus k) := by
  simp only [pageDumpStatus]
  split_ifs
  · exact ⟨rfl, rfl, rfl⟩
  · refine SameStatics.trans (forRange_preserves (fun s => SameStatics k s.1) _ _
      ⟨rfl, rfl, rfl⟩ fun i s hs => hs.trans (pageDumpRound_static i s)) ⟨rfl, rfl, rfl⟩

def AllocOp.isInit : AllocOp → Bool
  | .init _ _ => true
  | _ => false

theorem AllocOp.run_static {L : Layout} {op : AllocOp} (k : Kernel) (hOp : op.isInit = false) :
    SameStatics k (op.run L k).2 := by
  cases op with
  | init memStart memSize => exact absurd hOp (by simp [AllocOp.isInit])
  | reserve ptr numPages => exact reservePage_static _ _ k
  | alloc numPages => exact pageAlloc_static _ k
  | free ptr numPages => exact pageFree_static _ _ k
  | dump => exact pageDumpStatus_static k

theorem runOps_static {L : Layout} {ops : List AllocOp} (k : Kernel)
    (hOps : ∀ op ∈ ops, op.isInit = false) : SameStatics k (runOps L ops k).2 := by
  induction ops generalizing k with
  | nil => exact ⟨rfl, rfl, rfl⟩
  | cons op ops ih =>
    have hOp := AllocOp.run_static (L := L) k (hOps op List.mem_cons_self)
    exact hOp.trans (ih _ fun op' h => hOps op' (List.mem_cons_of_mem _ h))

/-- Calls other than `page_init` keep the static variables it left. -/
theorem AfterInit.congr {L : Layout} {memStart memSize : Nat} {k k' : Kernel}
    (h : AfterInit L memStart memSize k) (hStatic : SameStatics k k') :
    AfterInit L memStart memSize k' := by
  obtain ⟨k₀, hOk, hBase, hBitmap, hTotal⟩ := h
  exact ⟨k₀, hOk, hStatic.memBase_eq.trans hBase, hStatic.bitmap_eq.trans hBitmap,
    hStatic.totalPages_eq.trans hTotal⟩

-- ---------------------------------------------------------------------------
-- Nothing reads the console
-- ---------------------------------------------------------------------------

/-- `k'` is `k`, except that its console starts with `c'` where that of `k`
starts with `c`. -/
def Relogged (c c' : List (String × List Arg)) (k k' : Kernel) : Prop :=
  ∃ out, k.console = c ++ out ∧ k' = { k with console := c' ++ out }

section Relogged

variable {c c' : List (String × List Arg)} {k k' : Kernel}

theorem Relogged.kprintf (h : Relogged c c' k k') (format : String) (args : List Arg) :
    Relogged c c' (k.kprintf format args) (k'.kprintf format args) := by
  obtain ⟨out, hOut, rfl⟩ := h
  refine ⟨out ++ [(format, args)], ?_, ?_⟩
  · rw [Kernel.kprintf, hOut, List.append_assoc]
  · simp [Kernel.kprintf]

theorem Relogged.withMem (h : Relogged c c' k k') (f : (Nat → Nat) → Mem → Mem) :
    Relogged c c' { k with mem := f k.bitmapByte k.mem }
      { k' with mem := f k'.bitmapByte k'.mem } := by
  obtain ⟨out, hOut, rfl⟩ := h
  exact ⟨out, hOut, rfl⟩

theorem pageInit_relogged (L : Layout) (memStart memSize : Nat) (h : Relogged c c' k k') :
    (pageInit L memStart memSize k').1 = (pageInit L memStart memSize k).1 ∧
      Relogged c c' (pageInit L memStart memSize k).2 (pageInit L memStart memSize k').2 := by
  obtain ⟨out, hOut, rfl⟩ := h
  simp only [pageInit]
  split_ifs <;> exact ⟨rfl, _, by simp only [Kernel.kprintf, hOut, List.append_assoc]; rfl,
    by simp only [Kernel.kprintf, List.append_assoc]⟩

theorem reservePage_relogged (ptr numPages : Nat) (h : Relogged c c' k k') :
    (reservePage ptr numPages k').1 = (reservePage ptr numPages k).1 ∧
      Relogged c c' (reservePage ptr numPages k).2 (reservePage ptr numPages k').2 := by
  obtain ⟨out, hOut, rfl⟩ := h
  simp only [reservePage]
  split_ifs <;> refine ⟨rfl, ?_⟩
  · exact ⟨out, hOut, rfl⟩
  · apply Relogged.kprintf
    exact ⟨out, hOut, rfl⟩
  · apply Relogged.kprintf
    exact ⟨out, hOut, rfl⟩

theorem pageAllocScan_relogged (h : Relogged c c' k k') (numPages left i found start : Nat) :
    pageAllocScan k' numPages left i found start = pageAllocScan k numPages left i found start := by
  obtain ⟨out, -, rfl⟩ := h
  induction left generalizing i found start with
  | zero => rfl
  | succ left ih => simp only [pageAllocScan, ih]; rfl

theorem pageAlloc_relogged (numPages : Nat) (h : Relogged c c' k k') :
    (pageAlloc numPages k').1 = (pageAlloc numPages k).1 ∧
      Relogged c c' (pageAlloc numPages k).2 (pageAlloc numPages k').2 := by
  have hScan := pageAllocScan_relogged h numPages k.totalPages 0 0 0
  obtain ⟨out, hOut, rfl⟩ := h
  simp only [pageAlloc, hScan]
  split_ifs
  · exact ⟨rfl, out, hOut, rfl⟩
  · exact ⟨rfl, Relogged.kprintf ⟨out, hOut, rfl⟩ _ _⟩
  · split <;> refine ⟨rfl, ?_⟩ <;> apply Relogged.kprintf <;> exact ⟨out, hOut, rfl⟩

theorem pageFree_relogged (ptr numPages : Nat) (h : Relogged c c' k k') :
    Relogged c c' (pageFree ptr numPages k) (pageFree ptr numPages k') := by
  have hBase : k'.memBase = k.memBase := by obtain ⟨out, -, rfl⟩ := h; rfl
  have hTotal : k'.totalPages = k.totalPages := by obtain ⟨out, -, rfl⟩ := h; rfl
  simp only [pageFree, hBase, hTotal]
  split_ifs
  · exact h
  · exact h.kprintf _ _
  · exact ((h.kprintf _ _).kprintf _ _).withMem fun cell => forRange _ _ (clearBit cell)
  · exact (h.kprintf _ _).withMem fun cell => forRange _ _ (clearBit cell)

theorem pageDumpRound_relogged (i startIdx : Nat) (status : Bool) (h : Relogged c c' k k') :
    Relogged c c' (pageDumpRound i (k, startIdx, status)).1
        (pageDumpRound i (k', startIdx, status)).1 ∧
      (pageDumpRound i (k', startIdx, status)).2 = (pageDumpRound i (k, startIdx, status)).2 := by
  obtain ⟨out, hOut, rfl⟩ := h
  have hBit : ∀ j, ({ k with console := c' ++ out } : Kernel).bit j = k.bit j := fun _ => rfl
  simp only [pageDumpRound, hBit]
  split_ifs
  all_goals refine ⟨?_, rfl⟩
  all_goals first
    | exact ⟨out, hOut, rfl⟩
    | exact Relogged.kprintf ⟨out, hOut, rfl⟩ _ _

theorem pageDumpStatus_relogged (h : Relogged c c' k k') :
    Relogged c c' (pageDumpStatus k) (pageDumpStatus k') := by
  have hBit : k'.bit 0 = k.bit 0 := by obtain ⟨out, -, rfl⟩ := h; rfl
  have hFields : k'.totalPages = k.totalPages ∧ k'.memBase = k.memBase := by
    obtain ⟨out, -, rfl⟩ := h
    exact ⟨rfl, rfl⟩
  simp only [pageDumpStatus, hFields.1, Kernel.kprintf_totalPages, Kernel.kprintf_memBase,
    Kernel.kprintf_bit, hFields.2, hBit]
  split_ifs
  · exact h.kprintf _ _
  · -- the two dump loops run in step
    have hInit := (h.kprintf "--- Physical Page Dump ---\n" []).kprintf
      "Managed Range: 0x%lx - 0x%lx (%u pages)\n"
      [.word k.memBase, .word (add64 k.memBase (mul64 k.totalPages pageSize)), .word k.totalPages]
    have hLoop := forRange_rel
      (fun (s t : Kernel × Nat × Bool) => Relogged c c' s.1 t.1 ∧ t.2 = s.2)
      1 (k.totalPages + 1) (s := (_, 0, k.bit 0)) (t := (_, 0, k.bit 0)) ⟨hInit, rfl⟩
      (fun i s t hst => by
        obtain ⟨s, idx, st⟩ := s
        obtain ⟨t, idx', st'⟩ := t
        obtain ⟨rfl, rfl⟩ := Prod.mk.inj hst.2
        exact pageDumpRound_relogged i idx' st' hst.1)
    exact hLoop.1.kprintf _ _

theorem AllocOp.run_relogged (L : Layout) (op : AllocOp) (h : Relogged c c' k k') :
    (op.run L k').1 = (op.run L k).1 ∧ Relogged c c' (op.run L k).2 (op.run L k').2 := by
  cases op with
  | init memStart memSize =>
    have hOp := pageInit_relogged L memStart.toNat memSize.toNat h
    exact ⟨congrArg Ret.bool hOp.1, hOp.2⟩
  | reserve ptr numPages =>
    have hOp := reservePage_relogged ptr.toNat numPages.toNat h
    exact ⟨congrArg Ret.bool hOp.1, hOp.2⟩
  | alloc numPages =>
    have hOp := pageAlloc_relogged numPages.toNat h
    exact ⟨congrArg Ret.ptr hOp.1, hOp.2⟩
  | free ptr numPages => exact ⟨rfl, pageFree_relogged ptr.toNat numPages.toNat h⟩
  | dump => exact ⟨rfl, pageDumpStatus_relogged h⟩

/-- **Console independence of runs.** Whatever was printed before, the calls
return the same, print the same and leave the same state. -/
theorem runOps_relogged (L : Layout) (ops : List AllocOp) (h : Relogged c c' k k') :
    (runOps L ops k').1 = (runOps L ops k).1 ∧
      Relogged c c' (runOps L ops k).2 (runOps L ops k').2 := by
  induction ops generalizing k k' with
  | nil => exact ⟨rfl, h⟩
  | cons op ops ih =>
    have hOp := AllocOp.run_relogged L op h
    have hRest := ih hOp.2
    exact ⟨by simp only [runOps, hOp.1, hRest.1], hRest.2⟩

end Relogged

end Kernalite
