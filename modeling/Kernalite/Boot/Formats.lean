import Kernalite.Boot.Shutdown
import Kernalite.PageTable.Dump
import Kernalite.Utils.Calls

/-!
# Kernalite — every `kprintf` call of the kernel

Every call of the kernel passes one argument for each conversion of its format, except one
line of `page_init`, which passes one too few, and one of `get_mem`, which passes one too
many for a conversion that `vprintf` does not know. A function is taken by the calls it adds to the console (`Logs`), in any
state at all: the formats do not depend on sound tables or a sound bitmap.

* `pageInit_logs`, `mapPage_logs`, `main_logs` — function by function;
* `KernelStep.logs` — one call of a kernel function;
* `main_formats` — `main`, and whatever is called after it.
-/

namespace Kernalite

open ByteMemory Loop Relation

abbrev Call := String × List Arg

/-- The second console is the first and calls behind it, all of the kind. -/
def Logs (P : Call → Prop) (console console' : List Call) : Prop :=
  ∃ calls, console' = console ++ calls ∧ ∀ call ∈ calls, P call

section Logs

variable {P : Call → Prop} {console console' console'' : List Call}

theorem Logs.refl (P : Call → Prop) (console : List Call) : Logs P console console :=
  ⟨[], (List.append_nil console).symm, fun _ h => absurd h List.not_mem_nil⟩

theorem Logs.trans (h : Logs P console console') (h' : Logs P console' console'') :
    Logs P console console'' := by
  obtain ⟨calls, rfl, hCalls⟩ := h
  obtain ⟨calls', rfl, hCalls'⟩ := h'
  refine ⟨calls ++ calls', List.append_assoc .., fun call hMem => ?_⟩
  exact (List.mem_append.mp hMem).elim (hCalls call) (hCalls' call)

theorem Logs.kprintf {k : Kernel} {format : String} {args : List Arg}
    (h : Logs P console k.console) (hCall : P (format, args)) :
    Logs P console (k.kprintf format args).console :=
  h.trans ⟨[(format, args)], rfl, fun _ hMem => List.mem_singleton.mp hMem ▸ hCall⟩

/-- A call of the format was added. -/
def Adds (format : String) (console console' : List Call) : Prop :=
  ∃ calls, console' = console ++ calls ∧ ∃ call ∈ calls, call.1 = format

theorem Adds.here {k : Kernel} {format : String} {args : List Arg} (h : Logs P console k.console) :
    Adds format console (k.kprintf format args).console := by
  obtain ⟨calls, hCalls, -⟩ := h
  refine ⟨calls ++ [(format, args)], ?_, (format, args), by simp, rfl⟩
  rw [Kernel.kprintf, hCalls, List.append_assoc]

theorem Adds.later {format : String} (h : Adds format console console')
    (h' : Logs P console' console'') : Adds format console console'' := by
  obtain ⟨calls, rfl, call, hMem, hFormat⟩ := h
  obtain ⟨calls', rfl, -⟩ := h'
  exact ⟨calls ++ calls', List.append_assoc .., call, List.mem_append_left _ hMem, hFormat⟩

theorem Adds.kprintf {k : Kernel} {line format : String} {args : List Arg}
    (h : Adds line console k.console) : Adds line console (k.kprintf format args).console :=
  h.later (Logs.kprintf (P := fun _ => True) (.refl _ _) trivial)

end Logs

/-- The line of `page_init` with three conversions. -/
def bitmapLine : String := "PAGE: Total pages: %u, Bitmap requires: %u bytes (%u pages)\n"

/-- The line of `get_mem` with `%zu`. -/
def entrySizeLine : String :=
  "FDT Error: memory \"reg\" length %d is not a multiple of entry size %zu\n"

/-- A call of the kernel. -/
def KernelCall (call : Call) : Prop :=
  Supplied call ∨ call.1 = bitmapLine ∧ call.2.length = 2 ∨
    call.1 = entrySizeLine ∧ ∃ len entrySize, call.2 = [.word len, .word entrySize]

theorem supplied {cs : List Char} {args : List Arg}
    (h : suppliedCheck (cs.map ascii) (args.map Arg.kind) = true) :
    KernelCall (String.ofList cs, args) :=
  Or.inl (supplied_ofList h)

-- ---------------------------------------------------------------------------
-- The page allocator
-- ---------------------------------------------------------------------------

variable {L : KernelLayout} {console : List Call}

theorem pageInit_logs (L : Layout) (memStart memSize : Nat) {k : Kernel}
    (h : Logs KernelCall console k.console) :
    Logs KernelCall console (pageInit L memStart memSize k).2.console := by
  have hFirst : Logs KernelCall console
      (k.kprintf "PAGE: Initializing allocator at %p (size: %u bytes)\n"
        [.word memStart, .word memSize]).console := .kprintf h (supplied rfl)
  simp only [pageInit]
  split_ifs
  · exact .kprintf (.kprintf hFirst (supplied rfl)) (supplied rfl)
  · exact .kprintf hFirst (supplied rfl)
  · exact .kprintf (.kprintf hFirst (supplied rfl)) (supplied rfl)
  · exact .kprintf hFirst (supplied rfl)
  · refine .kprintf (.kprintf (.kprintf ?_ (Or.inr (Or.inl ⟨rfl, rfl⟩))) (supplied rfl)) (supplied rfl)
    exact .kprintf hFirst (supplied rfl)
  · exact .kprintf (.kprintf (.kprintf hFirst (Or.inr (Or.inl ⟨rfl, rfl⟩))) (supplied rfl)) (supplied rfl)

/-- A successful `page_init` prints that line. -/
theorem pageInit_adds {memStart memSize : Nat} {k : Kernel} (h : Logs KernelCall console k.console)
    (hOk : (pageInit L memStart memSize k).1 = true) :
    Adds bitmapLine console (pageInit L memStart memSize k).2.console := by
  have hFirst : Logs KernelCall console
      (k.kprintf "PAGE: Initializing allocator at %p (size: %u bytes)\n"
        [.word memStart, .word memSize]).console := .kprintf h (supplied rfl)
  simp only [pageInit] at hOk ⊢
  split_ifs at hOk ⊢
  · exact .kprintf (.kprintf (.here (.kprintf hFirst (supplied rfl))))
  · exact .kprintf (.kprintf (.here hFirst))

theorem reservePage_logs (ptr numPages : Nat) {k : Kernel}
    (h : Logs KernelCall console k.console) :
    Logs KernelCall console (reservePage ptr numPages k).2.console := by
  simp only [reservePage]
  split_ifs
  · exact h
  · exact .kprintf h (supplied rfl)
  · exact .kprintf h (supplied rfl)

theorem pageAlloc_logs (numPages : Nat) {k : Kernel} (h : Logs KernelCall console k.console) :
    Logs KernelCall console (pageAlloc numPages k).2.console := by
  simp only [pageAlloc]
  split_ifs
  · exact h
  · exact .kprintf h (supplied rfl)
  · split
    · exact .kprintf h (supplied rfl)
    · exact .kprintf h (supplied rfl)

theorem pageFree_logs (ptr numPages : Nat) {k : Kernel} (h : Logs KernelCall console k.console) :
    Logs KernelCall console (pageFree ptr numPages k).console := by
  simp only [pageFree]
  split_ifs
  · exact h
  · exact .kprintf h (supplied rfl)
  · exact .kprintf (.kprintf h (supplied rfl)) (supplied rfl)
  · exact .kprintf h (supplied rfl)

theorem pageDumpStatus_logs {k : Kernel} (h : Logs KernelCall console k.console) :
    Logs KernelCall console (pageDumpStatus k).console := by
  simp only [pageDumpStatus]
  split_ifs
  · exact .kprintf h (supplied rfl)
  · refine Logs.kprintf (forRange_preserves
      (fun s : Kernel × Nat × Bool => Logs KernelCall console s.1.console) _ _ ?_ ?_) (supplied rfl)
    · exact .kprintf (.kprintf h (supplied rfl)) (supplied rfl)
    · rintro i ⟨k, startIdx, currentStatus⟩ hs
      simp only [pageDumpRound]
      split_ifs
      all_goals first
        | exact hs
        | exact .kprintf hs (supplied rfl)

theorem AllocOp.run_logs (L : Layout) (op : AllocOp) {k : Kernel}
    (h : Logs KernelCall console k.console) : Logs KernelCall console (op.run L k).2.console := by
  cases op with
  | init memStart memSize => exact pageInit_logs L _ _ h
  | reserve ptr numPages => exact reservePage_logs _ _ h
  | alloc numPages => exact pageAlloc_logs _ h
  | free ptr numPages => exact pageFree_logs _ _ h
  | dump => exact pageDumpStatus_logs h

theorem reserveKerenelImgPages_logs (L : Layout) {k : Kernel}
    (h : Logs KernelCall console k.console) :
    Logs KernelCall console (reserveKerenelImgPages L k).2.console := by
  have hFirst : Logs KernelCall console
      (k.kprintf "Reserving kernel image pages: start=%p, size=0x%lx bytes, pages=%u\n"
        [.word L.imageStart, .word (getImageSize L), .word (imagePages L)]).console :=
    .kprintf h (supplied rfl)
  have hReserve := reservePage_logs L.imageStart (imagePages L) hFirst
  simp only [reserveKerenelImgPages]
  split_ifs
  · exact .kprintf hReserve (supplied rfl)
  · exact hReserve

-- ---------------------------------------------------------------------------
-- Page tables
-- ---------------------------------------------------------------------------

theorem pageTableInit_console (table : Nat) (k : Kernel) :
    (pageTableInit table k).console = k.console := by
  rw [pageTableInit]

theorem setNextLevelTable_console (entry : Nat) (addr : BitVec 64) (k : Kernel) :
    (setNextLevelTable entry addr k).console = k.console := rfl

/-- The writes at the end of `map_page` print nothing. -/
theorem writeLeaf_console (entry : Nat) (phyAddr : BitVec 64) (perms : PagePermissions) (k : Kernel) :
    (writeLeaf entry phyAddr perms k).console = k.console := by
  rw [writeLeaf_eq]

theorem allocateNewTable_logs (entry : Nat) {k : Kernel} (h : Logs KernelCall console k.console) :
    Logs KernelCall console (allocateNewTable entry k).2.console := by
  have hAlloc := pageAlloc_logs 1 h
  simp only [allocateNewTable]
  split_ifs
  · exact .kprintf hAlloc (supplied rfl)
  · rw [setNextLevelTable_console, pageTableInit_console]
    exact hAlloc

theorem getNextLevelTable_logs (entry : Nat) {k : Kernel} (h : Logs KernelCall console k.console) :
    Logs KernelCall console (getNextLevelTable entry k).2.console := by
  have hTable := allocateNewTable_logs entry h
  simp only [getNextLevelTable]
  split_ifs
  · exact h
  · exact hTable
  · exact hTable

theorem mapPage_logs (root : Nat) (vAddr phyAddr : BitVec 64) (perms : PagePermissions) {k : Kernel}
    (h : Logs KernelCall console k.console) :
    Logs KernelCall console (mapPage root vAddr phyAddr perms k).2.console := by
  have hLevel1 := getNextLevelTable_logs (entryAddr root (l0Idx vAddr)) h
  have hLevel2 := getNextLevelTable_logs
    (entryAddr (getNextLevelTable (entryAddr root (l0Idx vAddr)) k).1 (l1Idx vAddr)) hLevel1
  simp only [mapPage]
  split_ifs
  · exact .kprintf h (supplied rfl)
  · exact .kprintf hLevel1 (supplied rfl)
  · exact .kprintf hLevel2 (supplied rfl)
  · exact .kprintf (getNextLevelTable_logs _ hLevel2) (supplied rfl)
  · rw [writeLeaf_console]
    exact getNextLevelTable_logs _ hLevel2

-- ---------------------------------------------------------------------------
-- The dump of a table
-- ---------------------------------------------------------------------------

theorem allocateNewTableLocal_logs (entry : PageTableEntry) {k : Kernel}
    (h : Logs KernelCall console k.console) :
    Logs KernelCall console (allocateNewTableLocal entry k).2.2.console := by
  have hAlloc := pageAlloc_logs 1 h
  simp only [allocateNewTableLocal]
  split_ifs
  · exact .kprintf hAlloc (supplied rfl)
  · simp only [pageTableInit_console]
    exact hAlloc

theorem getNextLevelTableLocal_logs (entry : PageTableEntry) {k : Kernel}
    (h : Logs KernelCall console k.console) :
    Logs KernelCall console (getNextLevelTableLocal entry k).2.console := by
  have hTable := allocateNewTableLocal_logs entry h
  simp only [getNextLevelTableLocal]
  split_ifs
  · exact h
  · exact hTable
  · exact hTable

theorem dumpLeaf_logs (entry : PageTableEntry) (vAddr : BitVec 64) {k : Kernel}
    (h : Logs KernelCall console k.console) :
    Logs KernelCall console (dumpLeaf entry vAddr k).console := by
  rw [dumpLeaf_eq]
  refine h.trans ⟨_, rfl, fun call hMem => ?_⟩
  simp only [DumpLine.calls, List.mem_append, List.mem_cons, List.not_mem_nil, or_false,
    List.mem_ite_nil_right] at hMem
  rcases hMem with ((rfl | ⟨-, rfl⟩) | ⟨-, rfl⟩) | rfl | rfl
  · exact supplied rfl
  · exact supplied rfl
  · exact supplied rfl
  · cases (DumpLine.of vAddr entry).access <;> exact supplied rfl
  · exact supplied rfl

/-- The induction is on the levels below the table. -/
theorem dumpMemoryMapRecursive_logs (depth : Nat) {root level : Nat} (hDepth : 3 - level = depth)
    (vAddrPrefix : BitVec 64) {k : Kernel} (h : Logs KernelCall console k.console) :
    Logs KernelCall console (dumpMemoryMapRecursive root level vAddrPrefix k).console := by
  induction depth generalizing root level vAddrPrefix k with
  | zero =>
    unfold dumpMemoryMapRecursive
    refine forRange_preserves (fun k : Kernel => Logs KernelCall console k.console) 0 512 h ?_
    intro i k hk
    have hLeaf : ¬ level < 3 := by omega
    simp only [if_neg hLeaf]
    split_ifs
    · exact hk
    · exact dumpLeaf_logs _ _ hk
  | succ depth ih =>
    unfold dumpMemoryMapRecursive
    refine forRange_preserves (fun k : Kernel => Logs KernelCall console k.console) 0 512 h ?_
    intro i k hk
    have hTable : level < 3 := by omega
    simp only [if_pos hTable]
    split_ifs
    · exact hk
    · exact ih (by omega) _ (getNextLevelTableLocal_logs _ hk)

theorem dumpMemoryMap_logs (root : Nat) {k : Kernel} (h : Logs KernelCall console k.console) :
    Logs KernelCall console (dumpMemoryMap root k).console := by
  have hStart : Logs KernelCall console
      (k.kprintf "--- Memory Map Dump Start ---\n" []).console := .kprintf h (supplied rfl)
  exact .kprintf (dumpMemoryMapRecursive_logs 3 rfl 0 hStart) (supplied rfl)

-- ---------------------------------------------------------------------------
-- `main`
-- ---------------------------------------------------------------------------

section Main

variable {σ : Type} {lib : Libfdt σ} {fuel fdt mmap : Nat} {node ac sc ret : Int} {s s' : FdtState σ}

theorem checkFdt_logs (lib : Libfdt σ) (fdt : Nat) (h : Logs KernelCall console s.kernel.console) :
    Logs KernelCall console (checkFdt lib fdt s).2.kernel.console := by
  simp only [checkFdt]
  split_ifs
  all_goals exact Logs.kprintf h (supplied rfl)

theorem getMemLoop_logs (hRun : getMemLoop lib fdt ac sc fuel node s = some (ret, s')) {k : Kernel}
    (hKernel : s.kernel = k) (h : Logs KernelCall console k.console) :
    Logs KernelCall console s'.kernel.console := by
  induction fuel generalizing node s with
  | zero => cases hRun
  | succ fuel ih =>
    subst hKernel
    simp only [getMemLoop] at hRun
    split at hRun
    · split at hRun
      · exact ih hRun rfl
      · split at hRun
        · exact ih hRun rfl
        · split at hRun
          · cases hRun
            exact Logs.kprintf h (Or.inr (Or.inr ⟨rfl, _, _, rfl⟩))
          · exact ih hRun rfl
    · cases hRun
      exact h

theorem getMem_logs (h : Logs KernelCall console s.kernel.console)
    (hRun : getMem lib fuel fdt mmap s = some (ret, s')) :
    Logs KernelCall console s'.kernel.console := by
  simp only [getMem] at hRun
  split_ifs at hRun
  · cases hRun
    exact h
  · cases hRun
    exact h
  · cases hRun
    exact Logs.kprintf h (supplied rfl)
  · exact getMemLoop_logs hRun rfl h

theorem printMemoryMap_logs (map : MemoryMap) {k : Kernel} (h : Logs KernelCall console k.console) :
    Logs KernelCall console (printMemoryMap map k).console := by
  rw [printMemoryMap]
  refine forRange_preserves (fun k : Kernel => Logs KernelCall console k.console) _ _ ?_ ?_
  · exact .kprintf h (supplied rfl)
  · exact fun i k hk => .kprintf hk (supplied rfl)

theorem mainAllocator_logs {s : Machine σ} (h : Logs KernelCall console s.fdt.kernel.console) :
    Logs KernelCall console (mainAllocator L s).2.fdt.kernel.console := by
  have hMap := printMemoryMap_logs s.fdt.mmap h
  have hInit := pageInit_logs L (s.fdt.mmap.regions 0).base.toNat (s.fdt.mmap.regions 0).size.toNat hMap
  have hReserve := reserveKerenelImgPages_logs L hInit
  simp only [mainAllocator]
  split_ifs
  · exact Logs.kprintf hInit (supplied rfl)
  · exact Logs.kprintf hReserve (supplied rfl)
  · exact Logs.kprintf (pageDumpStatus_logs hReserve) (supplied rfl)

theorem main_logs {s s' : Machine σ} {fns : Functions} {frame bootArgsPtr code : Nat}
    (hRun : main L lib fns fuel frame bootArgsPtr s = some (code, s'))
    (h : Logs KernelCall console s.fdt.kernel.console) :
    Logs KernelCall console s'.fdt.kernel.console := by
  have hCheck := checkFdt_logs lib (bootArg0 bootArgsPtr s) h
  cases hValid : (checkFdt lib (bootArg0 bootArgsPtr s) s.fdt).1 with
  | false =>
    rw [main_fdt hValid] at hRun
    cases hRun
    exact Logs.kprintf hCheck (supplied rfl)
  | true =>
    rw [main_valid hValid] at hRun
    obtain ⟨⟨ret, fdt⟩, hRead, hEnd⟩ := Option.map_eq_some_iff.mp hRun
    have hMem := getMem_logs hCheck hRead
    split_ifs at hEnd
    · cases hEnd
      exact Logs.kprintf hMem (supplied rfl)
    · cases hEnd
      exact Logs.kprintf hMem (supplied rfl)
    · have hAllocator := mainAllocator_logs (L := L) (s := { s.started fns with fdt := fdt }) hMem
      rw [hEnd] at hAllocator
      exact hAllocator

theorem mainAllocator_adds {s : Machine σ} (h : Logs KernelCall console s.fdt.kernel.console)
    (hZero : (mainAllocator L s).1 = 0) :
    Adds bitmapLine console (mainAllocator L s).2.fdt.kernel.console := by
  have hMap := printMemoryMap_logs s.fdt.mmap h
  simp only [mainAllocator] at hZero ⊢
  split_ifs at hZero ⊢ with hInit hReserve
  rw [Bool.not_eq_true, Bool.not_eq_false'] at hInit
  have hAdds := pageInit_adds hMap hInit
  exact .kprintf (hAdds.later (pageDumpStatus_logs (reserveKerenelImgPages_logs L (.refl _ _))))

/-- `main` returns 0 only behind a successful `page_init`. -/
theorem main_adds {s s' : Machine σ} {fns : Functions} {frame bootArgsPtr : Nat}
    (hRun : main L lib fns fuel frame bootArgsPtr s = some (0, s'))
    (h : Logs KernelCall console s.fdt.kernel.console) :
    Adds bitmapLine console s'.fdt.kernel.console := by
  have hCheck := checkFdt_logs lib (bootArg0 bootArgsPtr s) h
  cases hValid : (checkFdt lib (bootArg0 bootArgsPtr s) s.fdt).1 with
  | false =>
    rw [main_fdt hValid] at hRun
    cases hRun
  | true =>
    rw [main_valid hValid] at hRun
    obtain ⟨⟨ret, fdt⟩, hRead, hEnd⟩ := Option.map_eq_some_iff.mp hRun
    have hMem := getMem_logs hCheck hRead
    split_ifs at hEnd
    · cases hEnd
    · cases hEnd
    · have hAllocator := mainAllocator_adds (L := L) (s := { s.started fns with fdt := fdt }) hMem
      rw [hEnd] at hAllocator
      exact hAllocator rfl

end Main

-- ---------------------------------------------------------------------------
-- Every run
-- ---------------------------------------------------------------------------

/-- What may happen to the kernel's state: a call of any of its functions with any
arguments, or a write anywhere in memory. -/
inductive KernelStep (L : Layout) : Kernel → Kernel → Prop where
  | allocator (k : Kernel) (op : AllocOp) : KernelStep L k (op.run L k).2
  | reserveImage (k : Kernel) : KernelStep L k (reserveKerenelImgPages L k).2
  | initTable (k : Kernel) (table : Nat) : KernelStep L k (pageTableInit table k)
  | map (k : Kernel) (root : Nat) (vAddr phyAddr : BitVec 64) (perms : PagePermissions) :
      KernelStep L k (mapPage root vAddr phyAddr perms k).2
  | dumpMap (k : Kernel) (root : Nat) : KernelStep L k (dumpMemoryMap root k)
  | exit (k : Kernel) (code : BitVec 32) : KernelStep L k (exit code k).1
  | write (k : Kernel) (m : Mem) : KernelStep L k { k with mem := m }

theorem KernelStep.logs {k k' : Kernel} (hStep : KernelStep L k k')
    (h : Logs KernelCall console k.console) : Logs KernelCall console k'.console := by
  cases hStep with
  | allocator op => exact op.run_logs L h
  | reserveImage => exact reserveKerenelImgPages_logs L h
  | initTable table => rwa [pageTableInit_console]
  | map root vAddr phyAddr perms => exact mapPage_logs root vAddr phyAddr perms h
  | dumpMap root => exact dumpMemoryMap_logs root h
  | exit code => exact .kprintf h (supplied rfl)
  | write m => exact h

theorem KernelStep.run_logs {k k' : Kernel} (hRun : ReflTransGen (KernelStep L) k k')
    (h : Logs KernelCall console k.console) : Logs KernelCall console k'.console := by
  induction hRun with
  | refl => exact h
  | tail _ hStep ih => exact hStep.logs ih

/-- The text of that line: the length, and `%zu` as it stands. -/
def entrySizeText (len : Nat) : List Byte :=
  asciiString "FDT Error: memory \"reg\" length " ++ (Piece.decimal (BitVec.ofNat 64 len)).render ++
    asciiString " is not a multiple of entry size %zu\r\n"

/-- What comes of a call: it is supplied and prints a text, or it is one of two lines. The
one passes two arguments for three conversions, and there is no result. The other passes two
for one, and the entry size is not printed. -/
inductive CallOutcome (serialConsole : Serial) (m : Mem) (lit : String → BitVec 64)
    (call : Call) : Prop where
  | printed (hSupplied : Supplied call)
      (hText : ∃ text, CallsPrint serialConsole m lit [call] text)
  | starved (hLine : call.1 = bitmapLine) (hReads : (formatReads call.1).length = 3)
      (hPassed : call.2.length = 2)
      (hNone : ∀ fuel bufs, printCalls serialConsole m fuel lit bufs [call] = none)
  | surplus (hLine : call.1 = entrySizeLine) (hReads : (formatReads call.1).length = 1)
      (hText : ∃ len entrySize, call.2 = [.word len, .word entrySize] ∧
        CallsPrint serialConsole m lit [call] (entrySizeText len))

section Outcome

variable {serialConsole : Serial} {m : Mem} {lit : String → BitVec 64}

/-- `%zu` is not a conversion `vprintf` knows: it is printed, and its argument is left over. -/
theorem entrySizeLine_prints (hConsole : serialConsole.putc ≠ 0) {len entrySize : Nat}
    (hCall : CallIn m lit (entrySizeLine, [.word len, .word entrySize])) :
    CallsPrint serialConsole m lit [(entrySizeLine, [.word len, .word entrySize])]
      (entrySizeText len) := by
  have hTokens : (tokenize (asciiString entrySizeLine)).1 =
      (asciiString "FDT Error: memory \"reg\" length ").map .plain ++
        .conversion (ascii 'd') ::
          ((asciiString " is not a multiple of entry size ").map .plain ++
            [.conversion (ascii 'z'), .plain (ascii 'u'), .plain (ascii '\n')]) := by
    rw [entrySizeLine, asciiString_ofList, asciiString_ofList, asciiString_ofList]
    rfl
  have hComplete : Complete (asciiString entrySizeLine) := by
    rw [entrySizeLine, asciiString_ofList]
    rfl
  have hChunks : chunksOf lit (tokenize (asciiString entrySizeLine)).1
      [.word len, .word entrySize] = some
        ((asciiString "FDT Error: memory \"reg\" length ").map (fun c => .piece (.plain c)) ++
          .piece (.decimal (BitVec.ofNat 64 len)) ::
            ((asciiString " is not a multiple of entry size ").map (fun c => .piece (.plain c)) ++
              [.piece (.unsupported (ascii 'z')), .piece (.plain (ascii 'u')),
                .piece (.plain (ascii '\n'))])) := by
    have hArg : Token.argChunk lit (.conversion (ascii 'd')) (.word len) =
        some (.piece (.decimal (BitVec.ofNat 64 len))) := rfl
    rw [hTokens, chunksOf_plain, chunksOf_arg rfl, hArg, Option.bind_some, chunksOf_plain]
    rfl
  have hEnd : asciiString " is not a multiple of entry size %zu\r\n" =
      asciiString " is not a multiple of entry size " ++ [Chunk.piece (.unsupported (ascii 'z')),
        .piece (.plain (ascii 'u')), .piece (.plain (ascii '\n'))].flatMap Chunk.render := by
    rw [asciiString_ofList, asciiString_ofList]
    rfl
  have hPrint := callPrints_of_chunks hConsole hCall hComplete hChunks
  rw [List.flatMap_append, plain_render, List.flatMap_cons, List.flatMap_append, plain_render]
    at hPrint
  · rwa [entrySizeText, hEnd, List.append_assoc]
  · rw [asciiString_ofList]
    decide
  · rw [asciiString_ofList]
    decide

theorem KernelCall.outcome {call : Call} (h : KernelCall call) (hConsole : serialConsole.putc ≠ 0)
    (hCall : CallIn m lit call) : CallOutcome serialConsole m lit call := by
  obtain ⟨format, args⟩ := call
  rcases h with hSupplied | ⟨rfl, hTwo⟩ | ⟨rfl, len, entrySize, rfl⟩
  · exact .printed hSupplied (hSupplied.prints hConsole hCall)
  · have hReads : (formatReads bitmapLine).length = 3 := by
      rw [bitmapLine, formatReads, asciiString_ofList]
      decide
    refine .starved rfl hReads hTwo fun fuel bufs =>
      starved_prints_nothing hConsole hCall ?_ ?_ fuel bufs
    · rw [bitmapLine, asciiString_ofList]
      rfl
    · change args.length = 2 at hTwo
      change args.length < (formatReads bitmapLine).length
      omega
  · refine .surplus rfl ?_ ⟨len, entrySize, rfl, entrySizeLine_prints hConsole hCall⟩
    rw [entrySizeLine, formatReads, asciiString_ofList]
    decide

end Outcome

/--
**The formats of the kernel.** Whatever libfdt and the device tree say, and whatever is called
or written after `main`: every `kprintf` call that is ever made passes one argument of the right
kind for each conversion and prints a text, with its literals in memory and a console set, but
for two lines. One of `page_init` asks for an argument that is not passed, and `vprintf` has no
result; a boot that returns 0 has made that call. One of `get_mem` passes the entry size for
`%zu`, which is printed in its place.
-/
theorem main_formats {σ : Type} {lib : Libfdt σ} {fns : Functions} {s s' : Machine σ} {k : Kernel}
    {fuel frame bootArgsPtr code : Nat} {serialConsole : Serial}
    (hConsole : serialConsole.putc ≠ 0)
    (hMain : main L lib fns fuel frame bootArgsPtr s = some (code, s'))
    (hRun : ReflTransGen (KernelStep L) s'.fdt.kernel k) :
    ∃ calls, k.console = s.fdt.kernel.console ++ calls ∧
      (∀ call ∈ calls, ∀ m lit, CallIn m lit call → CallOutcome serialConsole m lit call) ∧
      (code = 0 → ∃ call ∈ calls, call.1 = bitmapLine) := by
  have hLogs := main_logs hMain (.refl KernelCall s.fdt.kernel.console)
  have hAll := KernelStep.run_logs hRun hLogs
  obtain ⟨calls, hEq, hCalls⟩ := hAll
  refine ⟨calls, hEq, fun call hMem m lit hCall => (hCalls call hMem).outcome hConsole hCall, ?_⟩
  rintro rfl
  have hAdds := main_adds hMain (.refl KernelCall s.fdt.kernel.console)
  obtain ⟨added, hAdded, hLine⟩ := hAdds.later (KernelStep.run_logs hRun (.refl KernelCall _))
  obtain rfl := List.append_cancel_left (hEq.symm.trans hAdded)
  exact hLine

/-- A boot without a device tree, and a request for memory behind it. -/
theorem main_formats_noTree :
    let fns : Functions := ⟨0x40001000, 0x40001010, 0x40001020⟩
    ∃ s' calls, main smallLayout noTree fns 0 0x3000 0x2000 machineWithTree = some (1, s') ∧
      (pageAlloc 1 s'.fdt.kernel).2.console = machineWithTree.fdt.kernel.console ++ calls ∧
      ∀ call ∈ calls, ∀ m lit, CallIn m lit call → CallOutcome ⟨1, 1⟩ m lit call := by
  intro fns
  have hMain : main smallLayout noTree fns 0 0x3000 0x2000 machineWithTree = some (1, _) :=
    main_fdt (noTree_invalid _ _) 0
  have hStep : ∀ k, ReflTransGen (KernelStep smallLayout) k (pageAlloc 1 k).2 := fun k =>
    .single (.allocator k (.alloc 1))
  obtain ⟨calls, hEq, hCalls, -⟩ :=
    main_formats (show (Serial.mk 1 1).putc ≠ 0 by decide) hMain (hStep _)
  exact ⟨_, calls, hMain, hEq, hCalls⟩

end Kernalite
