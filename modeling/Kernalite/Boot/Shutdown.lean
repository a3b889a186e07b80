import Kernalite.Boot.Decision
import Kernalite.Boot.Outcome

/-!
# Kernalite — what every boot comes to

`primary_entry` stores the boot arguments in `.bss` and clears `.bss` before it calls
`main`, so `main` finds a null pointer where the address of the device tree was. Here the
runs of the entry code and the model of `main` are put together, up to the semihosting
call in `src/kernel/exit/exit.c`.

* `main_cleared` — `main` on the state it is called in;
* `main_then_exit` — behind it the code calls `exit` with 1;
* `primaryEntry_exitsOne` — on core 0 at EL1 every run is on its way to that exit, and one
  gets there.
-/

namespace Kernalite

open A64 ByteMemory

/-- A semihosting call, with the doublewords of its parameter block. -/
structure Semihosting where
  operation : BitVec 64
  block : List (BitVec 64)
  deriving DecidableEq, Repr

/-- `exit(code)`, up to the `hlt` that ends the machine. -/
def exit (code : BitVec 32) (k : Kernel) : Kernel × Semihosting :=
  let k := k.kprintf "Exiting QEMU with code: %u\n" [.word code.toNat]
  (k, { operation := 0x18, block := [0x20026, code.setWidth 64] })

/-- `main` is the function of `main.c`: whenever it returns, the low half of `x0` is a
result of the model on the memory `main` was called with, and it returns to any caller
there is if the model has a result on every machine with that memory. -/
structure CompilesMain {σ : Type} (I : BootImage) (lib : Libfdt σ) (fns : Functions)
    (returns : BootSym → State → State → Prop) : Prop where
  sound : ∀ {u v}, returns .main u v → ∃ fuel frame machine code machine',
    machine.fdt.kernel.mem = u.mem ∧
      main (I.sections.layout I.fits).toLayout lib fns fuel frame (u.gpr 0).toNat machine =
        some (code, machine') ∧
      (v.gpr 0).setWidth 32 = BitVec.ofNat 32 code
  total : ∀ {u i}, I.find (u.gpr 30) = some i →
    (∀ machine : Machine σ, machine.fdt.kernel.mem = u.mem → ∃ fuel frame result,
      main (I.sections.layout I.fits).toLayout lib fns fuel frame (u.gpr 0).toNat machine =
        some result) →
    ∃ v, returns .main u v

variable {σ : Type} {lib : Libfdt σ} {fns : Functions} {I : BootImage} {s u v : State}
  {machine : Machine σ} {returns : BootSym → State → State → Prop}

/-- The boot arguments are gone. -/
theorem MainCall.bootArg0_eq (hMain : MainCall I s u) (hMem : machine.fdt.kernel.mem = u.mem) :
    bootArg0 (u.gpr 0).toNat machine = 0 := by
  have hLow := I.bootArgs_ge
  have hHigh := I.bootArgs_end
  have hTop := I.fits
  have hStack := I.sections.bssEnd_lt_stackTop
  have hAddr : (u.gpr 0).toNat = I.bootArgs := by
    rw [hMain.x0_eq, BitVec.toNat_ofNat]
    refine Nat.mod_eq_of_lt ?_
    unfold Sections.imageEnd at hTop
    omega
  have hZero : load64 u.mem I.bootArgs = 0 :=
    load64_of_zero fun x hx hx' => (hMain.mem_eq x).trans (if_pos ⟨by omega, by omega⟩)
  rw [bootArg0, hAddr, hMem, hZero]
  rfl

/-- **`main` on cleared boot arguments** gives up at once: it prints two lines, asks libfdt for
nothing, writes no memory and returns 1. -/
theorem main_cleared (hMain : MainCall I s u) (hMem : machine.fdt.kernel.mem = u.mem)
    (L : KernelLayout) (lib : Libfdt σ) (fns : Functions) (fuel frame : Nat) :
    ∃ machine', main L lib fns fuel frame (u.gpr 0).toNat machine = some (1, machine') ∧
      machine'.fdt.lib = machine.fdt.lib ∧
      machine'.fdt.kernel = machine.fdt.kernel.printed
        [("FDT Error: null DTB address\n", []), ("FDT validation failed. Halting.\n", [])] := by
  have hNull := hMain.bootArg0_eq hMem
  have hCheck : checkFdt lib (bootArg0 (u.gpr 0).toNat machine) machine.fdt =
      (false, machine.fdt.kprintf "FDT Error: null DTB address\n" []) := by
    rw [hNull, checkFdt, if_pos rfl]
  have hInvalid : (checkFdt lib (bootArg0 (u.gpr 0).toNat machine) machine.fdt).1 = false := by
    rw [hCheck]
  refine ⟨_, main_fdt hInvalid fuel, ?_, ?_⟩
  · rw [hCheck]
    rfl
  · rw [hCheck, ← List.singleton_append, ← Kernel.printed_printed]
    rfl

/-- So `main` returns. -/
theorem main_returns (hMain : CompilesMain I lib fns returns) (hCall : MainCall I s u) :
    ∃ v, returns .main u v := by
  refine hMain.total hCall.link_eq fun machine hMem => ?_
  obtain ⟨machine', hEq, -⟩ := main_cleared hCall hMem (I.sections.layout I.fits) lib fns 0 0
  exact ⟨0, 0, _, hEq⟩

/-- `exit` has been called with 1, which it passes to the host. -/
def ExitsOne (w : State) : Prop :=
  ∀ k, (exit ((w.gpr 0).setWidth 32) k).2 = { operation := 0x18, block := [0x20026, 1] }

/-- **Behind `main`** the code calls `exit` with 1. -/
theorem main_then_exit (hConv : Conforms I returns) (hMain : CompilesMain I lib fns returns)
    (hCall : MainCall I s u) (hReturns : returns .main u v) :
    ∃ w, Calls I.program v .exit w ∧ ExitsOne w := by
  have hPc : v.pc = 24 := Option.some.inj ((hConv.toCaller hReturns).symm.trans hCall.link_eq)
  obtain ⟨w, hHalt, hExit⟩ := halt_calls (I := I) hPc
  obtain ⟨fuel, frame, machine, code, machine', hMem, hEq, hCode⟩ := hMain.sound hReturns
  obtain ⟨machine'', hOne, -⟩ := main_cleared hCall hMem (I.sections.layout I.fits)
    lib fns fuel frame
  obtain ⟨rfl, -⟩ := Prod.mk.inj (Option.some.inj (hEq.symm.trans hOne))
  refine ⟨w, hHalt, fun k => ?_⟩
  rw [exit, hExit.x0_eq, hCode]
  rfl

/-- How far a boot has come, with what comes next: the call of `main`, its return, the call
of `exit` with 1, the end of the machine. -/
inductive BootStage (I : BootImage) (returns : BootSym → State → State → Prop) (u : State) :
    List (BootSym × State) → Config BootSym → Prop where
  | toMain {t} (hNext : Calls I.program t .main u) : BootStage I returns u [] (.at t)
  | inMain (hNext : ∃ v, returns .main u v) :
      BootStage I returns u [(.main, u)] (.inside .main u)
  | toExit {t w} (hNext : Calls I.program t .exit w) (hStatus : ExitsOne w) :
      BootStage I returns u [(.main, u)] (.at t)
  | inExit {w} (hStatus : ExitsOne w) :
      BootStage I returns u [(.main, u), (.exit, w)] (.inside .exit w)

/-- Every run is at one of the stages. -/
theorem el1_stages (hConv : Conforms I returns) (hMain : CompilesMain I lib fns returns)
    (hCalls : Calls I.program s .main u) (hCall : MainCall I s u)
    {log : List (BootSym × State)} {c : Config BootSym} (hRun : Run I.program returns s log c) :
    BootStage I returns u log c := by
  rcases hRun.of_calls hCalls with ⟨rfl, t, rfl, hSteps⟩ | ⟨rfl, rfl⟩ | ⟨v, rest, rfl, hReturns, hRest⟩
  · exact .toMain (hCalls.of_steps hSteps)
  · exact .inMain (main_returns hMain hCall)
  · -- `main` has returned to `halt`
    obtain ⟨w, hHalt, hStatus⟩ := main_then_exit hConv hMain hCall hReturns
    rcases hRest.of_calls hHalt with ⟨rfl, t, rfl, hSteps⟩ | ⟨rfl, rfl⟩ | ⟨v', -, -, hReturns', -⟩
    · exact .toExit (hHalt.of_steps hSteps) hStatus
    · exact .inExit hStatus
    · exact absurd hReturns' hConv.noreturn

/--
**Every boot ends in an exit with 1.** On core 0 at EL1, for every register and memory
contents, every libfdt, and all C functions that keep the calling convention, `main` being the
one of `main.c`: there is a run that calls `main`, which prints that there is no device tree and
returns 1, and then `exit`, which asks the host to end the machine with status 1. Every run goes
on, and it is at some stage of that one: it makes no other call, `main` returns, and whatever
`main` returned with, `exit` is called with 1. This is so whatever device tree `x0` points to.
-/
theorem primaryEntry_exitsOne (hConv : Conforms I returns) (hMain : CompilesMain I lib fns returns)
    (hStart : Entry s) :
    ∃ u,
      (∀ machine : Machine σ, machine.fdt.kernel.mem = u.mem → ∀ fuel frame, ∃ machine',
        main (I.sections.layout I.fits).toLayout lib fns fuel frame (u.gpr 0).toNat machine =
            some (1, machine') ∧
          machine'.fdt.kernel = machine.fdt.kernel.printed
            [("FDT Error: null DTB address\n", []), ("FDT validation failed. Halting.\n", [])]) ∧
      (∃ w, Run I.program returns s [(.main, u), (.exit, w)] (.inside .exit w) ∧ ExitsOne w) ∧
      ∀ log c, Run I.program returns s log c → GoesOn I log c ∧ BootStage I returns u log c := by
  obtain ⟨u, hCalls, hCall⟩ := el1_calls (I := I) hStart
  refine ⟨u, fun machine hMem fuel frame => ?_, ?_, fun log c hRun =>
    ⟨(el1_runs hConv hStart hRun).1, el1_stages hConv hMain hCalls hCall hRun⟩⟩
  · obtain ⟨machine', hEq, -, hPrinted⟩ := main_cleared hCall hMem (I.sections.layout I.fits)
      lib fns fuel frame
    exact ⟨machine', hEq, hPrinted⟩
  · obtain ⟨v, hReturns⟩ := main_returns hMain hCall
    obtain ⟨w, hHalt, hStatus⟩ := main_then_exit hConv hMain hCall hReturns
    exact ⟨w, (hCalls.run.resume hReturns).append hHalt.run, hStatus⟩

/-- A library that finds no header anywhere. -/
def noTree : Libfdt Unit where
  code := FdtErr.number
  code_pos := FdtErr.number_pos
  fdt32ToCpu := swapBytes
  fdt32ToCpu_bytes := swapBytes_bytes
  checkHeader := fun _ st => (-FdtErr.badmagic.number, st)
  pathOffset := fun _ _ st => (.error .notfound, st)
  addressCells := fun _ _ st => (2, st)
  sizeCells := fun _ _ st => (2, st)
  nodeOffsetByPropValue := fun _ _ _ _ _ st => (.error .notfound, st)
  getprop := fun _ _ _ st => (.error .notfound, st)

theorem noTree_invalid (fdt : Nat) (s : FdtState Unit) : (checkFdt noTree fdt s).1 = false := by
  have hBad : -FdtErr.badmagic.number ≠ 0 := by decide
  exact Bool.eq_false_iff.mpr fun hValid => hBad ((checkFdt_iff noTree fdt s).mp hValid).2

/-- With it `main` always returns 1, as the functions do that return at once. -/
theorem noTree_compilesMain (I : BootImage) (fns : Functions) :
    CompilesMain I noTree fns (returnsOne I) where
  sound {u v} hReturns := by
    obtain ⟨-, -, -, hOne⟩ := hReturns
    let machine : Machine Unit :=
      ⟨⟨{ Kernel.coldStart with mem := u.mem }, (), ⟨fun _ => ⟨0, 0⟩, 0⟩⟩, ⟨0, 0⟩, ⟨0, 0, 0⟩⟩
    exact ⟨0, 0, machine, 1, _, rfl, main_fdt (noTree_invalid _ _) 0, by rw [hOne]; rfl⟩
  total {u i} hFind _ := by
    let v : State := { u with pc := i, gpr := Function.update u.gpr 0 1 }
    exact ⟨v, by decide, hFind, rfl, Function.update_self 0 1 u.gpr⟩

/-- The small kernel with a device tree at `0x48000000`: its run to the end, and where any
run is that has made one call. -/
theorem primaryEntry_exitsOne_small :
    ∃ u, (∃ w, Run emergencyImage.program (returnsOne emergencyImage) fdtEntry
        [(.main, u), (.exit, w)] (.inside .exit w) ∧ ExitsOne w) ∧
      ∀ call c, Run emergencyImage.program (returnsOne emergencyImage) fdtEntry [call] c →
        call = (.main, u) ∧ (c = .inside .main u ∨
          ∃ t w, c = .at t ∧ Calls emergencyImage.program t .exit w ∧ ExitsOne w) := by
  let fns : Functions := ⟨0x40001000, 0x40001010, 0x40001020⟩
  obtain ⟨u, -, hEnd, hRuns⟩ := primaryEntry_exitsOne (returnsOne_conforms emergencyImage)
    (noTree_compilesMain emergencyImage fns) fdtEntry_entry
  refine ⟨u, hEnd, fun call c hRun => ?_⟩
  obtain ⟨-, hStage⟩ := hRuns _ _ hRun
  cases hStage with
  | inMain _ => exact ⟨rfl, Or.inl rfl⟩
  | toExit hNext hStatus => exact ⟨rfl, Or.inr ⟨_, _, rfl, hNext, hStatus⟩⟩

end Kernalite
