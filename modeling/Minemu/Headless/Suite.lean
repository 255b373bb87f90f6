import Minemu.Headless.RngTrace
import Minemu.Headless.Uart
import Minemu.Headless.BlockUnattached
import Minemu.Headless.Mmu
import Minemu.Headless.Interrupts
import Minemu.Headless.Exceptions.Kernel
import Minemu.Headless.Exceptions.Attainable
import Minemu.Headless.TtbrSwitch.Retained

/-!
# The suite of `headless/Makefile`

Whatever the platform answers, a run of a case whose dispatchers are not interrupted shows
its own trace, the beginning of it, or an alarm; no run shows the trace of another case,
and some run shows its own.  The one exception is a platform that lets the user program
of `exceptions` store to the trace.
-/

namespace Minemu.Headless.Suite

open Minemu.Lib.Memory Minemu.Lib.Guest

/-- `CASES` -/
inductive Name where
  | uart
  | interrupts
  | block
  | blockUnattached
  | rngTrace
  | mmu
  | exceptions
  | ttbrSwitch

def Globals : Name → Type
  | .interrupts => Interrupts.Globals
  | .mmu => Mmu.Globals
  | .exceptions => Exceptions.Globals
  | _ => Unit

def Symbols : Name → Type
  | .block | .blockUnattached => Block.Dma
  | .mmu => Mmu.Symbols
  | .exceptions => Exceptions.Symbols
  | .ttbrSwitch => TtbrSwitch.Symbols
  | _ => Unit

instance : (n : Name) → Inhabited (Symbols n)
  | .block | .blockUnattached => inferInstanceAs (Inhabited Block.Dma)
  | .mmu => inferInstanceAs (Inhabited Mmu.Symbols)
  | .exceptions => inferInstanceAs (Inhabited Exceptions.Symbols)
  | .ttbrSwitch => inferInstanceAs (Inhabited TtbrSwitch.Symbols)
  | .uart | .interrupts | .rngTrace => inferInstanceAs (Inhabited Unit)

def program : (n : Name) → Symbols n → Case (Globals n)
  | .uart, _ => Uart.program
  | .interrupts, _ => Interrupts.program
  | .block, s => Block.program s
  | .blockUnattached, s => BlockUnattached.program s
  | .rngTrace, _ => RngTrace.program
  | .mmu, s => Mmu.program s
  | .exceptions, s => Exceptions.program s
  | .ttbrSwitch, s => TtbrSwitch.program s

/-- `trace_values` of `test.toml` -/
def traceValues : Name → List Word
  | .uart => [0x20010001]
  | .interrupts => [0x20050001]
  | .block => [0x20030001]
  | .blockUnattached => [0x20030002]
  | .rngTrace => [0x20020001, 0x20020002, 0x20020003]
  | .mmu => [0x20060001]
  | .exceptions => [0x20070001]
  | .ttbrSwitch => [0x20040001]

def Passed : (n : Name) → (s : Symbols n) → World (Globals n) → Prop
  | .uart, _ => Uart.Passed
  | .interrupts, _ => Interrupts.Passed
  | .block, s => Block.Passed s
  | .blockUnattached, s => BlockUnattached.Passed s
  | .rngTrace, _ => RngTrace.Passed
  | .mmu, s => Mmu.Passed s
  | .exceptions, s => Exceptions.Passed s
  | .ttbrSwitch, s => TtbrSwitch.Passed s

theorem program_traceValues (n : Name) (s : Symbols n) :
    (program n s).traceValues = traceValues n := by
  cases n <;> rfl

theorem program_expects (n : Name) (s : Symbols n) : (program n s).Expects := by
  cases n with
  | uart => exact Uart.program_weak.expects
  | interrupts => exact Interrupts.program_expects
  | block => exact (Block.program_weak s).expects
  | blockUnattached => exact (BlockUnattached.program_weak s).expects
  | rngTrace => exact RngTrace.program_weak.expects
  | mmu => exact Mmu.program_expects s
  | exceptions => exact Exceptions.program_expects s
  | ttbrSwitch => exact (TtbrSwitch.program_weak s).expects

def Exposed : (n : Name) → World (Globals n) → Prop
  | .exceptions => Exceptions.Exposed
  | _ => fun _ => False

theorem program_sound (n : Name) (s : Symbols n) (cs : List (Choice Word Taken)) :
    Exposed n ((program n s).run cs).2 ∨
      (program n s).Invariant (Passed n s) ((program n s).run cs).2 := by
  cases n with
  | uart => exact Or.inr (Uart.program_sound cs)
  | interrupts => exact Or.inr (Interrupts.program_sound cs)
  | block => exact Or.inr (Block.program_sound s cs)
  | blockUnattached => exact Or.inr (BlockUnattached.program_sound s cs)
  | rngTrace => exact Or.inr (RngTrace.program_sound cs)
  | mmu => exact Or.inr (Mmu.program_sound s cs)
  | exceptions => exact Exceptions.program_observed s cs
  | ttbrSwitch => exact Or.inr (TtbrSwitch.program_sound s cs)

theorem program_attainable (n : Name) (s : Symbols n) : (program n s).Attainable := by
  cases n with
  | uart => exact Uart.program_attainable
  | interrupts => exact Interrupts.program_attainable
  | block => exact Block.program_attainable
  | blockUnattached => exact BlockUnattached.program_attainable s
  | rngTrace => exact RngTrace.program_attainable
  | mmu => exact Mmu.program_attainable
  | exceptions => exact Exceptions.program_attainable
  | ttbrSwitch => exact TtbrSwitch.program_attainable s

/-! ## No confusion -/

theorem traceValues_apart {n k : Name} (h : k ≠ n) : ¬ traceValues k <+: traceValues n := by
  cases n <;> cases k <;> first | exact absurd rfl h | simp [traceValues]

theorem traceValues_lt (k : Name) : ∀ v ∈ traceValues k, v < 0x80000000 := by
  cases k <;> simp [traceValues]

/-- A verdict of a case is not the trace of another. -/
theorem verdict_ne {n k : Name} {s : Symbols n} {es : List Word} (h : (program n s).Verdict es)
    (hne : k ≠ n) : es ≠ traceValues k := by
  rintro rfl
  rcases h with hbegins | ⟨before, d, after, -, hd, heq⟩
  · rw [program_traceValues] at hbegins
    exact traceValues_apart hne hbegins
  · have hlow := traceValues_lt k d (heq ▸ by simp)
    exact BitVec.not_le.mpr hlow (hd.le (program_expects n s))

/-- Every registered case can pass.  Unless user code has reached the trace, the trace alone
tells whether the case may have passed, it is the expected one only after what the case is
about, and never that of another case. -/
theorem suite_verdicts (n : Name) (s : Symbols n) :
    (∃ cs, ((program n s).run cs).1 = .stop ∧ ((program n s).run cs).2.events = traceValues n) ∧
      ∀ cs, Exposed n ((program n s).run cs).2 ∨
        (program n s).Verdict ((program n s).run cs).2.events ∧
          (((program n s).run cs).2.events = traceValues n →
            Passed n s ((program n s).run cs).2) ∧
          ∀ k ≠ n, ((program n s).run cs).2.events ≠ traceValues k := by
  refine ⟨?_, fun cs => ?_⟩
  · obtain ⟨cs, hstop, hevents⟩ := program_attainable n s
    exact ⟨cs, hstop, hevents.trans (program_traceValues n s)⟩
  · refine (program_sound n s cs).imp_right fun hinvariant => ?_
    obtain ⟨hverdict, hpassed⟩ := hinvariant
    rw [program_traceValues] at hpassed
    exact ⟨hverdict, hpassed, fun k hk => verdict_ne hverdict hk⟩

end Minemu.Headless.Suite
