import Minemu.Headless.Handling
import Minemu.Lib.Tlb
import Minemu.Startup.BootstrapWalk

/-!
# `headless/ttbr-switch`: two roots and what is remembered of them

The second root is a copy of the first but for one entry, under which the two map a page
of their own.  A passing run has found the page of the first root after the switch and
that of the second after the flush.  Conversely, a memory management unit that walks
these tables, and remembers and forgets translations as it likes, fails the check between
the switch and the flush if it has forgotten the page of the first root by then, and no
other check.
-/

namespace Minemu.Headless.TtbrSwitch

open Minemu.Lib.Memory Minemu.Lib.Page Minemu.Lib.Arm Minemu.Lib.Guest Minemu.Platform
open Minemu.Startup.BootstrapMap Minemu.Startup.BootstrapWalk

def testVaddr : Word := 0x20000000

def testDirectoryIndex : Nat := 128

def pageFlags : Word := pteValid ||| pteReadable ||| pteWritable

/-! ## The case -/

inductive Page where
  | rootA
  | rootB
  | tableA
  | tableB
  | pageA
  | pageB
  deriving DecidableEq

/-- Where they are.  The linker starts above the bootstrap tables. -/
structure Symbols where
  page : Page → StaticPage
  rootA : (page .rootA).base = 0xc0010000
  aligned : ∀ p, PageAligned (page p).base
  apart : ∀ p q, (page p).base = (page q).base → p = q
  above : ∀ p, p ≠ .rootA → 0xc0030000 ≤ (page p).base.toNat

instance : Inhabited Symbols where
  default := {
    page := fun
      | .rootA => ⟨0xc0010000, by decide, by decide⟩
      | .rootB => ⟨0xc0500000, by decide, by decide⟩
      | .tableA => ⟨0xc0501000, by decide, by decide⟩
      | .tableB => ⟨0xc0502000, by decide, by decide⟩
      | .pageA => ⟨0xc0503000, by decide, by decide⟩
      | .pageB => ⟨0xc0504000, by decide, by decide⟩
    rootA := rfl
    aligned := by rintro (_ | _) <;> decide
    apart := by rintro (_ | _) (_ | _) <;> simp
    above := by rintro (_ | _) <;> simp }

variable (s : Symbols)

def Symbols.word (p : Page) (i : Nat) : Word := (s.page p).word i

/-- `minemu_test_paddr(p)` -/
def Symbols.paddr (p : Page) : Word := minemuTestPaddr (s.page p).base

def copyEntry (i : Nat) : Code Unit Unit := do
  let pde ← read (s.word .rootA i)
  write (s.word .rootB i) pde
  write (s.word .tableA i) 0
  write (s.word .tableB i) 0

def requireTest (value code : Word) : Code Unit Unit := do
  let v ← read testVaddr
  minemuRequire (v == value) code

def minemuKernelMain : Code Unit Unit := do
  Prog.forUpTo (copyEntry s) 1024
  write (s.word .pageA 0) 0xaaaaaaaa
  write (s.word .pageB 0) 0xbbbbbbbb
  write (s.word .tableA 0) (s.paddr .pageA ||| pageFlags)
  write (s.word .tableB 0) (s.paddr .pageB ||| pageFlags)
  write (s.word .rootA testDirectoryIndex) (s.paddr .tableA ||| pteValid)
  write (s.word .rootB testDirectoryIndex) (s.paddr .tableB ||| pteValid)
  minemuMmuTlbiall
  requireTest 0xaaaaaaaa 1
  minemuMmuSetTtbr0 (s.paddr .rootB)
  requireTest 0xaaaaaaaa 2
  minemuMmuTlbiall
  requireTest 0xbbbbbbbb 3
  minemuMmuSetTtbr0 0x40010000
  minemuMmuTlbiall
  requireTest 0xaaaaaaaa 4
  minemuTraceEvent 0x20040001
  minemuFailStop

def program : Case Unit where
  globals := ()
  minemuKernelMain := minemuKernelMain s
  dispatch := weakDispatch
  traceValues := [0x20040001]
  codes := [1, 2, 3, 4]
  diagnostics := []

theorem program_weak : (program s).Weak := ⟨⟨by simp [program], by simp [program]⟩, rfl⟩

theorem program_pending : (program s).Pending [] := by
  show [] <+: [_] ∧ [] ≠ [_]
  simp

/-! ## A passing run -/

/-- Loads of the test page and writes of a control register. -/
def tests : Access → Bool
  | .read a _ => a == testVaddr
  | .mcr _ _ => true
  | _ => false

/-- After the switch the old page is found until the flush. -/
def Passed (w : World Unit) : Prop :=
  w.log.filter tests = [
    .mcr .tlbiall 0, .read testVaddr 0xaaaaaaaa,
    .mcr .ttbr0 (s.paddr .rootB), .read testVaddr 0xaaaaaaaa,
    .mcr .tlbiall 0, .read testVaddr 0xbbbbbbbb,
    .mcr .ttbr0 0x40010000, .mcr .tlbiall 0, .read testVaddr 0xaaaaaaaa]

variable {s}

theorem word_ne {p : Page} {i : Nat} (hi : i < 1024) : s.word p i ≠ traceBase :=
  StaticPage.word_ne hi

theorem word_ne_testVaddr {p : Page} {i : Nat} (hi : i < 1024) : s.word p i ≠ testVaddr := by
  have hlow := (s.page p).low
  have hhigh := (s.page p).high
  have htest : testVaddr.toNat = 0x20000000 := by decide
  intro heq
  have hval := congrArg BitVec.toNat heq
  rw [Symbols.word, StaticPage.word, BitVec.toNat_add, BitVec.toNat_ofNat,
    Nat.mod_eq_of_lt (by omega), Nat.mod_eq_of_lt (by omega)] at hval
  omega

section Passing

variable {L : List Access} {g : Code Unit Unit} {Q : Unit → World Unit → Prop}

abbrev Tested (s : Symbols) (L : List Access) (g : Code Unit Unit)
    (Q : Unit → World Unit → Prop) : Prop :=
  Triple (program s).handlers ((program s).Invariant (Passed s)) (Saw (.selecting tests) [] L) g Q

theorem tested_read {p : Page} {i : Nat} (hi : i < 1024) {k : Word → Code Unit Unit}
    (hk : ∀ v, Tested s L (k v) Q) : Tested s L (read (s.word p i) >>= k) Q := by
  refine (program_weak s).read_then (program_pending s) fun v => ?_
  have hsame : (Monitor.selecting tests).step L (.read (s.word p i) v) = L :=
    if_neg (by simp [tests, word_ne_testVaddr hi])
  rw [hsame]
  exact hk v

theorem tested_write {p : Page} {i : Nat} {x : Word} (hi : i < 1024) (hg : Tested s L g Q) :
    Tested s L (write (s.word p i) x >>= fun _ => g) Q :=
  (program_weak s).write_then (program_pending s) (word_ne hi) hg

theorem tested_mcr {register : Cp15} {x : Word} (hg : Tested s (L ++ [.mcr register x]) g Q) :
    Tested s L (mcr register x >>= fun _ => g) Q :=
  Triple.issue_then ((program_weak s).saw (program_pending s))
    (fun _ _ hw => hw.record_quiet rfl) hg

theorem tested_require {value code : Word} (hcode : code ∈ (program s).codes)
    (hg : Tested s (L ++ [.read testVaddr value]) g Q) :
    Tested s L (requireTest value code >>= fun _ => g) Q := by
  refine (program_weak s).read_then (program_pending s)
    (k := fun v => minemuRequire (v == value) code >>= fun _ => g) fun v => ?_
  refine (program_weak s).require_then (program_pending s) hcode fun hv => ?_
  obtain rfl := eq_of_beq hv
  exact hg

theorem tested_copy :
    Tested s L (Prog.forUpTo (copyEntry s) 1024) fun _ => Saw (.selecting tests) [] L := by
  have hsaw : Stable (program s).handlers ((program s).Invariant (Passed s))
      (Saw (.selecting tests) [] L) := (program_weak s).saw (program_pending s)
  refine Triple.forUpTo (J := fun _ => Saw (.selecting tests) [] L) hsaw fun i hi => ?_
  rw [← bind_pure_unit (x := copyEntry s i)]
  unfold copyEntry
  simp only [bind_assoc]
  refine tested_read hi fun pde => tested_write hi (tested_write hi (tested_write hi ?_))
  exact Triple.ret (Q := fun _ => Saw (.selecting tests) [] L) hsaw

theorem minemuKernelMain_spec : Tested s [] (minemuKernelMain s) fun _ _ => False := by
  unfold minemuKernelMain
  refine Triple.bind tested_copy fun _ => ?_
  iterate 6 refine tested_write (by decide) ?_
  refine tested_mcr (tested_require (by simp [program]) ?_)
  refine tested_mcr (tested_require (by simp [program]) ?_)
  refine tested_mcr (tested_require (by simp [program]) ?_)
  refine tested_mcr (tested_mcr (tested_require (by simp [program]) ?_))
  exact (program_weak s).pass (program_pending s) rfl fun w hw =>
    (Monitor.watch_selecting tests w.log).symm.trans hw.watched

end Passing

theorem program_sound (s : Symbols) : (program s).Sound (Passed s) :=
  Case.sound_of_triple minemuKernelMain_spec ⟨rfl, rfl⟩

/-- The case passes only if the switch keeps the old page until the flush. -/
theorem ttbrSwitch_sound (s : Symbols) : (program s).Sound (Passed s) := program_sound s

end Minemu.Headless.TtbrSwitch
