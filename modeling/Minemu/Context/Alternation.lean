import Minemu.Context.IrqSwitch
import Minemu.Context.SvcSwitch

/-!
# Do the two examples alternate their tasks?

The dispatchers tell the first trap from the others by `task_b_frame`, and treat
every other trap as one of task B.  Task A's second trap is not.
-/

namespace Minemu.Context

open Minemu.Lib Minemu.Lib.Memory Minemu.Lib.Arm Minemu.Trap

/-- In both examples, the traps of a run switch tasks and lose none exactly when there
are at most two of them. -/
theorem contextSwitch_alternates (y : IrqSwitch.Symbols) (z : SvcSwitch.Symbols) :
    (∀ (s s' : System (IrqSwitch.irqContextSwitch y))
        (ts : List (System (IrqSwitch.irqContextSwitch y) × System (IrqSwitch.irqContextSwitch y))),
      IrqSwitch.Started y s → Trace (step (IrqSwitch.irqContextSwitch y)) s ts s' →
      ((∀ t ∈ ts, Switches t.1 t.2) ↔ ts.length ≤ 2)) ∧
    (∀ (s s' : System (SvcSwitch.svcContextSwitch z))
        (ts : List (System (SvcSwitch.svcContextSwitch z) × System (SvcSwitch.svcContextSwitch z))),
      SvcSwitch.Started z s → Trace (step (SvcSwitch.svcContextSwitch z)) s ts s' →
      ((∀ t ∈ ts, Switches t.1 t.2) ↔ ts.length ≤ 2)) :=
  ⟨fun _ _ _ hstart htrace => switches_iff IrqSwitch.lawful htrace hstart.fresh,
    fun _ _ _ hstart htrace => switches_iff SvcSwitch.lawful htrace hstart.fresh⟩

/-! ## Tasks that only loop -/

/-- A dispatcher that returns with every register but `r0` as it was at the call. -/
def quietReturn {V : Type} (d : Dispatch V) (m : Machine) : Machine :=
  { m with r := Function.update m.r 0 d.returned, mem := d.mem }

theorem returned_quietReturn {V : Type} (d : Dispatch V) (context : Task → Option Saved)
    (m : Machine) : Returned d context m (quietReturn d m) where
  bank := rfl
  sp := rfl
  callee n hn _ := by
    have hne : n ≠ 0 := by
      intro hzero
      rw [hzero] at hn
      exact absurd hn (by decide)
    simp only [Machine.gpr, quietReturn, Function.update_of_ne hne]
    rfl
  result := by simp [quietReturn]
  otherSp _ _ := rfl
  otherLr _ _ := rfl
  mem _ _ := rfl

def trapAt {x : Example} (s : System x) (m : Machine) : System x where
  machine := block x.entry.restore (quietReturn (Example.result s m) (x.entry.call m))
  vars := (Example.result s m).vars
  current := x.owner (Example.result s m).returned
  returned := (Example.result s m).returned
  context := Example.contexts s m

theorem step_trapAt {x : Example} {s : System x} {m : Machine}
    (h : x.runs s.current s.machine m) (hmem : m.mem = s.machine.mem) : step x s (trapAt s m) :=
  ⟨m, _, h, fun _ _ _ _ => by rw [hmem], returned_quietReturn _ _ _, rfl⟩

/-- The trap of a task that has done nothing since it was resumed. -/
def quietTrap {x : Example} (s : System x) : System x := trapAt s s.machine

theorem step_quietTrap {x : Example} {s : System x} (h : x.runs s.current s.machine s.machine) :
    step x s (quietTrap s) :=
  step_trapAt h rfl

def irqSymbols : IrqSwitch.Symbols where
  taskB := 0xc0030100
  taskBStorage := 0xc0031000
  irqStackTop := 0xc0035000
  storage_high := by decide
  storage_below := by decide

def svcSymbols : SvcSwitch.Symbols where
  taskB := 0xc0030100
  taskBStack := 0xc0031000
  svcStackTop := 0xc0035000
  stack_high := by decide
  stack_below := by decide

def irqStart : System (IrqSwitch.irqContextSwitch irqSymbols) where
  machine :=
    { r := fun _ => 0
      rFiq := fun _ => 0
      sp := Function.update (fun _ => 0xc0034000) .irq 0xc0035000
      lr := fun _ => 0
      spsr := fun _ => 0
      pc := 0xc0030200
      cpsr := 0x13
      cp15 := fun _ => 0
      mem := fun _ => 0 }
  vars := ⟨0, 0, 0, []⟩
  current := .a
  returned := 0xc0034fa8
  context _ := none

theorem irqStart_started : IrqSwitch.Started irqSymbols irqStart where
  current := rfl
  returned := by decide
  irqStack := by decide
  taskBFrame := rfl
  context _ := rfl

def irqTraps : List (System (IrqSwitch.irqContextSwitch irqSymbols) ×
    System (IrqSwitch.irqContextSwitch irqSymbols)) :=
  [(irqStart, quietTrap irqStart), (quietTrap irqStart, quietTrap (quietTrap irqStart)),
    (quietTrap (quietTrap irqStart), quietTrap (quietTrap (quietTrap irqStart)))]

theorem irqStart_activity : IrqSwitch.Activity irqStart.machine irqStart.machine where
  svc := by decide +kernel
  irqEnabled := by decide +kernel
  irqStack := rfl
  aligned := by decide +kernel

theorem quietTrap_irqStart_activity :
    IrqSwitch.Activity (quietTrap irqStart).machine (quietTrap irqStart).machine where
  svc := by decide +kernel
  irqEnabled := by decide +kernel
  irqStack := rfl
  aligned := by decide +kernel

theorem quietTrap_quietTrap_irqStart_activity :
    IrqSwitch.Activity (quietTrap (quietTrap irqStart)).machine
      (quietTrap (quietTrap irqStart)).machine where
  svc := by decide +kernel
  irqEnabled := by decide +kernel
  irqStack := rfl
  aligned := by decide +kernel

theorem contextSwitch_alternates_two_traps :
    Switches irqStart (quietTrap irqStart) ∧
      Switches (quietTrap irqStart) (quietTrap (quietTrap irqStart)) := by
  have hall := ((contextSwitch_alternates irqSymbols svcSymbols).1 irqStart
    (quietTrap (quietTrap irqStart))
    [(irqStart, quietTrap irqStart), (quietTrap irqStart, quietTrap (quietTrap irqStart))]
    irqStart_started
    (.cons (step_quietTrap irqStart_activity)
      (.cons (step_quietTrap quietTrap_irqStart_activity) (.nil _)))).mpr (Nat.le_refl 2)
  rw [List.forall_mem_cons, List.forall_mem_singleton] at hall
  exact hall

/-- The third trap resumes task A, which took it, and `task_b_frame` holds task A's frame. -/
theorem contextSwitch_alternates_three_traps :
    IrqSwitch.Started irqSymbols irqStart ∧
      Trace (step (IrqSwitch.irqContextSwitch irqSymbols)) irqStart irqTraps
        (quietTrap (quietTrap (quietTrap irqStart))) ∧
      (quietTrap (quietTrap irqStart)).current = .a ∧
      (quietTrap (quietTrap (quietTrap irqStart))).current = .a ∧
      ¬ ∀ t ∈ irqTraps, Switches t.1 t.2 := by
  have htrace : Trace (step (IrqSwitch.irqContextSwitch irqSymbols)) irqStart irqTraps
      (quietTrap (quietTrap (quietTrap irqStart))) :=
    .cons (step_quietTrap irqStart_activity)
      (.cons (step_quietTrap quietTrap_irqStart_activity)
        (.cons (step_quietTrap quietTrap_quietTrap_irqStart_activity) (.nil _)))
  refine ⟨irqStart_started, htrace, by decide +kernel, by decide +kernel, fun hall => ?_⟩
  have hlen := (switches_iff IrqSwitch.lawful htrace irqStart_started.fresh).mp hall
  exact absurd hlen (by decide)

end Minemu.Context
