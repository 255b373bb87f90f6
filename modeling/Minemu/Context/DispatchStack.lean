import Minemu.Context.Alternation

/-!
# The stack under `minemu_irq_dispatch`

The dispatcher is called with SP at the frame, and SP at the next interrupt is the
frame resumed last plus 88.  Task B's first frame is a static object, so the
interrupt of task B calls the dispatcher with SP at the base of that object.
-/

namespace Minemu.Context.IrqSwitch

open Minemu.Lib Minemu.Lib.Memory Minemu.Lib.Arm Minemu.Trap

variable {y : Symbols} {s s' : System (irqContextSwitch y)} {m m' : Machine}

/-- Objects a stack may lie in, by base and size: the IRQ stack, the SVC stack that
the tasks run on, and the object made for task B. -/
def stackObjects (y : Symbols) : List (Word × Nat) :=
  [(y.irqStackTop - 4096, 4096), (y.irqStackTop - 8192, 4096), (y.taskBStorage, sizeofTrapFrame)]

/-- `sp` lies in a stack object with room below it. -/
def RealStack (y : Symbols) (sp : Word) : Prop :=
  ∃ o ∈ stackObjects y, o.1.toNat < sp.toNat ∧ sp.toNat ≤ o.1.toNat + o.2

def DispatchedOnStack (t : System (irqContextSwitch y) × System (irqContextSwitch y)) : Prop :=
  ∀ c m, t.2.context t.1.current = some c → c.interrupted = some m →
    RealStack y ((minemuIrqTrampoline.call m).sp .irq)

/-! ## The stack pointer at the call -/

theorem call_sp {t : Task} (h : onStack y t (m.sp .irq - 88)) :
    (minemuIrqTrampoline.call m).sp .irq = m.sp .irq - 88 := by
  rw [minemuIrqTrampoline_call (claim_notMem h)]
  exact saving_sp (takeException_bank .irq m)

theorem realStack_of_taskA {p : Word} (h : onStack y .a p) : RealStack y p := by
  have hhigh := y.storage_high
  have hbelow := y.storage_below
  rw [onStack] at h
  refine ⟨(y.irqStackTop - 4096, 4096), List.mem_cons_self, ?_, ?_⟩
  · dsimp only
    bv_omega
  · dsimp only
    bv_omega

/-- Task B's first frame has no room below it. -/
theorem not_realStack_of_taskB {p : Word} (h : onStack y .b p) : ¬ RealStack y p := by
  have hhigh := y.storage_high
  have hbelow := y.storage_below
  rw [onStack] at h
  rw [sizeofTrapFrame] at hbelow
  rintro ⟨o, ho, hlow, hsize⟩
  subst h
  rw [stackObjects] at ho
  simp only [List.mem_cons, List.not_mem_nil, or_false] at ho
  rcases ho with ho | ho | ho
  · subst ho
    dsimp only at hlow hsize
    bv_omega
  · subst ho
    dsimp only at hlow hsize
    bv_omega
  · subst ho
    exact Nat.lt_irrefl _ hlow

/-- The dispatcher of an interrupt runs on a real stack exactly when task A is interrupted. -/
theorem step_onStack_iff (h : Step (irqContextSwitch y) s s' m m')
    (hs : OnOwnStack (onStack y) s) : DispatchedOnStack (s, s') ↔ s.current = .a := by
  have hstack : onStack y s.current (m.sp .irq - 88) :=
    lawful.traps _ _ _ _ hs.returned hs.sp h.runs
  obtain ⟨-, -, -, hcontext⟩ := h.fields
  have hcurrent := context_current s m
  rw [← hcontext] at hcurrent
  constructor
  · intro hall
    have hreal := hall _ _ hcurrent rfl
    rw [call_sp hstack] at hreal
    cases hcur : s.current with
    | a => rfl
    | b =>
        rw [hcur] at hstack
        exact absurd hreal (not_realStack_of_taskB hstack)
  · intro hcur c m1 hc hm1
    have heq := hcurrent.symm.trans hc
    cases heq
    cases hm1
    rw [call_sp hstack]
    rw [hcur] at hstack
    exact realStack_of_taskA hstack

/-! ## Runs -/

theorem onStack_of_aRuns {ts : List (System (irqContextSwitch y) × System (irqContextSwitch y))}
    (h : Trace (step (irqContextSwitch y)) s ts s') (hs : ARuns (onStack y) s) :
    ∀ t ∈ ts, DispatchedOnStack t := by
  refine (h.invariant hs ?_ ?_).2
  · rintro s s' hs ⟨m, m', hstep⟩
    exact (hstep.of_aRuns lawful hs).1
  · rintro s s' hs ⟨m, m', hstep⟩
    exact (step_onStack_iff hstep hs.toOnOwnStack).mpr hs.current

theorem onStack_get_iff {ts : List (System (irqContextSwitch y) × System (irqContextSwitch y))}
    (h : Trace (step (irqContextSwitch y)) s ts s') (hs : Fresh (onStack y) s) (i : Nat)
    (hi : i < ts.length) : DispatchedOnStack (ts.get ⟨i, hi⟩) ↔ i ≠ 1 := by
  cases h with
  | nil => exact absurd hi (Nat.not_lt_zero i)
  | @cons _ _ _ rest hfirst h =>
      obtain ⟨m1, m1', hfirst⟩ := hfirst
      obtain ⟨hs1, -⟩ := hfirst.of_fresh lawful hs
      match i, hi with
      | 0, _ =>
          have hon := (step_onStack_iff hfirst hs.toOnOwnStack).mpr hs.current
          exact ⟨fun _ => Nat.zero_ne_one, fun _ => hon⟩
      | i + 1, hi =>
          cases h with
          | nil => exact absurd hi (by simp)
          | @cons _ _ _ rest hsecond h =>
              obtain ⟨m2, m2', hsecond⟩ := hsecond
              obtain ⟨hs2, -⟩ := hsecond.of_bRuns lawful hs1
              match i, hi with
              | 0, _ =>
                  have hiff := step_onStack_iff hsecond hs1.toOnOwnStack
                  rw [hs1.current] at hiff
                  exact ⟨fun hon => absurd (hiff.mp hon) (by decide), fun hne => absurd rfl hne⟩
              | i + 1, hi =>
                  have hall := onStack_of_aRuns h hs2
                  exact ⟨fun _ => by omega, fun _ => hall _ (List.get_mem _ _)⟩

/-- In a run of interrupts, every call of the dispatcher but the second is on a real
stack, so all of them are exactly when there is at most one. -/
theorem irqDispatch_onStack (y : Symbols) (s s' : System (irqContextSwitch y))
    (ts : List (System (irqContextSwitch y) × System (irqContextSwitch y)))
    (hstart : Started y s) (htrace : Trace (step (irqContextSwitch y)) s ts s') :
    (∀ i (hi : i < ts.length), DispatchedOnStack (ts.get ⟨i, hi⟩) ↔ i ≠ 1) ∧
      ((∀ t ∈ ts, DispatchedOnStack t) ↔ ts.length ≤ 1) := by
  have hget := onStack_get_iff htrace hstart.fresh
  refine ⟨hget, fun hall => ?_, fun hlen t ht => ?_⟩
  · by_contra hlong
    have hsecond : 1 < ts.length := by omega
    exact absurd rfl ((hget 1 hsecond).mp (hall _ (List.get_mem _ _)))
  · obtain ⟨⟨i, hi⟩, hti⟩ := List.get_of_mem ht
    rw [← hti]
    exact (hget i hi).mpr (by omega)

theorem irqDispatch_onStack_one_interrupt : DispatchedOnStack (irqStart, quietTrap irqStart) := by
  have hall := (irqDispatch_onStack irqSymbols irqStart (quietTrap irqStart)
    [(irqStart, quietTrap irqStart)] irqStart_started
    (.cons (step_quietTrap irqStart_activity) (.nil _))).2.mpr (Nat.le_refl 1)
  rwa [List.forall_mem_singleton] at hall

/-- The interrupt of task B calls the dispatcher with SP at the base of `task_b_storage`. -/
theorem irqDispatch_onStack_two_interrupts :
    Started irqSymbols irqStart ∧
      Trace (step (irqContextSwitch irqSymbols)) irqStart (irqTraps.take 2)
        (quietTrap (quietTrap irqStart)) ∧
      (minemuIrqTrampoline.call (quietTrap irqStart).machine).sp .irq = irqSymbols.taskBStorage ∧
      ¬ ∀ t ∈ irqTraps.take 2, DispatchedOnStack t := by
  have htrace : Trace (step (irqContextSwitch irqSymbols)) irqStart (irqTraps.take 2)
      (quietTrap (quietTrap irqStart)) :=
    .cons (step_quietTrap irqStart_activity)
      (.cons (step_quietTrap quietTrap_irqStart_activity) (.nil _))
  refine ⟨irqStart_started, htrace, by decide +kernel, fun hall => ?_⟩
  have hsecond := (onStack_get_iff htrace irqStart_started.fresh 1 (by decide)).mp
    (hall _ (List.get_mem _ _))
  exact absurd rfl hsecond

end Minemu.Context.IrqSwitch
