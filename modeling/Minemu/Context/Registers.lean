import Minemu.Context.Alternation

/-!
# What an interrupt preserves

The frame of `irq-context-switch` holds the general registers, the return address,
the SPSR and the user bank.  SP and LR of SVC mode, in which both tasks run, are not
part of it.
-/

namespace Minemu.Context.IrqSwitch

open Minemu.Lib Minemu.Lib.Memory Minemu.Lib.Arm Minemu.Trap

variable {y : Symbols} {s s' : System (irqContextSwitch y)} {m m' : Machine}

/-- `m'` continues `m0` in every register the frame holds. -/
structure Continues (m0 m' : Machine) : Prop where
  r : m'.r = m0.r
  userSp : m'.sp .usr = m0.sp .usr
  userLr : m'.lr .usr = m0.lr .usr
  pc : m'.pc = m0.pc
  cpsr : m'.cpsr = m0.cpsr

/-- Every context of an interrupted task is its frame. -/
def ContextsSaved (s : System (irqContextSwitch y)) : Prop :=
  ∀ t c m0, s.context t = some c → c.interrupted = some m0 →
    c.words = irqFrame m0 ∧ m0.pc.toNat % (if thumb m0.cpsr then 2 else 4) = 0

def Phase (s : System (irqContextSwitch y)) : Prop :=
  Fresh (onStack y) s ∨ BRuns (onStack y) s ∨ ARuns (onStack y) s

theorem Phase.onOwnStack (h : Phase s) : OnOwnStack (onStack y) s := by
  rcases h with h | h | h
  · exact h.toOnOwnStack
  · exact h.toOnOwnStack
  · exact h.toOnOwnStack

/-! ## One interrupt -/

theorem load_call (h : Step (irqContextSwitch y) s s' m m') (hs : Phase s) :
    TrapFrame.load ((irqContextSwitch y).entry.call m).mem ((irqContextSwitch y).frame m) =
      irqFrame m := by
  have hstack : onStack y s.current (m.sp .irq - 88) :=
    lawful.traps _ _ _ _ hs.onOwnStack.returned hs.onOwnStack.sp h.runs
  have hcall : (irqContextSwitch y).entry.call m = _ :=
    minemuIrqTrampoline_call (claim_notMem hstack)
  rw [Example.frame, hcall, saving_mem, saving_r, Function.update_self, TrapFrame.load_store]

/-- Whichever task is resumed, it is resumed from its latest context. -/
theorem step_resumes (h : Step (irqContextSwitch y) s s' m m') (hs : Phase s) :
    Phase s' ∧ Designates s' s'.current s'.returned := by
  rcases hs with hs | hs | hs
  · obtain ⟨hphase, hswitch⟩ := h.of_fresh lawful hs
    refine ⟨.inr (.inl hphase), ?_⟩
    rw [hswitch.alternates]
    exact hswitch.resumes
  · obtain ⟨hphase, hswitch⟩ := h.of_bRuns lawful hs
    refine ⟨.inr (.inr hphase), ?_⟩
    rw [hswitch.alternates]
    exact hswitch.resumes
  · -- The frame task A has just saved lies where its first one did.
    refine ⟨.inr (.inr (h.of_aRuns lawful hs).1), ?_⟩
    obtain ⟨hown, -⟩ := h.call lawful hs.toOnOwnStack
    obtain ⟨-, hcurrent, hret, hcontext⟩ := h.fields
    obtain ⟨-, -, hreturned, hmem⟩ := lawful.later s.vars ((irqContextSwitch y).entry.call m).mem
      ((irqContextSwitch y).frame m) hs.taskBFrame
    rw [← Example.result] at hreturned hmem
    rw [hs.current] at hown
    have hframe : (irqContextSwitch y).frame m = (Example.result s m).returned := by
      rw [hreturned]
      exact Eq.trans hown hs.stackA.symm
    have howner : (irqContextSwitch y).owner (Example.result s m).returned = .a := by
      rw [hreturned]
      exact lawful.owner _ _ hs.stackA
    have hcontextA := context_current s m
    rw [hs.current] at hcontextA
    have hload := h.load_frame lawful hs.toOnOwnStack hcontextA
    rw [hmem] at hload
    rw [← hcontext] at hcontextA
    rw [hcurrent, howner, hret, ← hframe]
    exact designates_of_context hcontextA hload

theorem step_contextsSaved (h : Step (irqContextSwitch y) s s' m m') (hs : Phase s)
    (hsaved : ContextsSaved s) : ContextsSaved s' := by
  intro t c m0 hc hm0
  obtain ⟨-, -, -, hcontext⟩ := h.fields
  have hinterrupt : ∀ t c, Example.interrupt s m t = some c → c.interrupted = some m0 →
      c.words = irqFrame m0 ∧ m0.pc.toNat % (if thumb m0.cpsr then 2 else 4) = 0 := by
    intro t c hc hm0
    rw [Example.interrupt] at hc
    by_cases ht : t = s.current
    · rw [ht, Function.update_self] at hc
      cases hc
      cases hm0
      exact ⟨load_call h hs, h.runs.aligned⟩
    · rw [Function.update_of_ne ht] at hc
      exact hsaved t c m0 hc hm0
  rw [hcontext, Example.contexts] at hc
  split at hc
  · by_cases ht : t = (irqContextSwitch y).owner (Example.result s m).returned
    · rw [ht, Function.update_self] at hc
      cases hc
      cases hm0
    · rw [Function.update_of_ne ht] at hc
      exact hinterrupt t c hc hm0
  · exact hinterrupt t c hc hm0

/-- No part of the path touches the SVC bank. -/
theorem step_svcBank (h : Step (irqContextSwitch y) s s' m m') (hs : Phase s) :
    s'.machine.sp .svc = m.sp .svc ∧ s'.machine.lr .svc = m.lr .svc := by
  have hstack : onStack y s.current (m.sp .irq - 88) :=
    lawful.traps _ _ _ _ hs.onOwnStack.returned hs.onOwnStack.sp h.runs
  have hcall : (irqContextSwitch y).entry.call m = _ :=
    minemuIrqTrampoline_call (claim_notMem hstack)
  have hbank : ((irqContextSwitch y).entry.call m).bank = .irq := (h.call lawful hs.onOwnStack).2.1
  have hreturn : m'.bank = .irq := h.returned.bank.trans hbank
  have hswitch : (switchStack m').bank = .irq := hreturn
  have hmachine := h.machine lawful hs.onOwnStack
  constructor
  · have hm' := h.returned.otherSp .svc (by rw [hbank]; decide)
    have hmove : (switchStack m').sp .svc = m'.sp .svc :=
      Function.update_of_ne (by rw [hreturn]; decide) _ _
    rw [hmachine, resumed_sp_of_ne (by decide) (by rw [hswitch]; decide), hmove, hm', hcall]
    exact saving_sp_of_ne (by rw [takeException_bank]; decide)
  · have hm' := h.returned.otherLr .svc (by rw [hbank]; decide)
    have hmove : (switchStack m').lr .svc = m'.lr .svc := rfl
    have hentry : (takeException .irq m).lr .svc = m.lr .svc := by
      simp [takeException, Exception.bank]
    rw [hmachine, resumed_lr_of_ne (by decide) (by rw [hswitch]; decide), hmove, hm', hcall,
      saving_lr, hentry]

/-- A task resumed from the frame of an interrupt continues what was interrupted. -/
theorem step_continues (h : Step (irqContextSwitch y) s s' m m') (hs : Phase s)
    (hsaved : ContextsSaved s) {c : Saved} {m0 : Machine}
    (hc : s'.context s'.current = some c) (hm0 : c.interrupted = some m0) :
    Continues m0 s'.machine := by
  obtain ⟨-, hdesignates⟩ := step_resumes h hs
  obtain ⟨c', hc', hframe, hload⟩ := hdesignates
  obtain ⟨hwords, haligned⟩ := step_contextsSaved h hs hsaved _ _ _ hc hm0
  rw [hc] at hc'
  cases hc'
  obtain ⟨-, -, hret, -⟩ := h.fields
  have hmachine := h.machine lawful hs.onOwnStack
  have hmem : s'.machine.mem = m'.mem := by rw [hmachine, resumed_mem]; rfl
  have hbank : (switchStack m').bank = .irq :=
    h.returned.bank.trans (h.call lawful hs.onOwnStack).2.1
  rw [← hret, ← hmem, hload, hwords] at hmachine
  rw [hmachine]
  refine ⟨rfl, ?_, ?_, ?_, ?_⟩
  · rw [resumed_sp_usr (by rw [hbank]; decide)]
    rfl
  · rw [resumed_lr_usr]
    rfl
  · have hpc : (irqFrame m0).returnLr - (irqContextSwitch y).back = m0.pc :=
      BitVec.add_sub_cancel _ _
    rw [resumed_pc, hpc]
    change (if thumb m0.cpsr then m0.pc &&& ~~~1 else m0.pc &&& ~~~3) = m0.pc
    split
    next hthumb =>
      rw [if_pos hthumb] at haligned
      exact and_not_one_eq_self haligned
    next hA32 =>
      rw [if_neg hA32] at haligned
      exact and_not_three_eq_self haligned
  · rw [resumed_cpsr]
    rfl

/-! ## Runs -/

/-- In every run of interrupts, whenever a task is resumed from the frame saved at its
last interruption `m0`, it continues with the registers of `m0`, except that SP and LR
of SVC mode stay as the task just interrupted, in `m`, had them. -/
theorem interrupt_preserves (y : Symbols) (s s' : System (irqContextSwitch y))
    (ts : List (System (irqContextSwitch y) × System (irqContextSwitch y)))
    (hstart : Started y s) (htrace : Trace (step (irqContextSwitch y)) s ts s') :
    ∀ t ∈ ts, ∀ c m0, t.2.context t.2.current = some c → c.interrupted = some m0 →
      Continues m0 t.2.machine ∧
        ∀ c' m, t.2.context t.1.current = some c' → c'.interrupted = some m →
          t.2.machine.sp .svc = m.sp .svc ∧ t.2.machine.lr .svc = m.lr .svc := by
  have hinit : Phase s ∧ ContextsSaved s := by
    refine ⟨.inl hstart.fresh, fun t c m0 hc => ?_⟩
    rw [hstart.context t] at hc
    cases hc
  refine (htrace.invariant (I := fun s => Phase s ∧ ContextsSaved s) hinit ?_ ?_).2
  · rintro s s' ⟨hphase, hsaved⟩ ⟨m, m', hstep⟩
    exact ⟨(step_resumes hstep hphase).1, step_contextsSaved hstep hphase hsaved⟩
  · rintro s s' ⟨hphase, hsaved⟩ ⟨m, m', hstep⟩ c m0 hc hm0
    refine ⟨step_continues hstep hphase hsaved hc hm0, fun c' m1 hc' hm1 => ?_⟩
    obtain ⟨-, -, -, hcontext⟩ := hstep.fields
    rw [hcontext, context_current s m] at hc'
    cases hc'
    cases hm1
    exact step_svcBank hstep hphase

/-! ## Task B moves the stack pointer -/

/-- A task in a function it has called: SP and LR of SVC mode have moved. -/
def inCall (m : Machine) : Machine :=
  { m with
    sp := Function.update m.sp .svc 0xc0033ff8
    lr := Function.update m.lr .svc 0xc0030108 }

def bInCall : System (irqContextSwitch irqSymbols) :=
  trapAt (quietTrap irqStart) (inCall (quietTrap irqStart).machine)

theorem inCall_activity (h : Activity m m') : Activity m (inCall m') where
  svc := h.svc
  irqEnabled := h.irqEnabled
  irqStack := by
    rw [← h.irqStack]
    exact Function.update_of_ne (show Bank.irq ≠ .svc by decide) 0xc0033ff8 m'.sp
  aligned := h.aligned

theorem bInCall_trace : Trace (step (irqContextSwitch irqSymbols)) irqStart
    [(irqStart, quietTrap irqStart), (quietTrap irqStart, bInCall)] bInCall := by
  have hmem : ∀ m : Machine, (inCall m).mem = m.mem := fun _ => rfl
  exact .cons (step_quietTrap irqStart_activity)
    (.cons (step_trapAt (inCall_activity quietTrap_irqStart_activity) (hmem _)) (.nil _))

theorem bInCall_context : ∃ c, bInCall.context bInCall.current = some c ∧
    c.interrupted = some irqStart.machine := by
  have hcurrent : bInCall.current = .a := by decide +kernel
  have hother : Task.a ≠ (quietTrap irqStart).current := by decide +kernel
  have hfirst : (quietTrap irqStart).context .a = _ := context_current irqStart irqStart.machine
  have hcontext : ∀ s : System (irqContextSwitch irqSymbols), ∀ m,
      (trapAt s m).context = Example.contexts s m := fun _ _ => rfl
  rw [hcurrent, bInCall, hcontext]
  exact ⟨_, context_other _ hother hfirst, rfl⟩

theorem interrupt_preserves_bInCall : ∃ c, bInCall.context bInCall.current = some c ∧
    c.interrupted = some irqStart.machine ∧ Continues irqStart.machine bInCall.machine := by
  obtain ⟨c, hc, hm0⟩ := bInCall_context
  have hpreserved := interrupt_preserves irqSymbols irqStart bInCall _ irqStart_started
    bInCall_trace (quietTrap irqStart, bInCall) (by simp) c irqStart.machine hc hm0
  exact ⟨c, hc, hm0, hpreserved.1⟩

/-- Task A, interrupted in SVC mode, continues with task B's SP and LR. -/
theorem interrupt_preserves_not_svcBank :
    IrqSwitch.Started irqSymbols irqStart ∧
      Trace (step (irqContextSwitch irqSymbols)) irqStart
        [(irqStart, quietTrap irqStart), (quietTrap irqStart, bInCall)] bInCall ∧
      (∃ c, bInCall.context bInCall.current = some c ∧
        c.interrupted = some irqStart.machine) ∧
      irqStart.machine.bank = .svc ∧
      bInCall.machine.get .sp ≠ irqStart.machine.get .sp ∧
      bInCall.machine.get .lr ≠ irqStart.machine.get .lr :=
  ⟨irqStart_started, bInCall_trace, bInCall_context, by decide, by decide +kernel,
    by decide +kernel⟩

/-! ## Task B overwrites task A's frame -/

/-- A task that stores 1 to the first word of the frame task A is to be resumed from. -/
def overwriting (m : Machine) : Machine := { m with mem := storeWord m.mem 0xc0034fa8 1 }

theorem overwriting_activity (h : Activity m m') : Activity m (overwriting m') :=
  ⟨h.svc, h.irqEnabled, h.irqStack, h.aligned⟩

/-- Task B has been interrupted after such a store. -/
def bOverwrote : System (irqContextSwitch irqSymbols) :=
  trapAt (quietTrap irqStart) (overwriting (quietTrap irqStart).machine)

/-- Both tasks are privileged, so nothing stops one from changing what the other is
resumed from.  Task A is then resumed with the stored word in `r0`. -/
theorem interrupt_preserves_not_overwritten :
    Trace (step (irqContextSwitch irqSymbols)) irqStart [(irqStart, quietTrap irqStart)]
        (quietTrap irqStart) ∧
      Activity (quietTrap irqStart).machine (overwriting (quietTrap irqStart).machine) ∧
      ¬ KeepsOther (quietTrap irqStart) (overwriting (quietTrap irqStart).machine) ∧
      (∃ c, bOverwrote.context bOverwrote.current = some c ∧
        c.interrupted = some irqStart.machine) ∧
      ¬ Continues irqStart.machine bOverwrote.machine := by
  have hfirst : (quietTrap irqStart).context .a = _ := context_current irqStart irqStart.machine
  have hother : (quietTrap irqStart).current.other = .a := by decide +kernel
  refine ⟨.cons (step_quietTrap irqStart_activity) (.nil _),
    overwriting_activity quietTrap_irqStart_activity, fun hkeeps => ?_, ?_, fun hcontinues => ?_⟩
  · rw [KeepsOther, hother] at hkeeps
    have hkept := hkeeps _ hfirst 0xc0034fa8 (by decide +kernel)
    exact absurd hkept (by decide +kernel)
  · have hcurrent : bOverwrote.current = .a := by decide +kernel
    have hne : Task.a ≠ (quietTrap irqStart).current := by decide +kernel
    have hcontext : ∀ s : System (irqContextSwitch irqSymbols), ∀ m,
        (trapAt s m).context = Example.contexts s m := fun _ _ => rfl
    rw [hcurrent, bOverwrote, hcontext]
    exact ⟨_, context_other _ hne hfirst, rfl⟩
  · exact absurd (congrFun hcontinues.r 0) (by decide +kernel)

end Minemu.Context.IrqSwitch
