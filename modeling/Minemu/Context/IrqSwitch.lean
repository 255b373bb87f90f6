import Minemu.Context.Phases

/-!
# `irq-context-switch`: two tasks switched by interrupts

Both tasks run in SVC mode with IRQs enabled.  IRQ mode has a stack of its own, so
the first frame lies at its top; the second task's frame is a static object.
-/

namespace Minemu.Context.IrqSwitch

open Minemu.Lib Minemu.Lib.Memory Minemu.Lib.Arm Minemu.Trap

/-! ## The program -/

/-- Symbols of the linked image.  The static objects of the kernel lie below the SVC
and IRQ stacks of 4096 bytes each. -/
structure Symbols where
  taskB : Word
  taskBStorage : Word
  irqStackTop : Word
  storage_high : 0xc0030000 ≤ taskBStorage.toNat
  storage_below : taskBStorage.toNat + sizeofTrapFrame + 8192 ≤ irqStackTop.toNat

def irqSystick : Word := 0

def irqUart0 : Word := 1

def irqUart1 : Word := 2

def irqBlock : Word := 3

inductive DeviceAccess where
  | systickAck (value : Word)
  | uart0RxData
  | uart1RxData
  | blockAck (value : Word)
  | interruptEoi (value : Word)
  deriving DecidableEq, Repr

/-- The static variables.  They have no address here: that the tasks and the dispatcher's C
stack leave them alone is built in. -/
structure Variables where
  interruptCount : Word
  taskAFrame : Word
  taskBFrame : Word
  devices : List DeviceAccess

def acknowledge (source : Word) : List DeviceAccess :=
  if source = irqSystick then [.systickAck 1]
  else if source = irqUart0 then [.uart0RxData]
  else if source = irqUart1 then [.uart1RxData]
  else if source = irqBlock then [.blockAck 1]
  else []

def minemuIrqDispatch (y : Symbols) (v : Variables) (mem : Mem) (frame : Word) :
    Dispatch Variables :=
  let source := loadWord mem (frame + 60)
  let v : Variables := { v with
    interruptCount := v.interruptCount + 1
    devices := v.devices ++ acknowledge source ++ [.interruptEoi source] }
  if v.taskBFrame = 0 then
    let mem := fillWords mem y.taskBStorage (fun _ => 0) 22
    let mem := storeWord mem (y.taskBStorage + 52) (y.taskB + 4)
    let mem := storeWord mem (y.taskBStorage + 56) (loadWord mem (frame + 56))
    let mem := storeWord mem (y.taskBStorage + 60) source
    ⟨{ v with taskAFrame := frame, taskBFrame := y.taskBStorage }, mem, y.taskBStorage⟩
  else ⟨{ v with taskBFrame := frame }, mem, v.taskAFrame⟩

/-- What a task may do between two interrupts: anything that leaves it in SVC mode
with IRQs enabled. -/
structure Activity (m m' : Machine) : Prop where
  svc : m'.bank = .svc
  irqEnabled : m'.cpsr.getLsbD 7 = false
  irqStack : m'.sp .irq = m.sp .irq
  aligned : m'.pc.toNat % (if thumb m'.cpsr then 2 else 4) = 0

variable (y : Symbols)

def irqContextSwitch : Example where
  Variables := Variables
  entry := minemuIrqTrampoline
  back := 4
  taskAFrame := Variables.taskAFrame
  taskBFrame := Variables.taskBFrame
  dispatch := minemuIrqDispatch y
  owner p := if p = y.taskBStorage then .b else .a
  runs _ := Activity

/-- `minemu_kernel_main` in its loop, no interrupt taken yet. -/
structure Started (s : System (irqContextSwitch y)) : Prop where
  current : s.current = .a
  returned : s.returned = y.irqStackTop - 88
  irqStack : s.machine.sp .irq = y.irqStackTop
  taskBFrame : s.vars.taskBFrame = 0
  context : ∀ t, s.context t = none

/-! ## The stacks of the two tasks -/

def onStack (t : Task) (p : Word) : Prop :=
  match t with
  | .a => p = y.irqStackTop - 88
  | .b => p = y.taskBStorage

variable {y}

theorem onStack_toNat {t : Task} {p : Word} (h : onStack y t p) :
    0xc0030000 ≤ p.toNat ∧ p.toNat + 88 < 2 ^ 32 + 1 := by
  have hhigh := y.storage_high
  have hbelow := y.storage_below
  rw [sizeofTrapFrame] at hbelow
  cases t with
  | a =>
      rw [onStack] at h
      subst h
      bv_omega
  | b =>
      rw [onStack] at h
      subst h
      bv_omega

theorem claim_notMem {t : Task} {p : Word} (h : onStack y t p) :
    ∀ i < 4, interruptClaim + BitVec.ofNat 32 i ∉ region p sizeofTrapFrame := by
  intro i hi
  obtain ⟨hlow, hhigh⟩ := onStack_toNat h
  rw [mem_region, interruptClaim, sizeofTrapFrame]
  bv_omega

theorem minemuIrqDispatch_first {v : Variables} {mem : Mem} {p : Word} (h : v.taskBFrame = 0) :
    (minemuIrqDispatch y v mem p).vars.taskAFrame = p ∧
      (minemuIrqDispatch y v mem p).vars.taskBFrame = (minemuIrqDispatch y v mem p).returned ∧
      onStack y .b (minemuIrqDispatch y v mem p).returned ∧
      ChangedOnly (region (minemuIrqDispatch y v mem p).returned sizeofTrapFrame) mem
        (minemuIrqDispatch y v mem p).mem := by
  rw [minemuIrqDispatch]
  simp only [h, if_true]
  refine ⟨trivial, trivial, rfl, ?_⟩
  have hzero := fillWords_changedOnly mem y.taskBStorage (fun _ => 0) 22 (by decide)
  exact ((hzero.storeWord (region_add_subset _ _ (by decide)) _).storeWord
    (region_add_subset _ _ (by decide)) _).storeWord (region_add_subset _ _ (by decide)) _

theorem minemuIrqDispatch_later {v : Variables} {mem : Mem} {p : Word} (h : v.taskBFrame ≠ 0) :
    (minemuIrqDispatch y v mem p).vars.taskAFrame = v.taskAFrame ∧
      (minemuIrqDispatch y v mem p).vars.taskBFrame = p ∧
      (minemuIrqDispatch y v mem p).returned = v.taskAFrame ∧
      (minemuIrqDispatch y v mem p).mem = mem := by
  rw [minemuIrqDispatch]
  simp only [h, if_false, and_self]

theorem lawful : Lawful (irqContextSwitch y) (onStack y) where
  call t m h := by
    have hcall : (irqContextSwitch y).entry.call m = _ := minemuIrqTrampoline_call (claim_notMem h)
    refine ⟨?_, ?_, ?_⟩
    · rw [hcall, saving_bank]
      exact takeException_bank .irq m
    · rw [Example.frame, hcall, saving_r, Function.update_self]
      rfl
    · rw [hcall, saving_mem]
      exact TrapFrame.store_changedOnly _ _ _
  restore m hbank := minemuIrqTrampoline_restore hbank
  traps t m m' q hq hsp hruns := by
    have hstack : m'.sp .irq = m.sp .irq := hruns.irqStack
    have hsp' : m.sp .irq = q + 88 := hsp
    change onStack y t (m'.sp .irq - 88)
    rw [hstack, hsp', BitVec.add_sub_cancel]
    exact hq
  apart p q hp hq a hap haq := by
    have hhigh := y.storage_high
    have hbelow := y.storage_below
    change p = y.irqStackTop - 88 at hp
    change q = y.taskBStorage at hq
    rw [mem_region, sizeofTrapFrame] at *
    subst hp hq
    bv_omega
  owner t p h := by
    change (if p = y.taskBStorage then Task.b else .a) = t
    cases t with
    | a =>
        have hbelow := y.storage_below
        rw [onStack] at h
        rw [sizeofTrapFrame] at hbelow
        rw [if_neg]
        bv_omega
    | b =>
        rw [onStack] at h
        rw [if_pos h]
  nonzero t p h hzero := by
    have hhigh := (onStack_toNat h).1
    rw [hzero] at hhigh
    exact absurd hhigh (by decide)
  first v mem p h := minemuIrqDispatch_first h
  later v mem p h := minemuIrqDispatch_later h

theorem Started.fresh {s : System (irqContextSwitch y)} (h : Started y s) :
    Fresh (onStack y) s where
  returned := by
    rw [h.current, h.returned]
    rfl
  sp := by
    change s.machine.sp .irq = s.returned + 88
    rw [h.returned, h.irqStack]
    bv_omega
  current := h.current
  taskBFrame := h.taskBFrame
  contextB := h.context .b

end Minemu.Context.IrqSwitch
