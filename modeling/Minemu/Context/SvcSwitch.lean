import Minemu.Context.Phases

/-!
# `svc-context-switch`: two tasks switched by their own calls

Both tasks run in SVC mode and trap with `svc`, so a frame lies on the stack of the
task that called, wherever its SP was.
-/

namespace Minemu.Context.SvcSwitch

open Minemu.Lib Minemu.Lib.Memory Minemu.Lib.Arm Minemu.Trap

/-! ## The program -/

/-- Symbols of the linked image.  `task_b_stack` is a static object of 1024 bytes
below the SVC stack of 4096 bytes. -/
structure Symbols where
  taskB : Word
  taskBStack : Word
  svcStackTop : Word
  stack_high : 0xc0030000 ≤ taskBStack.toNat
  stack_below : taskBStack.toNat + 1024 + 4096 ≤ svcStackTop.toNat

/-- The static variables, which the tasks and the dispatcher's C stack leave alone. -/
structure Variables where
  taskAFrame : Word
  taskBFrame : Word

def minemuSvcDispatch (y : Symbols) (v : Variables) (mem : Mem) (current_frame : Word) :
    Dispatch Variables :=
  if v.taskBFrame = 0 then
    let task_b_frame := y.taskBStack + 1024 - 88
    let mem := fillWords mem task_b_frame (fun _ => 0) 22
    let mem := storeWord mem (task_b_frame + 52) y.taskB
    let mem := storeWord mem (task_b_frame + 56) (loadWord mem (current_frame + 56))
    let mem := storeWord mem (task_b_frame + 60) exceptionSvc
    ⟨⟨current_frame, task_b_frame⟩, mem, task_b_frame⟩
  else ⟨{ v with taskBFrame := current_frame }, mem, v.taskAFrame⟩

variable (y : Symbols)

def onStack (t : Task) (p : Word) : Prop :=
  match t with
  | .a => y.svcStackTop.toNat ≤ p.toNat + 4096 ∧ p.toNat + sizeofTrapFrame ≤ y.svcStackTop.toNat
  | .b => y.taskBStack.toNat ≤ p.toNat ∧ p.toNat + sizeofTrapFrame ≤ y.taskBStack.toNat + 1024

/-- What a task may do before it calls: anything that leaves it in SVC mode with room
for a frame on its own stack. -/
structure Activity (t : Task) (m' : Machine) : Prop where
  svc : m'.bank = .svc
  stack : onStack y t (m'.sp .svc - 88)

def svcContextSwitch : Example where
  Variables := Variables
  entry := minemuSvcTrampoline
  back := 0
  taskAFrame := Variables.taskAFrame
  taskBFrame := Variables.taskBFrame
  dispatch := minemuSvcDispatch y
  owner p := if p ∈ region y.taskBStack 1024 then .b else .a
  runs t _ m' := Activity y t m'

structure Started (s : System (svcContextSwitch y)) : Prop where
  current : s.current = .a
  stack : onStack y .a (s.machine.sp .svc - 88)
  returned : s.returned = s.machine.sp .svc - 88
  taskBFrame : s.vars.taskBFrame = 0
  context : ∀ t, s.context t = none

/-! ## The dispatcher -/

variable {y}

theorem onStack_first : onStack y .b (y.taskBStack + 1024 - 88) := by
  have hbelow := y.stack_below
  rw [onStack, sizeofTrapFrame]
  bv_omega

theorem minemuSvcDispatch_first {v : Variables} {mem : Mem} {p : Word} (h : v.taskBFrame = 0) :
    (minemuSvcDispatch y v mem p).vars.taskAFrame = p ∧
      (minemuSvcDispatch y v mem p).vars.taskBFrame = (minemuSvcDispatch y v mem p).returned ∧
      onStack y .b (minemuSvcDispatch y v mem p).returned ∧
      ChangedOnly (region (minemuSvcDispatch y v mem p).returned sizeofTrapFrame) mem
        (minemuSvcDispatch y v mem p).mem := by
  rw [minemuSvcDispatch]
  simp only [h, if_true]
  refine ⟨trivial, trivial, onStack_first, ?_⟩
  have hzero := fillWords_changedOnly mem (y.taskBStack + 1024 - 88) (fun _ => 0) 22 (by decide)
  exact ((hzero.storeWord (region_add_subset _ _ (by decide)) _).storeWord
    (region_add_subset _ _ (by decide)) _).storeWord (region_add_subset _ _ (by decide)) _

theorem minemuSvcDispatch_later {v : Variables} {mem : Mem} {p : Word} (h : v.taskBFrame ≠ 0) :
    (minemuSvcDispatch y v mem p).vars.taskAFrame = v.taskAFrame ∧
      (minemuSvcDispatch y v mem p).vars.taskBFrame = p ∧
      (minemuSvcDispatch y v mem p).returned = v.taskAFrame ∧
      (minemuSvcDispatch y v mem p).mem = mem := by
  rw [minemuSvcDispatch, if_neg h]
  exact ⟨rfl, rfl, rfl, rfl⟩

/-! ## The phases apply -/

theorem lawful : Lawful (svcContextSwitch y) (onStack y) where
  call t m _ := by
    have hcall : (svcContextSwitch y).entry.call m = _ := minemuSvcTrampoline_call m
    refine ⟨?_, ?_, ?_⟩
    · rw [hcall, saving_bank]
      exact takeException_bank .svc m
    · rw [Example.frame, hcall, saving_r, Function.update_self]
      rfl
    · rw [hcall, saving_mem]
      exact TrapFrame.store_changedOnly _ _ _
  restore m hbank := minemuSvcTrampoline_restore hbank
  traps t m m' q _ _ hruns := hruns.stack
  apart p q hp hq a hap haq := by
    have hhigh := y.stack_high
    have hbelow := y.stack_below
    have hpBelow : y.svcStackTop.toNat ≤ p.toNat + 4096 := hp.1
    have hpAbove : p.toNat + 88 ≤ y.svcStackTop.toNat := hp.2
    have hqBelow : y.taskBStack.toNat ≤ q.toNat := hq.1
    have hqAbove : q.toNat + 88 ≤ y.taskBStack.toNat + 1024 := hq.2
    rw [mem_region, sizeofTrapFrame] at *
    bv_omega
  owner t p h := by
    have hbelow := y.stack_below
    change (if p ∈ region y.taskBStack 1024 then Task.b else .a) = t
    cases t with
    | a =>
        rw [onStack, sizeofTrapFrame] at h
        rw [if_neg]
        rw [mem_region]
        bv_omega
    | b =>
        rw [onStack, sizeofTrapFrame] at h
        rw [if_pos]
        rw [mem_region]
        bv_omega
  nonzero t p h hzero := by
    have hhigh := y.stack_high
    have hbelow := y.stack_below
    subst hzero
    cases t with
    | a =>
        rw [onStack, sizeofTrapFrame] at h
        bv_omega
    | b =>
        rw [onStack, sizeofTrapFrame] at h
        bv_omega
  first v mem p h := minemuSvcDispatch_first h
  later v mem p h := minemuSvcDispatch_later h

theorem Started.fresh {s : System (svcContextSwitch y)} (h : Started y s) :
    Fresh (onStack y) s where
  returned := by
    rw [h.current, h.returned]
    exact h.stack
  sp := by
    change s.machine.sp .svc = s.returned + 88
    rw [h.returned]
    bv_omega
  current := h.current
  taskBFrame := h.taskBFrame
  contextB := h.context .b

end Minemu.Context.SvcSwitch
