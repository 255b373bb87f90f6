import Minemu.Trap.Entry

/-!
# `svc.S` and `irq.S`: trampolines that may resume another frame

The dispatcher returns the frame to resume, and the exception-mode SP moves to it
before the restore sequence.
-/

namespace Minemu.Trap

open Minemu.Lib.Memory Minemu.Lib.Arm

/-! ## The listings -/

def minemuSvcTrampoline : Entry where
  exception := .svc
  save := saveFrame [.ldrLit (.r 1) exceptionSvc] 4 noFault
  restore := .movReg .sp (.r 0) :: restoreFrame .movsPcLr

def interruptClaim : Word := 0x10000008

def minemuIrqTrampoline : Entry where
  exception := .irq
  save := saveFrame [.ldrLit (.r 1) 0x10000000, .ldr (.r 1) (.r 1) 8] 4 noFault
  restore := .movReg .sp (.r 0) :: restoreFrame (.subsPcLr 4)

/-! ## Entry -/

def svcFrame (m : Machine) : TrapFrame where
  r := m.r
  returnLr := m.pc + if thumb m.cpsr then 2 else 4
  spsr := m.cpsr
  exceptionId := exceptionSvc
  faultPc := m.pc + (if thumb m.cpsr then 2 else 4) - 4
  dfsr := 0
  dfar := 0
  userSp := m.sp .usr
  userLr := m.lr .usr
  reserved := 0

/-- The frame of an IRQ taken in `m`; the id is the claimed interrupt source. -/
def irqFrame (m : Machine) : TrapFrame where
  r := m.r
  returnLr := m.pc + 4
  spsr := m.cpsr
  exceptionId := loadWord m.mem interruptClaim
  faultPc := m.pc
  dfsr := 0
  dfar := 0
  userSp := m.sp .usr
  userLr := m.lr .usr
  reserved := 0

theorem minemuSvcTrampoline_call (m : Machine) :
    minemuSvcTrampoline.call m =
      saving (takeException .svc m) (m.sp .svc - 88)
        (Function.update (Function.update m.r 1 0) 0 (m.sp .svc - 88))
        ((svcFrame m).store m.mem (m.sp .svc - 88)) := by
  have hbank : (takeException .svc m).bank = .svc := takeException_bank .svc m
  have hlr : ∀ w, Function.update m.lr Bank.svc w .usr = m.lr .usr :=
    fun w => Function.update_of_ne (by decide) _ _
  refine (block_saveFrame (m := takeException .svc m) (by rw [hbank]; decide)
    (by rw [hbank]; decide) (loadsId_ldrLit exceptionSvc) storesFault_noFault).trans ?_
  rw [savedFrame_takeException, hbank, Exception.bank, hlr]
  rfl

/-- The claim register is read while the frame is half written. -/
theorem loadsId_claim {m : Machine}
    (h : ∀ i < 4, interruptClaim + BitVec.ofNat 32 i ∉ region (m.sp m.bank - 88) sizeofTrapFrame) :
    LoadsId [.ldrLit (.r 1) 0x10000000, .ldr (.r 1) (.r 1) 8] m
      (loadWord m.mem interruptClaim) := by
  intro r mem hmem
  have hclaim : loadWord mem interruptClaim = loadWord m.mem interruptClaim :=
    loadWord_of_changedOnly hmem h
  rw [← hclaim]
  simp [block, exec, Machine.set, Machine.get, Machine.gpr, saving, interruptClaim]

theorem minemuIrqTrampoline_call {m : Machine}
    (h : ∀ i < 4, interruptClaim + BitVec.ofNat 32 i ∉ region (m.sp .irq - 88) sizeofTrapFrame) :
    minemuIrqTrampoline.call m =
      saving (takeException .irq m) (m.sp .irq - 88)
        (Function.update (Function.update m.r 1 0) 0 (m.sp .irq - 88))
        ((irqFrame m).store m.mem (m.sp .irq - 88)) := by
  have hbank : (takeException .irq m).bank = .irq := takeException_bank .irq m
  have hlr : ∀ w, Function.update m.lr Bank.irq w .usr = m.lr .usr :=
    fun w => Function.update_of_ne (by decide) _ _
  refine (block_saveFrame (m := takeException .irq m) (by rw [hbank]; decide)
    (by rw [hbank]; decide) (loadsId_claim (by rw [hbank]; exact h)) storesFault_noFault).trans ?_
  rw [savedFrame_takeException, hbank, Exception.bank, hlr, Exception.lrOffset,
    BitVec.add_sub_cancel]
  rfl

/-! ## Return -/

/-- The exception-mode SP moved to the frame in `r0`. -/
def switchStack (m : Machine) : Machine :=
  { m with sp := Function.update m.sp m.bank (m.r 0) }

theorem block_restoreTrampoline {m : Machine} {ret : Instr} {back : Word}
    (hfiq : m.bank ≠ .fiq) (husr : m.bank ≠ .usr)
    (hret : ∀ m, exec ret m = exceptionReturn m (m.get .lr - back)) :
    block (.movReg .sp (.r 0) :: restoreFrame ret) m =
      resumed (switchStack m) (TrapFrame.load m.mem (m.r 0)) back := by
  have hmove : exec (.movReg .sp (.r 0)) m = switchStack m := by
    simp [exec, Machine.set, Machine.get, Machine.gpr, switchStack]
  have hbank : (switchStack m).bank = m.bank := rfl
  have hsp : (switchStack m).sp (switchStack m).bank = m.r 0 := Function.update_self ..
  rw [block, hmove, block_restoreFrame (hbank ▸ hfiq) (hbank ▸ husr) hret, hsp]
  rfl

theorem minemuSvcTrampoline_restore {m : Machine} (hbank : m.bank = .svc) :
    block minemuSvcTrampoline.restore m =
      resumed (switchStack m) (TrapFrame.load m.mem (m.r 0)) 0 := by
  apply block_restoreTrampoline (by rw [hbank]; decide) (by rw [hbank]; decide)
  intro m
  exact congrArg (exceptionReturn m) (BitVec.sub_zero _).symm

theorem minemuIrqTrampoline_restore {m : Machine} (hbank : m.bank = .irq) :
    block minemuIrqTrampoline.restore m =
      resumed (switchStack m) (TrapFrame.load m.mem (m.r 0)) 4 :=
  block_restoreTrampoline (by rw [hbank]; decide) (by rw [hbank]; decide) fun _ => rfl

end Minemu.Trap
