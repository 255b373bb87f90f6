import Minemu.Lib.Loop
import Minemu.Lib.Memory

/-!
# The A32 register banks and a subset of the A32 instructions

A machine state has the general registers with the FIQ copies of `r8`-`r12`, one
SP, LR and SPSR for each bank, the CPSR, the PC, the system control registers of
CP15, and memory.  `exec` gives the effect of one instruction other than a
branch.  The PC is the address of the next instruction outside handlers; inside a
listing the order of the list stands for it.
-/

namespace Minemu.Lib.Arm

open Minemu.Lib.Memory

/-! ## Processor modes -/

inductive Bank where
  | usr | fiq | irq | svc | abt | und
  deriving DecidableEq, Repr

/-- The bank a program status register selects; User and System share one. -/
def bankOf (psr : Word) : Bank :=
  if psr &&& 0x1f = 0x11 then .fiq
  else if psr &&& 0x1f = 0x12 then .irq
  else if psr &&& 0x1f = 0x13 then .svc
  else if psr &&& 0x1f = 0x17 then .abt
  else if psr &&& 0x1f = 0x1b then .und
  else .usr

def thumb (psr : Word) : Bool := psr.getLsbD 5

def zero (psr : Word) : Bool := psr.getLsbD 30

/-- The four condition flags in their place at the top of a status register. -/
def flagBits (n z c v : Bool) : Word :=
  BitVec.ofBool n ++ BitVec.ofBool z ++ BitVec.ofBool c ++ BitVec.ofBool v ++ 0#28

def withFlags (psr : Word) (n z c v : Bool) : Word :=
  (psr &&& 0x0fffffff) ||| flagBits n z c v

theorem flagBits_and_mode : ∀ n z c v, flagBits n z c v &&& 0x1f = 0 := by decide

theorem zero_flagBits : ∀ n z c v, zero (flagBits n z c v) = z := by decide

@[simp] theorem zero_withFlags (psr : Word) (n z c v : Bool) :
    zero (withFlags psr n z c v) = z := by
  have hmask : (0x0fffffff : Word).getLsbD 30 = false := by decide
  have hz := zero_flagBits n z c v
  rw [zero] at hz ⊢
  rw [withFlags, BitVec.getLsbD_or, BitVec.getLsbD_and, hmask, hz, Bool.and_false,
    Bool.false_or]

@[simp] theorem withFlags_and_mode (psr : Word) (n z c v : Bool) :
    withFlags psr n z c v &&& 0x1f = psr &&& 0x1f := by
  rw [withFlags, BitVec.and_or_distrib_right, flagBits_and_mode, BitVec.and_assoc,
    show (0x0fffffff : Word) &&& 0x1f = 0x1f by decide]
  simp

@[simp] theorem bankOf_withFlags (psr : Word) (n z c v : Bool) :
    bankOf (withFlags psr n z c v) = bankOf psr := by
  simp only [bankOf, withFlags_and_mode]

/-! ## Machine state -/

/-- Register numbers are numerals of `Fin 13`. -/
instance instNeZeroRegisterCount : @NeZero Nat Zero.ofOfNat0 13 := ⟨by decide⟩

/-- System control registers, by the operands that name them. -/
inductive Cp15 where
  /-- `c1, c0, 0` -/
  | sctlr
  /-- `c2, c0, 0` -/
  | ttbr0
  /-- `c5, c0, 0` -/
  | dfsr
  /-- `c6, c0, 0` -/
  | dfar
  /-- `c8, c7, 0`, an operation without a value -/
  | tlbiall
  /-- `c12, c0, 0` -/
  | vbar
  deriving DecidableEq, Repr

structure Machine where
  r : Fin 13 → Word
  /-- `r8`-`r12` of FIQ mode, under their own numbers. -/
  rFiq : Fin 13 → Word
  sp : Bank → Word
  lr : Bank → Word
  spsr : Bank → Word
  pc : Word
  cpsr : Word
  cp15 : Cp15 → Word
  mem : Mem

inductive Reg where
  | r (n : Fin 13)
  | sp
  | lr

namespace Machine

def bank (m : Machine) : Bank := bankOf m.cpsr

def gpr (m : Machine) (n : Fin 13) : Word :=
  if m.bank = .fiq ∧ 8 ≤ n then m.rFiq n else m.r n

theorem gpr_of_ne_fiq {m : Machine} (h : m.bank ≠ .fiq) : m.gpr = m.r :=
  funext fun _ => if_neg fun hn => h hn.1

def get (m : Machine) : Reg → Word
  | .r n => m.gpr n
  | .sp => m.sp m.bank
  | .lr => m.lr m.bank

def set (m : Machine) : Reg → Word → Machine
  | .r n, w =>
      if m.bank = .fiq ∧ 8 ≤ n then { m with rFiq := Function.update m.rFiq n w }
      else { m with r := Function.update m.r n w }
  | .sp, w => { m with sp := Function.update m.sp m.bank w }
  | .lr, w => { m with lr := Function.update m.lr m.bank w }

def setGprs (m : Machine) (f : Fin 13 → Word) : Machine :=
  if m.bank = .fiq then
    { m with r := fun n => if 8 ≤ n then m.r n else f n, rFiq := f }
  else { m with r := f }

end Machine

/-! ## Instructions -/

/-- `f 0, …, f 12` as a word sequence, as a multiple transfer lays it out. -/
def gprWords (f : Fin 13 → Word) (i : Nat) : Word :=
  if h : i < 13 then f ⟨i, h⟩ else 0

inductive Instr where
  /-- `mov rd, #imm` -/
  | mov (rd : Reg) (imm : Word)
  /-- `mov rd, rm` -/
  | movReg (rd rm : Reg)
  /-- `ldr rd, =imm` -/
  | ldrLit (rd : Reg) (imm : Word)
  /-- `add rd, rn, #imm` -/
  | add (rd rn : Reg) (imm : Word)
  /-- `sub rd, rn, #imm` -/
  | sub (rd rn : Reg) (imm : Word)
  /-- `subs rd, rn, #imm` -/
  | subs (rd rn : Reg) (imm : Word)
  /-- `orr rd, rn, #imm` -/
  | orr (rd rn : Reg) (imm : Word)
  /-- `ldr rt, [rn, #off]` -/
  | ldr (rt rn : Reg) (off : Word)
  /-- `str rt, [rn, #off]` -/
  | str (rt rn : Reg) (off : Word)
  /-- `str rt, [rn], #inc` -/
  | strPost (rt rn : Reg) (inc : Word)
  /-- `stmia rn, {r0-r12}` -/
  | stmia (rn : Reg)
  /-- `ldmia rn, {r0-r12}` -/
  | ldmia (rn : Reg)
  /-- `stmia rn, {sp, lr}^` -/
  | stmiaUser (rn : Reg)
  /-- `ldmia rn, {sp, lr}^` -/
  | ldmiaUser (rn : Reg)
  /-- `mrs rd, spsr` -/
  | mrsSpsr (rd : Reg)
  /-- `msr spsr_cxsf, rn` -/
  | msrSpsr (rn : Reg)
  /-- `cpsid if` -/
  | cpsidIf
  /-- `msr cpsr_c, #imm` -/
  | msrCpsrC (imm : Word)
  /-- `mrc p15, 0, rd, c` -/
  | mrc (rd : Reg) (c : Cp15)
  /-- `mcr p15, 0, rt, c` -/
  | mcr (rt : Reg) (c : Cp15)
  /-- `movs pc, lr` -/
  | movsPcLr
  /-- `subs pc, lr, #imm` -/
  | subsPcLr (imm : Word)

/-- Return from the current exception mode to `target`: the SPSR becomes the CPSR,
and the branch clears the address bits its instruction set does not have. -/
def exceptionReturn (m : Machine) (target : Word) : Machine :=
  let psr := m.spsr m.bank
  { m with
    cpsr := psr
    pc := if thumb psr then target &&& ~~~1 else target &&& ~~~3 }

def exec (i : Instr) (m : Machine) : Machine :=
  match i with
  | .mov rd imm => m.set rd imm
  | .movReg rd rm => m.set rd (m.get rm)
  | .ldrLit rd imm => m.set rd imm
  | .add rd rn imm => m.set rd (m.get rn + imm)
  | .sub rd rn imm => m.set rd (m.get rn - imm)
  | .subs rd rn imm =>
      let x := m.get rn
      let y := x - imm
      let m := m.set rd y
      { m with
        cpsr := withFlags m.cpsr y.msb (y == 0) (!(x.ult imm))
          ((x.msb != imm.msb) && (y.msb != x.msb)) }
  | .orr rd rn imm => m.set rd (m.get rn ||| imm)
  | .ldr rt rn off => m.set rt (loadWord m.mem (m.get rn + off))
  | .str rt rn off => { m with mem := storeWord m.mem (m.get rn + off) (m.get rt) }
  | .strPost rt rn inc =>
      let m' := { m with mem := storeWord m.mem (m.get rn) (m.get rt) }
      m'.set rn (m.get rn + inc)
  | .stmia rn => { m with mem := fillWords m.mem (m.get rn) (gprWords m.gpr) 13 }
  | .ldmia rn =>
      m.setGprs fun n => loadWord m.mem (m.get rn + BitVec.ofNat 32 (4 * n.val))
  | .stmiaUser rn =>
      { m with mem :=
          storeWord (storeWord m.mem (m.get rn) (m.sp .usr)) (m.get rn + 4) (m.lr .usr) }
  | .ldmiaUser rn =>
      { m with
        sp := Function.update m.sp .usr (loadWord m.mem (m.get rn))
        lr := Function.update m.lr .usr (loadWord m.mem (m.get rn + 4)) }
  | .mrsSpsr rd => m.set rd (m.spsr m.bank)
  | .msrSpsr rn => { m with spsr := Function.update m.spsr m.bank (m.get rn) }
  | .cpsidIf => { m with cpsr := m.cpsr ||| 0xc0 }
  | .msrCpsrC imm => { m with cpsr := (m.cpsr &&& 0xffffff00) ||| imm }
  | .mrc rd c => m.set rd (m.cp15 c)
  | .mcr rt c => { m with cp15 := Function.update m.cp15 c (m.get rt) }
  | .movsPcLr => exceptionReturn m (m.get .lr)
  | .subsPcLr imm => exceptionReturn m (m.get .lr - imm)

def block : List Instr → Machine → Machine
  | [], m => m
  | i :: is, m => block is (exec i m)

theorem block_append (is js : List Instr) (m : Machine) :
    block (is ++ js) m = block js (block is m) := by
  induction is generalizing m with
  | nil => rfl
  | cons i is ih => exact ih (exec i m)

/-- Whether the words an instruction transfers lie at a multiple of 4.  `exec` gives its
effect for these; at another address a multiple transfer faults. -/
def Instr.Aligned (i : Instr) (m : Machine) : Prop :=
  match i with
  | .ldr _ rn off | .str _ rn off => (m.get rn + off).toNat % 4 = 0
  | .strPost _ rn _ => (m.get rn).toNat % 4 = 0
  | .stmia rn | .ldmia rn | .stmiaUser rn | .ldmiaUser rn => (m.get rn).toNat % 4 = 0
  | _ => True

def BlockAligned : List Instr → Machine → Prop
  | [], _ => True
  | i :: is, m => i.Aligned m ∧ BlockAligned is (exec i m)

theorem blockAligned_append (is js : List Instr) (m : Machine) :
    BlockAligned (is ++ js) m ↔ BlockAligned is m ∧ BlockAligned js (block is m) := by
  induction is generalizing m with
  | nil => exact (iff_of_eq (true_and _)).symm
  | cons i is ih => rw [List.cons_append, BlockAligned, ih (exec i m), BlockAligned, block, and_assoc]

/-- `label: body; bne label`.  A counter of 32 bits repeats a loop at most `2 ^ 32`
times. -/
def loopNe (body : Machine → Option Machine) (m : Machine) : Option Machine :=
  Loop.doWhile body (fun m => !zero m.cpsr) (2 ^ 32) m

/-! ## Exceptions -/

inductive Exception where
  | undefined | svc | prefetchAbort | dataAbort | irq
  deriving DecidableEq, Repr

namespace Exception

def bank : Exception → Bank
  | .undefined => .und
  | .svc => .svc
  | .prefetchAbort | .dataAbort => .abt
  | .irq => .irq

def mode : Exception → Word
  | .undefined => 0x1b
  | .svc => 0x13
  | .prefetchAbort | .dataAbort => 0x17
  | .irq => 0x12

/-- How far LR lies above the PC: the faulting instruction for an abort or an
undefined instruction, the call for SVC, the next instruction for IRQ. -/
def lrOffset (e : Exception) (t : Bool) : Word :=
  match e with
  | .undefined | .svc => if t then 2 else 4
  | .prefetchAbort | .irq => 4
  | .dataAbort => 8

end Exception

/-- Exception entry: LR and SPSR of the exception's bank are set, IRQs masked, and
the A32 instruction set selected.  `0x0700fe3f` is mode, T, E, IT and J. -/
def takeException (e : Exception) (m : Machine) : Machine :=
  { m with
    lr := Function.update m.lr e.bank (m.pc + e.lrOffset (thumb m.cpsr))
    spsr := Function.update m.spsr e.bank m.cpsr
    cpsr := (m.cpsr &&& ~~~0x0700fe3f) ||| 0x80 ||| e.mode }

theorem takeException_bank (e : Exception) (m : Machine) : (takeException e m).bank = e.bank := by
  have hmode : (((m.cpsr &&& ~~~0x0700fe3f) ||| 0x80) ||| e.mode) &&& 0x1f = e.mode &&& 0x1f := by
    rw [BitVec.and_or_distrib_right, BitVec.and_or_distrib_right, BitVec.and_assoc,
      show (~~~0x0700fe3f : Word) &&& 0x1f = 0#32 by decide,
      show (0x80 : Word) &&& 0x1f = 0#32 by decide, BitVec.and_zero, BitVec.zero_or, BitVec.zero_or]
  rw [Machine.bank, takeException]
  simp only [bankOf, hmode]
  cases e <;> decide

end Minemu.Lib.Arm
