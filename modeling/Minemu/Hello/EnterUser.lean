import Minemu.Trap.Trampoline
import Mathlib.Data.BitVec

/-!
# `user.S`: the first entry to user mode

The listing fills the user bank through the SVC stack, returns to the entry address
and clears the registers it has used itself.
-/

namespace Minemu.Hello

open Minemu.Lib.Memory Minemu.Lib.Arm Minemu.Trap

def minemuEnterUser : List Instr := [
  .cpsidIf,
  .movReg (.r 2) (.r 0),
  .sub .sp .sp 8,
  .str (.r 1) .sp 0,
  .mov (.r 3) 0,
  .str (.r 3) .sp 4,
  .movReg (.r 3) .sp,
  .ldmiaUser (.r 3),
  .add .sp .sp 8,
  .mov (.r 3) 0x10,
  .msrSpsr (.r 3),
  .movReg .lr (.r 2),
  .mov (.r 0) 0,
  .mov (.r 1) 0,
  .mov (.r 2) 0,
  .mov (.r 3) 0,
  .movsPcLr]

structure UserRegisters where
  r : Fin 13 → Word
  sp : Word
  lr : Word
  pc : Word
  cpsr : Word

def userRegisters (m : Machine) : UserRegisters where
  r := m.gpr
  sp := m.sp .usr
  lr := m.lr .usr
  pc := m.pc
  cpsr := m.cpsr

/-! ## The state at the first user instruction -/

def enteredUser (m : Machine) : Machine :=
  { m with
    r := fun n => if n < 4 then 0 else m.r n
    sp := Function.update m.sp .usr (m.r 1)
    lr := Function.update (Function.update m.lr .usr 0) m.bank (m.r 0)
    spsr := Function.update m.spsr m.bank 0x10
    cpsr := 0x10
    pc := m.r 0 &&& ~~~3
    mem := storeWord (storeWord m.mem (m.sp m.bank - 8) (m.r 1)) (m.sp m.bank - 8 + 4) 0 }

theorem bankOf_or_masks (psr : Word) : bankOf (psr ||| 192#32) = bankOf psr := by
  have hmode : (psr ||| 192#32) &&& 0x1f = psr &&& 0x1f := by
    rw [BitVec.and_or_distrib_right, show 192#32 &&& 0x1f = 0#32 by decide, BitVec.or_zero]
  simp only [bankOf, hmode]

/-- The stack pointer goes down and comes back, with a user-bank load in between. -/
theorem update_spill {b : Bank} (husr : b ≠ .usr) (sp : Bank → Word) (p w : Word) :
    Function.update (Function.update (Function.update sp b p) .usr w) b (sp b) =
      Function.update sp .usr w := by
  rw [Function.update_comm husr.symm, Function.update_idem, Function.update_eq_self]

theorem update_scratch (r : Fin 13 → Word) (a b : Word) :
    Function.update (Function.update (Function.update (Function.update (Function.update
      (Function.update r 2 a) 3 b) 0 0#32) 1 0#32) 2 0#32) 3 0#32 =
      fun n => if n < 4 then 0#32 else r n := by
  funext n
  by_cases hn : n < 4
  · rw [if_pos hn]
    match n, hn with
    | 0, _ => rfl
    | 1, _ => rfl
    | 2, _ => rfl
    | 3, _ => rfl
  · have hne : ∀ k : Fin 13, k < 4 → n ≠ k := fun k hk heq => hn (heq ▸ hk)
    rw [if_neg hn, Function.update_of_ne (hne 3 (by decide)),
      Function.update_of_ne (hne 2 (by decide)), Function.update_of_ne (hne 1 (by decide)),
      Function.update_of_ne (hne 0 (by decide)), Function.update_of_ne (hne 3 (by decide)),
      Function.update_of_ne (hne 2 (by decide))]

theorem block_minemuEnterUser {m : Machine} (husr : m.bank ≠ .usr) :
    block minemuEnterUser m = enteredUser m := by
  have hmask := bankOf_or_masks m.cpsr
  have hload : ∀ p w, loadWord (storeWord (storeWord m.mem p w) (p + 4#32) 0#32) p = w := by
    intro p w
    rw [loadWord_storeWord_of_apart _ _ (by bv_omega) (by bv_omega), loadWord_storeWord_self]
  have hsp : ∀ p w, Function.update (Function.update m.sp (bankOf m.cpsr) p) .usr w
      (bankOf m.cpsr) = p := by
    intro p w
    rw [Machine.bank] at husr
    rw [Function.update_of_ne husr, Function.update_self]
  have hspill : ∀ w, Function.update (Function.update (Function.update m.sp (bankOf m.cpsr)
      (m.sp (bankOf m.cpsr) - 8#32)) .usr w) (bankOf m.cpsr) (m.sp (bankOf m.cpsr)) =
      Function.update m.sp .usr w := fun w => update_spill husr m.sp _ w
  have hA32 : thumb 16#32 = false := by decide
  simp [block, minemuEnterUser, exec, Machine.set, Machine.get, Machine.gpr, Machine.bank,
    enteredUser, exceptionReturn, hmask, hload, hsp, hspill, update_scratch, hA32]

/-! ## Two kernels that enter user mode -/

theorem userRegisters_enteredUser {m : Machine} (husr : m.bank ≠ .usr) :
    userRegisters (enteredUser m) =
      { r := fun n => if n < 4 then 0 else m.r n
        sp := m.r 1
        lr := 0
        pc := m.r 0 &&& ~~~3
        cpsr := 0x10 } := by
  have hbank : (enteredUser m).bank ≠ .fiq :=
    (by decide : bankOf 0x10 ≠ .fiq)
  have hsp : (enteredUser m).sp .usr = m.r 1 := by simp [enteredUser]
  have hlr : (enteredUser m).lr .usr = 0 := by
    simp only [enteredUser]
    rw [Function.update_of_ne husr.symm, Function.update_self]
  rw [userRegisters, Machine.gpr_of_ne_fiq hbank, hsp, hlr]
  rfl

/-- User mode starts in the same state from two calls with the same arguments exactly
when `r4`-`r12` of the two kernels agree. -/
theorem minemuEnterUser_independent_iff (m m' : Machine) (hsvc : m.bank = .svc)
    (hsvc' : m'.bank = .svc) (hentry : m'.r 0 = m.r 0) (hstack : m'.r 1 = m.r 1) :
    userRegisters (block minemuEnterUser m') = userRegisters (block minemuEnterUser m) ↔
      ∀ n, 4 ≤ n → m'.r n = m.r n := by
  have husr : m.bank ≠ .usr := by rw [hsvc]; decide
  have husr' : m'.bank ≠ .usr := by rw [hsvc']; decide
  rw [block_minemuEnterUser husr, block_minemuEnterUser husr', userRegisters_enteredUser husr,
    userRegisters_enteredUser husr', hentry, hstack]
  constructor
  · intro h n hn
    have hr := congrFun (congrArg UserRegisters.r h) n
    have hlarge : ¬ n < 4 := Fin.not_lt.mpr hn
    simpa only [if_neg hlarge] using hr
  · intro h
    congr 1
    funext n
    by_cases hn : n < 4
    · rw [if_pos hn, if_pos hn]
    · rw [if_neg hn, if_neg hn, h n (Fin.not_lt.mp hn)]

def callingMachine (value : Word) : Machine where
  r := Function.update (Function.update (Function.update (fun _ => 0) 0 0x00400000) 1 0x00800000)
    4 value
  rFiq _ := 0
  sp _ := 0xc0058000
  lr _ := 0
  spsr _ := 0
  pc := 0
  cpsr := 0xd3
  cp15 _ := 0
  mem _ := 0

def otherCallingMachine : Machine where
  r := Function.update (Function.update (callingMachine 1).r 2 7) 3 8
  rFiq _ := 9
  sp b := if b = .usr then 0x00701000 else 0xc0057000
  lr _ := 5
  spsr _ := 6
  pc := 4
  cpsr := 0x600000d3
  cp15 _ := 3
  mem _ := 0xa5

/-- Flags, stack, scratch registers and user bank of the kernel leave no trace. -/
theorem minemuEnterUser_independent_other :
    userRegisters (block minemuEnterUser otherCallingMachine) =
      userRegisters (block minemuEnterUser (callingMachine 1)) := by
  refine (minemuEnterUser_independent_iff (callingMachine 1) otherCallingMachine (by decide)
    (by decide) (by decide) (by decide)).mpr fun n hn => ?_
  have hne : ∀ k : Fin 13, k < 4 → n ≠ k := fun k hk heq => absurd (heq ▸ hn) (Fin.not_le.mpr hk)
  calc otherCallingMachine.r n
      = Function.update (callingMachine 1).r 2 7 n := Function.update_of_ne (hne 3 (by decide)) _ _
    _ = (callingMachine 1).r n := Function.update_of_ne (hne 2 (by decide)) _ _

/-- `r4` of the kernel reaches user mode. -/
theorem minemuEnterUser_leaks :
    (callingMachine 1).bank = .svc ∧ (callingMachine 2).bank = .svc ∧
      (callingMachine 2).r 0 = (callingMachine 1).r 0 ∧
      (callingMachine 2).r 1 = (callingMachine 1).r 1 ∧
      (userRegisters (block minemuEnterUser (callingMachine 1))).r 4 = 1 ∧
      (userRegisters (block minemuEnterUser (callingMachine 2))).r 4 = 2 := by
  decide

end Minemu.Hello
