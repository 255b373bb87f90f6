import Minemu.Startup.BootstrapWalk

/-!
# `boot.S`: from the loader's call to `minemu_kernel_main`

The boot-info pointer crosses the page-table code in `r8`, which no mode switch of
the path banks.
-/

namespace Minemu.Startup.Bootstrap

open Minemu.Lib.Memory Minemu.Lib.Arm Minemu.Startup.BootstrapMap

structure Symbols where
  svcStackTopPaddr : Word
  irqStackTopPaddr : Word
  abtStackTopPaddr : Word
  undStackTopPaddr : Word
  svcStackTop : Word
  irqStackTop : Word
  abtStackTop : Word
  undStackTop : Word
  vectors : Word
  bootstrapHigh : Word

variable (y : Symbols)

/-- `minemu_bootstrap` up to the call of `minemu_bootstrap_map`. -/
def enterBootstrap : List Instr := [
  .movReg (.r 8) (.r 0),
  .cpsidIf,
  .ldrLit (.r 0) y.svcStackTopPaddr,
  .msrCpsrC 0xd3,
  .movReg .sp (.r 0),
  .ldrLit (.r 0) y.irqStackTopPaddr,
  .msrCpsrC 0xd2,
  .movReg .sp (.r 0),
  .ldrLit (.r 0) y.abtStackTopPaddr,
  .msrCpsrC 0xd7,
  .movReg .sp (.r 0),
  .ldrLit (.r 0) y.undStackTopPaddr,
  .msrCpsrC 0xdb,
  .movReg .sp (.r 0),
  .msrCpsrC 0xd3]

def enableMmu : List Instr := [
  .ldrLit (.r 0) 0x40010000,
  .mcr (.r 0) .ttbr0,
  .mov (.r 0) 0,
  .mcr (.r 0) .tlbiall,
  .mov (.r 0) 1,
  .mcr (.r 0) .sctlr,
  .ldrLit (.r 0) y.vectors,
  .mcr (.r 0) .vbar,
  .ldrLit (.r 0) y.bootstrapHigh]

def minemuBootstrapHigh : List Instr := [
  .msrCpsrC 0xd3,
  .ldrLit .sp y.svcStackTop,
  .msrCpsrC 0xd2,
  .ldrLit .sp y.irqStackTop,
  .msrCpsrC 0xd7,
  .ldrLit .sp y.abtStackTop,
  .msrCpsrC 0xdb,
  .ldrLit .sp y.undStackTop,
  .msrCpsrC 0xd3,
  .movReg (.r 0) (.r 8)]

def minemuBootstrap (m : Machine) : Option Machine := do
  let m ← minemuBootstrapMap (block (enterBootstrap y) m)
  some (block (minemuBootstrapHigh y) (block (enableMmu y) m))

/-! ## The path -/

@[simp] theorem bankOf_msrCpsrC (cpsr imm : Word) :
    bankOf ((cpsr &&& 0xffffff00#32) ||| imm) = bankOf imm := by
  have hmode : ((cpsr &&& 0xffffff00#32) ||| imm) &&& 0x1f = imm &&& 0x1f := by
    rw [BitVec.and_or_distrib_right, BitVec.and_assoc,
      show 0xffffff00#32 &&& 0x1f = 0#32 by decide, BitVec.and_zero, BitVec.zero_or]
  simp only [bankOf, hmode]

theorem enterBootstrap_spec {m : Machine} (h : m.bank ≠ .fiq) :
    (block (enterBootstrap y) m).r 8 = m.r 0 ∧ (block (enterBootstrap y) m).mem = m.mem := by
  constructor <;>
    simp [block, enterBootstrap, exec, Machine.set, Machine.get, Machine.gpr, h]

theorem enableMmu_spec (m : Machine) :
    (block (enableMmu y) m).r 8 = m.r 8 ∧ (block (enableMmu y) m).mem = m.mem ∧
      (block (enableMmu y) m).cp15 .ttbr0 = 0x40010000 ∧
      (block (enableMmu y) m).cp15 .sctlr = 1 ∧
      (block (enableMmu y) m).cp15 .vbar = y.vectors := by
  refine ⟨?_, ?_, ?_, ?_, ?_⟩ <;>
    simp [block, enableMmu, exec, Machine.set, Machine.get, Machine.gpr]

theorem minemuBootstrapHigh_spec (m : Machine) :
    (block (minemuBootstrapHigh y) m).r 0 = m.r 8 ∧
      (block (minemuBootstrapHigh y) m).mem = m.mem ∧
      (block (minemuBootstrapHigh y) m).cp15 = m.cp15 ∧
      (block (minemuBootstrapHigh y) m).bank = .svc ∧
      (block (minemuBootstrapHigh y) m).sp .svc = y.svcStackTop := by
  have hsvc : bankOf 0xd3#32 = .svc := by decide
  have hirq : bankOf 0xd2#32 = .irq := by decide
  have habt : bankOf 0xd7#32 = .abt := by decide
  have hund : bankOf 0xdb#32 = .und := by decide
  refine ⟨?_, ?_, ?_, ?_, ?_⟩ <;>
    simp [block, minemuBootstrapHigh, exec, Machine.set, Machine.get, Machine.gpr, Machine.bank,
      hsvc, hirq, habt, hund]

/-- `minemu_kernel_main` is called with the loader's pointer in `r0`, the MMU on over
the bootstrap tables, and memory outside them untouched. -/
theorem minemuBootstrap_spec {m : Machine} (h : m.bank ≠ .fiq) :
    ∃ m', minemuBootstrap y m = some m' ∧ m'.r 0 = m.r 0 ∧ BootstrapTables m'.mem ∧
      ChangedOnly tableRegion m.mem m'.mem ∧ m'.cp15 .ttbr0 = 0x40010000 ∧
      m'.cp15 .sctlr = 1 ∧ m'.cp15 .vbar = y.vectors ∧ m'.bank = .svc ∧
      m'.sp .svc = y.svcStackTop := by
  obtain ⟨hr8, hmem⟩ := enterBootstrap_spec y h
  obtain ⟨m1, hrun, htables, hframe, hr8'⟩ := minemuBootstrapMap_spec (block (enterBootstrap y) m)
  obtain ⟨hmmu8, hmmumem, httbr, hsctlr, hvbar⟩ := enableMmu_spec y m1
  obtain ⟨hhigh0, hhighmem, hcp15, hbank, hsp⟩ :=
    minemuBootstrapHigh_spec y (block (enableMmu y) m1)
  refine ⟨_, by rw [minemuBootstrap, hrun]; rfl, ?_, ?_, ?_, ?_, ?_, ?_, hbank, hsp⟩
  · rw [hhigh0, hmmu8, hr8', hr8]
  · rwa [hhighmem, hmmumem]
  · rw [hhighmem, hmmumem, ← hmem]
    exact hframe
  · rw [hcp15, httbr]
  · rw [hcp15, hsctlr]
  · rw [hcp15, hvbar]

end Minemu.Startup.Bootstrap
