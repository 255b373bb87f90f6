import Minemu.Trap.Frame

/-!
# The save and restore sequences of `vectors.S` and the trampolines

Five hand-written entries save a trap frame below the exception-mode SP.  They
differ in the exception id, in how far LR lies above the faulting instruction and
in where DFSR and DFAR come from.
-/

namespace Minemu.Trap

open Minemu.Lib.Memory Minemu.Lib.Arm

/-! ## The listings -/

/-- From the entry to the call of the dispatcher.  `id` leaves the exception id in
`r1` and `fault` stores the two fault registers. -/
def saveFrame (id : List Instr) (back : Word) (fault : List Instr) : List Instr :=
  [.sub .sp .sp 88,
    .stmia .sp,
    .str .lr .sp 52,
    .mrsSpsr (.r 1),
    .str (.r 1) .sp 56] ++
  id ++
  [.str (.r 1) .sp 60,
    .sub (.r 1) .lr back,
    .str (.r 1) .sp 64] ++
  fault ++
  [.add (.r 1) .sp 76,
    .stmiaUser (.r 1),
    .mov (.r 1) 0,
    .str (.r 1) .sp 84,
    .movReg (.r 0) .sp]

def noFault : List Instr := [
  .mov (.r 1) 0,
  .str (.r 1) .sp 68,
  .str (.r 1) .sp 72]

def abortFault : List Instr := [
  .mrc (.r 1) .dfsr,
  .str (.r 1) .sp 68,
  .mrc (.r 1) .dfar,
  .str (.r 1) .sp 72]

/-- From the dispatcher's return to the exception return `ret`. -/
def restoreFrame (ret : Instr) : List Instr :=
  [.ldr .lr .sp 52,
    .ldr (.r 1) .sp 56,
    .msrSpsr (.r 1),
    .add (.r 1) .sp 76,
    .ldmiaUser (.r 1),
    .ldmia .sp,
    .add .sp .sp 88] ++
  [ret]

/-! ## Calling a dispatcher -/

/-- A listing that calls a dispatcher: the part before the call and the part after. -/
structure Entry where
  exception : Exception
  save : List Instr
  restore : List Instr

namespace Entry

def call (e : Entry) (m : Machine) : Machine := block e.save (takeException e.exception m)

def run (e : Entry) (dispatch : Machine → Machine) (m : Machine) : Machine :=
  block e.restore (dispatch (e.call m))

/-- No transfer of the entry faults for its address. -/
def Aligned (e : Entry) (dispatch : Machine → Machine) (m : Machine) : Prop :=
  BlockAligned e.save (takeException e.exception m) ∧
    BlockAligned e.restore (dispatch (e.call m))

end Entry

/-- What the procedure call standard asks of a function called in `m` and returning
in `m'`.  The scratch registers, LR and the flags are free. -/
structure ProcedureCall (m m' : Machine) : Prop where
  bank : m'.bank = m.bank
  sp : m'.sp m.bank = m.sp m.bank
  callee : ∀ n, 4 ≤ n → n ≤ 11 → m'.gpr n = m.gpr n

/-! ## Saving -/

/-- `m` inside an entry: the frame lies at `p`, and the general registers and memory
have moved on. -/
def saving (m : Machine) (p : Word) (r : Fin 13 → Word) (mem : Mem) : Machine :=
  { m with sp := Function.update m.sp m.bank p, r := r, mem := mem }

section

variable {m : Machine} {p : Word} {r : Fin 13 → Word} {mem : Mem}

@[simp] theorem saving_bank : (saving m p r mem).bank = m.bank := rfl

@[simp] theorem saving_r : (saving m p r mem).r = r := rfl

@[simp] theorem saving_mem : (saving m p r mem).mem = mem := rfl

@[simp] theorem saving_lr : (saving m p r mem).lr = m.lr := rfl

theorem saving_sp {b : Bank} (h : m.bank = b) : (saving m p r mem).sp b = p := by
  subst h
  exact Function.update_self ..

theorem saving_sp_of_ne {b : Bank} (h : b ≠ m.bank) : (saving m p r mem).sp b = m.sp b :=
  Function.update_of_ne h _ _

def LoadsId (id : List Instr) (m : Machine) (w : Word) : Prop :=
  ∀ r mem, ChangedOnly (region (m.sp m.bank - 88) sizeofTrapFrame) m.mem mem →
    block id (saving m (m.sp m.bank - 88) r mem) =
      saving m (m.sp m.bank - 88) (Function.update r 1 w) mem

theorem loadsId_ldrLit (w : Word) : LoadsId [.ldrLit (.r 1) w] m w := by
  intro r mem hmem
  simp [block, exec, Machine.set, saving]

def StoresFault (fault : List Instr) (m : Machine) (dfsr dfar : Word) : Prop :=
  ∀ p r mem, ∃ x, block fault (saving m p r mem) =
    saving m p (Function.update r 1 x) (storeWord (storeWord mem (p + 68) dfsr) (p + 72) dfar)

theorem storesFault_noFault : StoresFault noFault m 0 0 := by
  intro p r mem
  refine ⟨0, ?_⟩
  simp [noFault, block, exec, Machine.set, Machine.get, Machine.gpr, saving, Machine.bank]

theorem storesFault_abortFault :
    StoresFault abortFault m (m.cp15 .dfsr) (m.cp15 .dfar) := by
  intro p r mem
  refine ⟨m.cp15 .dfar, ?_⟩
  simp [abortFault, block, exec, Machine.set, Machine.get, Machine.gpr, saving, Machine.bank]

end

def savedFrame (m : Machine) (id back dfsr dfar : Word) : TrapFrame where
  r := m.r
  returnLr := m.lr m.bank
  spsr := m.spsr m.bank
  exceptionId := id
  faultPc := m.lr m.bank - back
  dfsr := dfsr
  dfar := dfar
  userSp := m.sp .usr
  userLr := m.lr .usr
  reserved := 0

theorem savedFrame_takeException (e : Exception) (m : Machine) (id back dfsr dfar : Word) :
    savedFrame (takeException e m) id back dfsr dfar =
      { r := m.r
        returnLr := m.pc + e.lrOffset (thumb m.cpsr)
        spsr := m.cpsr
        exceptionId := id
        faultPc := m.pc + e.lrOffset (thumb m.cpsr) - back
        dfsr := dfsr
        dfar := dfar
        userSp := m.sp .usr
        userLr := Function.update m.lr e.bank (m.pc + e.lrOffset (thumb m.cpsr)) .usr
        reserved := 0 } := by
  rw [savedFrame, takeException_bank]
  simp only [takeException, Function.update_self]

theorem block_saveHead {m : Machine} (hfiq : m.bank ≠ .fiq) :
    block [.sub .sp .sp 88, .stmia .sp, .str .lr .sp 52, .mrsSpsr (.r 1), .str (.r 1) .sp 56] m =
      saving m (m.sp m.bank - 88) (Function.update m.r 1 (m.spsr m.bank))
        (storeWord (storeWord (fillWords m.mem (m.sp m.bank - 88) (gprWords m.r) 13)
          (m.sp m.bank - 88 + 52) (m.lr m.bank)) (m.sp m.bank - 88 + 56) (m.spsr m.bank)) := by
  have hgpr : ({ m with sp := Function.update m.sp m.bank (m.sp m.bank - 88#32) } : Machine).gpr =
      m.r := Machine.gpr_of_ne_fiq hfiq
  rw [Machine.bank] at hgpr
  simp [block, exec, Machine.set, Machine.get, Machine.bank, saving, hgpr]
  simp [Machine.gpr]

theorem block_saveMiddle (m : Machine) (p back : Word) (r : Fin 13 → Word) (mem : Mem) :
    block [.str (.r 1) .sp 60, .sub (.r 1) .lr back, .str (.r 1) .sp 64] (saving m p r mem) =
      saving m p (Function.update r 1 (m.lr m.bank - back))
        (storeWord (storeWord mem (p + 60) (r 1)) (p + 64) (m.lr m.bank - back)) := by
  simp [block, exec, Machine.set, Machine.get, Machine.gpr, Machine.bank, saving]

theorem block_saveTail {m : Machine} (husr : m.bank ≠ .usr) (p : Word) (r : Fin 13 → Word)
    (mem : Mem) :
    block [.add (.r 1) .sp 76, .stmiaUser (.r 1), .mov (.r 1) 0, .str (.r 1) .sp 84,
        .movReg (.r 0) .sp] (saving m p r mem) =
      saving m p (Function.update (Function.update r 1 0) 0 p)
        (storeWord (storeWord (storeWord mem (p + 76) (m.sp .usr)) (p + 80) (m.lr .usr))
          (p + 84) 0) := by
  have hsp : Function.update m.sp m.bank p .usr = m.sp .usr :=
    Function.update_of_ne husr.symm _ _
  have haddr : p + 76#32 + 4#32 = p + 80#32 := by bv_omega
  rw [Machine.bank] at hsp
  simp [block, exec, Machine.set, Machine.get, Machine.gpr, Machine.bank, saving, hsp, haddr]

/-- The first stores of an entry stay inside the frame. -/
theorem changedOnly_saveHead (m : Machine) :
    ChangedOnly (region (m.sp m.bank - 88) sizeofTrapFrame) m.mem
      (storeWord (storeWord (fillWords m.mem (m.sp m.bank - 88) (gprWords m.r) 13)
        (m.sp m.bank - 88 + 52) (m.lr m.bank)) (m.sp m.bank - 88 + 56) (m.spsr m.bank)) := by
  have hgprs := fillWords_changedOnly m.mem (m.sp m.bank - 88) (gprWords m.r) 13 (by decide)
  have hsub : region (m.sp m.bank - 88) (4 * 13) ⊆
      region (m.sp m.bank - 88) sizeofTrapFrame := by
    intro a ha
    rw [mem_region, sizeofTrapFrame] at *
    omega
  exact ((hgprs.mono hsub).storeWord (region_add_subset _ _ (by decide)) _).storeWord
    (region_add_subset _ _ (by decide)) _

theorem block_saveFrame {m : Machine} {id fault : List Instr} {w back dfsr dfar : Word}
    (hfiq : m.bank ≠ .fiq) (husr : m.bank ≠ .usr) (hid : LoadsId id m w)
    (hfault : StoresFault fault m dfsr dfar) :
    block (saveFrame id back fault) m =
      saving m (m.sp m.bank - 88)
        (Function.update (Function.update m.r 1 0) 0 (m.sp m.bank - 88))
        ((savedFrame m w back dfsr dfar).store m.mem (m.sp m.bank - 88)) := by
  have hframe := changedOnly_saveHead m
  obtain ⟨x, hx⟩ := hfault (m.sp m.bank - 88)
    (Function.update (Function.update (Function.update m.r 1 (m.spsr m.bank)) 1 w) 1
      (m.lr m.bank - back)) _
  rw [saveFrame, block_append, block_append, block_append, block_append, block_saveHead hfiq,
    hid _ _ hframe, block_saveMiddle, hx, block_saveTail husr, TrapFrame.store_eq]
  simp only [Function.update_self, Function.update_idem]
  rfl

/-! ### Alignment -/

section

variable {m : Machine} {p : Word} {r : Fin 13 → Word} {mem : Mem}

theorem blockAligned_saveHead (hsp : (m.sp m.bank).toNat % 4 = 0) :
    BlockAligned [.sub .sp .sp 88, .stmia .sp, .str .lr .sp 52, .mrsSpsr (.r 1),
      .str (.r 1) .sp 56] m := by
  rw [Machine.bank] at hsp
  simp [BlockAligned, Instr.Aligned, exec, Machine.set, Machine.get, Machine.bank]
  omega

theorem blockAligned_saveMiddle (hp : p.toNat % 4 = 0) (back : Word) :
    BlockAligned [.str (.r 1) .sp 60, .sub (.r 1) .lr back, .str (.r 1) .sp 64]
      (saving m p r mem) := by
  simp [BlockAligned, Instr.Aligned, exec, Machine.set, Machine.get, Machine.bank, saving]
  bv_omega

theorem blockAligned_saveTail (hp : p.toNat % 4 = 0) :
    BlockAligned [.add (.r 1) .sp 76, .stmiaUser (.r 1), .mov (.r 1) 0, .str (.r 1) .sp 84,
      .movReg (.r 0) .sp] (saving m p r mem) := by
  simp [BlockAligned, Instr.Aligned, exec, Machine.set, Machine.get, Machine.gpr, Machine.bank,
    saving]
  bv_omega

theorem blockAligned_noFault (hp : p.toNat % 4 = 0) :
    BlockAligned noFault (saving m p r mem) := by
  simp [noFault, BlockAligned, Instr.Aligned, exec, Machine.set, Machine.get, Machine.bank, saving]
  bv_omega

theorem blockAligned_abortFault (hp : p.toNat % 4 = 0) :
    BlockAligned abortFault (saving m p r mem) := by
  simp [abortFault, BlockAligned, Instr.Aligned, exec, Machine.set, Machine.get, Machine.bank,
    saving]
  bv_omega

end

theorem blockAligned_saveFrame {m : Machine} {id fault : List Instr} {w back dfsr dfar : Word}
    (hfiq : m.bank ≠ .fiq) (hid : LoadsId id m w) (hfault : StoresFault fault m dfsr dfar)
    (hsp : (m.sp m.bank).toNat % 4 = 0)
    (hidAligned : ∀ r mem, BlockAligned id (saving m (m.sp m.bank - 88) r mem))
    (hfaultAligned : ∀ r mem, BlockAligned fault (saving m (m.sp m.bank - 88) r mem)) :
    BlockAligned (saveFrame id back fault) m := by
  have hp : (m.sp m.bank - 88).toNat % 4 = 0 := by bv_omega
  have hframe := changedOnly_saveHead m
  obtain ⟨x, hx⟩ := hfault (m.sp m.bank - 88)
    (Function.update (Function.update (Function.update m.r 1 (m.spsr m.bank)) 1 w) 1
      (m.lr m.bank - back)) _
  simp only [saveFrame, blockAligned_append, block_append]
  rw [block_saveHead hfiq, hid _ _ hframe, block_saveMiddle, hx]
  exact ⟨⟨⟨⟨blockAligned_saveHead hsp, hidAligned _ _⟩, blockAligned_saveMiddle hp back⟩,
    hfaultAligned _ _⟩, blockAligned_saveTail hp⟩

/-! ## Restoring -/

def restored (m : Machine) (f : TrapFrame) : Machine :=
  { m with
    r := f.r
    sp := Function.update (Function.update m.sp .usr f.userSp) m.bank (m.sp m.bank + 88)
    lr := Function.update (Function.update m.lr m.bank f.returnLr) .usr f.userLr
    spsr := Function.update m.spsr m.bank f.spsr }

theorem block_restoreLoads {m : Machine} (hfiq : m.bank ≠ .fiq) (husr : m.bank ≠ .usr) :
    block [.ldr .lr .sp 52, .ldr (.r 1) .sp 56, .msrSpsr (.r 1), .add (.r 1) .sp 76,
        .ldmiaUser (.r 1), .ldmia .sp, .add .sp .sp 88] m =
      restored m (TrapFrame.load m.mem (m.sp m.bank)) := by
  have hbank : ¬ bankOf m.cpsr = .fiq := hfiq
  have hsp : ∀ w, Function.update m.sp .usr w (bankOf m.cpsr) = m.sp (bankOf m.cpsr) :=
    fun w => Function.update_of_ne husr _ _
  have haddr : m.sp (bankOf m.cpsr) + 76#32 + 4#32 = m.sp (bankOf m.cpsr) + 80#32 := by bv_omega
  simp [block, exec, Machine.set, Machine.setGprs, Machine.get, Machine.gpr, Machine.bank, hbank,
    hsp, haddr, restored, TrapFrame.load]

theorem blockAligned_restoreFrame {m : Machine} {ret : Instr} (husr : m.bank ≠ .usr)
    (hsp : (m.sp m.bank).toNat % 4 = 0) (hret : ∀ m, ret.Aligned m) :
    BlockAligned (restoreFrame ret) m := by
  have hsp' : ∀ w, Function.update m.sp .usr w (bankOf m.cpsr) = m.sp (bankOf m.cpsr) :=
    fun w => Function.update_of_ne husr _ _
  rw [Machine.bank] at hsp
  rw [restoreFrame, blockAligned_append]
  refine ⟨?_, hret _, trivial⟩
  simp [BlockAligned, Instr.Aligned, exec, Machine.set, Machine.get, Machine.gpr, Machine.bank,
    hsp']
  bv_omega

def resumed (m : Machine) (f : TrapFrame) (back : Word) : Machine :=
  exceptionReturn (restored m f) (f.returnLr - back)

section

variable {m : Machine} {f : TrapFrame} {back : Word}

@[simp] theorem resumed_r : (resumed m f back).r = f.r := rfl

@[simp] theorem resumed_mem : (resumed m f back).mem = m.mem := rfl

@[simp] theorem resumed_cpsr : (resumed m f back).cpsr = f.spsr := by
  simp [resumed, exceptionReturn, restored, Machine.bank]

theorem resumed_pc : (resumed m f back).pc =
    if thumb f.spsr then (f.returnLr - back) &&& ~~~1 else (f.returnLr - back) &&& ~~~3 := by
  simp [resumed, exceptionReturn, restored, Machine.bank]

@[simp] theorem resumed_lr_usr : (resumed m f back).lr .usr = f.userLr := by
  simp [resumed, exceptionReturn, restored]

theorem resumed_sp {b : Bank} (h : m.bank = b) : (resumed m f back).sp b = m.sp b + 88 := by
  subst h
  simp [resumed, exceptionReturn, restored]

theorem resumed_sp_usr (husr : m.bank ≠ .usr) : (resumed m f back).sp .usr = f.userSp := by
  simp [resumed, exceptionReturn, restored, Function.update_of_ne husr.symm]

theorem resumed_sp_of_ne {b : Bank} (husr : b ≠ .usr) (h : b ≠ m.bank) :
    (resumed m f back).sp b = m.sp b :=
  (Function.update_of_ne h _ _).trans (Function.update_of_ne husr _ _)

theorem resumed_lr_of_ne {b : Bank} (husr : b ≠ .usr) (h : b ≠ m.bank) :
    (resumed m f back).lr b = m.lr b :=
  (Function.update_of_ne husr _ _).trans (Function.update_of_ne h _ _)

theorem resumed_pc_of_A32 (hthumb : thumb f.spsr = false)
    (haligned : (f.returnLr - back).toNat % 4 = 0) :
    (resumed m f back).pc = f.returnLr - back := by
  rw [resumed_pc, hthumb]
  exact and_not_three_eq_self haligned

end

theorem block_restoreFrame {m : Machine} {ret : Instr} {back : Word}
    (hfiq : m.bank ≠ .fiq) (husr : m.bank ≠ .usr)
    (hret : ∀ m, exec ret m = exceptionReturn m (m.get .lr - back)) :
    block (restoreFrame ret) m = resumed m (TrapFrame.load m.mem (m.sp m.bank)) back := by
  have hlr : ∀ f, (restored m f).get .lr = f.returnLr := by
    intro f
    have hne : (restored m f).bank ≠ .usr := husr
    rw [Machine.get]
    exact (Function.update_of_ne hne _ _).trans (Function.update_self ..)
  rw [restoreFrame, block_append, block_restoreLoads hfiq husr]
  simp only [block, hret, hlr, resumed]

end Minemu.Trap
