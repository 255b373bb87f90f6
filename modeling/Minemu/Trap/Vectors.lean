import Minemu.Trap.Entry

/-!
# `vectors.S`: exceptions that return through the same frame

An undefined instruction, a prefetch abort or a data abort saves a frame below the
exception-mode SP, calls a C dispatcher with its address and resumes from what the
dispatcher leaves in it.
-/

namespace Minemu.Trap.Vectors

open Minemu.Lib.Memory Minemu.Lib.Arm

/-! ## The entries -/

def minemuUndefinedEntry : Entry where
  exception := .undefined
  save := saveFrame [.ldrLit (.r 1) exceptionUndefined] 4 noFault
  restore := restoreFrame .movsPcLr

def minemuPrefetchAbortEntry : Entry where
  exception := .prefetchAbort
  save := saveFrame [.ldrLit (.r 1) exceptionPrefetchAbort] 4 abortFault
  restore := restoreFrame (.subsPcLr 4)

def minemuDataAbortEntry : Entry where
  exception := .dataAbort
  save := saveFrame [.ldrLit (.r 1) exceptionDataAbort] 8 abortFault
  restore := restoreFrame (.subsPcLr 8)

/-! ## What an entry promises -/

/-- A dispatcher that leaves `edited` in its frame and writes nothing else above its SP. -/
structure Dispatched (edited : TrapFrame) (m m' : Machine) : Prop extends
    ProcedureCall m m' where
  frame : TrapFrame.load m'.mem (m.r 0) = edited
  above : ∀ a, a ∉ region (m.r 0) sizeofTrapFrame → (m.sp m.bank).toNat ≤ a.toNat →
    m'.mem a = m.mem a

/-- The three kinds of exception, with what their frames and returns differ in. -/
inductive Kind where
  | undefined | prefetchAbort | dataAbort

namespace Kind

def entry : Kind → Entry
  | .undefined => minemuUndefinedEntry
  | .prefetchAbort => minemuPrefetchAbortEntry
  | .dataAbort => minemuDataAbortEntry

def bank (k : Kind) : Bank := k.entry.exception.bank

def interruptedFrame (k : Kind) (r : Fin 13 → Word) (m : Machine) : TrapFrame where
  r := r
  returnLr := m.pc + k.entry.exception.lrOffset false
  spsr := m.cpsr
  exceptionId :=
    match k with
    | .undefined => exceptionUndefined
    | .prefetchAbort => exceptionPrefetchAbort
    | .dataAbort => exceptionDataAbort
  faultPc := m.pc
  dfsr :=
    match k with
    | .undefined => 0
    | .prefetchAbort | .dataAbort => m.cp15 .dfsr
  dfar :=
    match k with
    | .undefined => 0
    | .prefetchAbort | .dataAbort => m.cp15 .dfar
  userSp := m.sp .usr
  userLr := m.lr .usr
  reserved := 0

/-- How far `return_lr` lies above the address execution resumes at. -/
def returnBack : Kind → Word
  | .undefined => 0
  | .prefetchAbort => 4
  | .dataAbort => 8

end Kind

/-- Entry and return round-trip, for the general registers that `gprs` reads. -/
structure RoundTrip (gprs : Machine → Fin 13 → Word) (k : Kind) (m : Machine)
    (dispatch : Machine → Machine) (edited : TrapFrame) : Prop where
  pointer : (k.entry.call m).r 0 = m.sp k.bank - 88
  frame : TrapFrame.load (k.entry.call m).mem (m.sp k.bank - 88) = k.interruptedFrame (gprs m) m
  r : gprs (k.entry.run dispatch m) = edited.r
  userSp : (k.entry.run dispatch m).sp .usr = edited.userSp
  userLr : (k.entry.run dispatch m).lr .usr = edited.userLr
  cpsr : (k.entry.run dispatch m).cpsr = edited.spsr
  pc : (k.entry.run dispatch m).pc = edited.returnLr - k.returnBack
  sp : (k.entry.run dispatch m).sp k.bank = m.sp k.bank
  above : ∀ a, (m.sp k.bank).toNat ≤ a.toNat → (k.entry.run dispatch m).mem a = m.mem a

/-! ## The round trip -/

theorem Kind.bank_ne (k : Kind) : k.bank ≠ .fiq ∧ k.bank ≠ .usr := by
  cases k <;> decide

theorem Kind.call_eq (k : Kind) {m : Machine} (hthumb : thumb m.cpsr = false) :
    k.entry.call m =
      saving (takeException k.entry.exception m) (m.sp k.bank - 88)
        (Function.update (Function.update m.r 1 0) 0 (m.sp k.bank - 88))
        ((k.interruptedFrame m.r m).store m.mem (m.sp k.bank - 88)) := by
  have hbank := takeException_bank k.entry.exception m
  have hfiq : (takeException k.entry.exception m).bank ≠ .fiq := hbank ▸ k.bank_ne.1
  have husr : (takeException k.entry.exception m).bank ≠ .usr := hbank ▸ k.bank_ne.2
  have hlr : ∀ w, Function.update m.lr k.entry.exception.bank w .usr = m.lr .usr :=
    fun w => Function.update_of_ne k.bank_ne.2.symm _ _
  cases k with
  | undefined =>
      refine (block_saveFrame hfiq husr (loadsId_ldrLit _) storesFault_noFault).trans ?_
      rw [savedFrame_takeException, hbank, hthumb, hlr,
        show undefined.entry.exception.lrOffset false = 4 from rfl, BitVec.add_sub_cancel]
      rfl
  | prefetchAbort =>
      refine (block_saveFrame hfiq husr (loadsId_ldrLit _) storesFault_abortFault).trans ?_
      rw [savedFrame_takeException, hbank, hthumb, hlr,
        show prefetchAbort.entry.exception.lrOffset false = 4 from rfl, BitVec.add_sub_cancel]
      rfl
  | dataAbort =>
      refine (block_saveFrame hfiq husr (loadsId_ldrLit _) storesFault_abortFault).trans ?_
      rw [savedFrame_takeException, hbank, hthumb, hlr,
        show dataAbort.entry.exception.lrOffset false = 8 from rfl, BitVec.add_sub_cancel]
      rfl

theorem Kind.restore_eq (k : Kind) {m : Machine} (hbank : m.bank = k.bank) :
    block k.entry.restore m = resumed m (TrapFrame.load m.mem (m.sp k.bank)) k.returnBack := by
  have hfiq : m.bank ≠ .fiq := hbank ▸ k.bank_ne.1
  have husr : m.bank ≠ .usr := hbank ▸ k.bank_ne.2
  rw [← hbank]
  cases k with
  | undefined =>
      apply block_restoreFrame hfiq husr
      intro m
      exact congrArg (exceptionReturn m) (BitVec.sub_zero _).symm
  | prefetchAbort => exact block_restoreFrame hfiq husr fun _ => rfl
  | dataAbort => exact block_restoreFrame hfiq husr fun _ => rfl

theorem Kind.call_sp (k : Kind) {m : Machine} (hA32 : thumb m.cpsr = false) :
    (k.entry.call m).bank = k.bank ∧ (k.entry.call m).sp k.bank = m.sp k.bank - 88 := by
  rw [k.call_eq hA32, saving_bank, takeException_bank]
  exact ⟨rfl, saving_sp (takeException_bank _ m)⟩

theorem Kind.dispatched_sp (k : Kind) {m m' : Machine} {edited : TrapFrame}
    (hA32 : thumb m.cpsr = false) (hdispatch : Dispatched edited (k.entry.call m) m') :
    m'.bank = k.bank ∧ m'.sp k.bank = m.sp k.bank - 88 := by
  obtain ⟨hbank, hsp⟩ := k.call_sp hA32
  refine ⟨hdispatch.bank.trans hbank, ?_⟩
  rw [← hsp, ← hbank]
  exact hdispatch.sp

theorem Kind.aligned (k : Kind) {m : Machine} {dispatch : Machine → Machine} {edited : TrapFrame}
    (hA32 : thumb m.cpsr = false) (hword : (m.sp k.bank).toNat % 4 = 0)
    (hdispatch : Dispatched edited (k.entry.call m) (dispatch (k.entry.call m))) :
    k.entry.Aligned dispatch m := by
  have hbank : (takeException k.entry.exception m).bank = k.bank := takeException_bank _ m
  have hfiq : (takeException k.entry.exception m).bank ≠ .fiq := hbank ▸ k.bank_ne.1
  have hsp : ((takeException k.entry.exception m).sp
      (takeException k.entry.exception m).bank).toNat % 4 = 0 := by
    rw [hbank]
    exact hword
  have hp : ((takeException k.entry.exception m).sp
      (takeException k.entry.exception m).bank - 88).toNat % 4 = 0 := by bv_omega
  obtain ⟨hret, hretsp⟩ := k.dispatched_sp hA32 hdispatch
  have husr : (dispatch (k.entry.call m)).bank ≠ .usr := hret ▸ k.bank_ne.2
  have hframe : ((dispatch (k.entry.call m)).sp (dispatch (k.entry.call m)).bank).toNat % 4 = 0 := by
    rw [hret, hretsp]
    bv_omega
  have hid : ∀ w m, BlockAligned [.ldrLit (.r 1) w] m := fun _ _ => ⟨trivial, trivial⟩
  cases k with
  | undefined =>
      exact ⟨blockAligned_saveFrame hfiq (loadsId_ldrLit _) storesFault_noFault hsp
        (fun _ _ => hid _ _) (fun _ _ => blockAligned_noFault hp),
        blockAligned_restoreFrame husr hframe fun _ => trivial⟩
  | prefetchAbort =>
      exact ⟨blockAligned_saveFrame hfiq (loadsId_ldrLit _) storesFault_abortFault hsp
        (fun _ _ => hid _ _) (fun _ _ => blockAligned_abortFault hp),
        blockAligned_restoreFrame husr hframe fun _ => trivial⟩
  | dataAbort =>
      exact ⟨blockAligned_saveFrame hfiq (loadsId_ldrLit _) storesFault_abortFault hsp
        (fun _ _ => hid _ _) (fun _ _ => blockAligned_abortFault hp),
        blockAligned_restoreFrame husr hframe fun _ => trivial⟩

/-- The round trip of the general registers that no mode but FIQ banks. -/
theorem roundTrip_unbanked {k : Kind} {m : Machine} {dispatch : Machine → Machine}
    {edited : TrapFrame} (hA32 : thumb m.cpsr = false) (hsp : 88 ≤ (m.sp k.bank).toNat)
    (hdispatch : Dispatched edited (k.entry.call m) (dispatch (k.entry.call m)))
    (hthumb : thumb edited.spsr = false) (haligned : edited.returnLr.toNat % 4 = 0) :
    RoundTrip (·.r) k m dispatch edited := by
  have hcall := k.call_eq hA32
  obtain ⟨hbank, hcallsp⟩ := k.call_sp hA32
  obtain ⟨hret, hretsp⟩ := k.dispatched_sp hA32 hdispatch
  have hpointer : (k.entry.call m).r 0 = m.sp k.bank - 88 := by
    rw [hcall, saving_r, Function.update_self]
  have hrun : k.entry.run dispatch m =
      resumed (dispatch (k.entry.call m)) edited k.returnBack := by
    rw [Entry.run, k.restore_eq hret, hretsp, ← hpointer,
      hdispatch.frame]
  refine ⟨hpointer, ?_, ?_, ?_, ?_, ?_, ?_, ?_, ?_⟩
  · rw [hcall, saving_mem, TrapFrame.load_store]
  · rw [hrun, resumed_r]
  · rw [hrun, resumed_sp_usr]
    rw [hret]
    exact k.bank_ne.2
  · rw [hrun, resumed_lr_usr]
  · rw [hrun, resumed_cpsr]
  · rw [hrun]
    apply resumed_pc_of_A32 hthumb
    cases k with
    | undefined =>
        rw [Kind.returnBack]
        bv_omega
    | prefetchAbort | dataAbort =>
        rw [Kind.returnBack]
        bv_omega
  · rw [hrun, resumed_sp hret, hretsp]
    bv_omega
  · intro a ha
    have hout : a ∉ region (m.sp k.bank - 88) sizeofTrapFrame := by
      rw [mem_region, sizeofTrapFrame]
      bv_omega
    have hsp_le : ((k.entry.call m).sp (k.entry.call m).bank).toNat ≤ a.toNat := by
      rw [hbank, hcallsp]
      bv_omega
    have hkeep := hdispatch.above a (by rwa [hpointer]) hsp_le
    rw [hrun, resumed_mem, hkeep, hcall, saving_mem]
    exact TrapFrame.store_changedOnly _ _ _ a hout

/-- For each of the three entries and every A32 state, no transfer is unaligned, the frame
holds the interrupted state and the edited frame is what execution resumes with.  The
general registers are those of the modes other than FIQ, so a state on either side that is
not in FIQ mode has them as its own. -/
theorem exception_roundTrip (k : Kind) (m : Machine) (dispatch : Machine → Machine)
    (edited : TrapFrame) (hA32 : thumb m.cpsr = false) (hsp : 88 ≤ (m.sp k.bank).toNat)
    (hword : (m.sp k.bank).toNat % 4 = 0)
    (hdispatch : Dispatched edited (k.entry.call m) (dispatch (k.entry.call m)))
    (hthumb : thumb edited.spsr = false) (haligned : edited.returnLr.toNat % 4 = 0) :
    k.entry.Aligned dispatch m ∧ RoundTrip (·.r) k m dispatch edited ∧
      (m.bank ≠ .fiq → bankOf edited.spsr ≠ .fiq →
        RoundTrip Machine.gpr k m dispatch edited) := by
  have htrip := roundTrip_unbanked hA32 hsp hdispatch hthumb haligned
  refine ⟨k.aligned hA32 hword hdispatch, htrip, fun hfiq hfiq' => ?_⟩
  have hgpr : m.gpr = m.r := Machine.gpr_of_ne_fiq hfiq
  have hgpr' : (k.entry.run dispatch m).gpr = (k.entry.run dispatch m).r := by
    apply Machine.gpr_of_ne_fiq
    rwa [Machine.bank, htrip.cpsr]
  exact { htrip with
    frame := by rw [hgpr]; exact htrip.frame
    r := by rw [hgpr']; exact htrip.r }

/-! ## Dispatchers that edit the frame -/

def editFrame (edit : TrapFrame → TrapFrame) (m : Machine) : Machine :=
  { m with mem := (edit (TrapFrame.load m.mem (m.r 0))).store m.mem (m.r 0) }

theorem dispatched_editFrame (edit : TrapFrame → TrapFrame) (k : Kind) {m : Machine}
    (hA32 : thumb m.cpsr = false) :
    Dispatched (edit (k.interruptedFrame m.r m)) (k.entry.call m)
      (editFrame edit (k.entry.call m)) where
  bank := rfl
  sp := rfl
  callee _ _ _ := rfl
  frame := by
    have hframe : TrapFrame.load (k.entry.call m).mem ((k.entry.call m).r 0) =
        k.interruptedFrame m.r m := by
      rw [k.call_eq hA32, saving_r, saving_mem, Function.update_self, TrapFrame.load_store]
    rw [editFrame, TrapFrame.load_store, hframe]
  above a ha _ := TrapFrame.store_changedOnly _ _ _ a ha

def userMachine : Machine where
  r n := BitVec.ofNat 32 n.val
  rFiq _ := 0
  sp _ := 0x2000
  lr _ := 0x9000
  spsr _ := 0
  pc := 0x8000
  cpsr := 0x10
  cp15 _ := 0
  mem _ := 0

/-- The data-abort handler that steps over the faulting instruction. -/
def skipInstruction (f : TrapFrame) : TrapFrame := { f with returnLr := f.returnLr + 4 }

theorem exception_roundTrip_skipInstruction :
    RoundTrip Machine.gpr .dataAbort userMachine (editFrame skipInstruction)
      (skipInstruction (Kind.interruptedFrame .dataAbort userMachine.r userMachine)) :=
  (exception_roundTrip .dataAbort userMachine (editFrame skipInstruction) _ (by decide)
    (by decide) (by decide) (dispatched_editFrame skipInstruction .dataAbort (by decide))
    (by decide) (by decide)).2.2 (by decide) (by decide)

/-- FIQ code with a banked `r8`. -/
def fiqMachine : Machine := { userMachine with cpsr := 0x11, rFiq := fun _ => 1 }

/-- No entry saves the FIQ copies of `r8`-`r12`. -/
theorem exception_roundTrip_fiq :
    let edited := Kind.interruptedFrame .undefined fiqMachine.r fiqMachine
    thumb fiqMachine.cpsr = false ∧ fiqMachine.bank ≠ Kind.bank .undefined ∧
      88 ≤ (fiqMachine.sp (Kind.bank .undefined)).toNat ∧
      (fiqMachine.sp (Kind.bank .undefined)).toNat % 4 = 0 ∧
      Dispatched edited (minemuUndefinedEntry.call fiqMachine)
        (editFrame id (minemuUndefinedEntry.call fiqMachine)) ∧
      thumb edited.spsr = false ∧ edited.returnLr.toNat % 4 = 0 ∧
      ¬ RoundTrip Machine.gpr .undefined fiqMachine (editFrame id) edited := by
  refine ⟨by decide, by decide, by decide, by decide, dispatched_editFrame id .undefined (by decide),
    by decide, by decide, fun htrip => ?_⟩
  have hcall := Kind.call_eq .undefined (m := fiqMachine) (by decide)
  have hframe := htrip.frame
  rw [hcall, saving_mem, TrapFrame.load_store] at hframe
  have hr8 : fiqMachine.r 8 = fiqMachine.gpr 8 := congrFun (congrArg TrapFrame.r hframe) 8
  exact absurd hr8 (by decide)

end Minemu.Trap.Vectors
