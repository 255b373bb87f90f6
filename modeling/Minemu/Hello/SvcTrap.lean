import Minemu.Hello.SvcDispatch

/-!
# A system call of the user-mode kernel, from the trap to the return

The trampoline saves the frame on the SVC stack, the dispatcher answers in the first
word of it, and the trampoline resumes from what the frame then holds.
-/

namespace Minemu.Hello

open Minemu.Lib.Memory Minemu.Lib.Arm Minemu.Platform Minemu.Trap
open Minemu.Startup.BootstrapWalk

/-! ## The call of the dispatcher -/

/-- Kernel code run in `m`, whose memory is physical. -/
def onKernelView (f : Machine → Machine) (m : Machine) : Machine :=
  let m' := f { m with mem := kernelView m.mem }
  { m' with mem := physicalView m'.mem }

def svcCall (m : Machine) : Machine := onKernelView minemuSvcTrampoline.call m

theorem minemuSvcTrampoline_call_withMem (m : Machine) (mem : Mem) :
    minemuSvcTrampoline.call { m with mem := mem } =
      saving (takeException .svc m) (m.sp .svc - 88)
        (Function.update (Function.update m.r 1 0) 0 (m.sp .svc - 88))
        ((svcFrame m).store mem (m.sp .svc - 88)) :=
  minemuSvcTrampoline_call { m with mem := mem }

theorem saving_withMem (m : Machine) (p : Word) (r : Fin 13 → Word) (mem mem' : Mem) :
    { saving m p r mem with mem := mem' } = saving m p r mem' := rfl

theorem svcCall_eq (m : Machine) :
    svcCall m =
      saving (takeException .svc m) (m.sp .svc - 88)
        (Function.update (Function.update m.r 1 0) 0 (m.sp .svc - 88))
        (physicalView ((svcFrame m).store (kernelView m.mem) (m.sp .svc - 88))) := by
  unfold svcCall onKernelView
  rw [minemuSvcTrampoline_call_withMem]
  exact saving_withMem _ _ _ _ _

@[simp] theorem svcCall_bank (m : Machine) : (svcCall m).bank = .svc := by
  rw [svcCall_eq, saving_bank, takeException_bank]
  rfl

@[simp] theorem svcCall_r0 (m : Machine) : (svcCall m).r 0 = m.sp .svc - 88 := by
  rw [svcCall_eq, saving_r, Function.update_self]

theorem svcCall_mem (m : Machine) :
    (svcCall m).mem = physicalView ((svcFrame m).store (kernelView m.mem) (m.sp .svc - 88)) := by
  rw [svcCall_eq, saving_mem]

theorem load_svcCall (m : Machine) :
    TrapFrame.load (kernelView (svcCall m).mem) (m.sp .svc - 88) = svcFrame m := by
  rw [svcCall_mem, kernelView_physicalView, TrapFrame.load_store]

/-! ## Room on the stack -/

structure SvcRoom (L : Layout) (sp : Word) : Prop where
  low : (L.addr .svcStack).toNat + sizeofTrapFrame ≤ sp.toNat
  high : sp.toNat ≤ (L.addr .svcStack).toNat + 4096

def userSyscallObserved (L : Layout) (m : Mem) : Byte := m (L.paddr .userSyscallObserved 0)

variable {L : Layout} {m m' : Machine} {writes : List DeviceWrite}

namespace SvcRoom

variable {sp : Word}

theorem bounds (h : SvcRoom L sp) :
    0xc0000000 ≤ (L.addr .svcStack).toNat ∧ (L.addr .svcStack).toNat + 88 ≤ sp.toNat ∧
      sp.toNat ≤ (L.addr .svcStack).toNat + 4096 ∧
      (L.addr .svcStack).toNat + 4096 ≤ 0xc4000000 :=
  ⟨L.low .svcStack, h.low, h.high, L.high .svcStack⟩

theorem frame_subset (h : SvcRoom L sp) :
    region (kernelVaddrToPaddr (sp - 88)) sizeofTrapFrame ⊆ L.extent .svcStack := by
  intro a ha
  have hbounds := h.bounds
  rw [mem_region, kernelVaddrToPaddr_eq_minemuTestPaddr, minemuTestPaddr, sizeofTrapFrame] at ha
  rw [L.mem_extent, show Object.svcStack.size = 4096 by rfl]
  bv_omega

theorem frame_above (h : SvcRoom L sp) {v : Word} (hv : v ∈ region (sp - 88) sizeofTrapFrame) :
    (kernelVaddrToPaddr (sp - 88)).toNat ≤ (kernelVaddrToPaddr v).toNat := by
  have hbounds := h.bounds
  rw [mem_region, sizeofTrapFrame] at hv
  rw [kernelVaddrToPaddr_eq_minemuTestPaddr, kernelVaddrToPaddr_eq_minemuTestPaddr,
    minemuTestPaddr, minemuTestPaddr]
  bv_omega

theorem svcCall_changedOnly (h : SvcRoom L (m.sp .svc)) :
    ChangedOnly (L.extent .svcStack) m.mem (svcCall m).mem := by
  rw [svcCall_mem]
  exact (changedOnly_physicalView (TrapFrame.store_changedOnly _ _ _)).mono h.frame_subset

theorem setFrameR0_changedOnly (h : SvcRoom L sp) (mem : Mem) (value : Word) :
    ChangedOnly (L.extent .svcStack) mem (setFrameR0 mem (sp - 88) value) := by
  apply (storeWord_changedOnly mem _ value).mono
  intro a ha
  apply h.frame_subset
  rw [mem_region] at ha
  rw [mem_region, sizeofTrapFrame]
  omega

theorem load_frame (h : SvcRoom L sp) {o : Object} (ho : o ≠ .svcStack) {mem mem' : Mem}
    (hmem : ChangedOnly (L.extent o) mem mem') :
    TrapFrame.load (kernelView mem') (sp - 88) = TrapFrame.load (kernelView mem) (sp - 88) := by
  apply TrapFrame.load_congr
  intro v hv
  have hstack := h.frame_subset (mem_region_kernelVaddrToPaddr.mpr hv)
  exact hmem _ (L.not_mem_extent ho.symm hstack)

end SvcRoom

/-! ## The return -/

/-- The dispatcher, called in `m`, returns its frame in `m'` and has left `mem`, except for
the part of the SVC stack below the frame. -/
structure SvcReturned (L : Layout) (mem : Mem) (m m' : Machine) : Prop extends
    ProcedureCall m m' where
  frame : m'.r 0 = m.r 0
  memory : ∀ a, ¬ (a ∈ L.extent .svcStack ∧ a.toNat < (kernelVaddrToPaddr (m.r 0)).toNat) →
    m'.mem a = mem a

/-- An SVC taken in `m` is resumed in `m'`, and the dispatcher makes `writes` meanwhile. -/
def SvcTrap (L : Layout) (m m' : Machine) (writes : List DeviceWrite) : Prop :=
  ∃ mem r, minemuSvcDispatch L (svcCall m).mem ((svcCall m).r 0) = some (mem, writes) ∧
    SvcReturned L mem (svcCall m) r ∧
    m' = onKernelView (block minemuSvcTrampoline.restore) r

def faultWord (m : Machine) : Option Word :=
  tryLoadWord (virtualByte (svcCall m).mem bootstrapRoot) (svcFrame m).faultPc

def FromUser (m : Machine) : Prop := m.cpsr &&& cpsrModeMask = cpsrModeUsr

instance (m : Machine) : Decidable (FromUser m) := inferInstanceAs (Decidable (_ = _))

def Accepted (m : Machine) : Prop :=
  FromUser m ∧ thumb m.cpsr = false ∧ faultWord m = some 0xef000000 ∧ m.r 7 = 1 ∧ m.r 0 ≤ 255

instance (m : Machine) : Decidable (Accepted m) := inferInstanceAs (Decidable (_ ∧ _))

/-- `m'` is `m` after the SVC, with `value` in `r0`. -/
structure Resumes (m m' : Machine) (value : Word) : Prop where
  r : m'.r = Function.update m.r 0 value
  spUsr : m'.sp .usr = m.sp .usr
  lrUsr : m'.lr .usr = m.lr .usr
  cpsr : m'.cpsr = m.cpsr
  pc : m'.pc = if thumb m.cpsr then (m.pc + 2) &&& ~~~1 else (m.pc + 4) &&& ~~~3
  spSvc : m'.sp .svc = m.sp .svc

theorem and_cpsrThumb_eq_zero_iff (psr : Word) : psr &&& cpsrThumb = 0 ↔ thumb psr = false := by
  rw [show cpsrThumb = BitVec.twoPow 32 5 by decide, BitVec.and_twoPow, thumb]
  cases psr.getLsbD 5 <;> decide

theorem readsInstruction_svcFrame :
    ReadsInstruction (svcFrame m) ↔ FromUser m ∧ thumb m.cpsr = false := by
  rw [← and_cpsrThumb_eq_zero_iff]
  exact ⟨fun h => h.2, fun h => ⟨rfl, h⟩⟩

theorem requests_svcFrame : Requests (svcFrame m) (faultWord m) ↔ Accepted m := by
  rw [Requests, readsInstruction_svcFrame, Accepted, and_assoc]
  rfl

/-- The frame that the trampoline resumes from. -/
theorem load_returned {mem base : Mem} {r : Machine} {value : Word} (hroom : SvcRoom L (m.sp .svc))
    (hbase : TrapFrame.load (kernelView base) (m.sp .svc - 88) = svcFrame m)
    (hmem : mem = setFrameR0 base (m.sp .svc - 88) value) (hret : SvcReturned L mem (svcCall m) r) :
    TrapFrame.load (kernelView r.mem) (m.sp .svc - 88) =
      (svcFrame m).setR0 value := by
  have hkept : TrapFrame.load (kernelView r.mem) (m.sp .svc - 88) =
      TrapFrame.load (kernelView mem) (m.sp .svc - 88) := by
    apply TrapFrame.load_congr
    intro v hv
    apply hret.memory
    rintro ⟨-, hbelow⟩
    have habove := hroom.frame_above hv
    rw [svcCall_r0] at hbelow
    omega
  rw [hkept, hmem, setFrameR0, kernelView_storeWord, TrapFrame.load_storeWord, hbase]

theorem minemuSvcTrampoline_restore_withMem {r : Machine} (hbank : r.bank = .svc) (mem : Mem) :
    block minemuSvcTrampoline.restore { r with mem := mem } =
      resumed (switchStack { r with mem := mem }) (TrapFrame.load mem (r.r 0)) 0 :=
  minemuSvcTrampoline_restore (m := { r with mem := mem }) hbank

theorem resumes_resumed {r : Machine} (value : Word) (hbank : r.bank = .svc)
    (hframe : r.r 0 = m.sp .svc - 88) (mem : Mem) :
    Resumes m (resumed (switchStack { r with mem := mem }) ((svcFrame m).setR0 value) 0)
      value := by
  have hswitch : (switchStack { r with mem := mem }).bank = .svc := hbank
  have hsp : (switchStack { r with mem := mem }).sp .svc = m.sp .svc - 88 := by
    rw [← hframe, ← hbank]
    exact Function.update_self ..
  refine ⟨rfl, resumed_sp_usr (by rw [hswitch]; decide), resumed_lr_usr, resumed_cpsr, ?_, ?_⟩
  · rw [resumed_pc]
    simp only [TrapFrame.setR0, svcFrame, BitVec.ofNat_eq_ofNat, BitVec.sub_zero]
    cases thumb m.cpsr <;> rfl
  · rw [resumed_sp hswitch, hsp, BitVec.sub_add_cancel]

theorem svcRestore_eq {mem : Mem} {r : Machine} {value : Word}
    (hret : SvcReturned L mem (svcCall m) r)
    (hframe : TrapFrame.load (kernelView r.mem) (m.sp .svc - 88) =
      (svcFrame m).setR0 value) :
    Resumes m (onKernelView (block minemuSvcTrampoline.restore) r) value ∧
      (onKernelView (block minemuSvcTrampoline.restore) r).mem = r.mem := by
  have hbank : r.bank = .svc := hret.bank.trans (svcCall_bank m)
  have hr0 : r.r 0 = m.sp .svc - 88 := hret.frame.trans (svcCall_r0 m)
  unfold onKernelView
  rw [minemuSvcTrampoline_restore_withMem hbank, hr0, hframe]
  have hresumes := resumes_resumed (m := m) value hbank hr0 (kernelView r.mem)
  exact ⟨⟨hresumes.r, hresumes.spUsr, hresumes.lrUsr, hresumes.cpsr, hresumes.pc, hresumes.spSvc⟩,
    physicalView_kernelView r.mem⟩

/-! ## A whole trap -/

theorem flag_not_mem_svcStack (L : Layout) :
    L.paddr .userSyscallObserved 0 ∉ L.extent .svcStack :=
  L.not_mem_extent (by decide) (L.paddr_mem (by decide))

/-- The end of a trap whose dispatcher has set `base` and answers `value`. -/
structure Answered (L : Layout) (m m' : Machine) (base : Mem) (value : Word) : Prop where
  resumes : Resumes m m' value
  flag : userSyscallObserved L m'.mem = userSyscallObserved L base
  memory : ChangedOnly (L.extents [.svcStack, .userSyscallObserved]) m.mem m'.mem

theorem answered_of_returned {base : Mem} {r : Machine} {value : Word}
    (hroom : SvcRoom L (m.sp .svc))
    (hbase : ChangedOnly (L.extent .userSyscallObserved) (svcCall m).mem base)
    (hret : SvcReturned L (setFrameR0 base (m.sp .svc - 88) value) (svcCall m) r) :
    Answered L m (onKernelView (block minemuSvcTrampoline.restore) r) base value := by
  have hframe : TrapFrame.load (kernelView base) (m.sp .svc - 88) = svcFrame m := by
    rw [hroom.load_frame (by decide) hbase, load_svcCall]
  obtain ⟨hresumes, hmem⟩ := svcRestore_eq hret (load_returned hroom hframe rfl hret)
  have hanswer := hroom.setFrameR0_changedOnly base value
  have hoff : ChangedOnly (L.extent .svcStack) base r.mem := by
    intro a ha
    rw [hret.memory a (fun h => ha h.1)]
    exact hanswer a ha
  refine ⟨hresumes, ?_, ?_⟩
  · rw [userSyscallObserved, hmem]
    exact hoff _ (flag_not_mem_svcStack L)
  · have hstack : L.extent .svcStack ⊆ L.extents [.svcStack, .userSyscallObserved] :=
      fun a ha => ⟨_, by simp, ha⟩
    have hflag : L.extent .userSyscallObserved ⊆ L.extents [.svcStack, .userSyscallObserved] :=
      fun a ha => ⟨_, by simp, ha⟩
    rw [hmem]
    exact ((hroom.svcCall_changedOnly.mono hstack).trans (hbase.mono hflag)).trans
      (hoff.mono hstack)

structure SvcServed (L : Layout) (m m' : Machine) (writes : List DeviceWrite) : Prop where
  resumes : Resumes m m' (if Accepted m then 0 else helloSyscallError)
  writes : writes = if Accepted m then
    (if userSyscallObserved L m.mem = 0 then [.traceEvent traceUserSyscall] else []) ++
      [.uart0TxData (m.r 0)] else []
  flag : userSyscallObserved L m'.mem = 0 ↔ userSyscallObserved L m.mem = 0 ∧ ¬ Accepted m
  memory : ChangedOnly (L.extents [.svcStack, .userSyscallObserved]) m.mem m'.mem

theorem observeUserSyscall_writes (m : Mem) :
    (observeUserSyscall L m).2 =
      if userSyscallObserved L m = 0 then [.traceEvent traceUserSyscall] else [] := by
  unfold observeUserSyscall userSyscallObserved
  split <;> rfl

theorem SvcTrap.served (h : SvcTrap L m m' writes) (hroom : SvcRoom L (m.sp .svc)) :
    SvcServed L m m' writes := by
  obtain ⟨mem, r, hrun, hret, rfl⟩ := h
  have hentry : userSyscallObserved L (svcCall m).mem = userSyscallObserved L m.mem :=
    hroom.svcCall_changedOnly _ (flag_not_mem_svcStack L)
  have hsome : (minemuSvcDispatch L (svcCall m).mem (m.sp .svc - 88)).isSome := by
    rw [svcCall_r0] at hrun
    rw [hrun]
    rfl
  rw [svcCall_r0, minemuSvcDispatch_eq (load_svcCall m) (show _ = faultWord m from rfl)
    ((minemuSvcDispatch_isSome (load_svcCall m)).mp hsome)] at hrun
  by_cases hacc : Accepted m
  · rw [if_pos (requests_svcFrame.mpr hacc)] at hrun
    obtain ⟨rfl, rfl⟩ := Prod.mk.inj (Option.some.inj hrun)
    have hanswered := answered_of_returned hroom (observeUserSyscall_changedOnly _) hret
    refine ⟨?_, ?_, ?_, hanswered.memory⟩
    · rw [if_pos hacc]
      exact hanswered.resumes
    · rw [if_pos hacc, observeUserSyscall_writes, hentry]
      rfl
    · rw [hanswered.flag]
      exact iff_of_false (observeUserSyscall_flag _) (fun hkept => hkept.2 hacc)
  · rw [if_neg (mt requests_svcFrame.mp hacc)] at hrun
    obtain ⟨rfl, rfl⟩ := Prod.mk.inj (Option.some.inj hrun)
    have hanswered := answered_of_returned hroom (ChangedOnly.refl _ _) hret
    refine ⟨?_, ?_, ?_, hanswered.memory⟩
    · rw [if_neg hacc]
      exact hanswered.resumes
    · rw [if_neg hacc]
    · rw [hanswered.flag, hentry]
      exact ⟨fun hzero => ⟨hzero, hacc⟩, fun hkept => hkept.1⟩

theorem svcReturned_withMem (m : Machine) (mem : Mem) :
    SvcReturned L mem m { m with mem := mem } where
  bank := rfl
  sp := rfl
  callee _ _ _ := rfl
  frame := rfl
  memory _ _ := rfl

/-- A trap gets through as soon as the instruction is readable where it is looked at. -/
theorem exists_svcTrap_iff :
    (∃ m' writes, SvcTrap L m m' writes) ↔
      (FromUser m → thumb m.cpsr = false → (faultWord m).isSome) := by
  have hsome := minemuSvcDispatch_isSome (L := L) (load_svcCall m)
  rw [readsInstruction_svcFrame, and_imp] at hsome
  constructor
  · rintro ⟨m', writes, mem, r, hrun, -⟩
    rw [svcCall_r0] at hrun
    exact hsome.mp (by rw [hrun]; rfl)
  · intro hreads
    obtain ⟨⟨mem, writes⟩, hrun⟩ := Option.isSome_iff_exists.mp (hsome.mpr hreads)
    exact ⟨_, writes, mem, { svcCall m with mem := mem }, by rw [svcCall_r0, hrun],
      svcReturned_withMem (svcCall m) mem, rfl⟩

end Minemu.Hello
