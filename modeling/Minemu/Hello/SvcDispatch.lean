import Minemu.Hello.Rom
import Minemu.Trap.Trampoline

/-!
# `minemu_svc_dispatch`: the UART system call

The kernel reaches its frame and its flag through the direct map.  The instruction
word is read at an address of the frame, through whatever the page tables map there.
-/

namespace Minemu.Hello

open Minemu.Lib.Memory Minemu.Lib.Arm Minemu.Platform Minemu.Trap
open Minemu.Startup.BootstrapWalk

/-! ## Memory through the direct map -/

/-- Physical memory under the addresses of the direct map. -/
def kernelView (m : Mem) : Mem := fun v => m (kernelVaddrToPaddr v)

def physicalView (m : Mem) : Mem := fun a => m (a - ramBase + kernelDirectBase)

@[simp] theorem physicalView_kernelView (m : Mem) : physicalView (kernelView m) = m := by
  funext a
  have haddr : kernelVaddrToPaddr (a - ramBase + kernelDirectBase) = a := by
    rw [kernelVaddrToPaddr]
    bv_omega
  rw [physicalView, kernelView, haddr]

@[simp] theorem kernelView_physicalView (m : Mem) : kernelView (physicalView m) = m := by
  funext v
  have haddr : kernelVaddrToPaddr v - ramBase + kernelDirectBase = v := by
    rw [kernelVaddrToPaddr]
    bv_omega
  rw [kernelView, physicalView, haddr]

/-- The kernel's tables make the view what a privileged load finds. -/
theorem virtualByte_direct {L : Layout} {pages : Nat} {m : Mem} (h : KernelTables L pages m)
    (hpages : pages ≤ 4096) {v : Word} (hlow : kernelDirectBase ≤ v)
    (hhigh : v < kernelDirectBase + kernelDirectSize) :
    virtualByte m bootstrapRoot v = some (kernelView m v) := by
  have hlow' : 0xc0000000 ≤ v.toNat := BitVec.le_def.mp hlow
  have hwindow : v.toNat / 2 ^ 22 ≠ 1 := by omega
  have htrans : translateVa m bootstrapRoot v =
      some ⟨kernelVaddrToPaddr v, true, true, true, false⟩ := by
    rw [translate_kernel h hpages hwindow, kernelMapping, if_neg (by omega)]
    exact bootstrapMapping_direct hlow hhigh
  rw [virtualByte, htrans]
  rfl

theorem mem_region_kernelVaddrToPaddr {p v : Word} {n : Nat} :
    kernelVaddrToPaddr v ∈ region (kernelVaddrToPaddr p) n ↔ v ∈ region p n := by
  have hdiff : kernelVaddrToPaddr v - kernelVaddrToPaddr p = v - p := by
    simp only [kernelVaddrToPaddr]
    bv_omega
  rw [mem_region, mem_region, hdiff]

theorem kernelView_storeWord (m : Mem) (p w : Word) :
    kernelView (storeWord m (kernelVaddrToPaddr p) w) = storeWord (kernelView m) p w := by
  funext v
  have hdiff : kernelVaddrToPaddr v - kernelVaddrToPaddr p = v - p := by
    simp only [kernelVaddrToPaddr]
    bv_omega
  rw [kernelView, storeWord_apply, storeWord_apply, hdiff]
  by_cases hv : v ∈ region p 4
  · rw [if_pos hv, if_pos (mem_region_kernelVaddrToPaddr.mpr hv)]
  · rw [if_neg hv, if_neg (mt mem_region_kernelVaddrToPaddr.mp hv), kernelView]

theorem changedOnly_physicalView {p : Word} {n : Nat} {m m' : Mem}
    (h : ChangedOnly (region p n) (kernelView m) m') :
    ChangedOnly (region (kernelVaddrToPaddr p) n) m (physicalView m') := by
  intro a ha
  have haddr : kernelVaddrToPaddr (a - ramBase + kernelDirectBase) = a := by
    rw [kernelVaddrToPaddr]
    bv_omega
  rw [← haddr, mem_region_kernelVaddrToPaddr] at ha
  rw [physicalView, h _ ha, kernelView, haddr]

/-! ## The dispatcher -/

def cpsrModeMask : Word := 0x1f

def cpsrModeUsr : Word := 0x10

def cpsrThumb : Word := 0x20

def a32SvcZero : Word := 0xef000000

def traceUserSyscall : Word := 0x48454c10

def helloSyscallUartPutchar : Word := 1

def helloSyscallError : Word := -1

inductive DeviceWrite where
  /-- `MINEMU_TRACE->event` -/
  | traceEvent (w : Word)
  /-- `MINEMU_UART0->tx_data` -/
  | uart0TxData (w : Word)
  deriving DecidableEq, Repr

variable (L : Layout)

/-- `frame->r[0] = value` -/
def setFrameR0 (m : Mem) (frame value : Word) : Mem :=
  storeWord m (kernelVaddrToPaddr frame) value

/-- The event of the first request, and the flag that remembers it. -/
def observeUserSyscall (m : Mem) : Mem × List DeviceWrite :=
  if m (L.paddr .userSyscallObserved 0) = 0 then
    (storeByte m (L.paddr .userSyscallObserved 0) 1, [.traceEvent traceUserSyscall])
  else (m, [])

/-- Memory and the device writes when the dispatcher returns `frame`, or `none` if its
load of the instruction aborts. -/
def minemuSvcDispatch (m : Mem) (frame : Word) : Option (Mem × List DeviceWrite) :=
  let f := TrapFrame.load (kernelView m) frame
  let mode := f.spsr &&& cpsrModeMask
  if f.exceptionId ≠ exceptionSvc || mode ≠ cpsrModeUsr || f.spsr &&& cpsrThumb ≠ 0 then
    some (setFrameR0 m frame helloSyscallError, [])
  else do
    let instruction ← tryLoadWord (virtualByte m bootstrapRoot) f.faultPc
    if instruction ≠ a32SvcZero || f.r 7 ≠ helloSyscallUartPutchar || 255 < f.r 0 then
      some (setFrameR0 m frame helloSyscallError, [])
    else
      let (m, trace) := observeUserSyscall L m
      some (setFrameR0 m frame 0, trace ++ [.uart0TxData (f.r 0)])

/-! ## What it does -/

/-- The dispatcher looks at the instruction of this frame. -/
def ReadsInstruction (f : TrapFrame) : Prop :=
  f.exceptionId = exceptionSvc ∧ f.spsr &&& cpsrModeMask = cpsrModeUsr ∧ f.spsr &&& cpsrThumb = 0

instance (f : TrapFrame) : Decidable (ReadsInstruction f) :=
  inferInstanceAs (Decidable (_ ∧ _))

def Requests (f : TrapFrame) (instruction : Option Word) : Prop :=
  ReadsInstruction f ∧ instruction = some a32SvcZero ∧ f.r 7 = helloSyscallUartPutchar ∧
    f.r 0 ≤ 255

instance (f : TrapFrame) (instruction : Option Word) : Decidable (Requests f instruction) :=
  inferInstanceAs (Decidable (_ ∧ _))

theorem frame_refused_iff (f : TrapFrame) :
    (f.exceptionId ≠ exceptionSvc || f.spsr &&& cpsrModeMask ≠ cpsrModeUsr ||
      f.spsr &&& cpsrThumb ≠ 0) = true ↔ ¬ ReadsInstruction f := by
  simp only [ReadsInstruction, Bool.or_eq_true, decide_eq_true_eq, not_and_or, or_assoc, ne_eq]

theorem request_refused_iff {f : TrapFrame} (h : ReadsInstruction f) (instruction : Word) :
    (instruction ≠ a32SvcZero || f.r 7 ≠ helloSyscallUartPutchar || 255 < f.r 0) = true ↔
      ¬ Requests f (some instruction) := by
  have hrange : ¬ f.r 0 ≤ 255 ↔ 255 < f.r 0 := by bv_omega
  simp only [Requests, h, true_and, Option.some.injEq, Bool.or_eq_true, decide_eq_true_eq,
    not_and_or, or_assoc, ne_eq, hrange]

variable {L}

theorem minemuSvcDispatch_eq {m : Mem} {frame : Word} {f : TrapFrame} {instruction : Option Word}
    (hframe : TrapFrame.load (kernelView m) frame = f)
    (hload : tryLoadWord (virtualByte m bootstrapRoot) f.faultPc = instruction)
    (hreads : ReadsInstruction f → instruction.isSome) :
    minemuSvcDispatch L m frame =
      if Requests f instruction then
        some (setFrameR0 (observeUserSyscall L m).1 frame 0,
          (observeUserSyscall L m).2 ++ [.uart0TxData (f.r 0)])
      else some (setFrameR0 m frame helloSyscallError, []) := by
  unfold minemuSvcDispatch
  simp only [hframe, hload, frame_refused_iff]
  by_cases hr : ReadsInstruction f
  · obtain ⟨w, hw⟩ := Option.isSome_iff_exists.mp (hreads hr)
    rw [if_neg (not_not_intro hr), hw, Option.bind_eq_bind, Option.bind_some]
    simp only [request_refused_iff hr]
    by_cases hreq : Requests f (some w)
    · rw [if_neg (not_not_intro hreq), if_pos hreq]
    · rw [if_pos hreq, if_neg hreq]
  · have hnot : ¬ Requests f instruction := fun h => hr h.1
    rw [if_pos hr, if_neg hnot]

/-- Where the dispatcher looks at the instruction it has to be readable, and that is all
it takes to return. -/
theorem minemuSvcDispatch_isSome {m : Mem} {frame : Word} {f : TrapFrame}
    (hframe : TrapFrame.load (kernelView m) frame = f) :
    (minemuSvcDispatch L m frame).isSome ↔
      (ReadsInstruction f → (tryLoadWord (virtualByte m bootstrapRoot) f.faultPc).isSome) := by
  constructor
  · intro hsome hr
    unfold minemuSvcDispatch at hsome
    simp only [hframe, frame_refused_iff] at hsome
    rw [if_neg (not_not_intro hr)] at hsome
    cases hload : tryLoadWord (virtualByte m bootstrapRoot) f.faultPc with
    | none =>
        rw [hload] at hsome
        cases hsome
    | some w => rfl
  · intro hreads
    rw [minemuSvcDispatch_eq hframe rfl hreads]
    split <;> rfl

/-! ## The flag -/

theorem observeUserSyscall_first {m : Mem} (h : m (L.paddr .userSyscallObserved 0) = 0) :
    observeUserSyscall L m =
      (storeByte m (L.paddr .userSyscallObserved 0) 1, [.traceEvent traceUserSyscall]) :=
  if_pos h

theorem observeUserSyscall_again {m : Mem} (h : m (L.paddr .userSyscallObserved 0) ≠ 0) :
    observeUserSyscall L m = (m, []) :=
  if_neg h

theorem observeUserSyscall_changedOnly (m : Mem) :
    ChangedOnly (L.extent .userSyscallObserved) m (observeUserSyscall L m).1 := by
  by_cases h : m (L.paddr .userSyscallObserved 0) = 0
  · rw [observeUserSyscall_first h]
    intro a ha
    have hne : a ≠ L.paddr .userSyscallObserved 0 := by
      rintro rfl
      exact ha (L.paddr_mem (by decide))
    show storeByte m (L.paddr .userSyscallObserved 0) 1 a = m a
    rw [storeByte_apply, if_neg hne]
  · rw [observeUserSyscall_again h]
    exact ChangedOnly.refl _ m

theorem observeUserSyscall_flag (m : Mem) :
    (observeUserSyscall L m).1 (L.paddr .userSyscallObserved 0) ≠ 0 := by
  by_cases h : m (L.paddr .userSyscallObserved 0) = 0
  · simp [observeUserSyscall_first h, storeByte_apply]
  · rw [observeUserSyscall_again h]
    exact h

end Minemu.Hello
