import Minemu.Hello.Output

/-!
# `syscall.S`: the user's side of the system call

The stub saves what it changes on the user stack and makes the request that the kernel
looks for.  Its steps are steps of user code; to the rest of user code a call only
changes `r0` and the words below its stack pointer.
-/

namespace Minemu.Hello

open Minemu.Lib.Memory Minemu.Lib.Page Minemu.Lib.Registry Minemu.Lib.Arm Minemu.Platform
open Minemu.Startup Minemu.Trap Minemu.Startup.BootstrapMap Minemu.Startup.BootstrapWalk
open Minemu.Handoff
open Minemu.Bootloader.Boot hiding bootInfoVaddr bootInfoMagic abiVersion

/-! ## Memory accesses of user code -/

def userReadable (m : Mem) (v : Word) : Option Byte := do
  let b ← userView m v
  if b.readable then some b.byte else none

theorem virtualByte_of_userReadable {m : Mem} {v : Word} {b : Byte}
    (h : userReadable m v = some b) : virtualByte m bootstrapRoot v = some b := by
  rw [userReadable, userView] at h
  rw [virtualByte]
  cases ht : translateVa m bootstrapRoot v with
  | none =>
      rw [ht] at h
      cases h
  | some t =>
      cases huser : t.user with
      | true => simpa [ht, huser] using h
      | false => simp [ht, huser] at h

def userLoad (m : Mem) (v : Word) : Option Word :=
  if v.toNat % 4 = 0 then tryLoadWord (userReadable m) v else none

/-- A store of an aligned word, which is on one page. -/
def userStore (m : Mem) (v w : Word) : Option Mem := do
  let t ← translateVa m bootstrapRoot v
  if v.toNat % 4 = 0 ∧ t.user = true ∧ t.writable = true then some (storeWord m t.paddr w)
  else none

/-! ## The stub -/

/-- `minemu_hello_uart_putchar`, assembled. -/
def minemuHelloUartPutchar : List Word := [
  -- push {r7, lr}
  0xe92d4080,
  -- mov r7, #MINEMU_HELLO_SYSCALL_UART_PUTCHAR
  0xe3a07001,
  -- svc #0
  0xef000000,
  -- pop {r7, pc}
  0xe8bd8080]

def pushR7Lr (m : Machine) : Option Machine := do
  let sp := m.sp .usr - 8
  let mem ← userStore m.mem sp (m.r 7)
  let mem ← userStore mem (sp + 4) (m.lr .usr)
  some { m with sp := Function.update m.sp .usr sp, pc := m.pc + 4, mem := mem }

def movR7 (m : Machine) : Machine :=
  { m with r := Function.update m.r 7 helloSyscallUartPutchar, pc := m.pc + 4 }

/-- A branch of A32 code, perhaps to Thumb code. -/
def branchExchange (m : Machine) (target : Word) : Machine :=
  if target.getLsbD 0 then { m with pc := target &&& ~~~1, cpsr := m.cpsr ||| cpsrThumb }
  else { m with pc := target &&& ~~~3 }

section

variable (m : Machine) (target : Word)

@[simp] theorem branchExchange_r : (branchExchange m target).r = m.r := by
  rw [branchExchange]
  split <;> rfl

@[simp] theorem branchExchange_sp : (branchExchange m target).sp = m.sp := by
  rw [branchExchange]
  split <;> rfl

@[simp] theorem branchExchange_lr : (branchExchange m target).lr = m.lr := by
  rw [branchExchange]
  split <;> rfl

@[simp] theorem branchExchange_mem : (branchExchange m target).mem = m.mem := by
  rw [branchExchange]
  split <;> rfl

theorem branchExchange_congr {m m' : Machine} (h : m.cpsr = m'.cpsr) :
    (branchExchange m target).pc = (branchExchange m' target).pc ∧
      (branchExchange m target).cpsr = (branchExchange m' target).cpsr := by
  rw [branchExchange, branchExchange]
  split
  · exact ⟨rfl, congrArg (· ||| cpsrThumb) h⟩
  · exact ⟨rfl, h⟩

theorem branchExchange_mode :
    (branchExchange m target).cpsr &&& cpsrModeMask = m.cpsr &&& cpsrModeMask := by
  rw [branchExchange]
  split
  · show (m.cpsr ||| cpsrThumb) &&& cpsrModeMask = _
    rw [BitVec.and_or_distrib_right, show cpsrThumb &&& cpsrModeMask = 0#32 by decide,
      BitVec.or_zero]
  · rfl

end

def popR7Pc (m : Machine) : Option Machine := do
  let r7 ← userLoad m.mem (m.sp .usr)
  let target ← userLoad m.mem (m.sp .usr + 4)
  some (branchExchange { m with
    r := Function.update m.r 7 r7
    sp := Function.update m.sp .usr (m.sp .usr + 8) } target)

/-- User code at the stub, with room for two words on the stack of the kernel's choice. -/
structure CallsPutchar (m : Machine) : Prop where
  user : FromUser m
  arm : thumb m.cpsr = false
  executable : ∀ i < 4, UserExecutable m.mem (m.pc + BitVec.ofNat 32 (4 * i))
  code : ∀ i < 4, userLoad m.mem (m.pc + BitVec.ofNat 32 (4 * i)) = minemuHelloUartPutchar[i]?
  low : userStackBottom.toNat + 8 ≤ (m.sp .usr).toNat
  high : (m.sp .usr).toNat ≤ userStackTop.toNat
  aligned : (m.sp .usr).toNat % 4 = 0

/-- The stub, from its first instruction in `m` to the return in `m'`. -/
def Putchar (L : Layout) (m : Machine) (t : Trap) (m' : Machine) : Prop :=
  ∃ a, pushR7Lr m = some a ∧ t.before = movR7 a ∧ SvcTrap L t.before t.after t.writes ∧
    popR7Pc t.after = some m'

def putcharResult (byte : Word) : Word := if byte ≤ 255 then 0 else helloSyscallError

/-- What the caller finds. -/
structure Returned (m m' : Machine) : Prop where
  r : m'.r = Function.update m.r 0 (putcharResult (m.r 0))
  sp : m'.sp .usr = m.sp .usr
  lr : m'.lr .usr = m.lr .usr
  target : m'.pc = (branchExchange m (m.lr .usr)).pc ∧
    m'.cpsr = (branchExchange m (m.lr .usr)).cpsr
  memory : ∀ v, v ∉ region (m.sp .usr - 8) 8 → userView m'.mem v = userView m.mem v

/-! ## Memory of user code in a run -/

def callObjects : List Object := [.userStack, .svcStack, .userSyscallObserved]

section

variable {L : Layout} {image : Image} {boot_info : BootInfo} {moduleOffset : Word}
  {ps : List (Word × Word)} {entered m m' : Mem} {v w : Word}

theorem callObjects_subset : callObjects ⊆ runObjects := by decide

structure OnStack (v : Word) : Prop where
  page : pageBase v = userStackBottom
  aligned : v.toNat % 4 = 0

def Layout.stackWord (L : Layout) (v : Word) : Word := L.paddr .userStack (v.toNat % 4096)

namespace UserEntered

variable (h : UserEntered L image boot_info moduleOffset ps entered)
  (hm : ChangedOnly (L.extents runObjects) entered m)

include h hm

theorem translate_onStack (hv : pageBase v = userStackBottom) :
    translateVa m bootstrapRoot v = some ⟨L.stackWord v, true, true, false, true⟩ := by
  rw [h.translate_kept hm]
  exact h.space.translate_stack hv

theorem userStore_onStack (hv : OnStack v) :
    userStore m v w = some (storeWord m (L.stackWord v) w) := by
  rw [userStore, h.translate_onStack hm hv.page, Option.bind_eq_bind, Option.bind_some,
    if_pos ⟨hv.aligned, rfl, rfl⟩]

theorem userLoad_onStack (hv : OnStack v) : userLoad m v = some (loadWord m (L.stackWord v)) := by
  rw [userLoad, if_pos hv.aligned]
  apply tryLoadWord_eq_some
  intro i hi
  have haligned := hv.aligned
  have ht := translate_add (h.translate_onStack hm hv.page) (k := i) (by omega)
  rw [userReadable, userView_of_translate ht rfl]
  rfl

/-- User code finds what it found as long as the bytes of its frames are the same. -/
theorem userView_kept (hm' : ChangedOnly (L.extents runObjects) entered m')
    (hbyte : ∀ t, translateVa m bootstrapRoot v = some t → t.user = true →
      m' t.paddr = m t.paddr) : userView m' v = userView m v := by
  have htranslate : translateVa m' bootstrapRoot v = translateVa m bootstrapRoot v :=
    (h.translate_kept hm' v).trans (h.translate_kept hm v).symm
  rw [userView, userView, htranslate]
  cases ht : translateVa m bootstrapRoot v with
  | none => rfl
  | some t =>
      cases huser : t.user with
      | false => simp [huser]
      | true => simp [huser, hbyte t ht huser]

theorem paddr_not_mem {os : List Object} (himage : .userImagePages ∉ os) (hstack : .userStack ∉ os)
    {t : Platform.Access} (ht : translateVa m bootstrapRoot v = some t) (huser : t.user = true) :
    t.paddr ∉ L.extents os := by
  rw [h.translate_kept hm] at ht
  rcases h.userMapped_cases ht huser with ⟨s, -, -, i, hi, -, rfl⟩ | ⟨-, rfl⟩
  · refine L.not_mem_extents himage (L.paddr_mem ?_)
    rw [Object.size_userImagePages]
    omega
  · refine L.not_mem_extents hstack (L.paddr_mem ?_)
    rw [Object.size_userStack]
    omega

theorem userView_executable (hcall : ChangedOnly (L.extents callObjects) m m')
    (hx : UserExecutable m v) : userView m' v = userView m v ∧ UserExecutable m' v := by
  have hm' := hm.trans (hcall.mono (L.extents_mono callObjects_subset))
  obtain ⟨t, ht, huser, hexec⟩ := hx
  refine ⟨h.userView_kept hm hm' fun t' ht' _ => hcall _ ?_, t, ?_, huser, hexec⟩
  · obtain rfl : t = t' := Option.some.inj (ht.symm.trans ht')
    rw [h.translate_kept hm] at ht
    rcases h.userMapped_cases ht huser with ⟨s, -, -, i, hi, -, rfl⟩ | ⟨-, rfl⟩
    · refine L.not_mem_extents (by decide) (L.paddr_mem ?_)
      rw [Object.size_userImagePages]
      omega
    · cases hexec
  · rw [h.translate_kept hm', ← h.translate_kept hm]
    exact ht

theorem userLoad_executable (hcall : ChangedOnly (L.extents callObjects) m m')
    (hx : UserExecutable m v) : userLoad m' v = userLoad m v := by
  unfold userLoad
  by_cases haligned : v.toNat % 4 = 0
  swap
  · rw [if_neg haligned, if_neg haligned]
  rw [if_pos haligned, if_pos haligned]
  apply tryLoadWord_congr
  intro i hi
  obtain ⟨t, ht, huser, hexec⟩ := hx
  have hxi : UserExecutable m (v + BitVec.ofNat 32 i) :=
    ⟨_, translate_add ht (by omega), huser, hexec⟩
  rw [userReadable, userReadable, (h.userView_executable hm hcall hxi).1]

end UserEntered

/-! ## The frame of the stub -/

theorem stackWord_toNat (L : Layout) (v : Word) :
    (L.stackWord v).toNat = (L.addr .userStack).toNat - 0x80000000 + v.toNat % 4096 := by
  apply L.paddr_toNat
  rw [Object.size_userStack]
  omega

/-- Addresses on the stack page and their places in RAM are equally far apart. -/
theorem mem_region_stackWord {n : Nat} (hv : pageBase v = userStackBottom)
    (hw : pageBase w = userStackBottom) :
    L.stackWord v ∈ region (L.stackWord w) n ↔ v ∈ region w n := by
  have hpage := pageBase_eq_iff.mp (hv.trans hw.symm)
  have hvbase := stackWord_toNat L v
  have hwbase := stackWord_toNat L w
  have hhigh := L.high .userStack
  rw [Object.size_userStack] at hhigh
  have hdiff : L.stackWord v - L.stackWord w = v - w := by bv_omega
  rw [mem_region, mem_region, hdiff]

theorem region_stackWord_subset (hv : OnStack v) : region (L.stackWord v) 4 ⊆ L.extent .userStack := by
  intro a ha
  have haligned := hv.aligned
  have hbase := stackWord_toNat L v
  have hhigh := L.high .userStack
  rw [Object.size_userStack] at hhigh
  rw [mem_region] at ha
  rw [L.mem_extent, Object.size_userStack]
  bv_omega

theorem UserEntered.region_stackWord_writable
    (h : UserEntered L image boot_info moduleOffset ps entered)
    (hm : ChangedOnly (L.extents runObjects) entered m) (hv : OnStack v) :
    region (L.stackWord v) 4 ⊆ userWritable m := by
  intro a ha
  rw [mem_region] at ha
  have haligned := hv.aligned
  have ht := translate_add (h.translate_onStack hm hv.page) (k := (a - L.stackWord v).toNat)
    (by omega)
  refine ⟨_, _, ht, rfl, rfl, ?_⟩
  show L.stackWord v + BitVec.ofNat 32 (a - L.stackWord v).toNat = a
  rw [BitVec.ofNat_toNat, BitVec.setWidth_eq, BitVec.add_comm, BitVec.sub_add_cancel]

end

namespace CallsPutchar

variable {L : Layout} {u : Machine}

theorem onStack (hcall : CallsPutchar u) :
    OnStack (u.sp .usr - 8) ∧ OnStack (u.sp .usr - 8 + 4) := by
  obtain ⟨-, -, -, -, hlow, hhigh, haligned⟩ := hcall
  rw [show userStackBottom.toNat = 0x007ff000 by decide] at hlow
  rw [show userStackTop.toNat = 0x00800000 by decide] at hhigh
  have hpage : ∀ v : Word, 0x007ff000 ≤ v.toNat → v.toNat < 0x00800000 →
      pageBase v = userStackBottom := by
    intro v hv hv'
    apply BitVec.eq_of_toNat_eq
    rw [pageBase_toNat, show userStackBottom.toNat = 0x007ff000 by decide]
    omega
  exact ⟨⟨hpage _ (by bv_omega) (by bv_omega), by bv_omega⟩,
    ⟨hpage _ (by bv_omega) (by bv_omega), by bv_omega⟩⟩

def saved (L : Layout) (u : Machine) : Mem :=
  storeWord (storeWord u.mem (L.stackWord (u.sp .usr - 8)) (u.r 7))
    (L.stackWord (u.sp .usr - 8 + 4)) (u.lr .usr)

theorem stackWord_next (hcall : CallsPutchar u) :
    L.stackWord (u.sp .usr - 8 + 4) = L.stackWord (u.sp .usr - 8) + 4 := by
  obtain ⟨hfirst, hsecond⟩ := hcall.onStack
  have hpage := pageBase_eq_iff.mp (hfirst.page.trans hsecond.page.symm)
  have haligned := hfirst.aligned
  have hhigh := L.high .userStack
  have hbase := stackWord_toNat L (u.sp .usr - 8)
  have hnext := stackWord_toNat L (u.sp .usr - 8 + 4)
  rw [Object.size_userStack] at hhigh
  bv_omega

theorem saved_frame (hcall : CallsPutchar u) :
    ChangedOnly (L.extent .userStack) u.mem (saved L u) := by
  obtain ⟨hfirst, hsecond⟩ := hcall.onStack
  exact ((storeWord_changedOnly _ _ _).mono (region_stackWord_subset hfirst)).storeWord
    (region_stackWord_subset hsecond) _

/-- Only the two words below the stack pointer are other than before. -/
theorem saved_changedOnly (hcall : CallsPutchar u) :
    ChangedOnly (region (L.stackWord (u.sp .usr - 8)) 8) u.mem (saved L u) := by
  refine ((storeWord_changedOnly _ _ _).mono fun a ha => ?_).storeWord (fun a ha => ?_) _
  · rw [mem_region] at ha ⊢
    omega
  · rw [hcall.stackWord_next, mem_region] at ha
    rw [mem_region]
    bv_omega

theorem region_frame_subset (hcall : CallsPutchar u) :
    region (L.stackWord (u.sp .usr - 8)) 8 ⊆ L.extent .userStack := by
  intro a ha
  obtain ⟨hfirst, hsecond⟩ := hcall.onStack
  have hnext := hcall.stackWord_next (L := L)
  by_cases hlow : a ∈ region (L.stackWord (u.sp .usr - 8)) 4
  · exact region_stackWord_subset hfirst hlow
  · apply region_stackWord_subset hsecond
    rw [mem_region] at ha hlow
    rw [hnext, mem_region]
    bv_omega

theorem load_saved (hcall : CallsPutchar u) :
    loadWord (saved L u) (L.stackWord (u.sp .usr - 8)) = u.r 7 ∧
      loadWord (saved L u) (L.stackWord (u.sp .usr - 8 + 4)) = u.lr .usr := by
  refine ⟨?_, loadWord_storeWord_self _ _ _⟩
  rw [saved, hcall.stackWord_next, loadWord_storeWord_of_apart _ _ (by bv_omega) (by bv_omega),
    loadWord_storeWord_self]

/-! ## The instructions before the trap -/

def pushed (L : Layout) (u : Machine) : Machine :=
  { u with
    sp := Function.update u.sp .usr (u.sp .usr - 8)
    pc := u.pc + 4
    mem := saved L u }

def requesting (L : Layout) (u : Machine) : Machine := movR7 (pushed L u)

theorem requesting_pc (hcall : CallsPutchar u) :
    (requesting L u).pc = u.pc + 8 ∧ u.pc.toNat % 4 = 0 := by
  have hcode := hcall.code 0 (by omega)
  refine ⟨BitVec.add_assoc u.pc 4 4, ?_⟩
  rw [Nat.mul_zero, BitVec.add_zero, userLoad] at hcode
  by_contra hne
  rw [if_neg hne] at hcode
  cases hcode

variable {image : Image} {boot_info : BootInfo} {moduleOffset : Word} {ps : List (Word × Word)}
  {entered : Mem} {sp : Word}

section

variable (h : UserEntered L image boot_info moduleOffset ps entered)
  (hu : Confined L entered sp u) (hcall : CallsPutchar u)

include h hu hcall

theorem pushR7Lr_eq : pushR7Lr u = some (pushed L u) := by
  obtain ⟨hfirst, hsecond⟩ := hcall.onStack
  have hm := hu.memory.mono h.runBytes_subset
  have hstore := (storeWord_changedOnly u.mem (L.stackWord (u.sp .usr - 8)) (u.r 7)).mono
    (region_stackWord_subset hfirst)
  have hm' := hm.trans (hstore.mono fun _ ha => ⟨.userStack, by decide, ha⟩)
  rw [pushR7Lr, h.userStore_onStack hm hfirst, Option.bind_eq_bind, Option.bind_some,
    h.userStore_onStack hm' hsecond, Option.bind_some]
  rfl

theorem userStep_push : UserStep u (pushed L u) where
  user := hcall.user
  fetch := by simpa using hcall.executable 0 (by omega)
  stays := hcall.user
  spSvc := Function.update_of_ne (by decide : Bank.svc ≠ .usr) (u.sp .usr - 8) u.sp
  memory := by
    obtain ⟨hfirst, hsecond⟩ := hcall.onStack
    have hm := hu.memory.mono h.runBytes_subset
    have hstore := (storeWord_changedOnly u.mem (L.stackWord (u.sp .usr - 8)) (u.r 7)).mono
      (h.region_stackWord_writable hm hfirst)
    exact hstore.storeWord (h.region_stackWord_writable hm hsecond) (u.lr .usr)

theorem code_requesting {i : Nat} (hi : i < 4) :
    UserExecutable (saved L u) (u.pc + BitVec.ofNat 32 (4 * i)) ∧
      userLoad (saved L u) (u.pc + BitVec.ofNat 32 (4 * i)) = minemuHelloUartPutchar[i]? := by
  have hm := hu.memory.mono h.runBytes_subset
  have hsaved : ChangedOnly (L.extents callObjects) u.mem (saved L u) :=
    (hcall.saved_frame (L := L)).mono fun _ ha => ⟨.userStack, by decide, ha⟩
  exact ⟨(h.userView_executable hm hsaved (hcall.executable i hi)).2,
    (h.userLoad_executable hm hsaved (hcall.executable i hi)).trans (hcall.code i hi)⟩

theorem userStep_mov : UserStep (pushed L u) (requesting L u) where
  user := hcall.user
  fetch := (code_requesting h hu hcall (i := 1) (by omega)).1
  stays := hcall.user
  spSvc := rfl
  memory := ChangedOnly.refl _ _

theorem confined_requesting (hroom : SvcRoom L sp) : Confined L entered sp (requesting L u) :=
  (hu.step h hroom (.user (userStep_push h hu hcall))).step h hroom
    (.user (userStep_mov h hu hcall))

theorem atSvc_requesting : AtSvc (requesting L u) := by
  obtain ⟨hpc, haligned⟩ := hcall.requesting_pc
  refine ⟨hcall.user, ?_, fun _ => ?_⟩
  · rw [hpc]
    exact (code_requesting h hu hcall (i := 2) (by omega)).1
  · rw [hpc]
    bv_omega

theorem faultWord_requesting (hroom : SvcRoom L sp) :
    faultWord (requesting L u) = some 0xef000000 := by
  have hconfined := confined_requesting h hu hcall hroom
  have hat := atSvc_requesting h hu hcall
  have hpc : (svcFrame (requesting L u)).faultPc = (requesting L u).pc := by
    have harm : thumb (requesting L u).cpsr = false := hcall.arm
    simp only [svcFrame, harm]
    exact BitVec.add_sub_cancel _ 4
  have hsvc := SvcRoom.svcCall_changedOnly (L := L) (hconfined.spSvc ▸ hroom)
  have hkept : userLoad (svcCall (requesting L u)).mem (requesting L u).pc =
      userLoad (requesting L u).mem (requesting L u).pc :=
    h.userLoad_executable (hconfined.memory.mono h.runBytes_subset)
      (hsvc.mono fun _ ha => ⟨.svcStack, by decide, ha⟩) hat.fetch
  have hword : userLoad (requesting L u).mem (requesting L u).pc = some 0xef000000 := by
    rw [(hcall.requesting_pc).1]
    exact (code_requesting h hu hcall (i := 2) (by omega)).2
  rw [← hkept, userLoad] at hword
  rw [faultWord, hpc]
  split at hword
  · exact tryLoadWord_mono (fun _ _ hb => virtualByte_of_userReadable hb) hword
  · cases hword

theorem accepted_requesting (hroom : SvcRoom L sp) :
    Accepted (requesting L u) ↔ u.r 0 ≤ 255 := by
  have hr7 : (requesting L u).r 7 = helloSyscallUartPutchar := by
    simp [requesting, movR7]
  exact ⟨fun hacc => hacc.2.2.2.2, fun hbyte => ⟨hcall.user, hcall.arm,
    faultWord_requesting h hu hcall hroom, hr7, hbyte⟩⟩

end

/-! ## The trap and the return -/

/-- The machine that the trap returns to, with the stub's registers. -/
structure Answer (L : Layout) (u m : Machine) : Prop where
  r : m.r = Function.update (Function.update u.r 7 1) 0 (putcharResult (u.r 0))
  sp : m.sp .usr = u.sp .usr - 8
  lr : m.lr .usr = u.lr .usr
  cpsr : m.cpsr = u.cpsr
  pc : m.pc = u.pc + 12
  memory : ChangedOnly (L.extents [.svcStack, .userSyscallObserved]) (saved L u) m.mem

section

variable (h : UserEntered L image boot_info moduleOffset ps entered)
  (hu : Confined L entered sp u) (hcall : CallsPutchar u) (hroom : SvcRoom L sp)

include h hu hcall hroom

theorem answer_of_trap {m : Machine} {writes : List DeviceWrite}
    (htrap : SvcTrap L (requesting L u) m writes) : Answer L u m := by
  have hconfined := confined_requesting h hu hcall hroom
  have hserved := htrap.served (hconfined.spSvc ▸ hroom)
  obtain ⟨hpc, haligned⟩ := hcall.requesting_pc (L := L)
  have hresumes := hserved.resumes
  have harm : thumb (requesting L u).cpsr = false := hcall.arm
  refine ⟨?_, ?_, hresumes.lrUsr, hresumes.cpsr, ?_, hserved.memory⟩
  · rw [hresumes.r, putcharResult]
    simp only [accepted_requesting h hu hcall hroom]
    rfl
  · rw [hresumes.spUsr]
    exact Function.update_self Bank.usr (u.sp .usr - 8) u.sp
  · rw [hresumes.pc, harm, hpc]
    show (u.pc + 8 + 4) &&& ~~~3 = u.pc + 12
    rw [and_not_three_eq_self (by bv_omega), BitVec.add_assoc]
    rfl

end

namespace Answer

variable {m : Machine} (hm : ChangedOnly (L.extents runObjects) entered m.mem)
  (h : UserEntered L image boot_info moduleOffset ps entered) (hcall : CallsPutchar u)
  (hanswer : Answer L u m)

include hm h hcall hanswer

/-- The stub finds what it has saved. -/
theorem popR7Pc_eq :
    popR7Pc m = some (branchExchange { m with
      r := Function.update m.r 7 (u.r 7)
      sp := Function.update m.sp .usr (u.sp .usr) } (u.lr .usr)) := by
  obtain ⟨hfirst, hsecond⟩ := hcall.onStack
  obtain ⟨hr7, hlr⟩ := hcall.load_saved (L := L)
  have hkept : ∀ {v}, OnStack v → loadWord m.mem (L.stackWord v) =
      loadWord (saved L u) (L.stackWord v) := by
    intro v hv
    have haligned := hv.aligned
    refine L.loadWord_frame hanswer.memory (by decide) ?_
    rw [Object.size_userStack]
    omega
  rw [popR7Pc, hanswer.sp, h.userLoad_onStack hm hfirst, Option.bind_eq_bind, Option.bind_some,
    h.userLoad_onStack hm hsecond, Option.bind_some, hkept hfirst, hkept hsecond, hr7, hlr,
    BitVec.sub_add_cancel]

/-- The frame is off the kernel's objects, and the rest of the user's memory off the frame. -/
theorem userView_eq (hu : ChangedOnly (L.extents runObjects) entered u.mem) {v : Word}
    (hv : v ∉ region (u.sp .usr - 8) 8) : userView m.mem v = userView u.mem v := by
  have hstack := hcall.onStack.1.page
  have hsaved := hcall.saved_changedOnly (L := L)
  have hmid : ChangedOnly (L.extents runObjects) entered (saved L u) :=
    hu.trans ((hcall.saved_frame (L := L)).mono fun _ ha => ⟨.userStack, by decide, ha⟩)
  calc userView m.mem v
      = userView (saved L u) v := h.userView_kept hmid hm fun t ht huser =>
        hanswer.memory _ (h.paddr_not_mem hmid (by decide) (by decide) ht huser)
    _ = userView u.mem v := h.userView_kept hu hmid fun t ht huser => by
        apply hsaved
        rw [h.translate_kept hu] at ht
        rcases h.userMapped_cases ht huser with ⟨s, -, -, i, hi, -, rfl⟩ | ⟨hpage, rfl⟩
        · have hframe : L.paddr .userImagePages (4096 * i + v.toNat % 4096) ∈
              L.extent .userImagePages := L.paddr_mem (by rw [Object.size_userImagePages]; omega)
          exact fun hmem => L.not_mem_extent (by decide) hframe
            (hcall.region_frame_subset hmem)
        · exact fun hmem => hv ((mem_region_stackWord hpage hstack).mp hmem)

theorem userStep_pop (hu : Confined L entered sp u) {m' : Machine} (hpop : popR7Pc m = some m') :
    UserStep m m' := by
  have huser : FromUser m := (congrArg (· &&& cpsrModeMask) hanswer.cpsr).trans hcall.user
  have hfetch := (code_requesting h hu hcall (i := 3) (by omega)).1
  have hmid : ChangedOnly (L.extents runObjects) entered (saved L u) :=
    (hu.memory.mono h.runBytes_subset).trans
      ((hcall.saved_frame (L := L)).mono fun _ ha => ⟨.userStack, by decide, ha⟩)
  have hcallee : ChangedOnly (L.extents callObjects) (saved L u) m.mem :=
    hanswer.memory.mono (L.extents_mono (by decide))
  obtain rfl := Option.some.inj (hpop.symm.trans (hanswer.popR7Pc_eq hm h hcall))
  refine ⟨huser, ?_, (branchExchange_mode _ _).trans huser, ?_, ?_⟩
  · rw [hanswer.pc]
    exact (h.userView_executable hmid hcallee hfetch).2
  · rw [branchExchange_sp]
    exact Function.update_of_ne (by decide : Bank.svc ≠ .usr) (u.sp .usr) m.sp
  · rw [branchExchange_mem]
    exact ChangedOnly.refl _ _

theorem returned (hu : ChangedOnly (L.extents runObjects) entered u.mem) {m' : Machine}
    (hpop : popR7Pc m = some m') : Returned u m' := by
  obtain rfl := Option.some.inj (hpop.symm.trans (hanswer.popR7Pc_eq hm h hcall))
  refine ⟨?_, ?_, ?_, branchExchange_congr _ hanswer.cpsr, fun v hv => ?_⟩
  · have hother : (7 : Fin 13) ≠ 0 := by decide
    rw [branchExchange_r]
    show Function.update m.r 7 (u.r 7) = _
    rw [hanswer.r, Function.update_comm hother, Function.update_idem,
      Function.update_comm hother.symm, Function.update_eq_self]
  · rw [branchExchange_sp]
    exact Function.update_self Bank.usr (u.sp .usr) m.sp
  · rw [branchExchange_lr]
    exact hanswer.lr
  · rw [branchExchange_mem]
    exact hanswer.userView_eq hm h hcall hu hv

end Answer

/-! ## A call -/

section

variable (h : UserEntered L image boot_info moduleOffset ps entered) (hroom : SvcRoom L sp)
  (hu : Confined L entered sp u) (hcall : CallsPutchar u)

include h hroom hu hcall

/-- The call gets through. -/
theorem exists_putchar : ∃ t u', Putchar L u t u' := by
  have hat := confined_requesting h hu hcall hroom
  have hword := faultWord_requesting h hu hcall hroom
  have hreads : FromUser (requesting L u) → thumb (requesting L u).cpsr = false →
      (faultWord (requesting L u)).isSome := fun _ _ => Option.isSome_of_mem hword
  obtain ⟨m, writes, htrap⟩ := (exists_svcTrap_iff (L := L)).mpr hreads
  have hanswer := answer_of_trap h hu hcall hroom htrap
  have hm := (hat.step h hroom (.svc writes (atSvc_requesting h hu hcall) htrap)).memory
  exact ⟨⟨requesting L u, m, writes⟩, _, pushed L u, pushR7Lr_eq h hu hcall, rfl, htrap,
    hanswer.popR7Pc_eq (hm.mono h.runBytes_subset) h hcall⟩

/-- The steps of the stub are steps of user code and one trap, which makes the request; to the
caller the call is as it should be. -/
theorem putchar_spec {t : Trap} {u' : Machine} (hrun : Putchar L u t u') :
    HelloRun L u [t] u' ∧ Returned u u' ∧
      acceptedBytes [t] = if u.r 0 ≤ 255 then [u.r 0] else [] := by
  obtain ⟨before, m, writes⟩ := t
  obtain ⟨a, hpush, hbefore, htrap, hpop⟩ := hrun
  obtain rfl : pushed L u = a := Option.some.inj ((pushR7Lr_eq h hu hcall).symm.trans hpush)
  obtain rfl : before = requesting L u := hbefore
  have hat := atSvc_requesting h hu hcall
  have hanswer := answer_of_trap h hu hcall hroom htrap
  have hm := ((confined_requesting h hu hcall hroom).step h hroom (.svc writes hat htrap)).memory
  have heven : (requesting L u).pc.toNat % 2 = 0 := by
    have haligned := hat.aligned hcall.arm
    omega
  refine ⟨?_, ?_, ?_⟩
  · refine .user (userStep_push h hu hcall) (.user (userStep_mov h hu hcall) ?_)
    refine .svc (t := ⟨requesting L u, m, writes⟩) hat heven htrap (.user ?_ (.refl u'))
    exact hanswer.userStep_pop (hm.mono h.runBytes_subset) h hcall hu hpop
  · exact hanswer.returned (hm.mono h.runBytes_subset) h hcall
      (hu.memory.mono h.runBytes_subset) hpop
  · have hr0 : (requesting L u).r 0 = u.r 0 := rfl
    rw [acceptedBytes, List.filter_cons]
    by_cases hbyte : u.r 0 ≤ 255
    · rw [if_pos (decide_eq_true ((accepted_requesting h hu hcall hroom).mpr hbyte)), if_pos hbyte]
      exact congrArg (fun w => [w]) hr0
    · have hrefused : ¬ Accepted (requesting L u) :=
        fun hacc => hbyte ((accepted_requesting h hu hcall hroom).mp hacc)
      rw [if_neg (by simpa using hrefused), if_neg hbyte]
      rfl

end

end CallsPutchar

/-! ## A call in a run from reset -/

theorem acceptedBytes_append (ts ts' : List Trap) :
    acceptedBytes (ts ++ ts') = acceptedBytes ts ++ acceptedBytes ts' := by
  unfold acceptedBytes
  rw [List.filter_append, List.map_append]

/-- The small image at reset with the stub in place of its code. -/
def putcharMemory : Mem :=
  let m := storeWord (resetMemory 0xa5) (systemRomBase + 0xa8) 0x10
  let m := storeWord m (systemRomBase + 0xc0) 0xe92d4080
  let m := storeWord m (systemRomBase + 0xc4) 0xe3a07001
  let m := storeWord m (systemRomBase + 0xc8) 0xef000000
  storeWord m (systemRomBase + 0xcc) 0xe8bd8080

def putcharMachine : Machine := { resetMachine 0xa5 with mem := putcharMemory }

def putcharSegment : ModuleSegment := ⟨0xc0, 0x00400000, 0x10, 0x10, 5⟩

theorem putcharMemory_packed : Packed putcharMemory :=
  packed_of_header (by decide +kernel)

theorem packedImage_putcharMemory :
    (packedImage putcharMemory).size = 0x100 ∧
      TableFits (packedImage putcharMemory) (packedBootInfo putcharMemory) ∧
      recordOffset (packedBootInfo putcharMemory) 0 = 0x40 ∧
      (packedImage putcharMemory).moduleRecordAt 0x40 = sampleRecord ∧
      moduleSegments (packedImage putcharMemory) sampleRecord = [putcharSegment] := by
  rw [TableFits]
  decide +kernel

theorem putcharMemory_enters :
    Enters (packedImage putcharMemory) (packedBootInfo putcharMemory) 0x40 := by
  obtain ⟨hsize, hfits, hoffset, hrecord, hsegments⟩ := packedImage_putcharMemory
  have hnamed : FirstNamed (packedImage putcharMemory) (packedBootInfo putcharMemory)
      moduleName 0 := by
    refine ⟨by decide +kernel, ?_, fun j hj => absurd hj (Nat.not_lt_zero j)⟩
    rw [hoffset, hrecord]
    decide +kernel
  have hpage : ∀ v, Covers putcharSegment v → pageBase v = 0x00400000 :=
    fun v hv => hv.pageBase_eq (by decide) (by decide)
  have hwell : WellFormed (packedImage putcharMemory) sampleRecord := by
    refine wellFormed_of_page hsegments (f := 5) (by decide) (by rw [hsize]; decide) (by decide)
      (List.forall_mem_singleton.mpr ?_) (List.forall_mem_singleton.mpr hpage)
      (List.forall_mem_singleton.mpr rfl) ?_
    · decide +kernel
    · exact ⟨putcharSegment, List.mem_singleton_self _, by decide, by decide, by decide, by decide⟩
  exact enters_of_header hsize hfits hoffset hrecord hnamed hwell

theorem programView_putchar : ∀ i < 4,
    tryLoadWord (fun v => do
        let b ← programView (packedImage putcharMemory) [putcharSegment] v
        if b.readable then some b.byte else none) (0x00400000 + BitVec.ofNat 32 (4 * i)) =
      minemuHelloUartPutchar[i]? ∧
    (programView (packedImage putcharMemory) [putcharSegment]
      (0x00400000 + BitVec.ofNat 32 (4 * i))).any (·.executable) := by
  decide +kernel

theorem userExecutable_of_userView {m : Mem} {v : Word}
    (h : (userView m v).any (·.executable) = true) : UserExecutable m v := by
  rw [userView] at h
  cases ht : translateVa m bootstrapRoot v with
  | none => simp [ht] at h
  | some t =>
      cases huser : t.user with
      | false => simp [ht, huser] at h
      | true => exact ⟨t, ht, huser, by simpa [ht, huser] using h⟩

theorem UserEntered.userView_spilled (h : UserEntered L image boot_info moduleOffset ps entered)
    (hm : ChangedOnly (L.extent .svcStack) entered m) : userView m = userView entered := by
  funext v
  have hrefl : ChangedOnly (L.extents runObjects) entered entered := ChangedOnly.refl _ _
  refine h.userView_kept hrefl (hm.mono fun _ ha => ⟨.svcStack, by decide, ha⟩) fun t ht huser => ?_
  apply hm
  have hoff : t.paddr ∉ L.extents [.svcStack] :=
    h.paddr_not_mem hrefl (by decide) (by decide) ht huser
  exact fun hmem => hoff ⟨.svcStack, by decide, hmem⟩

theorem callsPutchar_entered {L : Layout} (hroom : SvcRoom L 0xc0058000)
    (h : UserEntered L image boot_info moduleOffset ps entered)
    (hview : userView entered = programView (packedImage putcharMemory) [putcharSegment]) :
    CallsPutchar (onKernelView (block minemuEnterUser) (enteringMachine entered)) ∧
      (onKernelView (block minemuEnterUser) (enteringMachine entered)).r 0 = 0 := by
  obtain ⟨mem, heq, hstack⟩ := minemuEnterUser_onKernelView (L := L)
    (enteringMachine_bank entered) hroom
  have hmem : userView mem = programView (packedImage putcharMemory) [putcharSegment] :=
    (h.userView_spilled hstack).trans hview
  have hpc : (enteredUser (enteringMachine entered)).pc = 0x00400000 :=
    (by decide : (enteredUser (callingMachine 0)).pc = 0x00400000)
  have hsp : (enteredUser (enteringMachine entered)).sp .usr = 0x00800000 :=
    (by decide : (enteredUser (callingMachine 0)).sp .usr = 0x00800000)
  rw [heq]
  refine ⟨⟨(by decide : FromUser (enteredUser (callingMachine 0))),
    (by decide : thumb (enteredUser (callingMachine 0)).cpsr = false), fun i hi => ?_,
    fun i hi => ?_, ?_, ?_, ?_⟩, (by decide : (enteredUser (callingMachine 0)).r 0 = 0)⟩
  · apply userExecutable_of_userView
    rw [hmem, hpc]
    exact (programView_putchar i hi).2
  · show userLoad mem ((enteredUser (enteringMachine entered)).pc + _) = _
    rw [hpc, userLoad, if_pos (by bv_omega), ← (programView_putchar i hi).1, ← hmem]
    rfl
  all_goals
    rw [hsp]
    decide

end Minemu.Hello
