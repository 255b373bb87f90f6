import Minemu.Hello.EnterUser
import Minemu.Hello.Main
import Minemu.Hello.SvcTrap
import Mathlib.Logic.Relation

/-!
# User code against the user-mode kernel

After the kernel has entered user mode, user code runs and traps in any order.  What
it can reach through the page tables never includes the tables.
-/

namespace Minemu.Hello

open Minemu.Lib.Memory Minemu.Lib.Page Minemu.Lib.Registry Minemu.Lib.Arm Minemu.Platform
open Minemu.Trap Minemu.Startup.BootstrapMap Minemu.Startup.BootstrapWalk

/-! ## Steps -/

def userFrames (m : Mem) : Set Word :=
  {a | ∃ v t, translateVa m bootstrapRoot v = some t ∧ t.user = true ∧
    pageBase t.paddr = pageBase a}

def userWritable (m : Mem) : Set Word :=
  {a | ∃ v t, translateVa m bootstrapRoot v = some t ∧ t.user = true ∧ t.writable = true ∧
    t.paddr = a}

def UserExecutable (m : Mem) (v : Word) : Prop :=
  ∃ t, translateVa m bootstrapRoot v = some t ∧ t.user = true ∧ t.executable = true

/-- One instruction of user code: it may leave anything in the registers of its mode and in
the bytes it may write. -/
structure UserStep (m m' : Machine) : Prop where
  user : FromUser m
  fetch : UserExecutable m.mem m.pc
  stays : FromUser m'
  spSvc : m'.sp .svc = m.sp .svc
  memory : ChangedOnly (userWritable m.mem) m.mem m'.mem

structure AtSvc (m : Machine) : Prop where
  user : FromUser m
  fetch : UserExecutable m.mem m.pc
  aligned : thumb m.cpsr = false → m.pc.toNat % 4 = 0

inductive HelloStep (L : Layout) (m m' : Machine) : Prop where
  | user (h : UserStep m m')
  | svc (writes : List DeviceWrite) (h : AtSvc m) (htrap : SvcTrap L m m' writes)

structure Isolated (L : Layout) (start m : Machine) : Prop where
  tables : ∀ o ∈ [Object.pageDirectory, .bootTables, .systemRomTables, .userPageTable],
    ∀ a ∈ L.extent o, m.mem a = start.mem a
  ram : ChangedOnly
    (userFrames start.mem ∪ L.extent .svcStack ∪ L.extent .userSyscallObserved) start.mem m.mem
  direct : ∀ v, kernelDirectBase ≤ v → v < kernelDirectBase + kernelDirectSize →
    virtualByte m.mem bootstrapRoot v = some (kernelView m.mem v)
  instruction : AtSvc m → thumb m.cpsr = false → (svcFrame m).faultPc.toNat % 4 = 0 ∧
    ∀ i < 4, ∃ t, translateVa (svcCall m).mem bootstrapRoot
      ((svcFrame m).faultPc + BitVec.ofNat 32 i) = some t ∧ t.readable = true
  returns : AtSvc m → ∃ m' writes, SvcTrap L m m' writes

/-! ## The tables under writes elsewhere -/

def runObjects : List Object := [.userImagePages, .userStack, .svcStack, .userSyscallObserved]

variable {L : Layout} {m m' : Mem}

namespace UserEntered

variable {image : Image} {boot_info : BootInfo} {moduleOffset : Word} {ps : List (Word × Word)}

theorem kernelTables_kept (h : UserEntered L image boot_info moduleOffset ps m)
    (hm : ChangedOnly (L.extents runObjects) m m') :
    KernelTables L (romPageCount boot_info.imageSize) m' :=
  h.kernel.frame hm (by decide) (by decide) h.rom.pages_le fun d hd _ =>
    L.loadWord_frame hm (by decide) (by rw [Object.size_pageDirectory]; omega)

theorem translate_kept (h : UserEntered L image boot_info moduleOffset ps m)
    (hm : ChangedOnly (L.extents runObjects) m m') (v : Word) :
    translateVa m' bootstrapRoot v = translateVa m bootstrapRoot v := by
  by_cases hv : v.toNat / 2 ^ 22 = 1
  · have hentry : bootstrapRoot + BitVec.ofNat 32 (4 * (v.toNat / 2 ^ 22)) =
        L.paddr .pageDirectory 4 := by
      rw [hv, L.pageDirectory_paddr, bootstrapRoot]
    have htable : pageBase (loadWord m (L.paddr .pageDirectory 4)) = L.paddr .userPageTable 0 := by
      rw [h.space.directory]
      exact pageBase_or (L.pageAligned_base (by decide)) (by decide)
    have hwalk : walk m' bootstrapRoot v = walk m bootstrapRoot v := by
      apply walk_congr
      · rw [hentry]
        exact L.loadWord_frame hm (by decide) (by decide)
      · rw [hentry, htable]
        rintro table rfl
        rw [L.paddr_add]
        exact L.loadWord_frame hm (by decide) (by rw [Object.size_userPageTable]; omega)
    rw [translateVa, translateVa, hwalk]
  · rw [translate_kernel (h.kernelTables_kept hm) h.rom.pages_le hv,
      translate_kernel h.kernel h.rom.pages_le hv]

theorem userFrames_subset (h : UserEntered L image boot_info moduleOffset ps m) :
    userFrames m ⊆ L.extents [.userImagePages, .userStack] := by
  rintro a ⟨v, t, ht, huser, hpage⟩
  have ha := pageBase_toNat a
  rw [← hpage] at ha
  rcases h.frame_cases ht huser with ⟨i, hi, -, hframe⟩ | ⟨-, hframe⟩
  · have hbase := L.paddr_toNat .userImagePages (k := 4096 * i) (by
      rw [Object.size_userImagePages]
      omega)
    rw [hframe] at ha
    refine ⟨.userImagePages, by simp, ?_⟩
    rw [L.mem_extent, Object.size_userImagePages]
    omega
  · have hbase := L.paddr_toNat .userStack (Nat.zero_le _)
    rw [hframe] at ha
    refine ⟨.userStack, by simp, ?_⟩
    rw [L.mem_extent, Object.size_userStack]
    omega

/-- Everything on the page of an address that user code may execute can be read. -/
theorem readable_of_executable (h : UserEntered L image boot_info moduleOffset ps m) {v w : Word}
    (hx : UserExecutable m v) (hpage : pageBase w = pageBase v) :
    ∃ t, translateVa m bootstrapRoot w = some t ∧ t.readable = true := by
  obtain ⟨t, ht, huser, hexec⟩ := hx
  rcases h.userMapped_cases ht huser with ⟨s, hs, ⟨x, hcov, hxv⟩, i, -, -, rfl⟩ | ⟨-, rfl⟩
  · have hflag : s.flags &&& segmentExecutable ≠ 0 := bne_iff_ne.mp hexec
    obtain ⟨j, -, htrans⟩ := h.space.translate_page hs hcov (hxv.trans hpage.symm)
    exact ⟨_, htrans, bne_iff_ne.mpr ((h.space.valid s hs).executable hflag)⟩
  · cases hexec

end UserEntered

/-! ## The invariant -/

def runBytes (L : Layout) (m : Mem) : Set Word :=
  userFrames m ∪ L.extent .svcStack ∪ L.extent .userSyscallObserved

/-- What every step keeps, from memory `entered` and with the SVC stack pointer `sp`. -/
structure Confined (L : Layout) (entered : Mem) (sp : Word) (m : Machine) : Prop where
  user : FromUser m
  spSvc : m.sp .svc = sp
  memory : ChangedOnly (runBytes L entered) entered m.mem

section

variable {image : Image} {boot_info : BootInfo} {moduleOffset : Word} {ps : List (Word × Word)}
  {entered : Mem} {sp : Word} {u u' : Machine}

theorem svcStack_subset_runBytes (L : Layout) (m : Mem) : L.extent .svcStack ⊆ runBytes L m :=
  fun _ ha => Or.inl (Or.inr ha)

theorem UserEntered.runBytes_subset
    (h : UserEntered L image boot_info moduleOffset ps entered) :
    runBytes L entered ⊆ L.extents runObjects := by
  rintro a ((ha | ha) | ha)
  · exact L.extents_mono (by decide) (h.userFrames_subset ha)
  · exact ⟨_, by simp [runObjects], ha⟩
  · exact ⟨_, by simp [runObjects], ha⟩

/-- User code may write no more than at entry. -/
theorem Confined.userWritable_subset (h : UserEntered L image boot_info moduleOffset ps entered)
    (hu : Confined L entered sp u) : userWritable u.mem ⊆ runBytes L entered := by
  rintro a ⟨v, t, ht, huser, -, rfl⟩
  rw [h.translate_kept (hu.memory.mono h.runBytes_subset)] at ht
  exact Or.inl (Or.inl ⟨v, t, ht, huser, rfl⟩)

theorem Confined.step (h : UserEntered L image boot_info moduleOffset ps entered)
    (hroom : SvcRoom L sp) (hu : Confined L entered sp u) (hstep : HelloStep L u u') :
    Confined L entered sp u' := by
  cases hstep with
  | user huser =>
      exact ⟨huser.stays, huser.spSvc.trans hu.spSvc,
        hu.memory.trans (huser.memory.mono (hu.userWritable_subset h))⟩
  | svc writes hat htrap =>
      have hserved := htrap.served (hu.spSvc ▸ hroom)
      have hbytes : L.extents [.svcStack, .userSyscallObserved] ⊆ runBytes L entered := by
        rintro a ⟨o, ho, ha⟩
        rcases List.mem_pair.mp ho with rfl | rfl
        · exact svcStack_subset_runBytes L entered ha
        · exact Or.inr ha
      refine ⟨?_, hserved.resumes.spSvc.trans hu.spSvc,
        hu.memory.trans (hserved.memory.mono hbytes)⟩
      rw [FromUser, hserved.resumes.cpsr]
      exact hu.user

theorem Confined.run (h : UserEntered L image boot_info moduleOffset ps entered)
    (hroom : SvcRoom L sp) (hu : Confined L entered sp u)
    (hrun : Relation.ReflTransGen (HelloStep L) u u') : Confined L entered sp u' := by
  induction hrun with
  | refl => exact hu
  | tail _ hstep ih => exact ih.step h hroom hstep

/-! ## What the invariant gives -/

theorem pageBase_add_of_aligned {v : Word} (hv : v.toNat % 4 = 0) {i : Nat} (hi : i < 4) :
    pageBase (v + BitVec.ofNat 32 i) = pageBase v := by
  have hbase := pageBase_toNat v
  have hbase' := pageBase_toNat (v + BitVec.ofNat 32 i)
  apply BitVec.eq_of_toNat_eq
  rw [hbase, hbase']
  bv_omega

/-- The dispatcher's load of an instruction of A32 user code. -/
theorem Confined.instruction (h : UserEntered L image boot_info moduleOffset ps entered)
    (hroom : SvcRoom L sp) (hu : Confined L entered sp u) (hat : AtSvc u)
    (hA32 : thumb u.cpsr = false) :
    (svcFrame u).faultPc.toNat % 4 = 0 ∧
      ∀ i < 4, ∃ t, translateVa (svcCall u).mem bootstrapRoot
        ((svcFrame u).faultPc + BitVec.ofNat 32 i) = some t ∧ t.readable = true := by
  have haligned := hat.aligned hA32
  have hpc : (svcFrame u).faultPc = u.pc := by
    simp only [svcFrame, hA32]
    exact BitVec.add_sub_cancel u.pc 4
  have hentry := SvcRoom.svcCall_changedOnly (hu.spSvc ▸ hroom)
  have hcall : ChangedOnly (runBytes L entered) entered (svcCall u).mem :=
    hu.memory.trans (hentry.mono (svcStack_subset_runBytes L entered))
  have hfetch : UserExecutable entered u.pc := by
    obtain ⟨t, ht, hexec⟩ := hat.fetch
    rw [h.translate_kept (hu.memory.mono h.runBytes_subset)] at ht
    exact ⟨t, ht, hexec⟩
  rw [hpc]
  refine ⟨haligned, fun i hi => ?_⟩
  rw [h.translate_kept (hcall.mono h.runBytes_subset)]
  exact h.readable_of_executable hfetch (pageBase_add_of_aligned haligned hi)

theorem faultWord_isSome_of_readable
    (h : ∀ i < 4, ∃ t, translateVa (svcCall u).mem bootstrapRoot
      ((svcFrame u).faultPc + BitVec.ofNat 32 i) = some t ∧ t.readable = true) :
    (faultWord u).isSome := by
  apply tryLoadWord_isSome
  intro i hi
  obtain ⟨t, ht, hread⟩ := h i hi
  rw [virtualByte, ht, Option.bind_eq_bind, Option.bind_some, if_pos hread]
  rfl

theorem Confined.isolated (h : UserEntered L image boot_info moduleOffset ps entered)
    (hroom : SvcRoom L sp) (hu : Confined L entered sp u) (hu' : Confined L entered sp u') :
    Isolated L u u' := by
  have hkept := hu.memory.mono h.runBytes_subset
  have hkept' := hu'.memory.mono h.runBytes_subset
  have hframes : userFrames u.mem = userFrames entered := by
    unfold userFrames
    simp only [h.translate_kept hkept]
  have hothers : ∀ o ∈ [Object.pageDirectory, .bootTables, .systemRomTables, .userPageTable],
      o ∉ runObjects := by decide
  refine ⟨fun o ho a ha => ?_, fun a ha => ?_, fun v hlow hhigh => ?_,
    hu'.instruction h hroom, fun hat => ?_⟩
  · have hout := L.not_mem_extents (hothers o ho) ha
    rw [hkept' a hout, hkept a hout]
  · have hout : a ∉ runBytes L entered := by rwa [hframes] at ha
    rw [hu'.memory a hout, hu.memory a hout]
  · exact virtualByte_direct (h.kernelTables_kept hkept') h.rom.pages_le hlow hhigh
  · apply exists_svcTrap_iff.mpr
    intro _ hA32
    exact faultWord_isSome_of_readable (hu'.instruction h hroom hat hA32).2

end

/-! ## Runs from the entry to user mode -/

theorem minemuEnterUser_onKernelView {k : Machine} (hbank : k.bank = .svc)
    (hroom : SvcRoom L (k.sp .svc)) :
    ∃ mem, onKernelView (block minemuEnterUser) k = { enteredUser k with mem := mem } ∧
      ChangedOnly (L.extent .svcStack) k.mem mem := by
  have hrun : ∀ mem, block minemuEnterUser { k with mem := mem } =
      { enteredUser k with
        mem := storeWord (storeWord mem (k.sp .svc - 8) (k.r 1)) (k.sp .svc - 8 + 4) 0 } := by
    intro mem
    have husr : ({ k with mem := mem } : Machine).bank ≠ .usr :=
      (congrArg (· ≠ Bank.usr) hbank).mpr (by decide)
    rw [block_minemuEnterUser husr, ← hbank]
    rfl
  have hspill : ChangedOnly (region (k.sp .svc - 88) sizeofTrapFrame) (kernelView k.mem)
      (storeWord (storeWord (kernelView k.mem) (k.sp .svc - 8) (k.r 1)) (k.sp .svc - 8 + 4) 0) := by
    apply ChangedOnly.storeWord ((storeWord_changedOnly _ _ _).mono _)
    · intro a ha
      rw [mem_region, sizeofTrapFrame] at *
      bv_omega
    · intro a ha
      rw [mem_region, sizeofTrapFrame] at *
      bv_omega
  refine ⟨_, ?_, (changedOnly_physicalView hspill).mono hroom.frame_subset⟩
  unfold onKernelView
  rw [hrun]

theorem confined_enterUser {entered : Mem} {k : Machine} (hbank : k.bank = .svc)
    (hmem : ChangedOnly (L.extent .svcStack) entered k.mem) (hroom : SvcRoom L (k.sp .svc)) :
    Confined L entered (k.sp .svc) (onKernelView (block minemuEnterUser) k) := by
  obtain ⟨mem, heq, hstack⟩ := minemuEnterUser_onKernelView hbank hroom
  have hsp : (enteredUser k).sp .svc = k.sp .svc := by simp [enteredUser]
  have huser : FromUser (enteredUser k) :=
    (by decide : (0x10 : Word) &&& cpsrModeMask = cpsrModeUsr)
  rw [heq]
  exact ⟨huser, hsp, (hmem.trans hstack).mono (svcStack_subset_runBytes L entered)⟩

/-- User isolation over every run.  The kernel enters user mode with any entry, with the
frame of its own calls on the SVC stack. -/
theorem minemuKernelMain_runIsolation (L : Layout) (rom : Mem) (pointer : Word)
    (boot_info : BootInfo) (m : Mem) (h : BootstrapTables m) {entry_vaddr stack_top : Word}
    {entered : Mem}
    (hmain : minemuKernelMain L rom pointer boot_info m =
      some (.enterUser entry_vaddr stack_top entered))
    {k u : Machine} (hbank : k.bank = .svc)
    (hmem : ChangedOnly (L.extent .svcStack) entered k.mem) (hroom : SvcRoom L (k.sp .svc))
    (hrun : Relation.ReflTransGen (HelloStep L) (onKernelView (block minemuEnterUser) k) u) :
    Isolated L (onKernelView (block minemuEnterUser) k) u := by
  obtain ⟨exit, hmain', hexit⟩ := minemuKernelMain_spec L rom pointer boot_info m h
  rw [hmain] at hmain'
  obtain rfl := Option.some.inj hmain'
  obtain ⟨moduleOffset, ps, hent, -, -⟩ := hexit
  have hstart := confined_enterUser hbank hmem hroom
  exact hstart.isolated hent hroom (hstart.run hent hroom hrun)

def enteringMachine (entered : Mem) : Machine := { callingMachine 0 with mem := entered }

theorem enteringMachine_bank (entered : Mem) : (enteringMachine entered).bank = .svc :=
  (by decide : (callingMachine 0).bank = .svc)

theorem enteringMachine_room (entered : Mem) :
    SvcRoom sampleLayout ((enteringMachine entered).sp .svc) :=
  (⟨by decide, by decide⟩ : SvcRoom sampleLayout 0xc0058000)

theorem atSvc_enteringMachine {boot entered : Mem} (h : BootstrapTables boot)
    (hmain : minemuKernelMain sampleLayout sampleRom bootInfoVaddr sampleBootInfo boot =
      some (.enterUser 0x00400000 userStackTop entered)) :
    AtSvc (onKernelView (block minemuEnterUser) (enteringMachine entered)) := by
  obtain ⟨exit, hmain', hexit⟩ := minemuKernelMain_spec sampleLayout sampleRom bootInfoVaddr
    sampleBootInfo boot h
  rw [hmain] at hmain'
  obtain rfl := Option.some.inj hmain'
  obtain ⟨moduleOffset, ps, hent, -, -⟩ := hexit
  rw [sampleImage_eq] at hent
  have hfound := hent.found
  rw [sampleImage_found] at hfound
  obtain rfl : 0x40 = moduleOffset := Option.some.inj (Option.some.inj hfound)
  have hmem : sampleSegment ∈ moduleSegments sampleImage (sampleImage.moduleRecordAt 0x40) := by
    rw [sampleImage_record, sampleImage_segments]
    exact List.mem_singleton_self _
  obtain ⟨i, -, htrans⟩ := hent.space.translate_page hmem (x := 0x00400000) (v := 0x00400000)
    (by decide) rfl
  obtain ⟨mem, heq, hstack⟩ := minemuEnterUser_onKernelView (enteringMachine_bank entered)
    (enteringMachine_room entered)
  have hpc : (enteredUser (enteringMachine entered)).pc = 0x00400000 :=
    (by decide : (0x00400000 &&& ~~~3 : Word) = 0x00400000)
  have hkept : translateVa mem bootstrapRoot 0x00400000 =
      translateVa entered bootstrapRoot 0x00400000 :=
    hent.translate_kept (hstack.mono fun a ha => ⟨.svcStack, by decide, ha⟩) 0x00400000
  rw [heq]
  refine ⟨(by decide : (0x10 : Word) &&& cpsrModeMask = cpsrModeUsr), ?_, fun _ => ?_⟩
  · show UserExecutable mem (enteredUser (enteringMachine entered)).pc
    rw [hpc]
    exact ⟨_, hkept.trans htrans, rfl,
      (by decide : (sampleSegment.flags &&& segmentExecutable != 0) = true)⟩
  · show (enteredUser (enteringMachine entered)).pc.toNat % 4 = 0
    rw [hpc]
    rfl

/-- The small module is entered and takes an SVC. -/
theorem minemuKernelMain_runIsolation_sample :
    ∃ boot entered u writes, BootstrapTables boot ∧
      minemuKernelMain sampleLayout sampleRom bootInfoVaddr sampleBootInfo boot =
        some (.enterUser 0x00400000 userStackTop entered) ∧
      SvcTrap sampleLayout
        (onKernelView (block minemuEnterUser) (enteringMachine entered)) u writes ∧
      Isolated sampleLayout
        (onKernelView (block minemuEnterUser) (enteringMachine entered)) u := by
  obtain ⟨machine, -, htables, -, -⟩ := minemuBootstrapMap_spec (callingMachine 0)
  obtain ⟨entered, hmain⟩ := minemuKernelMain_sample htables
  have hat := atSvc_enteringMachine htables hmain
  have hstart := minemuKernelMain_runIsolation sampleLayout sampleRom bootInfoVaddr sampleBootInfo
    machine.mem htables hmain (enteringMachine_bank entered) (ChangedOnly.refl _ _)
    (enteringMachine_room entered) .refl
  obtain ⟨u, writes, htrap⟩ := hstart.returns hat
  exact ⟨machine.mem, entered, u, writes, htables, hmain, htrap,
    minemuKernelMain_runIsolation sampleLayout sampleRom bootInfoVaddr sampleBootInfo
      machine.mem htables hmain (enteringMachine_bank entered) (ChangedOnly.refl _ _)
      (enteringMachine_room entered) (.single (.svc writes hat htrap))⟩

end Minemu.Hello
