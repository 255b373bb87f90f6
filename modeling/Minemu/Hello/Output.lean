import Minemu.Hello.FromReset
import Minemu.Hello.Isolation
import Minemu.Hello.UartPath

/-!
# What the host sees of the user-mode example

From reset the kernel writes to two device registers, the trace and the UART.  User code
runs between its system calls and may end with any other exception, and has no other
influence on what is written: neither its stores nor its faults touch the flag of the
dispatcher, which boot has cleared.
-/

namespace Minemu.Hello

open Minemu.Lib.Memory Minemu.Lib.Arm Minemu.Platform Minemu.Startup Minemu.Trap
open Minemu.Startup.BootstrapMap Minemu.Startup.BootstrapWalk Minemu.Handoff
open Minemu.Bootloader.Boot hiding bootInfoVaddr bootInfoMagic abiVersion

/-! ## Runs with their traps -/

/-- User code and its traps, in order.  Instructions have even addresses. -/
inductive HelloRun (L : Layout) : Machine → List Trap → Machine → Prop where
  | refl (m : Machine) : HelloRun L m [] m
  | user {m m' u : Machine} {ts : List Trap} (hstep : UserStep m m') (hrun : HelloRun L m' ts u) :
      HelloRun L m ts u
  | svc {t : Trap} {u : Machine} {ts : List Trap} (hat : AtSvc t.before)
      (heven : t.before.pc.toNat % 2 = 0) (htrap : SvcTrap L t.before t.after t.writes)
      (hrun : HelloRun L t.after ts u) : HelloRun L t.before (t :: ts) u

theorem HelloRun.trans {L : Layout} {m u u' : Machine} {ts ts' : List Trap} (h : HelloRun L m ts u)
    (h' : HelloRun L u ts' u') : HelloRun L m (ts ++ ts') u' := by
  induction h with
  | refl m => exact h'
  | user hstep _ ih => exact .user hstep (ih h')
  | svc hat heven htrap _ ih => exact .svc hat heven htrap (ih h')

/-- What ends a run from user mode. -/
inductive Fault where
  | undefined
  | abort
  | irq

/-- `minemu_undefined_dispatch`, up to its fail-stop. -/
def minemuUndefinedDispatch : List DeviceWrite := [.traceEvent 0x48454c03]

def minemuAbortDispatch : List DeviceWrite := [.traceEvent 0x48454c04]

/-- The weak `minemu_irq_trampoline` of `exception.c`. -/
def weakIrqTrampoline : List DeviceWrite := []

def Fault.writes : Fault → List DeviceWrite
  | .undefined => minemuUndefinedDispatch
  | .abort => minemuAbortDispatch
  | .irq => weakIrqTrampoline

/-- The machine `k` calls `minemu_enter_user` with the memory that the kernel has set up, its
stack as the procedure call standard has it. -/
structure CallsEnterUser (L : Layout) (entry_vaddr stack_top : Word) (entered : Mem)
    (k : Machine) : Prop where
  bank : k.bank = .svc
  entry : k.r 0 = entry_vaddr
  stack : k.r 1 = stack_top
  room : SvcRoom L (k.sp .svc)
  aligned : (k.sp .svc).toNat % 8 = 0
  memory : ChangedOnly (L.extent .svcStack) entered k.mem

/-- What the kernel has written at some time after reset in `s`. -/
inductive Output (L : Layout) (y : Bootstrap.Symbols) (s : Machine) : List DeviceWrite → Prop where
  | booting : Output L y s []
  | refused {event : Word} {m : Mem} (h : runFromReset L y s = some (.failStop event m)) :
      Output L y s [.traceEvent event]
  | running {entry_vaddr stack_top : Word} {entered : Mem} {k u : Machine} {ts : List Trap}
      (h : runFromReset L y s = some (.enterUser entry_vaddr stack_top entered))
      (hk : CallsEnterUser L entry_vaddr stack_top entered k)
      (hrun : HelloRun L (onKernelView (block minemuEnterUser) k) ts u) :
      Output L y s (ts.flatMap Trap.writes)
  | stopped {entry_vaddr stack_top : Word} {entered : Mem} {k u : Machine} {ts : List Trap}
      (h : runFromReset L y s = some (.enterUser entry_vaddr stack_top entered))
      (hk : CallsEnterUser L entry_vaddr stack_top entered k)
      (hrun : HelloRun L (onKernelView (block minemuEnterUser) k) ts u) (fault : Fault) :
      Output L y s (ts.flatMap Trap.writes ++ fault.writes)

/-! ## The flag under user code -/

variable {L : Layout} {image : Image} {boot_info : BootInfo} {moduleOffset : Word}
  {ps : List (Word × Word)} {entered : Mem} {sp : Word} {u u' : Machine} {ts : List Trap}

theorem flag_not_mem_userFrames (h : UserEntered L image boot_info moduleOffset ps entered) :
    L.paddr .userSyscallObserved 0 ∉ userFrames entered := by
  intro hmem
  obtain ⟨o, ho, ha⟩ := h.userFrames_subset hmem
  refine L.not_mem_extent ?_ (L.paddr_mem (o := .userSyscallObserved) (k := 0) (by decide)) ha
  rintro rfl
  exact absurd ho (by decide)

/-- User code cannot store to the flag. -/
theorem Confined.flag_user (h : UserEntered L image boot_info moduleOffset ps entered)
    (hu : Confined L entered sp u) (hstep : UserStep u u') :
    userSyscallObserved L u'.mem = userSyscallObserved L u.mem := by
  apply hstep.memory
  rintro ⟨v, t, ht, huser, -, hpaddr⟩
  rw [h.translate_kept (hu.memory.mono h.runBytes_subset)] at ht
  exact flag_not_mem_userFrames h ⟨v, t, ht, huser, congrArg Lib.Page.pageBase hpaddr⟩

theorem Confined.ready (h : UserEntered L image boot_info moduleOffset ps entered)
    (hroom : SvcRoom L sp) (hu : Confined L entered sp u) (hat : AtSvc u)
    (heven : u.pc.toNat % 2 = 0) : Ready L u := by
  refine ⟨hu.spSvc ▸ hroom, ?_, fun _ hA32 => ?_⟩
  · cases hthumb : thumb u.cpsr with
    | true => exact heven
    | false => exact hat.aligned hthumb
  · exact faultWord_isSome_of_readable (hu.instruction h hroom hat hA32).2

/-- The traps of a run hand on the flag, and user code leaves it alone between them. -/
theorem HelloRun.svcRun (h : UserEntered L image boot_info moduleOffset ps entered)
    (hroom : SvcRoom L sp) (hrun : HelloRun L u ts u') (hu : Confined L entered sp u) :
    SvcRun L (userSyscallObserved L u.mem) ts ∧ Confined L entered sp u' := by
  induction hrun with
  | refl m => exact ⟨.nil _, hu⟩
  | user hstep _ ih =>
      obtain ⟨hsvc, hend⟩ := ih (hu.step h hroom (.user hstep))
      exact ⟨hu.flag_user h hstep ▸ hsvc, hend⟩
  | svc hat heven htrap _ ih =>
      obtain ⟨hsvc, hend⟩ := ih (hu.step h hroom (.svc _ hat htrap))
      exact ⟨.cons (hu.ready h hroom hat heven) htrap hsvc, hend⟩

/-! ## The flag through boot -/

def mainObjects : List Object := romObjects ++ (loadObjects ++ installObjects)

theorem minemuKernelMain_frame {rom m m' : Mem} {pointer entry_vaddr stack_top : Word}
    (hrun : minemuKernelMain L rom pointer boot_info m =
      some (.enterUser entry_vaddr stack_top m')) : ChangedOnly (L.extents mainObjects) m m' := by
  rw [minemuKernelMain] at hrun
  split at hrun
  · cases hrun
  by_cases hacc : RomAccepted boot_info
  swap
  · rw [mapSystemRom_of_not_accepted m hacc] at hrun
    cases hrun
  obtain ⟨-, -, hrom⟩ := mapRomTables_spec (L := L) m hacc.pages_le (Nat.le_refl _)
  rw [mapSystemRom_of_accepted m hacc] at hrun
  generalize mapRomTables L m _ _ _ = m1 at hrun hrom
  generalize (⟨rom, boot_info.imageSize⟩ : Image) = image at hrun
  dsimp only at hrun
  rcases @findModule_inside image boot_info moduleName (by decide) with
    hnull | ⟨offset, hfound, hinside⟩
  · rw [hnull] at hrun
    cases hrun
  have hread := image.moduleRecord_eq_some hinside
  rw [hfound] at hrun
  rcases loadUserModule_spec L m1 hread with ⟨-, ps, m2, hload, hfilled⟩ | ⟨-, m2, hload, -⟩
  swap
  · simp only [Option.bind_eq_bind, Option.bind_some, hload] at hrun
    cases hrun
  obtain ⟨-, hinstall, -⟩ := hfilled.install
  simp only [Option.bind_eq_bind, Option.bind_some, hload, hread] at hrun
  cases hrun
  have hloaded : ChangedOnly (L.extents (loadObjects ++ installObjects)) m1
      (installUserSpace L m2) :=
    (hfilled.frame.mono (L.extents_mono (List.subset_append_left _ _))).trans
      (hinstall.mono (L.extents_mono (List.subset_append_right _ _)))
  exact (hrom.mono (L.extents_mono (List.subset_append_left _ _))).trans
    (hloaded.mono (L.extents_mono (List.subset_append_right _ _)))

/-- The flag is in a kernel segment, behind its file bytes. -/
def FlagInBss (L : Layout) (m : Mem) : Prop :=
  ∃ i, LastOver m i (L.paddr .userSyscallObserved 0) ∧
    (kernelSegment m i).fileSize.toNat ≤
      (L.paddr .userSyscallObserved 0 - (kernelSegment m i).paddr).toNat

theorem bootInfoRegion_subset_reserved {a : Word} (h : a ∈ bootInfoRegion) : a ∈ reserved := by
  rw [bootInfoRegion, mem_region, show bootInfoSize.toNat = 64 by decide, bootInfoPaddr] at h
  rw [reserved, mem_region]
  bv_omega

theorem flag_not_mem_tableRegion (L : Layout) : L.paddr .userSyscallObserved 0 ∉ tableRegion := by
  have hflag := L.paddr_mem (o := .userSyscallObserved) (k := 0) (by decide)
  have hdirectory : L.paddr .userSyscallObserved 0 ∉ L.extent .pageDirectory :=
    L.not_mem_extent (by decide) hflag
  have htables : L.paddr .userSyscallObserved 0 ∉ L.extent .bootTables :=
    L.not_mem_extent (by decide) hflag
  rw [L.mem_extent, L.pageDirectory_addr, Object.size_pageDirectory] at hdirectory
  rw [L.mem_extent, L.bootTables_addr, Object.size_bootTables] at htables
  rw [tableRegion, mem_region]
  bv_omega

/-- Boot clears the flag, whatever RAM held at reset. -/
theorem flag_entered {y : Bootstrap.Symbols} {s : Machine} (hp : Packed s.mem)
    (hflag : FlagInBss L s.mem) {entry_vaddr stack_top : Word} {entered : Mem}
    (hreset : runFromReset L y s = some (.enterUser entry_vaddr stack_top entered)) :
    userSyscallObserved L entered = 0 := by
  obtain ⟨k, hcall, hk⟩ := kernelCall_spec y s hp
  obtain ⟨i, hover, htail⟩ := hflag
  rw [runFromReset, hcall, Option.bind_eq_bind, Option.bind_some, hk.info, Option.bind_eq_bind,
    Option.bind_some] at hreset
  have hinfo : L.paddr .userSyscallObserved 0 ∉ bootInfoRegion := fun hmem =>
    (hp.segments i hover.index).apart _ hover.covers (bootInfoRegion_subset_reserved hmem)
  have hmem := L.paddr_mem (o := .userSyscallObserved) (k := 0) (by decide)
  have hkept := minemuKernelMain_frame hreset _ (L.not_mem_extents (by decide) hmem)
  rw [userSyscallObserved, hkept, hk.mem_segment hover hinfo (flag_not_mem_tableRegion L),
    KernelSegment.byteAt, if_neg (Nat.not_lt.mpr htail)]

/-! ## The output -/

theorem CallsEnterUser.confined {entry_vaddr stack_top : Word} {k : Machine}
    (h : CallsEnterUser L entry_vaddr stack_top entered k) :
    Confined L entered (k.sp .svc) (onKernelView (block minemuEnterUser) k) :=
  confined_enterUser h.bank h.memory h.room

theorem CallsEnterUser.flag {entry_vaddr stack_top : Word} {k : Machine}
    (h : CallsEnterUser L entry_vaddr stack_top entered k) :
    userSyscallObserved L (onKernelView (block minemuEnterUser) k).mem =
      userSyscallObserved L entered := by
  obtain ⟨mem, heq, hstack⟩ := minemuEnterUser_onKernelView h.bank h.room
  rw [heq]
  exact (h.memory.trans hstack) _ (flag_not_mem_svcStack L)

theorem runFromReset_entered {y : Bootstrap.Symbols} {s : Machine} (hp : Packed s.mem)
    {entry_vaddr stack_top : Word} {entered : Mem}
    (hreset : runFromReset L y s = some (.enterUser entry_vaddr stack_top entered)) :
    ∃ image boot_info offset ps, UserEntered L image boot_info offset ps entered := by
  obtain ⟨k, hcall, hk⟩ := kernelCall_spec y s hp
  rw [runFromReset, hcall, Option.bind_eq_bind, Option.bind_some, hk.info, Option.bind_eq_bind,
    Option.bind_some] at hreset
  obtain ⟨exit, hrun, hexit⟩ := minemuKernelMain_spec L (systemRomContents k.mem) (k.r 0)
    (packedBootInfo s.mem) k.mem hk.tables
  rw [hreset] at hrun
  obtain rfl := Option.some.inj hrun
  obtain ⟨offset, ps, hent, -, -⟩ := hexit
  exact ⟨_, _, offset, ps, hent⟩

theorem acceptedBytes_le (ts : List Trap) : ∀ b ∈ acceptedBytes ts, b ≤ 255 := by
  intro b hb
  obtain ⟨t, ht, rfl⟩ := List.mem_map.mp hb
  have hacc : Accepted t.before := by simpa using (List.mem_filter.mp ht).2
  exact hacc.2.2.2.2

def requestWrites (bytes : List Word) : List DeviceWrite :=
  if bytes = [] then [] else .traceEvent 0x48454c10 :: bytes.map .uart0TxData

/-- What user code has had written since reset. -/
theorem writes_of_run {y : Bootstrap.Symbols} {s : Machine} (hp : Packed s.mem)
    (hflag : FlagInBss L s.mem) {entry_vaddr stack_top : Word} {entered : Mem} {k u : Machine}
    (hreset : runFromReset L y s = some (.enterUser entry_vaddr stack_top entered))
    (hk : CallsEnterUser L entry_vaddr stack_top entered k)
    (hrun : HelloRun L (onKernelView (block minemuEnterUser) k) ts u) :
    ts.flatMap Trap.writes = requestWrites (acceptedBytes ts) := by
  obtain ⟨image, boot_info, offset, ps, hent⟩ := runFromReset_entered hp hreset
  obtain ⟨hsvc, -⟩ := hrun.svcRun hent hk.room hk.confined
  rw [hk.flag, flag_entered hp hflag hreset] at hsvc
  rw [hsvc.writes_eq, requestWrites]
  by_cases hnone : acceptedBytes ts = []
  · rw [if_neg fun hdue => hdue.2 hnone, if_pos hnone, hnone]
    rfl
  · rw [if_pos ⟨rfl, hnone⟩, if_neg hnone]
    rfl

/-- Images with the header of the small module, whatever its segments hold. -/
theorem enters_of_header {m : Mem} (hsize : readU32 m (systemRomBase + imageSizeOffset) = 0x100)
    (hfits : TableFits (packedImage m) (packedBootInfo m))
    (hoffset : recordOffset (packedBootInfo m) 0 = 0x40)
    (hrecord : (packedImage m).moduleRecordAt 0x40 = sampleRecord)
    (hnamed : FirstNamed (packedImage m) (packedBootInfo m) moduleName 0)
    (hwell : WellFormed (packedImage m) sampleRecord) :
    Enters (packedImage m) (packedBootInfo m) 0x40 := by
  have hrom : RomAccepted (packedBootInfo m) := by
    rw [romAccepted_packed, hsize]
    decide
  apply (enters_iff _ _ _).mpr
  exact ⟨hrom, hfits, 0, hnamed, hoffset.symm, hrecord ▸ hwell⟩

theorem resetMemory_enters :
    Enters (packedImage (resetMemory 0xa5)) (packedBootInfo (resetMemory 0xa5)) 0x40 := by
  obtain ⟨hsize, hfits, hoffset, hrecord, -⟩ := packedImage_resetMemory
  obtain ⟨hnamed, hwell⟩ := packedImage_accepts
  exact enters_of_header hsize hfits hoffset hrecord hnamed hwell

theorem flagInBss_resetMemory : FlagInBss sampleLayout (resetMemory 0xa5) := by
  obtain ⟨hcount, hsegment, -⟩ := resetMemory_segment
  refine ⟨0, ⟨by rw [hcount]; decide, ?_, fun j hj hj' => by omega⟩, ?_⟩
  · rw [hsegment]
    decide
  · rw [hsegment]
    decide

theorem callsEnterUser_sample (entered : Mem) :
    CallsEnterUser sampleLayout 0x00400000 userStackTop entered (enteringMachine entered) where
  bank := enteringMachine_bank entered
  entry := (by decide : (callingMachine 0).r 0 = 0x00400000)
  stack := (by decide : (callingMachine 0).r 1 = userStackTop)
  room := enteringMachine_room entered
  aligned := (by decide : ((callingMachine 0).sp .svc).toNat % 8 = 0)
  memory := ChangedOnly.refl _ _

end Minemu.Hello
