import Minemu.Hello.UserView
import Minemu.KernelCall

/-!
# From reset to user mode

The Boot ROM, the bootstrap code and the kernel one after the other.  Whether user
mode is entered, where, and with which memory depends on the packed image alone, not
on what RAM held at reset.
-/

namespace Minemu.Hello

open Minemu.Lib.Memory Minemu.Lib.Arm Minemu.Platform Minemu.Startup
open Minemu.Startup.BootstrapMap Minemu.Startup.BootstrapWalk
open Minemu.Handoff
open Minemu.Bootloader.Boot hiding bootInfoVaddr bootInfoMagic abiVersion

/-! ## The path -/

def systemRomContents (m : Mem) : Mem := fun offset =>
  if offset < systemRomSize then m (systemRomBase + offset) else 0

/-- The packed image, with the size that its header gives. -/
def packedImage (m : Mem) : Image where
  bytes := systemRomContents m
  size := readU32 m (systemRomBase + imageSizeOffset)

def runFromReset (L : Layout) (y : Bootstrap.Symbols) (s : Machine) : Option KernelExit := do
  let m ← kernelCall y s
  let boot_info ← BootInfo.load (virtualByte m.mem (m.cp15 .ttbr0)) (m.r 0)
  minemuKernelMain L (systemRomContents m.mem) (m.r 0) boot_info m.mem

theorem systemRomContents_congr {m m' : Mem} (h : ∀ a ∈ systemRom, m' a = m a) :
    systemRomContents m' = systemRomContents m := by
  funext offset
  unfold systemRomContents
  split
  · rename_i hlt
    apply h
    have hoff : systemRomBase + offset - systemRomBase = offset := by bv_omega
    rw [systemRom, mem_region, hoff]
    exact BitVec.lt_def.mp hlt
  · rfl

/-! ## What the image decides -/

/-- The kernel enters user mode for the module at `offset`. -/
structure Enters (image : Image) (boot_info : BootInfo) (offset : Word) : Prop where
  rom : RomAccepted boot_info
  found : findModule image boot_info moduleName = some (some offset)
  wellFormed : WellFormed image (image.moduleRecordAt offset)

def Refused (image : Image) (boot_info : BootInfo) (event : Word) : Prop :=
  (¬ RomAccepted boot_info ∧ event = 0x48454c01) ∨
    (RomAccepted boot_info ∧ (∀ offset, ¬ Enters image boot_info offset) ∧ event = 0x48454c02)

theorem minemuKernelMain_refused {L : Layout} {rom m m' : Mem} {pointer event : Word}
    {boot_info : BootInfo} (hvalid : bootInfoValid pointer boot_info = true)
    (hrun : minemuKernelMain L rom pointer boot_info m = some (.failStop event m')) :
    Refused ⟨rom, boot_info.imageSize⟩ boot_info event := by
  rw [minemuKernelMain, hvalid] at hrun
  simp only [Bool.not_true, Bool.false_eq_true, if_false] at hrun
  by_cases hacc : RomAccepted boot_info
  swap
  · rw [mapSystemRom_of_not_accepted m hacc] at hrun
    cases hrun
    exact Or.inl ⟨hacc, rfl⟩
  refine Or.inr ⟨hacc, ?_⟩
  rw [mapSystemRom_of_accepted m hacc] at hrun
  generalize mapRomTables L m _ _ _ = m1 at hrun
  generalize (⟨rom, boot_info.imageSize⟩ : Image) = image at hrun ⊢
  dsimp only at hrun
  rcases @findModule_inside image boot_info moduleName (by decide) with
    hnull | ⟨offset, hfound, hinside⟩
  · rw [hnull] at hrun
    cases hrun
    refine ⟨fun offset h => ?_, rfl⟩
    have hfound := h.found
    rw [hnull] at hfound
    cases hfound
  have hread := image.moduleRecord_eq_some hinside
  rw [hfound] at hrun
  rcases loadUserModule_spec L m1 hread with ⟨-, ps, m2, hload, -⟩ | ⟨hbad, m2, hload, -⟩
  · simp [hload, hread] at hrun
  · simp only [Option.bind_eq_bind, Option.bind_some, hload] at hrun
    cases hrun
    refine ⟨fun offset' h => ?_, rfl⟩
    have hsame := h.found
    rw [hfound] at hsame
    cases hsame
    exact hbad h.wellFormed

def OutcomeOf (image : Image) (boot_info : BootInfo) : KernelExit → Prop
  | .enterUser entry_vaddr stack_top m => ∃ offset, Enters image boot_info offset ∧
      entry_vaddr = (image.moduleRecordAt offset).entryVaddr ∧ stack_top = userStackTop ∧
      userView m = programView image (moduleSegments image (image.moduleRecordAt offset))
  | .failStop event m => Refused image boot_info event ∧ ∀ v, userView m v = none

theorem runFromReset_spec (L : Layout) (y : Bootstrap.Symbols) (s : Machine)
    (hp : Packed s.mem) :
    ∃ exit, runFromReset L y s = some exit ∧
      OutcomeOf (packedImage s.mem) (packedBootInfo s.mem) exit := by
  obtain ⟨k, hcall, hk⟩ := kernelCall_spec y s hp
  have himage : (⟨systemRomContents k.mem, (packedBootInfo s.mem).imageSize⟩ : Image) =
      packedImage s.mem := by
    rw [systemRomContents_congr hk.systemRom]
    rfl
  obtain ⟨exit, hrun, hexit⟩ := minemuKernelMain_spec L (systemRomContents k.mem) (k.r 0)
    (packedBootInfo s.mem) k.mem hk.tables
  rw [himage] at hexit
  refine ⟨exit, ?_, ?_⟩
  · rw [runFromReset, hcall, Option.bind_eq_bind, Option.bind_some, hk.info, Option.bind_eq_bind,
      Option.bind_some, hrun]
  cases exit with
  | enterUser entry_vaddr stack_top m =>
      obtain ⟨offset, ps, hent, hentry, hstack⟩ := hexit
      exact ⟨offset, ⟨hent.rom, hent.found, hent.wellFormed⟩, hentry, hstack, hent.userView_eq⟩
  | failStop event m =>
      have hvalid : bootInfoValid (k.r 0) (packedBootInfo s.mem) = true := by
        rw [hk.pointer]
        exact bootInfoValid_packed s.mem
      have hrefused := minemuKernelMain_refused hvalid hrun
      rw [himage] at hrefused
      exact ⟨hrefused, fun v => userView_eq_none (hexit v)⟩

theorem Enters.unique {image : Image} {boot_info : BootInfo} {offset offset' : Word}
    (h : Enters image boot_info offset) (h' : Enters image boot_info offset') :
    offset = offset' :=
  Option.some.inj (Option.some.inj (h.found.symm.trans h'.found))

theorem runFromReset_of_enters (L : Layout) (y : Bootstrap.Symbols) {s : Machine}
    (hp : Packed s.mem) {offset : Word}
    (h : Enters (packedImage s.mem) (packedBootInfo s.mem) offset) :
    ∃ m, runFromReset L y s = some (.enterUser
        ((packedImage s.mem).moduleRecordAt offset).entryVaddr userStackTop m) ∧
      userView m = programView (packedImage s.mem)
        (moduleSegments (packedImage s.mem) ((packedImage s.mem).moduleRecordAt offset)) := by
  obtain ⟨exit, hrun, hexit⟩ := runFromReset_spec L y s hp
  cases exit with
  | enterUser entry_vaddr stack_top m =>
      obtain ⟨offset', h', rfl, rfl, hview⟩ := hexit
      obtain rfl := h.unique h'
      exact ⟨m, hrun, hview⟩
  | failStop event m =>
      rcases hexit.1 with ⟨hbad, -⟩ | ⟨-, hnone, -⟩
      · exact absurd h.rom hbad
      · exact absurd h (hnone offset)

theorem enters_iff (image : Image) (boot_info : BootInfo) (offset : Word) :
    Enters image boot_info offset ↔
      RomAccepted boot_info ∧ TableFits image boot_info ∧
        ∃ i, FirstNamed image boot_info moduleName i ∧ offset = recordOffset boot_info i ∧
          WellFormed image (image.moduleRecordAt offset) := by
  have hname : moduleName.length < 2 ^ 32 := by decide
  constructor
  · intro h
    have hfound := h.found
    by_cases hfits : TableFits image boot_info
    · rcases findModule_of_fits hname hfits with ⟨i, hi, hrun⟩ | ⟨-, hrun⟩
      · rw [hrun] at hfound
        exact ⟨h.rom, hfits, i, hi, (Option.some.inj (Option.some.inj hfound)).symm, h.wellFormed⟩
      · rw [hrun] at hfound
        cases hfound
    · rw [findModule_of_not_fits _ hfits] at hfound
      cases hfound
  · rintro ⟨hrom, hfits, i, hi, rfl, hwell⟩
    rcases findModule_of_fits hname hfits with ⟨j, hj, hrun⟩ | ⟨hnone, -⟩
    · rw [hi.unique hj] at hwell ⊢
      exact ⟨hrom, hrun, hwell⟩
    · exact absurd hi.named (hnone i hi.index)

/-- From reset user mode is entered exactly when the image has a size that fits its window
and its first record named `user-hello` is a module the loader accepts.  User code then
finds the program of that module, and otherwise the event tells which part failed. -/
theorem runFromReset_outcome (L : Layout) (y : Bootstrap.Symbols) (s : Machine)
    (hp : Packed s.mem) :
    let image := packedImage s.mem
    let boot_info := packedBootInfo s.mem
    let sizeFits := 1 ≤ image.size.toNat ∧ image.size.toNat ≤ 0x01000000
    let Accepts := fun i => FirstNamed image boot_info moduleName i ∧
      WellFormed image (image.moduleRecordAt (recordOffset boot_info i))
    ∃ exit, runFromReset L y s = some exit ∧
      match exit with
      | .enterUser entry_vaddr stack_top m => sizeFits ∧ TableFits image boot_info ∧
          ∃ i, Accepts i ∧
            entry_vaddr = (image.moduleRecordAt (recordOffset boot_info i)).entryVaddr ∧
            stack_top = 0x00800000 ∧
            ∀ v, userView m v = programView image
              (moduleSegments image (image.moduleRecordAt (recordOffset boot_info i))) v
      | .failStop event m => (∀ v, userView m v = none) ∧
          ((¬ sizeFits ∧ event = 0x48454c01) ∨
            (sizeFits ∧ (TableFits image boot_info → ∀ i, ¬ Accepts i) ∧ event = 0x48454c02)) := by
  intro image boot_info sizeFits Accepts
  have hsize : RomAccepted boot_info ↔ sizeFits := romAccepted_packed s.mem
  obtain ⟨exit, hrun, hexit⟩ := runFromReset_spec L y s hp
  refine ⟨exit, hrun, ?_⟩
  cases exit with
  | enterUser entry_vaddr stack_top m =>
      obtain ⟨offset, hent, hentry, hstack, hview⟩ := hexit
      obtain ⟨hrom, hfits, i, hi, rfl, hwell⟩ := (enters_iff _ _ _).mp hent
      exact ⟨hsize.mp hrom, hfits, i, ⟨hi, hwell⟩, hentry, hstack, fun v => congrFun hview v⟩
  | failStop event m =>
      obtain ⟨hrefused, hview⟩ := hexit
      refine ⟨hview, ?_⟩
      rcases hrefused with ⟨hbad, hevent⟩ | ⟨hrom, hnone, hevent⟩
      · exact Or.inl ⟨mt hsize.mpr hbad, hevent⟩
      · refine Or.inr ⟨hsize.mp hrom, fun hfits i hi => ?_, hevent⟩
        exact hnone _ ((enters_iff _ _ _).mpr ⟨hrom, hfits, i, hi.1, rfl, hi.2⟩)

/-- The small image with a header and a kernel segment for one zeroed byte, and RAM full of
`fill`. -/
def resetMemory (fill : Byte) : Mem :=
  let header := storeWord sampleRom imageSizeOffset 0x100
  let header := storeWord header kernelTableOffset 0xe0
  let header := storeWord header kernelCountOffset 1
  let header := storeWord header moduleTableOffset 0x40
  let header := storeWord header moduleCountOffset 1
  let header := storeWord header 0xe4 0x40056084
  let header := storeWord header 0xf0 1
  fun a => if a - systemRomBase < systemRomSize then header (a - systemRomBase) else fill

def resetMachine (fill : Byte) : Machine where
  r _ := 0
  rFiq _ := 0
  sp _ := 0
  lr _ := 0
  spsr _ := 0
  pc := 0
  cpsr := 0xd3
  cp15 _ := 0
  mem := resetMemory fill

theorem resetMemory_segment :
    kernelCount (resetMemory 0xa5) = 1 ∧
      kernelSegment (resetMemory 0xa5) 0 = ⟨0, 0x40056084, 0, 1⟩ ∧
      readU32 (resetMemory 0xa5) (systemRomBase + kernelTableOffset) = 0xe0 := by
  decide +kernel

theorem packed_of_header {m : Mem}
    (h : kernelCount m = 1 ∧ kernelSegment m 0 = ⟨0, 0x40056084, 0, 1⟩ ∧
      readU32 m (systemRomBase + kernelTableOffset) = 0xe0) : Packed m := by
  obtain ⟨hcount, hsegment, htable⟩ := h
  refine ⟨fun i hi => ?_, fun i hi => ?_⟩ <;> rw [hcount] at hi <;> obtain rfl : i = 0 := by omega
  · rw [htable]
    decide
  · rw [hsegment]
    refine ⟨fun k hk => absurd hk (Nat.not_lt_zero k), by decide, fun a ha => ?_, fun a ha => ?_⟩
    · simp only [KernelSegment.extent, ram, ramBase, ramSize, mem_region, BitVec.reduceToNat]
        at ha ⊢
      bv_omega
    · simp only [KernelSegment.extent, reserved, mem_region, BitVec.reduceToNat] at ha ⊢
      bv_omega

theorem resetMemory_packed : Packed (resetMemory 0xa5) := packed_of_header resetMemory_segment

theorem packedImage_resetMemory :
    (packedImage (resetMemory 0xa5)).size = 0x100 ∧
      TableFits (packedImage (resetMemory 0xa5)) (packedBootInfo (resetMemory 0xa5)) ∧
      recordOffset (packedBootInfo (resetMemory 0xa5)) 0 = 0x40 ∧
      (packedImage (resetMemory 0xa5)).moduleRecordAt 0x40 = sampleRecord ∧
      moduleSegments (packedImage (resetMemory 0xa5)) sampleRecord = [sampleSegment] := by
  rw [TableFits]
  decide +kernel

theorem WellFormed.congr {image image' : Image} {record : ModuleRecord}
    (h : WellFormed image record) (hsize : image'.size = image.size)
    (hsegments : moduleSegments image' record = moduleSegments image record) :
    WellFormed image' record := by
  refine ⟨h.count, by rw [hsize]; exact h.table, h.aligned, ?_, ?_, ?_, ?_⟩ <;> rw [hsegments]
  · intro s hs
    have hvalid := h.valid s hs
    exact ⟨hvalid.memory, hvalid.file, hvalid.flags, hvalid.executable, hvalid.low, hvalid.high,
      by rw [hsize]; exact hvalid.data⟩
  · exact h.pages
  · exact h.shared
  · exact h.entry

theorem packedImage_accepts :
    FirstNamed (packedImage (resetMemory 0xa5)) (packedBootInfo (resetMemory 0xa5)) moduleName 0 ∧
      WellFormed (packedImage (resetMemory 0xa5)) sampleRecord := by
  obtain ⟨hsize, -, hoffset, hrecord, hsegments⟩ := packedImage_resetMemory
  refine ⟨⟨by decide +kernel, ?_, fun j hj => absurd hj (Nat.not_lt_zero j)⟩, ?_⟩
  · rw [hoffset, hrecord]
    decide +kernel
  · refine sampleImage_wellFormed.congr hsize ?_
    rw [hsegments, sampleImage_segments]

def sampleSymbols : Bootstrap.Symbols where
  svcStackTopPaddr := 0x40058000
  irqStackTopPaddr := 0x40059000
  abtStackTopPaddr := 0x4005a000
  undStackTopPaddr := 0x4005b000
  svcStackTop := 0xc0058000
  irqStackTop := 0xc0059000
  abtStackTop := 0xc005a000
  undStackTop := 0xc005b000
  vectors := 0xc0030000
  bootstrapHigh := 0xc0030400

/-- The small module is entered at its `svc #0`. -/
theorem runFromReset_outcome_sample :
    ∃ m, runFromReset sampleLayout sampleSymbols (resetMachine 0xa5) =
        some (.enterUser 0x00400000 0x00800000 m) ∧
      userView m 0x00400003 = some ⟨0xef, true, false, true⟩ := by
  obtain ⟨hsize, hfits, hoffset, hrecord, hsegments⟩ := packedImage_resetMemory
  obtain ⟨hnamed, hwell⟩ := packedImage_accepts
  obtain ⟨exit, hrun, hexit⟩ := runFromReset_outcome sampleLayout sampleSymbols
    (resetMachine 0xa5) resetMemory_packed
  have hmem : (resetMachine 0xa5).mem = resetMemory 0xa5 := rfl
  cases exit with
  | enterUser entry_vaddr stack_top m =>
      obtain ⟨-, -, i, ⟨hi, -⟩, hentry, hstack, hview⟩ := hexit
      rw [hmem] at hi hentry hview
      obtain rfl := hi.unique hnamed
      rw [hoffset, hrecord] at hentry hview
      rw [hsegments] at hview
      refine ⟨m, ?_, ?_⟩
      · rw [hrun, hentry, hstack]
        rfl
      · rw [hview]
        decide +kernel
  | failStop event m =>
      obtain ⟨-, hbad | ⟨-, hnone, -⟩⟩ := hexit
      · rw [hmem, hsize] at hbad
        exact absurd hbad.1 (by decide)
      · refine absurd ⟨hnamed, ?_⟩ (hnone hfits 0)
        rw [hmem, hoffset, hrecord]
        exact hwell

/-! ## Two runs over one image -/

section

variable {m m' : Mem} (hrom : ∀ a ∈ systemRom, m' a = m a)

include hrom

theorem packedImage_congr : packedImage m' = packedImage m := by
  rw [packedImage, packedImage, systemRomContents_congr hrom, readU32_header hrom (by decide)]

theorem packedBootInfo_congr : packedBootInfo m' = packedBootInfo m := by
  rw [packedBootInfo, packedBootInfo, readU32_header hrom (by decide),
    readU32_header hrom (by decide), readU32_header hrom (by decide)]

theorem packed_congr (hp : Packed m) : Packed m' := by
  have hcount : kernelCount m' = kernelCount m :=
    congrArg BitVec.toNat (readU32_header hrom (by decide))
  have htable : readU32 m' (systemRomBase + kernelTableOffset) =
      readU32 m (systemRomBase + kernelTableOffset) := readU32_header hrom (by decide)
  have hsegment : ∀ i < kernelCount m, kernelSegment m' i = kernelSegment m i := by
    intro i hi
    have hfits := hp.table i hi
    rw [kernelSegment, htable]
    apply readKernelSegment_congr
    intro k hk
    apply hrom
    have hmul : BitVec.ofNat 32 i * kernelSegmentSize = BitVec.ofNat 32 (i * 32) := by
      rw [kernelSegmentSize, BitVec.ofNat_mul]
      rfl
    rw [show systemRomSize.toNat = 0x01000000 by decide] at hfits
    rw [hmul, systemRom, mem_region, show systemRomSize.toNat = 0x01000000 by decide]
    bv_omega
  refine ⟨fun i hi => ?_, fun i hi => ?_⟩
  · rw [htable]
    exact hp.table i (hcount ▸ hi)
  · rw [hsegment i (hcount ▸ hi)]
    exact hp.segments i (hcount ▸ hi)

end

/-- Two ends of the kernel that are the same for user code, or for the host. -/
def SameEnd : KernelExit → KernelExit → Prop
  | .enterUser entry_vaddr stack_top m, .enterUser entry_vaddr' stack_top' m' =>
      entry_vaddr = entry_vaddr' ∧ stack_top = stack_top' ∧ userView m = userView m'
  | .failStop event _, .failStop event' _ => event = event'
  | _, _ => False

/-- Nothing that RAM held at reset, nor where the kernel's objects lie, reaches user
code: over one image all runs end the same. -/
theorem runFromReset_independent (L L' : Layout) (y y' : Bootstrap.Symbols) (s s' : Machine)
    (hp : Packed s.mem) (hrom : ∀ a ∈ systemRom, s'.mem a = s.mem a) :
    ∃ exit exit', runFromReset L y s = some exit ∧ runFromReset L' y' s' = some exit' ∧
      SameEnd exit exit' := by
  obtain ⟨exit, hrun, hexit⟩ := runFromReset_spec L y s hp
  obtain ⟨exit', hrun', hexit'⟩ := runFromReset_spec L' y' s' (packed_congr hrom hp)
  rw [packedImage_congr hrom, packedBootInfo_congr hrom] at hexit'
  refine ⟨exit, exit', hrun, hrun', ?_⟩
  cases exit with
  | enterUser entry_vaddr stack_top m =>
      obtain ⟨offset, hent, hentry, hstack, hview⟩ := hexit
      cases exit' with
      | enterUser entry_vaddr' stack_top' m' =>
          obtain ⟨offset', hent', hentry', hstack', hview'⟩ := hexit'
          obtain rfl := hent.unique hent'
          exact ⟨hentry.trans hentry'.symm, hstack.trans hstack'.symm, hview.trans hview'.symm⟩
      | failStop event m' =>
          rcases hexit'.1 with ⟨hbad, -⟩ | ⟨-, hnone, -⟩
          · exact hbad hent.rom
          · exact hnone offset hent
  | failStop event m =>
      cases exit' with
      | enterUser entry_vaddr' stack_top' m' =>
          obtain ⟨offset', hent', -⟩ := hexit'
          rcases hexit.1 with ⟨hbad, -⟩ | ⟨-, hnone, -⟩
          · exact hbad hent'.rom
          · exact hnone offset' hent'
      | failStop event' m' =>
          rcases hexit.1 with ⟨hbad, hevent⟩ | ⟨hok, -, hevent⟩
          · rcases hexit'.1 with ⟨-, hevent'⟩ | ⟨hok', -⟩
            · exact hevent.trans hevent'.symm
            · exact absurd hok' hbad
          · rcases hexit'.1 with ⟨hbad', -⟩ | ⟨-, -, hevent'⟩
            · exact absurd hok hbad'
            · exact hevent.trans hevent'.symm

/-- RAM cleared or full of `0xa5`: the end is the same. -/
theorem runFromReset_independent_sample :
    ∃ exit exit', runFromReset sampleLayout sampleSymbols (resetMachine 0xa5) = some exit ∧
      runFromReset sampleLayout sampleSymbols (resetMachine 0) = some exit' ∧
      SameEnd exit exit' :=
  runFromReset_independent sampleLayout sampleLayout sampleSymbols sampleSymbols
    (resetMachine 0xa5) (resetMachine 0) resetMemory_packed (fun a ha => by
      rw [systemRom, mem_region] at ha
      exact (if_pos (BitVec.lt_def.mpr ha)).trans (if_pos (BitVec.lt_def.mpr ha)).symm)

end Minemu.Hello
