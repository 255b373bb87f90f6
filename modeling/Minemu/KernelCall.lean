import Minemu.Handoff

/-!
# From reset to the call of the kernel

The Boot ROM and the bootstrap code one after the other.  The kernel finds its boot info
and its segments as they were packed, whatever RAM held at reset.
-/

namespace Minemu.Handoff

open Minemu.Lib.Memory Minemu.Lib.Arm Minemu.Platform Minemu.Startup
open Minemu.Startup.BootstrapMap Minemu.Startup.BootstrapWalk
open Minemu.Bootloader.Boot hiding bootInfoVaddr bootInfoMagic abiVersion

def kernelCall (y : Bootstrap.Symbols) (s : Machine) : Option Machine :=
  Bootstrap.minemuBootstrap y (enterKernel s (bootMain s.mem))

def packedBootInfo (m : Mem) : BootInfo :=
  handedOver (readU32 m (systemRomBase + imageSizeOffset))
    (readU32 m (systemRomBase + moduleTableOffset))
    (readU32 m (systemRomBase + moduleCountOffset))

structure KernelCalled (s m : Machine) : Prop where
  pointer : m.r 0 = bootInfoVaddr
  tables : BootstrapTables m.mem
  info : BootInfo.load (virtualByte m.mem (m.cp15 .ttbr0)) (m.r 0) = some (packedBootInfo s.mem)
  systemRom : ∀ a ∈ systemRom, m.mem a = s.mem a
  loaded : ∃ mem, Loaded s.mem (kernelCount s.mem) mem ∧
    ∀ a, a ∉ bootInfoRegion → a ∉ tableRegion → m.mem a = mem a
  ttbr0 : m.cp15 .ttbr0 = bootstrapRoot

/-- Segment `i` is the last one that covers a byte of RAM. -/
structure LastOver (m : Mem) (i : Nat) (a : Word) : Prop where
  index : i < kernelCount m
  covers : a ∈ (kernelSegment m i).extent
  last : ∀ j, i < j → j < kernelCount m → a ∉ (kernelSegment m j).extent

theorem KernelCalled.mem_segment {s m : Machine} {i : Nat} {a : Word} (h : KernelCalled s m)
    (hover : LastOver s.mem i a) (hinfo : a ∉ bootInfoRegion) (htable : a ∉ tableRegion) :
    m.mem a = (kernelSegment s.mem i).byteAt s.mem a := by
  obtain ⟨mem, hloaded, hmem⟩ := h.loaded
  rw [hmem a hinfo htable, hloaded.covered a i hover.index hover.covers hover.last]

theorem virtualByte_directMap {m : Mem} (h : BootstrapTables m) {v : Word}
    (hlow : 0xc0000000 ≤ v.toNat) (hhigh : v.toNat < 0xc4000000) :
    virtualByte m bootstrapRoot v = some (m (v - 0x80000000)) := by
  have htrans := translate_bootstrap h v
  rw [bootstrapMapping, if_neg (by bv_omega), if_pos (by constructor <;> bv_omega)] at htrans
  rw [virtualByte, htrans]
  rfl

theorem readU32_congr {m m' : Mem} {a : Word}
    (h : ∀ k < 4, m' (a + BitVec.ofNat 32 k) = m (a + BitVec.ofNat 32 k)) :
    readU32 m' a = readU32 m a := by
  rw [readU32_eq_loadWord, readU32_eq_loadWord]
  exact loadWord_congr h

theorem readU32_header {m m' : Mem} (h : ∀ a ∈ systemRom, m' a = m a) {off : Word}
    (hoff : off.toNat ≤ 0x1c) :
    readU32 m' (systemRomBase + off) = readU32 m (systemRomBase + off) := by
  apply readU32_congr
  intro k hk
  apply h
  rw [systemRom, mem_region, show systemRomSize.toNat = 0x01000000 by decide]
  bv_omega

/-- The loader's call, by the header of the image. -/
theorem bootMain_eq {m : Mem} (hp : Packed m) :
    ∃ mem entry, Loaded m (kernelCount m) mem ∧
      bootMain m = ⟨writeBootInfo mem (readU32 m (systemRomBase + imageSizeOffset))
        (readU32 m (systemRomBase + moduleTableOffset))
        (readU32 m (systemRomBase + moduleCountOffset)), entry, bootInfoVaddr⟩ := by
  have hloaded := loadKernelSegments_loaded hp (Nat.le_refl _)
  have hrom := hloaded.systemRom_eq hp (Nat.le_refl _)
  refine ⟨_, (bootMain m).entry, hloaded, ?_⟩
  have htable : moduleTableOffset.toNat ≤ 0x1c := by decide
  have hcount : moduleCountOffset.toNat ≤ 0x1c := by decide
  rw [← readU32_header hrom htable, ← readU32_header hrom hcount]
  rfl

theorem enterKernel_bank (s : Machine) (call : BootstrapCall) :
    (enterKernel s call).bank = .svc := by
  have hbank : bankOf ((s.cpsr &&& 0xffffff00#32) ||| 0xd3#32) = bankOf 0xd3#32 :=
    Bootstrap.bankOf_msrCpsrC s.cpsr 0xd3#32
  exact hbank.trans (by decide)

theorem not_mem_bootInfoRegion_of_systemRom {a : Word} (h : a ∈ systemRom) :
    a ∉ bootInfoRegion ∧ a ∉ tableRegion := by
  rw [systemRom, mem_region, show systemRomSize.toNat = 0x01000000 by decide,
    systemRomBase] at h
  rw [bootInfoRegion, tableRegion, mem_region, mem_region,
    show bootInfoSize.toNat = 64 by decide, bootInfoPaddr]
  constructor <;> bv_omega

theorem kernelCall_spec (y : Bootstrap.Symbols) (s : Machine) (hp : Packed s.mem) :
    ∃ m, kernelCall y s = some m ∧ KernelCalled s m := by
  obtain ⟨mem, entry, hloaded, hcall⟩ := bootMain_eq hp
  have hrom := hloaded.systemRom_eq hp (Nat.le_refl _)
  rw [kernelCall, hcall]
  generalize hinfo : writeBootInfo mem _ _ _ = written
  obtain ⟨m, hrun, hr0, htables, hframe, httbr, -⟩ := Bootstrap.minemuBootstrap_spec y
    (show (enterKernel s ⟨written, entry, bootInfoVaddr⟩).bank ≠ .fiq by
      rw [enterKernel_bank]
      decide)
  have hkept : ChangedOnly tableRegion written m.mem := hframe
  have hpointer : m.r 0 = bootInfoVaddr := by
    rw [hr0]
    exact Function.update_self (0 : Fin 13) bootInfoVaddr s.r
  have hwords : ∀ i < 16, loadWord m.mem (bootInfoPaddr + BitVec.ofNat 32 (4 * i)) =
      bootInfoWord (readU32 s.mem (systemRomBase + imageSizeOffset))
        (readU32 s.mem (systemRomBase + moduleTableOffset))
        (readU32 s.mem (systemRomBase + moduleCountOffset)) i := by
    intro i hi
    rw [← loadWord_writeBootInfo mem _ _ _ hi, hinfo]
    apply loadWord_of_changedOnly hkept
    intro k hk
    rw [tableRegion, mem_region, bootInfoPaddr]
    bv_omega
  refine ⟨m, hrun, hpointer, htables, ?_, fun a ha => ?_, ⟨mem, hloaded, fun a hinfoRegion htable =>
    ?_⟩, httbr⟩
  · rw [hpointer, httbr]
    exact load_bootInfo htables hwords
  · obtain ⟨hinfoRegion, htableRegion⟩ := not_mem_bootInfoRegion_of_systemRom ha
    rw [hkept a htableRegion, ← hinfo, writeBootInfo_changedOnly _ _ _ _ a hinfoRegion, hrom a ha]
  · rw [hkept a htable, ← hinfo, writeBootInfo_changedOnly _ _ _ _ a hinfoRegion]

/-! ## The record the kernels find -/

theorem bootInfoAccepted_packed (m : Mem) :
    Core.bootInfoAccepted bootInfoVaddr (packedBootInfo m) = true ↔
      readU32 m (systemRomBase + imageSizeOffset) ≠ 0 ∧
        readU32 m (systemRomBase + moduleCountOffset) = 1 ∧
          readU32 m (systemRomBase + moduleTableOffset) ≠ 0 := by
  simp only [Core.bootInfoAccepted, Bool.and_eq_true, decide_eq_true_eq]
  simp [packedBootInfo, handedOver, bootInfoMagic, abiVersion, sizeofBootInfo, and_assoc]

theorem bootInfoValid_packed (m : Mem) :
    Hello.bootInfoValid bootInfoVaddr (packedBootInfo m) = true := by
  simp [Hello.bootInfoValid, packedBootInfo, handedOver, bootInfoMagic, abiVersion,
    sizeofBootInfo, kernelDirectBase, kernelDirectSize, ramBase, ramSize]

theorem romAccepted_packed (m : Mem) :
    Hello.RomAccepted (packedBootInfo m) ↔
      1 ≤ (readU32 m (systemRomBase + imageSizeOffset)).toNat ∧
        (readU32 m (systemRomBase + imageSizeOffset)).toNat ≤ 0x01000000 :=
  ⟨fun h => ⟨h.nonempty, h.fits⟩, fun h => ⟨rfl, h.1, h.2⟩⟩

theorem mapSystemRom_iff (L : Hello.Layout) (m : Mem) (boot_info : BootInfo) :
    (Hello.mapSystemRom L m boot_info).1 = true ↔ Hello.RomAccepted boot_info := by
  by_cases hacc : Hello.RomAccepted boot_info
  · rw [Hello.mapSystemRom_of_accepted m hacc]
    exact ⟨fun _ => hacc, fun _ => rfl⟩
  · rw [Hello.mapSystemRom_of_not_accepted m hacc]
    exact ⟨fun hfalse => Bool.noConfusion hfalse, fun h => absurd h hacc⟩

/-- Boot info survives the way from the header of the image to the kernels, whatever RAM
held at reset. -/
theorem bootInfo_handoff (y : Bootstrap.Symbols) (s : Machine) (hp : Packed s.mem) :
    let image_size := readU32 s.mem (systemRomBase + imageSizeOffset)
    let module_table := readU32 s.mem (systemRomBase + moduleTableOffset)
    let module_count := readU32 s.mem (systemRomBase + moduleCountOffset)
    ∃ m, kernelCall y s = some m ∧
      BootInfo.load (virtualByte m.mem (m.cp15 .ttbr0)) 0xc0007000 =
        some (handedOver image_size module_table module_count) ∧
      (Core.bootInfoAccepted (m.r 0) (handedOver image_size module_table module_count) = true ↔
        image_size ≠ 0 ∧ module_count = 1 ∧ module_table ≠ 0) ∧
      ∀ L : Hello.Layout,
        ((Hello.bootInfoValid (m.r 0) (handedOver image_size module_table module_count) &&
          (Hello.mapSystemRom L m.mem (handedOver image_size module_table module_count)).1) =
            true ↔
          1 ≤ image_size.toNat ∧ image_size.toNat ≤ 0x01000000) := by
  intro image_size module_table module_count
  obtain ⟨m, hcall, hm⟩ := kernelCall_spec y s hp
  have hload := hm.info
  rw [hm.pointer] at hload
  refine ⟨m, hcall, hload, ?_, fun L => ?_⟩
  · rw [hm.pointer]
    exact bootInfoAccepted_packed s.mem
  · have hvalid := bootInfoValid_packed s.mem
    rw [packedBootInfo] at hvalid
    rw [hm.pointer, hvalid, Bool.true_and, mapSystemRom_iff]
    exact romAccepted_packed s.mem

/-- A kernel of one segment, with four bytes of data before its zeroed ones, and RAM full
of `0xa5`. -/
def sampleMemory : Mem :=
  let m := storeWord (fun _ => 0xa5) (systemRomBase + imageSizeOffset) 0x100
  let m := storeWord m (systemRomBase + moduleTableOffset) 0x60
  let m := storeWord m (systemRomBase + moduleCountOffset) 1
  let m := storeWord m (systemRomBase + kernelTableOffset) 0x40
  let m := storeWord m (systemRomBase + kernelCountOffset) 1
  let m := storeWord m (systemRomBase + 0x40) 0x80
  let m := storeWord m (systemRomBase + 0x44) 0x40030000
  let m := storeWord m (systemRomBase + 0x4c) 4
  let m := storeWord m (systemRomBase + 0x50) 0x84
  storeWord m (systemRomBase + 0x80) 0x13579bdf

theorem sampleMemory_segment :
    kernelCount sampleMemory = 1 ∧ kernelSegment sampleMemory 0 = ⟨0x80, 0x40030000, 4, 0x84⟩ ∧
      readU32 sampleMemory (systemRomBase + kernelTableOffset) = 0x40 := by
  decide +kernel

theorem sampleMemory_header :
    readU32 sampleMemory (systemRomBase + imageSizeOffset) = 0x100 ∧
      readU32 sampleMemory (systemRomBase + moduleTableOffset) = 0x60 ∧
      readU32 sampleMemory (systemRomBase + moduleCountOffset) = 1 := by
  decide +kernel

theorem sampleMemory_packed : Packed sampleMemory := by
  obtain ⟨hcount, hsegment, htable⟩ := sampleMemory_segment
  refine ⟨fun i hi => ?_, fun i hi => ?_⟩ <;> rw [hcount] at hi <;> obtain rfl : i = 0 := by omega
  · rw [htable]
    decide
  · rw [hsegment]
    refine ⟨fun k hk => ?_, by decide, fun a ha => ?_, fun a ha => ?_⟩
    · rw [show systemRomSize.toNat = 0x01000000 by decide]
      simp only [BitVec.reduceToNat] at hk ⊢
      omega
    · simp only [KernelSegment.extent, ram, ramBase, ramSize, mem_region, BitVec.reduceToNat]
        at ha ⊢
      bv_omega
    · simp only [KernelSegment.extent, reserved, mem_region, BitVec.reduceToNat] at ha ⊢
      bv_omega

/-- Both kernels take the header of the sample. -/
theorem bootInfo_handoff_sample :
    ∃ m, kernelCall ⟨0, 0, 0, 0, 0, 0, 0, 0, 0, 0⟩
        ⟨fun _ => 0, fun _ => 0, fun _ => 0, fun _ => 0, fun _ => 0, 0, 0xd3, fun _ => 0,
          sampleMemory⟩ = some m ∧
      BootInfo.load (virtualByte m.mem (m.cp15 .ttbr0)) 0xc0007000 =
        some (handedOver 0x100 0x60 1) ∧
      Core.bootInfoAccepted (m.r 0) (handedOver 0x100 0x60 1) = true ∧
      ∀ L : Hello.Layout, (Hello.bootInfoValid (m.r 0) (handedOver 0x100 0x60 1) &&
        (Hello.mapSystemRom L m.mem (handedOver 0x100 0x60 1)).1) = true := by
  obtain ⟨hsize, htable, hcount⟩ := sampleMemory_header
  obtain ⟨m, hcall, hload, hcore, hhello⟩ := bootInfo_handoff ⟨0, 0, 0, 0, 0, 0, 0, 0, 0, 0⟩
    ⟨fun _ => 0, fun _ => 0, fun _ => 0, fun _ => 0, fun _ => 0, 0, 0xd3, fun _ => 0,
      sampleMemory⟩ sampleMemory_packed
  simp only [hsize, htable, hcount] at hload hcore hhello
  refine ⟨m, hcall, hload, hcore.mpr (by decide), fun L => (hhello L).mpr (by decide)⟩

end Minemu.Handoff
