import Minemu.Lib.Arm
import Minemu.Platform.Mmu

/-!
# `boot.c`: the Boot ROM loader

The loader runs with the MMU off, so addresses are physical and one memory holds
both the packed image in system ROM and RAM.  Its own locals live in the reserved
stack page below the boot-info record and are not part of the model.
-/

namespace Minemu.Bootloader.Boot

open Minemu.Lib Minemu.Lib.Memory Minemu.Platform

def bootInfoPaddr : Word := 0x40007000

def bootInfoVaddr : Word := 0xc0007000

/-! ## Constants of the packed image and of boot info -/

def imageSizeOffset : Word := 0x08

def kernelTableOffset : Word := 0x0c

def kernelCountOffset : Word := 0x10

def moduleTableOffset : Word := 0x14

def moduleCountOffset : Word := 0x18

def bootstrapEntryOffset : Word := 0x1c

def segmentDataOffset : Word := 0x00

def segmentPaddrOffset : Word := 0x04

def segmentFileSizeOffset : Word := 0x0c

def segmentMemorySizeOffset : Word := 0x10

def kernelSegmentSize : Word := 32

def bootInfoMagic : Word := 0x4d424f4f

def abiVersion : Word := 1

def bootInfoSize : Word := 64

def directMapVaddr : Word := 0xc0000000

def directMapPaddr : Word := 0x40000000

def directMapSize : Word := 0x04000000

/-! ## Byte accesses -/

def readU32 (m : Mem) (address : Word) : Word :=
  (m address).setWidth 32 ||| ((m (address + 1)).setWidth 32 <<< 8) |||
    ((m (address + 2)).setWidth 32 <<< 16) ||| ((m (address + 3)).setWidth 32 <<< 24)

def writeU16 (m : Mem) (address : Word) (value : BitVec 16) : Mem :=
  let m := storeByte m address (value.setWidth 8)
  storeByte m (address + 1) ((value >>> 8).setWidth 8)

def writeU32 (m : Mem) (address value : Word) : Mem :=
  let m := storeByte m address (value.setWidth 8)
  let m := storeByte m (address + 1) ((value >>> 8).setWidth 8)
  let m := storeByte m (address + 2) ((value >>> 16).setWidth 8)
  storeByte m (address + 3) ((value >>> 24).setWidth 8)

def copyBytes (m : Mem) (destination source count : Word) : Mem :=
  copyUp m destination source count.toNat

def zeroBytes (m : Mem) (destination count : Word) : Mem :=
  fillBytes m destination (fun _ => 0) count.toNat

def writeBootInfo (m : Mem) (image_size module_table module_count : Word) : Mem :=
  let m := zeroBytes m bootInfoPaddr bootInfoSize
  let m := writeU32 m (bootInfoPaddr + 0x00) bootInfoMagic
  let m := writeU16 m (bootInfoPaddr + 0x04) (abiVersion.setWidth 16)
  let m := writeU16 m (bootInfoPaddr + 0x06) (bootInfoSize.setWidth 16)
  let m := writeU32 m (bootInfoPaddr + 0x08) systemRomBase
  let m := writeU32 m (bootInfoPaddr + 0x0c) image_size
  let m := writeU32 m (bootInfoPaddr + 0x10) module_table
  let m := writeU32 m (bootInfoPaddr + 0x14) module_count
  let m := writeU32 m (bootInfoPaddr + 0x18) directMapVaddr
  let m := writeU32 m (bootInfoPaddr + 0x1c) directMapPaddr
  writeU32 m (bootInfoPaddr + 0x20) directMapSize

/-! ## Kernel segments -/

/-- The fields the loader uses of a packed kernel segment record. -/
structure KernelSegment where
  data : Word
  paddr : Word
  fileSize : Word
  memorySize : Word
  deriving DecidableEq

def readKernelSegment (m : Mem) (record : Word) : KernelSegment where
  data := readU32 m (record + segmentDataOffset)
  paddr := readU32 m (record + segmentPaddrOffset)
  fileSize := readU32 m (record + segmentFileSizeOffset)
  memorySize := readU32 m (record + segmentMemorySizeOffset)

/-- One pass of the loop of `boot_main`. -/
def loadKernelSegment (m : Mem) (kernel_table index : Word) : Mem :=
  let record := systemRomBase + kernel_table + index * kernelSegmentSize
  let segment := readKernelSegment m record
  let source := systemRomBase + segment.data
  let m := copyBytes m segment.paddr source segment.fileSize
  zeroBytes m (segment.paddr + segment.fileSize) (segment.memorySize - segment.fileSize)

def loadKernelSegments (m : Mem) (kernel_table : Word) : Nat → Mem
  | 0 => m
  | index + 1 =>
    loadKernelSegment (loadKernelSegments m kernel_table index) kernel_table
      (BitVec.ofNat 32 index)

structure BootstrapCall where
  mem : Mem
  entry : Word
  bootInfo : Word

def bootMain (m : Mem) : BootstrapCall :=
  let image_size := readU32 m (systemRomBase + imageSizeOffset)
  let kernel_table := readU32 m (systemRomBase + kernelTableOffset)
  let kernel_count := readU32 m (systemRomBase + kernelCountOffset)
  let m := loadKernelSegments m kernel_table kernel_count.toNat
  let m := writeBootInfo m image_size
    (readU32 m (systemRomBase + moduleTableOffset))
    (readU32 m (systemRomBase + moduleCountOffset))
  { mem := m
    entry := readU32 m (systemRomBase + bootstrapEntryOffset)
    bootInfo := bootInfoVaddr }

def reset : List Arm.Instr := [
  .msrCpsrC 0xd3,
  .ldrLit .sp 0x40007000]

/-- The machine at the bootstrap entry.  The compiled loader may leave any values in
the general registers, but stays in the mode that reset selects. -/
def enterKernel (s : Arm.Machine) (call : BootstrapCall) : Arm.Machine :=
  { Arm.block reset s with
    r := Function.update s.r 0 call.bootInfo
    pc := call.entry
    mem := call.mem }

/-! ## Words through bytes -/

theorem readU32_eq_loadWord (m : Mem) (a : Word) : readU32 m a = loadWord m a := by
  apply BitVec.eq_of_getLsbD_eq
  intro i hi
  simp only [readU32, loadWord, ofBytes, BitVec.getLsbD_or, BitVec.getLsbD_shiftLeft,
    BitVec.getLsbD_setWidth, BitVec.getLsbD_append, hi, decide_true, Bool.true_and]
  -- one byte covers bit `i`; the others are shifted away from it
  by_cases h0 : i < 8
  · simp (disch := omega) [h0, show i < 16 by omega, show i < 24 by omega]
  by_cases h1 : i < 16
  · simp (disch := omega) [h0, h1, show i < 24 by omega, show i - 8 < 32 by omega,
      show i - 8 < 8 by omega]
  by_cases h2 : i < 24
  · simp (disch := omega) [h0, h1, h2, show i - 8 < 32 by omega, show i - 16 < 32 by omega,
      show ¬ i - 8 < 8 by omega, show i - 16 < 8 by omega, show i - 8 - 8 = i - 16 by omega]
  · simp (disch := omega) [h0, h1, h2, show i - 8 < 32 by omega, show i - 16 < 32 by omega,
      show i - 24 < 32 by omega, show ¬ i - 8 < 8 by omega, show ¬ i - 8 - 8 < 8 by omega,
      show i - 8 - 8 - 8 = i - 24 by omega]

theorem writeU32_eq_storeWord (m : Mem) (a w : Word) : writeU32 m a w = storeWord m a w := by
  have hbyte : ∀ k, (w >>> (8 * k)).setWidth 8 = byteOf w k := by
    intro k
    apply BitVec.eq_of_getLsbD_eq
    intro i hi
    simp [byteOf, hi, Nat.add_comm]
  have h0 := hbyte 0
  have h1 := hbyte 1
  have h2 := hbyte 2
  have h3 := hbyte 3
  simp only [Nat.mul_zero, BitVec.ushiftRight_zero] at h0
  simp only [Nat.reduceMul] at h1 h2 h3
  simp only [writeU32, storeWord, fillBytes, h0, h1, h2, h3]
  rw [show a + BitVec.ofNat 32 0 = a by bv_omega]
  rfl

/-- Two adjacent halfword writes are one word write. -/
theorem writeU16_writeU16 (m : Mem) (a : Word) (low high : BitVec 16) :
    writeU16 (writeU16 m a low) (a + 2) high = storeWord m a (high ++ low) := by
  have hbyte : ∀ i < 8, ∀ k < 4, (byteOf (high ++ low) k).getLsbD i =
      if k < 2 then low.getLsbD (8 * k + i) else high.getLsbD (8 * (k - 2) + i) := by
    intro i hi k hk
    rw [byteOf, BitVec.getLsbD_extractLsb', decide_eq_true hi, Bool.true_and,
      BitVec.getLsbD_append]
    by_cases h : k < 2
    · rw [if_pos (by omega), if_pos h]
    · rw [if_neg (by omega), if_neg h, show 8 * k + i - 16 = 8 * (k - 2) + i by omega]
  have hlow : ∀ k < 2, (low >>> (8 * k)).setWidth 8 = byteOf (high ++ low) k := by
    intro k hk
    apply BitVec.eq_of_getLsbD_eq
    intro i hi
    rw [hbyte i hi k (by omega), if_pos hk]
    simp [hi]
  have hhigh : ∀ k < 2, (high >>> (8 * k)).setWidth 8 = byteOf (high ++ low) (k + 2) := by
    intro k hk
    apply BitVec.eq_of_getLsbD_eq
    intro i hi
    rw [hbyte i hi (k + 2) (by omega), if_neg (by omega)]
    simp [hi]
  have h0 := hlow 0 (by omega)
  have h1 := hlow 1 (by omega)
  have h2 := hhigh 0 (by omega)
  have h3 := hhigh 1 (by omega)
  simp only [Nat.mul_zero, BitVec.ushiftRight_zero, Nat.zero_add] at h0 h2
  simp only [Nat.reduceMul, Nat.reduceAdd] at h1 h3
  simp only [writeU16, storeWord, fillBytes, h0, h1, h2, h3]
  rw [show a + BitVec.ofNat 32 0 = a by bv_omega,
    show a + 2 + 1 = a + BitVec.ofNat 32 3 by bv_omega]
  rfl

end Minemu.Bootloader.Boot
