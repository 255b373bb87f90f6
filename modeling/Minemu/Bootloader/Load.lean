import Minemu.Bootloader.Boot

/-!
# What the loader leaves in memory

The packer's validation makes every copy read system ROM and write RAM, so the
records a later pass reads are those of the image as packed.
-/

namespace Minemu.Bootloader.Boot

open Minemu.Lib.Memory Minemu.Platform

def systemRom : Set Word := region systemRomBase systemRomSize.toNat

def ram : Set Word := region ramBase ramSize.toNat

/-- The loader's stack page and the boot-info record above it. -/
def reserved : Set Word := region 0x40006000 0x1040

namespace KernelSegment

def extent (s : KernelSegment) : Set Word := region s.paddr s.memorySize.toNat

instance (s : KernelSegment) (a : Word) : Decidable (a ∈ s.extent) :=
  inferInstanceAs (Decidable (a ∈ region s.paddr s.memorySize.toNat))

def byteAt (image : Mem) (s : KernelSegment) (a : Word) : Byte :=
  if (a - s.paddr).toNat < s.fileSize.toNat then
    image (systemRomBase + (s.data + (a - s.paddr)))
  else 0

/-- What the packer checks of a segment.  An extent inside RAM does not wrap. -/
structure Valid (s : KernelSegment) : Prop where
  data : ∀ k < s.fileSize.toNat, s.data.toNat + k < systemRomSize.toNat
  size : s.fileSize.toNat ≤ s.memorySize.toNat
  inRam : ∀ a ∈ s.extent, a ∈ ram
  apart : ∀ a ∈ s.extent, a ∉ reserved

end KernelSegment

def kernelCount (m : Mem) : Nat := (readU32 m (systemRomBase + kernelCountOffset)).toNat

def kernelSegment (m : Mem) (i : Nat) : KernelSegment :=
  readKernelSegment m (systemRomBase + readU32 m (systemRomBase + kernelTableOffset) +
    BitVec.ofNat 32 i * kernelSegmentSize)

/-- A validated image: the record table lies in system ROM, and so does the data
of every record. -/
structure Packed (m : Mem) : Prop where
  table : ∀ i < kernelCount m,
    (readU32 m (systemRomBase + kernelTableOffset)).toNat + 32 * i + 32 ≤ systemRomSize.toNat
  segments : ∀ i < kernelCount m, (kernelSegment m i).Valid

/-! ## One segment -/

theorem not_mem_ram_of_systemRom {a : Word} (h : a ∈ systemRom) : a ∉ ram := by
  simp only [systemRom, ram, mem_region, systemRomBase, systemRomSize, ramBase, ramSize,
    BitVec.reduceToNat] at h ⊢
  bv_omega

/-- Reading a record needs the 32 bytes it lies in only. -/
theorem readKernelSegment_congr {m m' : Mem} {record : Word}
    (h : ∀ k < 32, m' (record + BitVec.ofNat 32 k) = m (record + BitVec.ofNat 32 k)) :
    readKernelSegment m' record = readKernelSegment m record := by
  have hword : ∀ off : Word, off.toNat < 29 →
      loadWord m' (record + off) = loadWord m (record + off) := by
    intro off hoff
    apply loadWord_congr
    intro i hi
    rw [show record + off + BitVec.ofNat 32 i = record + BitVec.ofNat 32 (off.toNat + i)
      by bv_omega]
    exact h _ (by omega)
  simp only [readKernelSegment, readU32_eq_loadWord, segmentDataOffset, segmentPaddrOffset,
    segmentFileSizeOffset, segmentMemorySizeOffset]
  rw [hword 0x00 (by decide), hword 0x04 (by decide), hword 0x0c (by decide),
    hword 0x10 (by decide)]

/-- One pass over a valid segment writes its extent and nothing else. -/
theorem copyBytes_zeroBytes_apply (m : Mem) {s : KernelSegment} (h : s.Valid) (a : Word) :
    zeroBytes (copyBytes m s.paddr (systemRomBase + s.data) s.fileSize)
        (s.paddr + s.fileSize) (s.memorySize - s.fileSize) a =
      if a ∈ s.extent then s.byteAt m a else m a := by
  have hsize := h.size
  have hsource : ∀ i < s.fileSize.toNat,
      systemRomBase + s.data + BitVec.ofNat 32 i ∉ region s.paddr s.fileSize.toNat := by
    intro i hi hmem
    have hdata := h.data i hi
    have hrom : systemRomBase + s.data + BitVec.ofNat 32 i ∈ systemRom := by
      simp only [systemRom, mem_region, systemRomBase, systemRomSize, BitVec.reduceToNat]
        at hdata ⊢
      bv_omega
    refine not_mem_ram_of_systemRom hrom (h.inRam _ ?_)
    rw [mem_region] at hmem
    exact mem_region.mpr (by omega)
  have hcopy := copyUp_eq_fillBytes m s.paddr (systemRomBase + s.data)
    (Nat.le_of_lt s.fileSize.isLt) hsource
  rw [zeroBytes, fillBytes_apply _ _ _ _ _ (by omega), copyBytes, hcopy,
    fillBytes_apply _ _ _ _ _ (by omega)]
  simp only [KernelSegment.extent, KernelSegment.byteAt, mem_region]
  by_cases hfile : (a - s.paddr).toNat < s.fileSize.toNat
  · rw [if_neg (by bv_omega), if_pos hfile, if_pos (by omega), if_pos hfile]
    rw [show systemRomBase + s.data + BitVec.ofNat 32 (a - s.paddr).toNat =
      systemRomBase + (s.data + (a - s.paddr)) by
        rw [BitVec.ofNat_toNat, BitVec.setWidth_eq, BitVec.add_assoc]]
  · by_cases hmem : (a - s.paddr).toNat < s.memorySize.toNat
    · rw [if_pos (by bv_omega), if_pos hmem, if_neg hfile]
    · rw [if_neg (by bv_omega), if_neg hfile, if_neg hmem]

/-! ## All segments -/

/-- The state of memory after the first `n` records of `m`: for every address the
last of them that covers it decides. -/
structure Loaded (m : Mem) (n : Nat) (m' : Mem) : Prop where
  covered : ∀ a, ∀ i < n, a ∈ (kernelSegment m i).extent →
    (∀ j, i < j → j < n → a ∉ (kernelSegment m j).extent) →
    m' a = (kernelSegment m i).byteAt m a
  kept : ∀ a, (∀ i < n, a ∉ (kernelSegment m i).extent) → m' a = m a

theorem Loaded.systemRom_eq {m m' : Mem} {n : Nat} (h : Loaded m n m') (hp : Packed m)
    (hn : n ≤ kernelCount m) : ∀ a ∈ systemRom, m' a = m a := by
  intro a ha
  apply h.kept a
  intro i hi hmem
  exact not_mem_ram_of_systemRom ha ((hp.segments i (by omega)).inRam a hmem)

/-- A record read after some segments are loaded is the packed one. -/
theorem Loaded.readKernelSegment_eq {m m' : Mem} {n : Nat} (h : Loaded m n m')
    (hp : Packed m) (hn : n < kernelCount m) :
    readKernelSegment m' (systemRomBase + readU32 m (systemRomBase + kernelTableOffset) +
      BitVec.ofNat 32 n * kernelSegmentSize) = kernelSegment m n := by
  apply readKernelSegment_congr
  intro k hk
  apply h.systemRom_eq hp (Nat.le_of_lt hn)
  have htable := hp.table n hn
  have hmul : BitVec.ofNat 32 n * kernelSegmentSize = BitVec.ofNat 32 (n * 32) := by
    rw [kernelSegmentSize, BitVec.ofNat_mul]
    rfl
  rw [hmul]
  simp only [systemRom, mem_region, systemRomBase, systemRomSize, BitVec.reduceToNat]
    at htable ⊢
  bv_omega

theorem KernelSegment.byteAt_congr {m m' : Mem} {s : KernelSegment} (h : s.Valid)
    (hrom : ∀ a ∈ systemRom, m' a = m a) (a : Word) : s.byteAt m' a = s.byteAt m a := by
  unfold byteAt
  split
  · rename_i hfile
    have hdata := h.data _ hfile
    apply hrom
    simp only [systemRom, mem_region, systemRomBase, systemRomSize, BitVec.reduceToNat]
      at hdata ⊢
    bv_omega
  · rfl

theorem loadKernelSegments_loaded {m : Mem} (hp : Packed m) {n : Nat}
    (hn : n ≤ kernelCount m) :
    Loaded m n (loadKernelSegments m (readU32 m (systemRomBase + kernelTableOffset)) n) := by
  induction n with
  | zero => exact ⟨fun _ i hi => absurd hi (Nat.not_lt_zero i), fun _ _ => rfl⟩
  | succ n ih =>
      have hprev := ih (by omega)
      have hvalid := hp.segments n (by omega)
      have hpass : ∀ a, loadKernelSegments m (readU32 m (systemRomBase + kernelTableOffset))
          (n + 1) a = if a ∈ (kernelSegment m n).extent then (kernelSegment m n).byteAt m a
            else loadKernelSegments m (readU32 m (systemRomBase + kernelTableOffset)) n a := by
        intro a
        rw [loadKernelSegments, loadKernelSegment, hprev.readKernelSegment_eq hp (by omega)]
        rw [copyBytes_zeroBytes_apply _ hvalid,
          KernelSegment.byteAt_congr hvalid (hprev.systemRom_eq hp (by omega))]
      constructor
      · intro a i hi hmem hlast
        rw [hpass]
        by_cases hin : i = n
        · rw [hin] at hmem ⊢
          rw [if_pos hmem]
        · rw [if_neg (hlast n (by omega) (by omega))]
          exact hprev.covered a i (by omega) hmem (fun j hij hj => hlast j hij (by omega))
      · intro a hnone
        rw [hpass, if_neg (hnone n (by omega))]
        exact hprev.kept a (fun i hi => hnone i (by omega))

/-! ## The boot-info record -/

def bootInfoRegion : Set Word := region bootInfoPaddr bootInfoSize.toNat

theorem zeroBytes_bootInfo_changedOnly (m : Mem) :
    ChangedOnly bootInfoRegion m (zeroBytes m bootInfoPaddr bootInfoSize) :=
  fillBytes_changedOnly m bootInfoPaddr (fun _ => 0) _ (by decide)

theorem storeWord_bootInfo_changedOnly (m : Mem) (off w : Word) (hoff : off.toNat ≤ 60) :
    ChangedOnly bootInfoRegion m (storeWord m (bootInfoPaddr + off) w) := by
  apply (storeWord_changedOnly m _ w).mono
  intro a ha
  rw [mem_region] at ha
  rw [bootInfoRegion, mem_region, show bootInfoSize.toNat = 64 by decide]
  bv_omega

/-- The record as words: the two halfwords share one. -/
theorem writeBootInfo_eq (m : Mem) (image_size module_table module_count : Word) :
    writeBootInfo m image_size module_table module_count =
      (let m := zeroBytes m bootInfoPaddr bootInfoSize
       let m := storeWord m (bootInfoPaddr + 0x00) bootInfoMagic
       let m := storeWord m (bootInfoPaddr + 0x04) 0x00400001
       let m := storeWord m (bootInfoPaddr + 0x08) systemRomBase
       let m := storeWord m (bootInfoPaddr + 0x0c) image_size
       let m := storeWord m (bootInfoPaddr + 0x10) module_table
       let m := storeWord m (bootInfoPaddr + 0x14) module_count
       let m := storeWord m (bootInfoPaddr + 0x18) directMapVaddr
       let m := storeWord m (bootInfoPaddr + 0x1c) directMapPaddr
       storeWord m (bootInfoPaddr + 0x20) directMapSize) := by
  have hhalves : ∀ m : Mem,
      writeU16 (writeU16 m (bootInfoPaddr + 0x04) (abiVersion.setWidth 16))
        (bootInfoPaddr + 0x06) (bootInfoSize.setWidth 16) =
      storeWord m (bootInfoPaddr + 0x04) 0x00400001 :=
    fun m => writeU16_writeU16 m (bootInfoPaddr + 0x04) _ _
  simp only [writeBootInfo, writeU32_eq_storeWord, hhalves]

theorem writeBootInfo_changedOnly (m : Mem) (image_size module_table module_count : Word) :
    ChangedOnly bootInfoRegion m (writeBootInfo m image_size module_table module_count) := by
  rw [writeBootInfo_eq]
  iterate 9 refine ChangedOnly.trans ?_ (storeWord_bootInfo_changedOnly _ _ _ (by decide))
  exact zeroBytes_bootInfo_changedOnly m

/-! ## `boot_main` -/

/-- Outside the loader stack page and the boot-info record, the last segment in table
order that covers an address decides its byte, and an uncovered byte is kept. -/
theorem bootMain_loads (m : Mem) (hp : Packed m) (a : Word) (ha : a ∉ reserved) :
    (∀ i < kernelCount m, a ∈ (kernelSegment m i).extent →
      (∀ j, i < j → j < kernelCount m → a ∉ (kernelSegment m j).extent) →
      (bootMain m).mem a = (kernelSegment m i).byteAt m a) ∧
    ((∀ i < kernelCount m, a ∉ (kernelSegment m i).extent) → (bootMain m).mem a = m a) := by
  have hloaded := loadKernelSegments_loaded hp (Nat.le_refl (kernelCount m))
  have hinfo : a ∉ bootInfoRegion := by
    simp only [reserved, bootInfoRegion, bootInfoPaddr, bootInfoSize, mem_region,
      BitVec.reduceToNat] at ha ⊢
    bv_omega
  have hmem : (bootMain m).mem a = loadKernelSegments m
      (readU32 m (systemRomBase + kernelTableOffset)) (kernelCount m) a :=
    writeBootInfo_changedOnly _ _ _ _ a hinfo
  rw [hmem]
  exact ⟨hloaded.covered a, hloaded.kept a⟩

/-- Two records whose extents overlap: the second starts two bytes into the first. -/
def overlappingImage : Mem :=
  let m := storeWord (fun _ => 0xa5) (systemRomBase + kernelTableOffset) 0x40
  let m := storeWord m (systemRomBase + kernelCountOffset) 2
  let m := storeWord m (systemRomBase + 0x40) 0x80
  let m := storeWord m (systemRomBase + 0x44) 0x40030000
  let m := storeWord m (systemRomBase + 0x4c) 4
  let m := storeWord m (systemRomBase + 0x50) 8
  let m := storeWord m (systemRomBase + 0x60) 0x84
  let m := storeWord m (systemRomBase + 0x64) 0x40030002
  let m := storeWord m (systemRomBase + 0x6c) 1
  let m := storeWord m (systemRomBase + 0x70) 2
  let m := storeWord m (systemRomBase + 0x80) 0x44332211
  storeByte m (systemRomBase + 0x84) 0x55

theorem overlappingImage_packed : Packed overlappingImage := by
  have hcount : kernelCount overlappingImage = 2 := by decide +kernel
  have htable : readU32 overlappingImage (systemRomBase + kernelTableOffset) = 0x40 := by
    decide +kernel
  have h0 : kernelSegment overlappingImage 0 = ⟨0x80, 0x40030000, 4, 8⟩ := by decide +kernel
  have h1 : kernelSegment overlappingImage 1 = ⟨0x84, 0x40030002, 1, 2⟩ := by decide +kernel
  have hvalid : ∀ s : KernelSegment, s.data.toNat + s.fileSize.toNat ≤ 0x100 →
      s.fileSize.toNat ≤ s.memorySize.toNat →
      0x40030000 ≤ s.paddr.toNat → s.paddr.toNat + s.memorySize.toNat ≤ 0x40040000 →
      s.Valid := by
    intro s hdata hsize hlow hhigh
    refine ⟨fun k hk => ?_, hsize, fun a ha => ?_, fun a ha => ?_⟩
    · rw [show systemRomSize.toNat = 0x01000000 by decide]
      omega
    · simp only [KernelSegment.extent, ram, ramBase, ramSize, mem_region,
        BitVec.reduceToNat] at ha ⊢
      bv_omega
    · simp only [KernelSegment.extent, reserved, mem_region] at ha ⊢
      bv_omega
  refine ⟨fun i hi => ?_, fun i hi => ?_⟩
  · rw [htable, show systemRomSize.toNat = 0x01000000 by decide]
    rw [hcount] at hi
    simp only [BitVec.reduceToNat]
    omega
  · rw [hcount] at hi
    obtain rfl | rfl : i = 0 ∨ i = 1 := by omega
    · rw [h0]
      exact hvalid _ (by decide) (by decide) (by decide) (by decide)
    · rw [h1]
      exact hvalid _ (by decide) (by decide) (by decide) (by decide)

/-- The second record zeroes a byte the first one copied, and the byte after both is
kept. -/
theorem bootMain_loads_overlapping :
    (bootMain overlappingImage).mem 0x40030001 = 0x22 ∧
      (bootMain overlappingImage).mem 0x40030003 = 0 ∧
      (bootMain overlappingImage).mem 0x40030008 = 0xa5 := by
  have hcount : kernelCount overlappingImage = 2 := by decide +kernel
  have h0 : kernelSegment overlappingImage 0 = ⟨0x80, 0x40030000, 4, 8⟩ := by decide +kernel
  have h1 : kernelSegment overlappingImage 1 = ⟨0x84, 0x40030002, 1, 2⟩ := by decide +kernel
  refine ⟨?_, ?_, ?_⟩
  · have h := (bootMain_loads overlappingImage overlappingImage_packed 0x40030001
      (by rw [reserved]; decide)).1 0 (by rw [hcount]; decide) (by rw [h0]; decide)
      (fun j hj hj' => by
        obtain rfl : j = 1 := by omega
        rw [h1]
        decide)
    rw [h, h0]
    decide +kernel
  · have h := (bootMain_loads overlappingImage overlappingImage_packed 0x40030003
      (by rw [reserved]; decide)).1 1 (by rw [hcount]; decide) (by rw [h1]; decide)
      (fun j hj hj' => by
        omega)
    rw [h, h1]
    decide +kernel
  · have h := (bootMain_loads overlappingImage overlappingImage_packed 0x40030008
      (by rw [reserved]; decide)).2 (fun i hi => by
        obtain rfl | rfl : i = 0 ∨ i = 1 := by omega
        · rw [h0]
          decide
        · rw [h1]
          decide)
    rw [h]
    decide +kernel

end Minemu.Bootloader.Boot
