import Minemu.Platform.BootInfo

/-!
# The packed image as the user-mode kernel reads it

Image pointers are kept as offsets from the start of system ROM, which wrap as the
pointers do.  A read at an offset that is not below the image size has no result,
so a run that returns one reads inside the image only.
-/

namespace Minemu.Hello

open Minemu.Lib.Memory Minemu.Platform

/-- The contents of system ROM by offset, and the image size boot info gives. -/
structure Image where
  bytes : Mem
  size : Word

namespace Image

def byte (image : Image) (offset : Word) : Option Byte :=
  if offset < image.size then some (image.bytes offset) else none

def word (image : Image) (offset : Word) : Option Word :=
  tryLoadWord image.byte offset

/-- `(const struct minemu_module_record *)(image + offset)` -/
def moduleRecord (image : Image) (offset : Word) : Option ModuleRecord := do
  let nameOffset ← image.word offset
  let nameLength ← image.word (offset + 4)
  let segmentTableOffset ← image.word (offset + 8)
  let segmentCount ← image.word (offset + 12)
  let entryVaddr ← image.word (offset + 16)
  some ⟨nameOffset, nameLength, segmentTableOffset, segmentCount, entryVaddr⟩

/-- `(const struct minemu_module_segment *)(image + offset)` -/
def moduleSegment (image : Image) (offset : Word) : Option ModuleSegment := do
  let dataOffset ← image.word offset
  let virtualAddress ← image.word (offset + 4)
  let fileSize ← image.word (offset + 8)
  let memorySize ← image.word (offset + 12)
  let flags ← image.word (offset + 16)
  some ⟨dataOffset, virtualAddress, fileSize, memorySize, flags⟩

end Image

def imageRangeValid (offset length imageSize : Word) : Bool :=
  offset ≤ imageSize && length ≤ imageSize - offset

def imageRecordsValid (offset count imageSize : Word) : Bool :=
  offset ≤ imageSize && count ≤ (imageSize - offset) >>> 5

/-! ## Valid ranges -/

theorem imageRangeValid_iff (offset length imageSize : Word) :
    imageRangeValid offset length imageSize ↔
      offset.toNat + length.toNat ≤ imageSize.toNat := by
  simp only [imageRangeValid, Bool.and_eq_true, decide_eq_true_eq]
  bv_omega

theorem imageRecordsValid_iff (offset count imageSize : Word) :
    imageRecordsValid offset count imageSize ↔
      offset.toNat + 32 * count.toNat ≤ imageSize.toNat := by
  simp only [imageRecordsValid, Bool.and_eq_true, decide_eq_true_eq]
  rw [BitVec.le_def, BitVec.le_def, BitVec.toNat_ushiftRight, Nat.shiftRight_eq_div_pow]
  bv_omega

/-! ## Reads inside the image -/

namespace Image

variable (image : Image)

theorem byte_eq_some {offset : Word} (h : offset.toNat < image.size.toNat) :
    image.byte offset = some (image.bytes offset) :=
  if_pos (BitVec.lt_def.mpr h)

theorem word_eq_some {offset : Word} (h : offset.toNat + 4 ≤ image.size.toNat) :
    image.word offset = some (loadWord image.bytes offset) := by
  have hsize := image.size.isLt
  exact tryLoadWord_eq_some fun i hi => image.byte_eq_some (by bv_omega)

/-- The record at an offset, wherever it lies. -/
def moduleRecordAt (offset : Word) : ModuleRecord where
  nameOffset := loadWord image.bytes offset
  nameLength := loadWord image.bytes (offset + 4)
  segmentTableOffset := loadWord image.bytes (offset + 8)
  segmentCount := loadWord image.bytes (offset + 12)
  entryVaddr := loadWord image.bytes (offset + 16)

def moduleSegmentAt (offset : Word) : ModuleSegment where
  dataOffset := loadWord image.bytes offset
  virtualAddress := loadWord image.bytes (offset + 4)
  fileSize := loadWord image.bytes (offset + 8)
  memorySize := loadWord image.bytes (offset + 12)
  flags := loadWord image.bytes (offset + 16)

theorem moduleRecord_eq_some {offset : Word} (h : offset.toNat + 32 ≤ image.size.toNat) :
    image.moduleRecord offset = some (image.moduleRecordAt offset) := by
  have hsize := image.size.isLt
  simp only [moduleRecord]
  rw [image.word_eq_some (by omega), image.word_eq_some (by bv_omega),
    image.word_eq_some (by bv_omega), image.word_eq_some (by bv_omega),
    image.word_eq_some (by bv_omega)]
  rfl

theorem moduleSegment_eq_some {offset : Word} (h : offset.toNat + 32 ≤ image.size.toNat) :
    image.moduleSegment offset = some (image.moduleSegmentAt offset) := by
  have hsize := image.size.isLt
  simp only [moduleSegment]
  rw [image.word_eq_some (by omega), image.word_eq_some (by bv_omega),
    image.word_eq_some (by bv_omega), image.word_eq_some (by bv_omega),
    image.word_eq_some (by bv_omega)]
  rfl

end Image

end Minemu.Hello
