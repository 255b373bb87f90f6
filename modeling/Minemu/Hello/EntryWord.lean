import Minemu.Hello.Main
import Mathlib.Data.Nat.Find

/-!
# The word at the entry address

The loader checks the entry against each segment when it loads that segment, and
segments loaded later may cover the entry word again.  What they leave there decides
whether user code starts in packed bytes.
-/

namespace Minemu.Hello

open Minemu.Lib.Memory Minemu.Lib.Page Minemu.Lib.Registry Minemu.Platform
open Minemu.Startup.BootstrapWalk

/-- The word that user code finds at its entry is packed in an executable segment. -/
def EntryPacked (image : Image) (record : ModuleRecord) (m : Mem) : Prop :=
  ∃ s ∈ moduleSegments image record, s.flags &&& segmentExecutable ≠ 0 ∧
    s.virtualAddress.toNat ≤ record.entryVaddr.toNat ∧
    record.entryVaddr.toNat + 4 ≤ s.virtualAddress.toNat + s.fileSize.toNat ∧
    ∀ k < 4, ∃ t, translateVa m bootstrapRoot (record.entryVaddr + BitVec.ofNat 32 k) = some t ∧
      m t.paddr = image.bytes
        (s.dataOffset + (record.entryVaddr - s.virtualAddress) + BitVec.ofNat 32 k)

structure LastCovering (image : Image) (record : ModuleRecord) (v : Word) (j : Nat) : Prop where
  index : j < record.segmentCount.toNat
  covers : Covers (segmentAt image record j) v
  last : ∀ j', j < j' → j' < record.segmentCount.toNat → ¬ Covers (segmentAt image record j') v

/-- The entry word lies in the file part of some executable segment, and what later
segments last put over its bytes is what that segment has there. -/
def EntryKept (image : Image) (record : ModuleRecord) : Prop :=
  ∃ i < record.segmentCount.toNat, EntryIn record.entryVaddr (segmentAt image record i) ∧
    ∀ k < 4, ∀ j, i < j →
      LastCovering image record (record.entryVaddr + BitVec.ofNat 32 k) j →
      segmentByte image (segmentAt image record j) (record.entryVaddr + BitVec.ofNat 32 k) =
        segmentByte image (segmentAt image record i) (record.entryVaddr + BitVec.ofNat 32 k)

variable {image : Image} {record : ModuleRecord}

theorem mem_moduleSegments {s : ModuleSegment} :
    s ∈ moduleSegments image record ↔
      ∃ i < record.segmentCount.toNat, segmentAt image record i = s := by
  simp [moduleSegments, firstSegments, segmentAt]

theorem segmentAt_mem (image : Image) {i : Nat} (hi : i < record.segmentCount.toNat) :
    segmentAt image record i ∈ moduleSegments image record :=
  mem_moduleSegments.mpr ⟨i, hi, rfl⟩

theorem LastCovering.moduleByte_eq {v : Word} {j : Nat} (h : LastCovering image record v j) :
    moduleByte image (moduleSegments image record) v =
      segmentByte image (segmentAt image record j) v :=
  (moduleByte_firstSegments image record v record.segmentCount.toNat).1 j h.index h.covers h.last

theorem exists_lastCovering {v : Word} {i : Nat} (hi : i < record.segmentCount.toNat)
    (hcov : Covers (segmentAt image record i) v) :
    ∃ j, i ≤ j ∧ LastCovering image record v j := by
  have hbound : i ≤ record.segmentCount.toNat - 1 := by omega
  refine ⟨Nat.findGreatest (fun j => Covers (segmentAt image record j) v)
    (record.segmentCount.toNat - 1), Nat.le_findGreatest hbound hcov, ?_, ?_, fun j' hlt hj' => ?_⟩
  · have hle := Nat.findGreatest_le (P := fun j => Covers (segmentAt image record j) v)
      (record.segmentCount.toNat - 1)
    omega
  · exact Nat.findGreatest_spec (P := fun j => Covers (segmentAt image record j) v) hbound hcov
  · exact Nat.findGreatest_is_greatest hlt (by omega)

/-! ## The bytes of the entry word -/

section

variable {L : Layout} {ps : List (Word × Word)} {m : Mem}

/-- A byte of the entry word, in the segment that the entry lies in. -/
theorem EntryIn.byte {s : ModuleSegment} (h : EntryIn record.entryVaddr s)
    (hvalid : SegmentValid image s) {k : Nat} (hk : k < 4) :
    Covers s (record.entryVaddr + BitVec.ofNat 32 k) ∧
      segmentByte image s (record.entryVaddr + BitVec.ofNat 32 k) = image.bytes
        (s.dataOffset + (record.entryVaddr - s.virtualAddress) + BitVec.ofNat 32 k) := by
  obtain ⟨-, -, hlow, hhigh⟩ := h
  have hfile := hvalid.file
  have htop := hvalid.high
  refine ⟨⟨by bv_omega, by bv_omega⟩, ?_⟩
  rw [segmentByte, if_pos (by bv_omega)]
  congr 1
  bv_omega

theorem UserSpace.entry_byte (h : UserSpace L image (moduleSegments image record) ps m)
    {i k : Nat} (hi : i < record.segmentCount.toNat)
    (hentry : EntryIn record.entryVaddr (segmentAt image record i)) (hk : k < 4) :
    ∃ t, translateVa m bootstrapRoot (record.entryVaddr + BitVec.ofNat 32 k) = some t ∧
      m t.paddr = moduleByte image (moduleSegments image record)
        (record.entryVaddr + BitVec.ofNat 32 k) := by
  have hs := segmentAt_mem image hi
  have hvalid := h.valid _ hs
  obtain ⟨hcov, -⟩ := hentry.byte hvalid hk
  obtain ⟨_, -, htrans⟩ := h.translate_page hs hcov rfl
  have hlow := hvalid.low
  have hhigh := hvalid.high
  obtain ⟨hcovlow, hcovhigh⟩ := hcov
  refine ⟨_, htrans, (h.byte_at htrans (by omega)).1 fun hstack => ?_⟩
  have hbase := pageBase_toNat (record.entryVaddr + BitVec.ofNat 32 k)
  rw [hstack, show userStackBottom.toNat = 0x007ff000 by decide] at hbase
  omega

theorem UserSpace.entryPacked_iff (h : UserSpace L image (moduleSegments image record) ps m) :
    EntryPacked image record m ↔ EntryKept image record := by
  constructor
  · rintro ⟨s, hs, hexec, hlow, hhigh, hbytes⟩
    obtain ⟨i, hi, rfl⟩ := mem_moduleSegments.mp hs
    have hentry : EntryIn record.entryVaddr (segmentAt image record i) :=
      ⟨hexec, by omega, hlow, hhigh⟩
    refine ⟨i, hi, hentry, fun k hk j hij hlast => ?_⟩
    obtain ⟨t, ht, hbyte⟩ := hbytes k hk
    obtain ⟨t', ht', hread⟩ := h.entry_byte hi hentry hk
    rw [ht] at ht'
    obtain rfl := Option.some.inj ht'
    rw [← hlast.moduleByte_eq, ← hread, hbyte, (hentry.byte (h.valid _ hs) hk).2]
  · rintro ⟨i, hi, hentry, hkept⟩
    have hs := segmentAt_mem image hi
    refine ⟨_, hs, hentry.1, hentry.2.2.1, hentry.2.2.2, fun k hk => ?_⟩
    obtain ⟨t, ht, hread⟩ := h.entry_byte hi hentry hk
    obtain ⟨hcov, hbyte⟩ := hentry.byte (h.valid _ hs) hk
    obtain ⟨j, hij, hlast⟩ := exists_lastCovering hi hcov
    refine ⟨t, ht, ?_⟩
    rw [hread, hlast.moduleByte_eq, ← hbyte]
    by_cases heq : i = j
    · rw [heq]
    · exact hkept k hk j (by omega) hlast

end

/-- After an accepted load the entry word is packed in an executable segment exactly when
later segments leave one such word alone. -/
theorem loadUserModule_entryPacked_iff (L : Layout) (image : Image) (m : Mem)
    {moduleOffset : Word} {record : ModuleRecord}
    (hread : image.moduleRecord moduleOffset = some record) {m' : Mem}
    (hload : loadUserModule L image m moduleOffset = some (true, m')) :
    EntryPacked image record m' ↔ EntryKept image record := by
  rcases loadUserModule_spec L m hread with ⟨-, ps, m1, hrun, hfilled⟩ | ⟨-, m1, hrun, -⟩
  · rw [hrun] at hload
    obtain rfl : installUserSpace L m1 = m' := congrArg Prod.snd (Option.some.inj hload)
    exact hfilled.install.1.entryPacked_iff
  · rw [hrun] at hload
    cases hload

theorem loadUserModule_entryPacked_sample :
    ∃ m', loadUserModule sampleLayout sampleImage (fun _ => 0xa5) 0x40 = some (true, m') ∧
      EntryPacked sampleImage sampleRecord m' := by
  have hread : sampleImage.moduleRecord 0x40 = some sampleRecord := by
    rw [← sampleImage_record]
    exact sampleImage.moduleRecord_eq_some (by decide)
  rcases loadUserModule_spec sampleLayout (fun _ => 0xa5) hread with
    ⟨-, ps, m1, hrun, -⟩ | ⟨hbad, -⟩
  · refine ⟨_, hrun, (loadUserModule_entryPacked_iff sampleLayout sampleImage _ hread hrun).mpr
      ⟨0, by decide, ?_, fun k hk j hj hlast => ?_⟩⟩
    · rw [show segmentAt sampleImage sampleRecord 0 = sampleSegment by decide +kernel]
      exact ⟨by decide, by decide, by decide, by decide⟩
    · have hindex := hlast.index
      rw [show sampleRecord.segmentCount.toNat = 1 by decide] at hindex
      omega
  · exact absurd sampleImage_wellFormed hbad

/-! ## A module that covers its entry twice -/

/-- The small module with a second segment: four bytes at the entry, none of them packed. -/
def overlappingRom : Mem :=
  let m := storeWord (fun _ => 0) 0x40 0x80
  let m := storeWord m 0x44 10
  let m := storeWord m 0x48 0xa0
  let m := storeWord m 0x4c 2
  let m := storeWord m 0x50 0x00400000
  let m := storeWord m 0x80 0x72657375
  let m := storeWord m 0x84 0x6c65682d
  let m := storeWord m 0x88 0x00006f6c
  let m := storeWord m 0xa0 0xe0
  let m := storeWord m 0xa4 0x00400000
  let m := storeWord m 0xa8 8
  let m := storeWord m 0xac 0x10
  let m := storeWord m 0xb0 5
  let m := storeWord m 0xc0 0xe0
  let m := storeWord m 0xc4 0x00400000
  let m := storeWord m 0xc8 0
  let m := storeWord m 0xcc 4
  let m := storeWord m 0xd0 5
  let m := storeWord m 0xe0 0xef000000
  storeWord m 0xe4 0xeafffffe

def overlappingImage : Image := ⟨overlappingRom, 0x100⟩

def overlappingRecord : ModuleRecord := ⟨0x80, 10, 0xa0, 2, 0x00400000⟩

def codeSegment : ModuleSegment := ⟨0xe0, 0x00400000, 8, 0x10, 5⟩

def zeroSegment : ModuleSegment := ⟨0xe0, 0x00400000, 0, 4, 5⟩

theorem overlappingImage_segments :
    segmentAt overlappingImage overlappingRecord 0 = codeSegment ∧
      segmentAt overlappingImage overlappingRecord 1 = zeroSegment := by
  decide +kernel

theorem overlappingImage_wellFormed : WellFormed overlappingImage overlappingRecord := by
  have hsegments : moduleSegments overlappingImage overlappingRecord =
      [codeSegment, zeroSegment] := by decide +kernel
  have hpage : ∀ s ∈ [codeSegment, zeroSegment], ∀ v, Covers s v → pageBase v = 0x00400000 := by
    intro s hs v hv
    rcases List.mem_pair.mp hs with rfl | rfl
    · exact hv.pageBase_eq (by decide) (by decide)
    · exact hv.pageBase_eq (by decide) (by decide)
  refine wellFormed_of_page hsegments (f := 5) (by decide) (by decide) (by decide) ?_ hpage
    ?_ ?_
  · intro s hs
    rcases List.mem_pair.mp hs with rfl | rfl <;> decide
  · intro s hs
    rcases List.mem_pair.mp hs with rfl | rfl <;> rfl
  · exact ⟨codeSegment, List.mem_cons_self, by decide, by decide, by decide, by decide⟩

/-- The module is accepted, and user code would start in a word of zeros. -/
theorem loadUserModule_entryPacked_overlapping :
    ∃ m', loadUserModule sampleLayout overlappingImage (fun _ => 0xa5) 0x40 = some (true, m') ∧
      ¬ EntryPacked overlappingImage overlappingRecord m' := by
  have hread : overlappingImage.moduleRecord 0x40 = some overlappingRecord := by
    rw [overlappingImage.moduleRecord_eq_some (by decide)]
    decide +kernel
  rcases loadUserModule_spec sampleLayout (fun _ => 0xa5) hread with
    ⟨-, ps, m1, hrun, hfilled⟩ | ⟨hbad, -⟩
  swap
  · exact absurd overlappingImage_wellFormed hbad
  refine ⟨_, hrun, fun hpacked => ?_⟩
  obtain ⟨hcode, hzero⟩ := overlappingImage_segments
  obtain ⟨i, hi, hentry, hkept⟩ := hfilled.install.1.entryPacked_iff.mp hpacked
  rw [show overlappingRecord.segmentCount.toNat = 2 by decide] at hi
  obtain rfl | rfl : i = 0 ∨ i = 1 := by omega
  · have hlast : LastCovering overlappingImage overlappingRecord
        (overlappingRecord.entryVaddr + BitVec.ofNat 32 3) 1 := by
      refine ⟨by decide, ?_, fun j' hj hj' => ?_⟩
      · rw [hzero]
        decide
      · rw [show overlappingRecord.segmentCount.toNat = 2 by decide] at hj'
        omega
    have hbyte := hkept 3 (by omega) 1 (by omega) hlast
    rw [hcode, hzero] at hbyte
    exact absurd hbyte (by decide +kernel)
  · rw [hzero] at hentry
    exact absurd hentry.2.1 (by decide)

end Minemu.Hello
