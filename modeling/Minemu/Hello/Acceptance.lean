import Minemu.Hello.Segments
import Mathlib.Data.Set.Card

/-!
# Which modules the loader accepts

`WellFormed` is the loader's acceptance condition as a property of the whole list
of segments.  The loop checks it incrementally, in table order, and stops at the
first violation.
-/

namespace Minemu.Hello

open Minemu.Lib.Memory Minemu.Lib.Page Minemu.Lib.Registry Minemu.Platform

def firstSegments (image : Image) (record : ModuleRecord) (n : Nat) : List ModuleSegment :=
  (List.range n).map fun index =>
    image.moduleSegmentAt (record.segmentTableOffset + BitVec.ofNat 32 (32 * index))

def moduleSegments (image : Image) (record : ModuleRecord) : List ModuleSegment :=
  firstSegments image record record.segmentCount.toNat

/-- The pages that some segment overlaps. -/
def modulePages (segments : List ModuleSegment) : Set Word :=
  {p | ∃ s ∈ segments, ∃ v, Covers s v ∧ pageBase v = p}

structure WellFormed (image : Image) (record : ModuleRecord) : Prop where
  count : 0 < record.segmentCount.toNat
  table : record.segmentTableOffset.toNat + 32 * record.segmentCount.toNat ≤ image.size.toNat
  aligned : record.entryVaddr.toNat % 4 = 0
  valid : ∀ s ∈ moduleSegments image record, SegmentValid image s
  pages : (modulePages (moduleSegments image record)).ncard ≤ 16
  shared : ∀ s ∈ moduleSegments image record, ∀ s' ∈ moduleSegments image record,
    ∀ v v', Covers s v → Covers s' v' → pageBase v = pageBase v' → s.flags = s'.flags
  entry : ∃ s ∈ moduleSegments image record, EntryIn record.entryVaddr s

theorem firstSegments_succ (image : Image) (record : ModuleRecord) (n : Nat) :
    firstSegments image record (n + 1) = firstSegments image record n ++
      [image.moduleSegmentAt (record.segmentTableOffset + BitVec.ofNat 32 (32 * n))] := by
  rw [firstSegments, List.range_succ, List.map_append]
  rfl

/-! ## The acceptance condition -/

theorem flags_lt_of_mask {f : Word}
    (h : f &&& ~~~(segmentReadable ||| segmentWritable ||| segmentExecutable) = 0) :
    f.toNat < 8 := by
  have hmask : f &&& 7 = f := by
    have hsplit : f = (f &&& 7) ||| (f &&& ~~~(7 : Word)) := by
      rw [← BitVec.and_or_distrib_left, BitVec.or_not_self, BitVec.and_allOnes]
    have hzero : f &&& ~~~(7 : Word) = 0#32 := h
    rw [hzero, BitVec.or_zero] at hsplit
    exact hsplit.symm
  have hle : (f &&& 7).toNat ≤ 7 := by
    rw [BitVec.toNat_and]
    exact Nat.and_le_right
  rw [hmask] at hle
  omega

/-- No information is lost from segment flags to table flags. -/
theorem pteFlagsFromSegment_inj {f f' : Word}
    (h : f &&& ~~~(segmentReadable ||| segmentWritable ||| segmentExecutable) = 0)
    (h' : f' &&& ~~~(segmentReadable ||| segmentWritable ||| segmentExecutable) = 0)
    (heq : pteFlagsFromSegment f = pteFlagsFromSegment f') : f = f' := by
  have hall : ∀ i < 8, ∀ j < 8,
      pteFlagsFromSegment (BitVec.ofNat 32 i) = pteFlagsFromSegment (BitVec.ofNat 32 j) →
      i = j := by decide
  have hlt := flags_lt_of_mask h
  have hlt' := flags_lt_of_mask h'
  apply BitVec.eq_of_toNat_eq
  apply hall _ hlt _ hlt'
  rwa [BitVec.ofNat_toNat, BitVec.ofNat_toNat, BitVec.setWidth_eq, BitVec.setWidth_eq]

theorem mem_moduleEntries {image : Image} {segments : List ModuleSegment}
    (hvalid : ∀ s ∈ segments, SegmentValid image s) {p f : Word} :
    (p, f) ∈ moduleEntries segments ↔
      ∃ s ∈ segments, (∃ v, Covers s v ∧ pageBase v = p) ∧ f = pteFlagsFromSegment s.flags := by
  rw [moduleEntries, List.mem_flatMap]
  constructor
  · rintro ⟨s, hs, hmem⟩
    exact ⟨s, hs, (mem_segmentEntries (hvalid s hs)).mp hmem⟩
  · rintro ⟨s, hs, hmem⟩
    exact ⟨s, hs, (mem_segmentEntries (hvalid s hs)).mpr hmem⟩

theorem modulePages_ncard {image : Image} {segments : List ModuleSegment}
    (hvalid : ∀ s ∈ segments, SegmentValid image s) :
    (modulePages segments).ncard = ((moduleEntries segments).map Prod.fst).toFinset.card := by
  rw [← Set.ncard_coe_finset]
  congr 1
  ext p
  simp only [modulePages, Set.mem_ofPred_eq, List.coe_toFinset, List.mem_map, Prod.exists,
    exists_and_right, exists_eq_right, mem_moduleEntries hvalid]
  constructor
  · rintro ⟨s, hs, hv⟩
    exact ⟨_, s, hs, hv, rfl⟩
  · rintro ⟨_, s, hs, hv, -⟩
    exact ⟨s, hs, hv⟩

theorem consistent_iff {image : Image} {segments : List ModuleSegment}
    (hvalid : ∀ s ∈ segments, SegmentValid image s) :
    Consistent (moduleEntries segments) ↔
      ∀ s ∈ segments, ∀ s' ∈ segments, ∀ v v', Covers s v → Covers s' v' →
        pageBase v = pageBase v' → s.flags = s'.flags := by
  constructor
  · intro h s hs s' hs' v v' hv hv' hpage
    apply pteFlagsFromSegment_inj (hvalid s hs).flags (hvalid s' hs').flags
    exact h _ ((mem_moduleEntries hvalid).mpr ⟨s, hs, ⟨v, hv, rfl⟩, rfl⟩)
      _ ((mem_moduleEntries hvalid).mpr ⟨s', hs', ⟨v', hv', rfl⟩, rfl⟩) hpage
  · rintro h ⟨p, f⟩ he ⟨p', f'⟩ he' hkey
    obtain ⟨s, hs, ⟨v, hv, rfl⟩, rfl⟩ := (mem_moduleEntries hvalid).mp he
    obtain ⟨s', hs', ⟨v', hv', rfl⟩, rfl⟩ := (mem_moduleEntries hvalid).mp he'
    rw [h s hs s' hs' v v' hv hv' hkey]

/-- Acceptance as global facts about the list of segments. -/
theorem acceptable_iff (image : Image) (segments : List ModuleSegment) :
    Acceptable image segments ↔
      (∀ s ∈ segments, SegmentValid image s) ∧ (modulePages segments).ncard ≤ 16 ∧
        ∀ s ∈ segments, ∀ s' ∈ segments, ∀ v v', Covers s v → Covers s' v' →
          pageBase v = pageBase v' → s.flags = s'.flags := by
  constructor
  · intro h
    have hent := (enterAll_isSome_iff maxUserImagePages _).mp h.entries
    refine ⟨h.valid, ?_, (consistent_iff h.valid).mp hent.1⟩
    rw [modulePages_ncard h.valid]
    exact hent.2
  · rintro ⟨hvalid, hcard, hflags⟩
    refine ⟨hvalid, (enterAll_isSome_iff maxUserImagePages _).mpr
      ⟨(consistent_iff hvalid).mpr hflags, ?_⟩⟩
    rw [← modulePages_ncard hvalid]
    exact hcard

/-! ## The run -/

variable {L : Layout} {image : Image} {record : ModuleRecord} {m : Mem}

theorem loadSegments_spec (hreg : Registered L m [])
    (htable : record.segmentTableOffset.toNat + 32 * record.segmentCount.toNat ≤
      image.size.toNat) {n : Nat} (hn : n ≤ record.segmentCount.toNat) :
    ∃ step, loadSegments L image record m n = some step ∧
      match step with
      | .running m' e =>
        (∃ ps, SegmentsLoaded L image record.entryVaddr (firstSegments image record n) ps m' e) ∧
          ChangedOnly (L.extents pageObjects) m m'
      | .failed m' => ¬ Acceptable image (firstSegments image record n) ∧
          ChangedOnly (L.extents pageObjects) m m' := by
  induction n with
  | zero =>
      refine ⟨.running m false, rfl, ⟨[], hreg, by simp [firstSegments], rfl, fun v => rfl, ?_⟩,
        ChangedOnly.refl _ m⟩
      simp [firstSegments]
  | succ n ih =>
      obtain ⟨step, hrun, hstep⟩ := ih (by omega)
      rw [firstSegments_succ]
      cases step with
      | failed m1 =>
          obtain ⟨hbad, hframe⟩ := hstep
          refine ⟨.failed m1, by simp [loadSegments, hrun], fun hacc => ?_, hframe⟩
          exact hbad hacc.of_append
      | running m1 e =>
          obtain ⟨⟨ps, hloaded⟩, hframe⟩ := hstep
          have hsize := image.size.isLt
          have hread := image.moduleSegment_eq_some (show
            (record.segmentTableOffset + BitVec.ofNat 32 (32 * n)).toNat + 32 ≤
              image.size.toNat by bv_omega)
          obtain ⟨step', hrun', hstep'⟩ := hloaded.step
            (image.moduleSegmentAt (record.segmentTableOffset + BitVec.ofNat 32 (32 * n)))
          refine ⟨step', by simp [loadSegments, hrun, hread, hrun'], ?_⟩
          cases step' with
          | failed m2 => exact ⟨hstep'.1, hframe.trans hstep'.2⟩
          | running m2 e' => exact ⟨hstep'.1, hframe.trans hstep'.2⟩

/-! ## `load_user_module` -/

def loadObjects : List Object := .userPageTable :: .userStack :: pageObjects

theorem clearUserSpace_frame (m : Mem) :
    ChangedOnly (L.extents loadObjects) m (clearUserSpace L m) := by
  have hsub : ∀ o, o ∈ loadObjects → L.extents [o] ⊆ L.extents loadObjects := by
    intro o ho
    apply L.extents_mono
    simpa using ho
  exact (((L.fillBytes_frame m (by decide) _).mono (hsub .userPageTable (by decide))).trans
    ((L.fillBytes_frame _ (by decide) _).mono (hsub .userStack (by decide)))).trans
    ((L.storeWord_frame _ (by decide) _).mono (hsub .userPageCount (by decide)))

theorem clearUserSpace_registered (m : Mem) : Registered L (clearUserSpace L m) [] := by
  refine ⟨loadWord_storeWord_self _ _ _, by decide, fun i hi => ?_, fun i hi => ?_, by simp⟩
  · exact absurd hi (Nat.not_lt_zero i)
  · exact absurd hi (Nat.not_lt_zero i)

structure Filled (L : Layout) (image : Image) (record : ModuleRecord) (m : Mem)
    (ps : List (Word × Word)) (m1 : Mem) : Prop where
  loaded : SegmentsLoaded L image record.entryVaddr (moduleSegments image record) ps m1 true
  table : ∀ k < 4096, m1 (L.paddr .userPageTable k) = 0
  stack : ∀ k < 4096, m1 (L.paddr .userStack k) = 0
  frame : ChangedOnly (L.extents loadObjects) m m1

theorem clearUserSpace_zero (m : Mem) {k : Nat} (hk : k < 4096) :
    clearUserSpace L m (L.paddr .userPageTable k) = 0 ∧
      clearUserSpace L m (L.paddr .userStack k) = 0 := by
  have hzero : ∀ (m : Mem) (o : Object), o.size = 4096 →
      zeroBytes m (L.paddr o 0) 4096 (L.paddr o k) = 0 := by
    intro m o ho
    have hmem : L.paddr o k ∈ region (L.paddr o 0) 4096 := by
      have hin := L.paddr_mem (show k < o.size by omega)
      rwa [Layout.extent, ho] at hin
    rw [zeroBytes, show (4096 : Word).toNat = 4096 by decide,
      fillBytes_apply _ _ _ _ _ (by omega), if_pos hmem]
  have hcount : ∀ m w, ChangedOnly (L.extents [.userPageCount]) m
      (storeWord m (L.paddr .userPageCount 0) w) :=
    fun m w => L.storeWord_frame m (by decide) w
  have hstack : ∀ m, ChangedOnly (L.extents [.userStack]) m
      (zeroBytes m (L.paddr .userStack 0) 4096) :=
    fun m => L.fillBytes_frame m (by decide) _
  refine ⟨?_, ?_⟩
  · rw [clearUserSpace, L.byte_frame (hcount _ _) (by decide) (by simpa using hk),
      L.byte_frame (hstack _) (by decide) (by simpa using hk), hzero _ _ rfl]
  · rw [clearUserSpace, L.byte_frame (hcount _ _) (by decide) (by simpa using hk), hzero _ _ rfl]

/-- The load is accepted exactly when the module is well formed, whatever memory held. -/
theorem loadUserModule_spec (L : Layout) (m : Mem) {moduleOffset : Word}
    (hread : image.moduleRecord moduleOffset = some record) :
    (WellFormed image record ∧
      ∃ ps m1, loadUserModule L image m moduleOffset = some (true, installUserSpace L m1) ∧
        Filled L image record m ps m1) ∨
    (¬ WellFormed image record ∧
      ∃ m', loadUserModule L image m moduleOffset = some (false, m') ∧
        ChangedOnly (L.extents loadObjects) m m') := by
  have hrecords := imageRecordsValid_iff record.segmentTableOffset record.segmentCount image.size
  simp only [loadUserModule, hread, Option.bind_eq_bind, Option.bind_some]
  split
  · rename_i hrefused
    refine Or.inr ⟨fun hw => ?_, m, rfl, ChangedOnly.refl _ m⟩
    have hcount := hw.count
    have halign := (and_three_eq_zero_iff _).mpr hw.aligned
    simp only [Bool.or_eq_true, decide_eq_true_eq, Bool.not_eq_true', ← Bool.not_eq_true,
      hrecords] at hrefused
    rcases hrefused with (hzero | htable) | hentry
    · rw [hzero] at hcount
      exact absurd hcount (by decide)
    · exact htable hw.table
    · exact hentry halign
  · rename_i hok
    simp only [Bool.or_eq_true, decide_eq_true_eq, Bool.not_eq_true', ← Bool.not_eq_true,
      hrecords, not_or, not_not] at hok
    obtain ⟨⟨hcount, htable⟩, halign⟩ := hok
    have hclear := clearUserSpace_frame (L := L) m
    obtain ⟨step, hrun, hstep⟩ := loadSegments_spec (clearUserSpace_registered (L := L) m) htable
      (Nat.le_refl _)
    rw [hrun]
    cases step with
    | failed m1 =>
        obtain ⟨hbad, hframe⟩ := hstep
        refine Or.inr ⟨
          fun hw => hbad ((acceptable_iff image _).mpr ⟨hw.valid, hw.pages, hw.shared⟩),
          m1, rfl, hclear.trans (hframe.mono (L.extents_mono (by decide)))⟩
    | running m1 e =>
        obtain ⟨⟨ps, hloaded⟩, hframe⟩ := hstep
        have hframe' := hclear.trans (hframe.mono (L.extents_mono (by decide)))
        cases e with
        | false =>
            refine Or.inr ⟨fun hw => ?_, m1, rfl, hframe'⟩
            exact absurd (hloaded.entry.mpr hw.entry) (by decide)
        | true =>
            have hacc := (acceptable_iff image _).mp hloaded.accepted
            refine Or.inl ⟨⟨by bv_omega, htable, (and_three_eq_zero_iff _).mp halign,
              hacc.1, hacc.2.1, hacc.2.2, hloaded.entry.mp rfl⟩, ps, m1, rfl,
              ⟨hloaded, fun k hk => ?_, fun k hk => ?_, hframe'⟩⟩
            · rw [L.byte_frame hframe (by decide) (by simpa using hk)]
              exact (clearUserSpace_zero m hk).1
            · rw [L.byte_frame hframe (by decide) (by simpa using hk)]
              exact (clearUserSpace_zero m hk).2

/-- The module loader accepts exactly the well-formed modules. -/
theorem loadUserModule_accepts_iff (L : Layout) (image : Image) (m : Mem) {moduleOffset : Word}
    (hmodule : moduleOffset.toNat + 32 ≤ image.size.toNat) :
    ∃ b m', loadUserModule L image m moduleOffset = some (b, m') ∧
      (b = true ↔ WellFormed image (image.moduleRecordAt moduleOffset)) := by
  rcases loadUserModule_spec L m (image.moduleRecord_eq_some hmodule) with
    ⟨hwell, ps, m1, hrun, -⟩ | ⟨hbad, m', hrun, -⟩
  · exact ⟨true, _, hrun, by simpa using hwell⟩
  · exact ⟨false, m', hrun, by simpa using hbad⟩

/-! ## A small module -/

/-- An image with one module `user-hello`: one page, `svc #0` and a branch to itself. -/
def sampleRom : Mem :=
  let m := storeWord (fun _ => 0) 0x40 0x80
  let m := storeWord m 0x44 10
  let m := storeWord m 0x48 0xa0
  let m := storeWord m 0x4c 1
  let m := storeWord m 0x50 0x00400000
  let m := storeWord m 0x80 0x72657375
  let m := storeWord m 0x84 0x6c65682d
  let m := storeWord m 0x88 0x00006f6c
  let m := storeWord m 0xa0 0xc0
  let m := storeWord m 0xa4 0x00400000
  let m := storeWord m 0xa8 8
  let m := storeWord m 0xac 0x10
  let m := storeWord m 0xb0 5
  let m := storeWord m 0xc0 0xef000000
  storeWord m 0xc4 0xeafffffe

def sampleImage : Image := ⟨sampleRom, 0x100⟩

def sampleRecord : ModuleRecord := ⟨0x80, 10, 0xa0, 1, 0x00400000⟩

def sampleSegment : ModuleSegment := ⟨0xc0, 0x00400000, 8, 0x10, 5⟩

theorem sampleImage_record : sampleImage.moduleRecordAt 0x40 = sampleRecord := by
  decide +kernel

theorem sampleImage_segments : moduleSegments sampleImage sampleRecord = [sampleSegment] := by
  decide +kernel

/-- A segment that starts on a page and does not reach the next one. -/
theorem Covers.pageBase_eq {s : ModuleSegment} {v : Word} (h : Covers s v)
    (haligned : s.virtualAddress.toNat % 4096 = 0) (hsize : s.memorySize.toNat ≤ 4096) :
    pageBase v = s.virtualAddress := by
  obtain ⟨hlow, hhigh⟩ := h
  apply BitVec.eq_of_toNat_eq
  rw [pageBase_toNat]
  omega

theorem sampleSegment_covers_page {v : Word} (hv : Covers sampleSegment v) :
    pageBase v = 0x00400000 :=
  hv.pageBase_eq (by decide) (by decide)

theorem wellFormed_of_page {image : Image} {record : ModuleRecord} {segments : List ModuleSegment}
    {p f : Word} (hsegments : moduleSegments image record = segments)
    (hcount : 0 < record.segmentCount.toNat)
    (htable : record.segmentTableOffset.toNat + 32 * record.segmentCount.toNat ≤ image.size.toNat)
    (haligned : record.entryVaddr.toNat % 4 = 0)
    (hvalid : ∀ s ∈ segments, segmentRefused image s = false)
    (hpage : ∀ s ∈ segments, ∀ v, Covers s v → pageBase v = p)
    (hflags : ∀ s ∈ segments, s.flags = f)
    (hentry : ∃ s ∈ segments, EntryIn record.entryVaddr s) : WellFormed image record := by
  subst hsegments
  refine ⟨hcount, htable, haligned, fun s hs => ?_, ?_, fun s hs s' hs' _ _ _ _ _ => ?_, hentry⟩
  · exact (segmentRefused_eq_false_iff image s).mp (hvalid s hs)
  · have hpages : modulePages (moduleSegments image record) ⊆ {p} := by
      rintro q ⟨s, hs, v, hv, rfl⟩
      exact hpage s hs v hv
    have hcard := Set.ncard_le_ncard hpages (Set.finite_singleton p)
    rw [Set.ncard_singleton] at hcard
    omega
  · exact (hflags s hs).trans (hflags s' hs').symm

theorem sampleImage_wellFormed : WellFormed sampleImage sampleRecord := by
  refine wellFormed_of_page sampleImage_segments (f := 5) (by decide) (by decide) (by decide)
    (List.forall_mem_singleton.mpr (by decide))
    (List.forall_mem_singleton.mpr fun v hv => sampleSegment_covers_page hv)
    (List.forall_mem_singleton.mpr rfl) ?_
  exact ⟨sampleSegment, List.mem_singleton_self _, by decide, by decide, by decide, by decide⟩

/-- The small module is accepted over memory that held anything. -/
theorem loadUserModule_accepts_sample :
    ∃ m', loadUserModule sampleLayout sampleImage (fun _ => 0xa5) 0x40 = some (true, m') := by
  obtain ⟨b, m', hrun, hiff⟩ := loadUserModule_accepts_iff sampleLayout sampleImage
    (fun _ => 0xa5) (show (0x40 : Word).toNat + 32 ≤ sampleImage.size.toNat by decide)
  rw [sampleImage_record] at hiff
  exact ⟨m', by rw [hrun, hiff.mpr sampleImage_wellFormed]⟩

end Minemu.Hello
