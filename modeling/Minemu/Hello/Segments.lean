import Minemu.Hello.Loader

/-!
# What a list of segments means

`SegmentValid` and `Acceptable` say which segments a module may have, with
unbounded integers for ranges, and `moduleByte` what they put at an address.  The
run lemma `loadSegments_spec` connects the loop of `load_user_module` to them.
-/

namespace Minemu.Hello

open Minemu.Lib.Memory Minemu.Lib.Page Minemu.Lib.Registry Minemu.Platform

/-! ## One segment -/

structure SegmentValid (image : Image) (s : ModuleSegment) : Prop where
  memory : 0 < s.memorySize.toNat
  file : s.fileSize.toNat ≤ s.memorySize.toNat
  flags : s.flags &&& ~~~(segmentReadable ||| segmentWritable ||| segmentExecutable) = 0
  executable : s.flags &&& segmentExecutable ≠ 0 → s.flags &&& segmentReadable ≠ 0
  low : 0x00400000 ≤ s.virtualAddress.toNat
  high : s.virtualAddress.toNat + s.memorySize.toNat ≤ 0x007ff000
  data : s.dataOffset.toNat + s.fileSize.toNat ≤ image.size.toNat

theorem segmentRefused_eq_false_iff (image : Image) (s : ModuleSegment) :
    segmentRefused image s = false ↔ SegmentValid image s := by
  have hdata := imageRangeValid_iff s.dataOffset s.fileSize image.size
  simp only [segmentRefused, Bool.or_eq_false_iff, Bool.and_eq_false_iff, beq_eq_false_iff_ne,
    bne_eq_false_iff_eq, decide_eq_false_iff_not, Bool.not_eq_false', hdata, BitVec.lt_def,
    BitVec.le_def, userImageBase, userStackBottom]
  constructor
  · rintro ⟨⟨⟨⟨⟨⟨⟨hmem, hfile⟩, hflags⟩, hexec⟩, hlow⟩, hbottom⟩, hhigh⟩, hrange⟩
    refine ⟨by bv_omega, by omega, hflags, fun hx => ?_, by bv_omega, by bv_omega, hrange⟩
    rcases hexec with hno | hread
    · exact absurd hno hx
    · exact hread
  · intro h
    have hmem := h.memory
    have hlow := h.low
    have hhigh := h.high
    refine ⟨⟨⟨⟨⟨⟨⟨by bv_omega, by have := h.file; omega⟩, h.flags⟩, ?_⟩, by bv_omega⟩,
      by bv_omega⟩, by bv_omega⟩, h.data⟩
    by_cases hx : s.flags &&& segmentExecutable = 0
    · exact Or.inl hx
    · exact Or.inr (h.executable hx)

def Covers (s : ModuleSegment) (v : Word) : Prop :=
  s.virtualAddress.toNat ≤ v.toNat ∧ v.toNat < s.virtualAddress.toNat + s.memorySize.toNat

instance (s : ModuleSegment) (v : Word) : Decidable (Covers s v) :=
  inferInstanceAs (Decidable (_ ∧ _))

def segmentByte (image : Image) (s : ModuleSegment) (v : Word) : Byte :=
  if (v - s.virtualAddress).toNat < s.fileSize.toNat then
    image.bytes (s.dataOffset + (v - s.virtualAddress))
  else 0

def segmentEntries (s : ModuleSegment) : List (Word × Word) :=
  rangeEntries s.virtualAddress s.memorySize (pteFlagsFromSegment s.flags)

/-- Some instruction word of an executable segment's file part starts at `entry`. -/
def EntryIn (entry_vaddr : Word) (s : ModuleSegment) : Prop :=
  s.flags &&& segmentExecutable ≠ 0 ∧ 4 ≤ s.fileSize.toNat ∧
    s.virtualAddress.toNat ≤ entry_vaddr.toNat ∧
    entry_vaddr.toNat + 4 ≤ s.virtualAddress.toNat + s.fileSize.toNat

theorem entryExecutable_iff (entry_vaddr : Word) (s : ModuleSegment) :
    entryExecutable entry_vaddr s = true ↔ EntryIn entry_vaddr s := by
  simp only [entryExecutable, EntryIn, Bool.and_eq_true, bne_iff_ne, decide_eq_true_eq, and_assoc]
  refine and_congr_right fun _ => ?_
  constructor
  · rintro ⟨hfile, hlow, hhigh⟩
    rw [BitVec.le_def] at hfile
    rw [show (4 : Word).toNat = 4 by decide] at hfile
    refine ⟨hfile, BitVec.le_def.mp hlow, ?_⟩
    bv_omega
  · rintro ⟨hfile, hlow, hhigh⟩
    refine ⟨?_, BitVec.le_def.mpr hlow, ?_⟩
    · rw [BitVec.le_def, show (4 : Word).toNat = 4 by decide]
      exact hfile
    · bv_omega

/-! ## Lists of segments -/

/-- The last segment that covers an address decides its byte. -/
def moduleByte (image : Image) (segments : List ModuleSegment) (v : Word) : Byte :=
  segments.foldl (fun b s => if Covers s v then segmentByte image s v else b) 0

def moduleEntries (segments : List ModuleSegment) : List (Word × Word) :=
  segments.flatMap segmentEntries

structure Acceptable (image : Image) (segments : List ModuleSegment) : Prop where
  valid : ∀ s ∈ segments, SegmentValid image s
  entries : ((moduleEntries segments).foldlM (enter maxUserImagePages) []).isSome

theorem moduleByte_append (image : Image) (segments : List ModuleSegment) (s : ModuleSegment)
    (v : Word) : moduleByte image (segments ++ [s]) v =
      if Covers s v then segmentByte image s v else moduleByte image segments v := by
  rw [moduleByte, List.foldl_append]
  rfl

theorem moduleEntries_append (segments : List ModuleSegment) (s : ModuleSegment) :
    moduleEntries (segments ++ [s]) = moduleEntries segments ++ segmentEntries s := by
  rw [moduleEntries, List.flatMap_append, List.flatMap_singleton]
  rfl

theorem Acceptable.of_append {image : Image} {ss ss' : List ModuleSegment}
    (h : Acceptable image (ss ++ ss')) : Acceptable image ss := by
  refine ⟨fun s hs => h.valid s (List.mem_append_left _ hs), ?_⟩
  have hrun := h.entries
  rw [moduleEntries, List.flatMap_append, List.foldlM_append] at hrun
  cases hfirst : (ss.flatMap segmentEntries).foldlM (enter maxUserImagePages) [] with
  | none =>
      rw [hfirst] at hrun
      exact absurd hrun (by simp)
  | some ps => rw [moduleEntries, hfirst, Option.isSome_some]

/-! ## The segment loop -/

structure SegmentsLoaded (L : Layout) (image : Image) (entry_vaddr : Word)
    (segments : List ModuleSegment) (ps : List (Word × Word)) (m : Mem) (e : Bool) : Prop where
  registered : Registered L m ps
  valid : ∀ s ∈ segments, SegmentValid image s
  entered : (moduleEntries segments).foldlM (enter maxUserImagePages) [] = some ps
  bytes : ∀ v, userByte L m ps v = moduleByte image segments v
  entry : e = true ↔ ∃ s ∈ segments, EntryIn entry_vaddr s

theorem SegmentValid.covers_iff {image : Image} {s : ModuleSegment} (h : SegmentValid image s)
    (v : Word) : Covers s v ↔ (v - s.virtualAddress).toNat < s.memorySize.toNat := by
  have hhigh := h.high
  have hregion := mem_region_of_le (a := v)
    (show s.virtualAddress.toNat + s.memorySize.toNat ≤ 2 ^ 32 by omega)
  rw [mem_region] at hregion
  exact hregion.symm

theorem mem_segmentEntries {image : Image} {s : ModuleSegment} (h : SegmentValid image s)
    {p f : Word} : (p, f) ∈ segmentEntries s ↔
      (∃ v, Covers s v ∧ pageBase v = p) ∧ f = pteFlagsFromSegment s.flags := by
  have hpages := mem_rangePages (p := p) h.memory h.high
  simp only [segmentEntries, rangeEntries, List.mem_map, Prod.mk.injEq, Covers, and_assoc]
  constructor
  · rintro ⟨page, hpage, rfl, rfl⟩
    exact ⟨hpages.mp hpage, rfl⟩
  · rintro ⟨hv, rfl⟩
    exact ⟨p, hpages.mpr hv, rfl, rfl⟩

variable {L : Layout} {image : Image} {entry_vaddr : Word} {segments : List ModuleSegment}
  {ps : List (Word × Word)} {m : Mem} {e : Bool}

theorem indexOf_ne_none_of_entered {s : ModuleSegment} {es : List (Word × Word)}
    (h : SegmentValid image s) (hent : Entered maxUserImagePages es ps)
    (hsub : ∀ x ∈ segmentEntries s, x ∈ es) {v : Word} (hv : Covers s v) :
    indexOf ps (pageBase v) ≠ none := by
  intro hnone
  have hmem := (mem_segmentEntries h (p := pageBase v) (f := pteFlagsFromSegment s.flags)).mpr
    ⟨⟨v, hv, rfl⟩, rfl⟩
  exact indexOf_eq_none_iff.mp hnone _ ((hent.mem _).mpr (hsub _ hmem)) rfl

theorem SegmentsLoaded.accepted (h : SegmentsLoaded L image entry_vaddr segments ps m e) :
    Acceptable image segments :=
  ⟨h.valid, by rw [h.entered, Option.isSome_some]⟩

theorem SegmentsLoaded.isEntered (h : SegmentsLoaded L image entry_vaddr segments ps m e) :
    Entered maxUserImagePages (moduleEntries segments) ps := by
  have hent := (Entered.nil maxUserImagePages).enterAll h.entered
  rwa [List.nil_append] at hent

theorem zeroThenCopy_bytes {s : ModuleSegment} {m1 m2 m3 : Mem} (h : SegmentValid image s)
    (hzero : Written L m1 ps s.virtualAddress (sourceByte image none) s.memorySize.toNat m2)
    (hcopy : Written L m2 ps s.virtualAddress (sourceByte image (some s.dataOffset))
      s.fileSize.toNat m3) (v : Word) :
    userByte L m3 ps v = if Covers s v then segmentByte image s v else userByte L m1 ps v := by
  have hfile := h.file
  have hcov := h.covers_iff v
  rw [hcopy.userByte, hzero.userByte]
  by_cases hin : (v - s.virtualAddress).toNat < s.memorySize.toNat
  · rw [if_pos (hcov.mpr hin), if_pos hin, segmentByte]
    simp only [sourceByte, BitVec.ofNat_toNat, BitVec.setWidth_eq]
  · rw [if_neg (mt hcov.mp hin), if_neg hin, if_neg (by omega)]

/-- A segment whose pages are all registered is cleared and then filled. -/
theorem zeroThenCopy_spec {s : ModuleSegment} (h : SegmentValid image s) (hreg : Registered L m ps)
    (hpages : ∀ v, Covers s v → indexOf ps (pageBase v) ≠ none) :
    ∃ m1 m2, writeUserRange L image m s.virtualAddress none s.memorySize = some (true, m1) ∧
      writeUserRange L image m1 s.virtualAddress (some s.dataOffset) s.fileSize =
        some (true, m2) ∧
      Registered L m2 ps ∧ ChangedOnly (L.extents [.userImagePages]) m m2 ∧
      ∀ v, userByte L m2 ps v =
        if Covers s v then segmentByte image s v else userByte L m ps v := by
  have hhigh := h.high
  have hall : ∀ k < s.memorySize.toNat,
      indexOf ps (pageBase (s.virtualAddress + BitVec.ofNat 32 k)) ≠ none := by
    intro k hk
    apply hpages
    rw [h.covers_iff]
    bv_omega
  have hsource : ∀ source, some s.dataOffset = some source →
      source.toNat + s.fileSize.toNat ≤ image.size.toNat := by
    rintro _ ⟨rfl⟩
    exact h.data
  obtain ⟨m1, hrun1, hzero⟩ :=
    hreg.writeUserRange_full image s.virtualAddress s.memorySize none (by simp) hall
  have hreg1 := hreg.frame hzero.frame (by decide)
  obtain ⟨m2, hrun2, hcopy⟩ :=
    hreg1.writeUserRange_full image s.virtualAddress s.fileSize (some s.dataOffset) hsource
      (fun k hk => hall k (Nat.lt_of_lt_of_le hk h.file))
  exact ⟨m1, m2, hrun1, hrun2, hreg1.frame hcopy.frame (by decide),
    hzero.frame.trans hcopy.frame, zeroThenCopy_bytes h hzero hcopy⟩

/-- One more segment enters its own pages. -/
theorem SegmentsLoaded.entered_append (h : SegmentsLoaded L image entry_vaddr segments ps m e)
    (s : ModuleSegment) :
    (moduleEntries (segments ++ [s])).foldlM (enter maxUserImagePages) [] =
      (segmentEntries s).foldlM (enter maxUserImagePages) ps := by
  rw [moduleEntries_append, List.foldlM_append, h.entered]
  rfl

theorem SegmentsLoaded.step (h : SegmentsLoaded L image entry_vaddr segments ps m e)
    (s : ModuleSegment) :
    ∃ step, loadSegment L image entry_vaddr m e s = some step ∧
      match step with
      | .running m' e' =>
        (∃ ps', SegmentsLoaded L image entry_vaddr (segments ++ [s]) ps' m' e') ∧
          ChangedOnly (L.extents pageObjects) m m'
      | .failed m' => ¬ Acceptable image (segments ++ [s]) ∧
          ChangedOnly (L.extents pageObjects) m m' := by
  by_cases hvalid : SegmentValid image s
  swap
  · refine ⟨.failed m, ?_, fun hacc => hvalid (hacc.valid s (by simp)), ChangedOnly.refl _ m⟩
    have hrefused : segmentRefused image s = true := by
      rw [← Bool.not_eq_false]
      exact mt (segmentRefused_eq_false_iff image s).mp hvalid
    rw [loadSegment, if_pos hrefused]
  have hok : segmentRefused image s = false := (segmentRefused_eq_false_iff image s).mpr hvalid
  have hprep := h.registered.prepareUserRange_spec (pteFlagsFromSegment s.flags) hvalid.high
  rw [← segmentEntries] at hprep
  simp only [loadSegment, hok]
  cases hps' : (segmentEntries s).foldlM (enter maxUserImagePages) ps with
  | some ps' =>
      rw [hps'] at hprep
      obtain ⟨m1, hrun1, hprep1⟩ := hprep
      have hent' := h.isEntered.enterAll hps'
      obtain ⟨m2, m3, hrun2, hrun3, hreg3, hframe3, hbytes3⟩ :=
        zeroThenCopy_spec hvalid hprep1.registered fun v hv =>
          indexOf_ne_none_of_entered hvalid hent' (fun x hx => List.mem_append_right _ hx) hv
      have hsub : L.extents [.userImagePages] ⊆ L.extents pageObjects :=
        L.extents_mono (by decide)
      refine ⟨.running m3 (e || entryExecutable entry_vaddr s), by simp [hrun1, hrun2, hrun3],
        ⟨ps', hreg3, fun x hx => ?_, (h.entered_append s).trans hps', fun v => ?_, ?_⟩,
        hprep1.frame.trans (hframe3.mono hsub)⟩
      · rcases List.mem_append.mp hx with hold | hnew
        · exact h.valid x hold
        · rwa [List.mem_singleton.mp hnew]
      · rw [hbytes3, moduleByte_append, hprep1.userByte, h.bytes]
      · rw [Bool.or_eq_true, h.entry, entryExecutable_iff]
        simp [or_and_right, exists_or]
  | none =>
      rw [hps'] at hprep
      obtain ⟨m1, hrun1, hframe1⟩ := hprep
      refine ⟨.failed m1, by simp [hrun1], fun hacc => ?_, hframe1⟩
      have hsome := hacc.entries
      rw [h.entered_append, hps'] at hsome
      exact absurd hsome (by decide)

end Minemu.Hello
