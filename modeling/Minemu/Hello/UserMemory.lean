import Minemu.Hello.UserSpace

/-!
# What user code finds in memory

The bytes behind the installed table are those of the module's segments, the last
one in table order first, and zero everywhere else.
-/

namespace Minemu.Hello

open Minemu.Lib.Memory Minemu.Lib.Page Minemu.Lib.Registry Minemu.Platform
open Minemu.Startup.BootstrapWalk

def segmentAt (image : Image) (record : ModuleRecord) (i : Nat) : ModuleSegment :=
  image.moduleSegmentAt (record.segmentTableOffset + BitVec.ofNat 32 (32 * i))

theorem moduleByte_firstSegments (image : Image) (record : ModuleRecord) (v : Word) (n : Nat) :
    (∀ i < n, Covers (segmentAt image record i) v →
      (∀ j, i < j → j < n → ¬ Covers (segmentAt image record j) v) →
      moduleByte image (firstSegments image record n) v =
        segmentByte image (segmentAt image record i) v) ∧
    ((∀ i < n, ¬ Covers (segmentAt image record i) v) →
      moduleByte image (firstSegments image record n) v = 0) := by
  induction n with
  | zero => exact ⟨fun i hi => absurd hi (Nat.not_lt_zero i), fun _ => rfl⟩
  | succ n ih =>
      rw [firstSegments_succ, moduleByte_append, ← segmentAt]
      refine ⟨fun i hi hcov hlast => ?_, fun hnone => ?_⟩
      · by_cases hin : i = n
        · rw [hin] at hcov ⊢
          rw [if_pos hcov]
        · rw [if_neg (hlast n (by omega) (by omega))]
          exact ih.1 i (by omega) hcov (fun j hij hj => hlast j hij (by omega))
      · rw [if_neg (hnone n (by omega))]
        exact ih.2 (fun i hi => hnone i (by omega))

theorem UserSpace.byte_at {L : Layout} {image : Image} {segments : List ModuleSegment}
    {ps : List (Word × Word)} {m : Mem} (h : UserSpace L image segments ps m) {v : Word}
    {t : Access} (ht : translateVa m bootstrapRoot v = some t) (hwindow : v.toNat / 2 ^ 22 = 1) :
    (pageBase v ≠ userStackBottom → m t.paddr = moduleByte image segments v) ∧
      (pageBase v = userStackBottom → m t.paddr = 0) := by
  refine ⟨fun hpage => ?_, fun hstack => ?_⟩
  · by_cases hmem : pageBase v ∈ modulePages segments
    · obtain ⟨s, hs, x, hx, hxv⟩ := hmem
      obtain ⟨i, hidx, htrans⟩ := h.translate_page hs hx hxv
      rw [htrans] at ht
      rw [← Option.some.inj ht, ← h.bytes v, userByte, hidx]
      rfl
    · rw [h.translate_none hwindow hpage hmem] at ht
      cases ht
  · rw [h.translate_stack hstack] at ht
    rw [← Option.some.inj ht]
    exact h.stackBytes _ (Nat.mod_lt _ (by omega))

/-- After an accepted load, an address of the window that the installed table maps holds
the byte of the last segment that covers it, zero where none does, and zero on the
stack page. -/
theorem loadUserModule_memory (L : Layout) (image : Image) (m : Mem) {moduleOffset : Word}
    {record : ModuleRecord} (hread : image.moduleRecord moduleOffset = some record) {m' : Mem}
    (hload : loadUserModule L image m moduleOffset = some (true, m')) {v : Word}
    (hlow : userImageBase ≤ v) (hhigh : v < userStackTop) {t : Access}
    (ht : translateVa m' bootstrapRoot v = some t) :
    (pageBase v ≠ userStackBottom →
      (∀ i < record.segmentCount.toNat, Covers (segmentAt image record i) v →
        (∀ j, i < j → j < record.segmentCount.toNat → ¬ Covers (segmentAt image record j) v) →
        m' t.paddr = segmentByte image (segmentAt image record i) v) ∧
      ((∀ i < record.segmentCount.toNat, ¬ Covers (segmentAt image record i) v) →
        m' t.paddr = 0)) ∧
    (pageBase v = userStackBottom → m' t.paddr = 0) := by
  have hwindow : v.toNat / 2 ^ 22 = 1 := by
    rw [userImageBase] at hlow
    rw [userStackTop] at hhigh
    bv_omega
  rcases loadUserModule_spec L m hread with ⟨-, ps, m1, hrun, hfilled⟩ | ⟨-, m1, hrun, -⟩
  · rw [hrun] at hload
    obtain rfl : installUserSpace L m1 = m' := congrArg Prod.snd (Option.some.inj hload)
    have hspace := hfilled.install.1
    have hbyte := hspace.byte_at ht hwindow
    have hlast := moduleByte_firstSegments image record v record.segmentCount.toNat
    refine ⟨fun hpage => ?_, hbyte.2⟩
    rw [hbyte.1 hpage]
    exact hlast
  · rw [hrun] at hload
    cases hload

/-- The second byte of the small module's branch instruction. -/
theorem loadUserModule_memory_sample :
    ∃ m' t, loadUserModule sampleLayout sampleImage (fun _ => 0xa5) 0x40 = some (true, m') ∧
      translateVa m' bootstrapRoot 0x00400005 = some t ∧ m' t.paddr = 0xff := by
  have hread : sampleImage.moduleRecord 0x40 = some sampleRecord := by
    rw [← sampleImage_record]
    exact sampleImage.moduleRecord_eq_some (by decide)
  rcases loadUserModule_spec sampleLayout (fun _ => 0xa5) hread with
    ⟨-, ps, m1, hrun, hfilled⟩ | ⟨hbad, -⟩
  · have hmem : sampleSegment ∈ moduleSegments sampleImage sampleRecord := by
      rw [sampleImage_segments]
      exact List.mem_singleton_self _
    obtain ⟨i, -, htrans⟩ := hfilled.install.1.translate_page hmem (x := 0x00400005)
      (by decide) rfl
    refine ⟨_, _, hrun, htrans, ?_⟩
    have hbytes := (loadUserModule_memory sampleLayout sampleImage (fun _ => 0xa5) hread hrun
      (v := 0x00400005) (by decide) (by decide) htrans).1 (by decide)
    have hsegment : segmentAt sampleImage sampleRecord 0 = sampleSegment := by decide +kernel
    rw [hbytes.1 0 (by decide) (by rw [hsegment]; decide) (fun j hj hj' => by
      rw [show sampleRecord.segmentCount.toNat = 1 by decide] at hj'
      omega), hsegment]
    decide +kernel
  · exact absurd sampleImage_wellFormed hbad

end Minemu.Hello
