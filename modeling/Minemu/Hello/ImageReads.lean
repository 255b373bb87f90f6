import Minemu.Hello.Main

/-!
# Every read of the image is inside it

The search and the loader have results for every image once `map_system_rom` has
accepted the boot info, and a read of the image has a result only below its size, in
the pages that `map_system_rom` has mapped.
-/

namespace Minemu.Hello

open Minemu.Lib.Memory Minemu.Lib.Page Minemu.Platform
open Minemu.Startup.BootstrapWalk

theorem romAccepted_of_mapSystemRom {L : Layout} {m : Mem} {boot_info : BootInfo}
    (h : (mapSystemRom L m boot_info).1 = true) : RomAccepted boot_info := by
  by_contra hbad
  rw [mapSystemRom_of_not_accepted m hbad] at h
  exact Bool.noConfusion h

/-- An offset of the image, in the tables that `map_system_rom` leaves. -/
theorem translate_mapSystemRom (L : Layout) (m : Mem) {boot_info : BootInfo}
    (hacc : RomAccepted boot_info) {offset : Word} (hoffset : offset < boot_info.imageSize) :
    translateVa (mapSystemRom L m boot_info).2 bootstrapRoot (systemRomBase + offset) =
      some ⟨systemRomBase + offset, true, false, false, false⟩ := by
  have hfits := hacc.fits
  have hlt := BitVec.lt_def.mp hoffset
  have hpages : romPageCount boot_info.imageSize = (boot_info.imageSize.toNat + 4095) / 4096 := rfl
  have htables : romTableCount (romPageCount boot_info.imageSize) =
      (romPageCount boot_info.imageSize + 1023) / 1024 := rfl
  have haddr : (systemRomBase + offset).toNat = 0x08000000 + offset.toNat := by
    rw [systemRomBase]
    bv_omega
  obtain ⟨htable, -, -⟩ := mapRomTables_spec (L := L) m hacc.pages_le (Nat.le_refl _)
  rw [mapSystemRom_of_accepted m hacc, translate_rom htable (by omega) (by omega) (by omega),
    if_pos (by omega)]

/-- No image makes the kernel read outside it: the search returns, the load of what it
found returns over any memory, and every byte of the image that can be read lies below
the image size in a page mapped for reading. -/
theorem imageReads_inside (L : Layout) (m : Mem) (rom : Mem) (boot_info : BootInfo)
    (hmap : (mapSystemRom L m boot_info).1 = true) {name : List Byte}
    (hname : name.length < 2 ^ 32) :
    (∃ result, findModule ⟨rom, boot_info.imageSize⟩ boot_info name = some result ∧
      ∀ moduleOffset, result = some moduleOffset → ∀ m', ∃ b m'',
        loadUserModule L ⟨rom, boot_info.imageSize⟩ m' moduleOffset = some (b, m'')) ∧
    ∀ offset b, Image.byte ⟨rom, boot_info.imageSize⟩ offset = some b →
      offset.toNat < boot_info.imageSize.toNat ∧
        translateVa (mapSystemRom L m boot_info).2 bootstrapRoot
            (boot_info.systemRomBase + offset) =
          some ⟨boot_info.systemRomBase + offset, true, false, false, false⟩ := by
  have hacc := romAccepted_of_mapSystemRom hmap
  constructor
  · rcases @findModule_inside ⟨rom, boot_info.imageSize⟩ boot_info name hname with
      hnull | ⟨moduleOffset, hfound, hinside⟩
    · refine ⟨none, hnull, fun _ h => absurd h (by simp)⟩
    · refine ⟨some moduleOffset, hfound, ?_⟩
      rintro _ ⟨rfl⟩ m'
      obtain ⟨b, m'', hrun, -⟩ := loadUserModule_accepts_iff L ⟨rom, boot_info.imageSize⟩ m' hinside
      exact ⟨b, m'', hrun⟩
  · intro offset b hread
    have hlt : offset < boot_info.imageSize := by
      by_contra hge
      rw [Image.byte, if_neg hge] at hread
      cases hread
    refine ⟨BitVec.lt_def.mp hlt, ?_⟩
    rw [hacc.base]
    exact translate_mapSystemRom L m hacc hlt

/-- The small image: its module is loaded over any memory, and its last byte is mapped. -/
theorem imageReads_inside_sample :
    (∃ b m', loadUserModule sampleLayout sampleImage (fun _ => 0xa5) 0x40 = some (b, m')) ∧
      translateVa (mapSystemRom sampleLayout (fun _ => 0xa5) sampleBootInfo).2 bootstrapRoot
          0x080000ff = some ⟨0x080000ff, true, false, false, false⟩ := by
  have hmap : (mapSystemRom sampleLayout (fun _ => 0xa5) sampleBootInfo).1 = true := by
    rw [mapSystemRom_of_accepted _ ⟨rfl, by decide, by decide⟩]
  obtain ⟨⟨result, hfound, hload⟩, hread⟩ := imageReads_inside sampleLayout (fun _ => 0xa5)
    sampleRom sampleBootInfo hmap (show moduleName.length < 2 ^ 32 by decide)
  rw [sampleImage_eq, sampleImage_found] at hfound
  exact ⟨hload 0x40 (Option.some.inj hfound).symm _, (hread 0xff _ (if_pos (by decide))).2⟩

end Minemu.Hello
