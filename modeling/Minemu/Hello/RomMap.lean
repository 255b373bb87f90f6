import Minemu.Hello.Main

/-!
# What `map_system_rom` maps

Over any directory with its ROM slots free, the walk after an accepted call gives the
image's pages for reading, faults in the rest of the ROM window and is as before
elsewhere.
-/

namespace Minemu.Hello

open Minemu.Lib.Memory Minemu.Lib.Page Minemu.Platform
open Minemu.Startup.BootstrapMap Minemu.Startup.BootstrapWalk

def Designates (L : Layout) (m : Mem) (d : Nat) (table : Word) : Prop :=
  loadWord m (L.paddr .pageDirectory (4 * d)) &&& pdeValid ≠ 0 ∧
    pageBase (loadWord m (L.paddr .pageDirectory (4 * d))) = table

/-- The directory has no entry in the ROM slots and none for the ROM tables elsewhere. -/
structure RomSlotsFree (L : Layout) (m : Mem) : Prop where
  free : ∀ d, 32 ≤ d → d < 36 → loadWord m (L.paddr .pageDirectory (4 * d)) &&& pdeValid = 0
  tables : ∀ d < 1024, ∀ t < systemRomTableCount,
    ¬ Designates L m d (L.paddr .systemRomTables (4096 * t))

def InRomWindow (v : Word) : Prop := 0x08000000 ≤ v.toNat ∧ v.toNat < 0x09000000

variable {L : Layout} {m : Mem}

theorem pageBase_of_mem_extent {o : Object} (ho : o.pageAligned) {a : Word}
    (ha : a ∈ L.extent o) : ∃ i, 4096 * i < o.size ∧ pageBase a = L.paddr o (4096 * i) := by
  obtain ⟨k, hk, rfl⟩ := L.exists_paddr ha
  have halign := pageAligned_iff.mp (L.pageAligned_base ho)
  refine ⟨k / 4096, by omega, ?_⟩
  apply BitVec.eq_of_toNat_eq
  rw [L.paddr_toNat o (Nat.zero_le _)] at halign
  rw [pageBase_toNat, L.paddr_toNat o (by omega), L.paddr_toNat o (by omega)]
  omega

theorem loadWord_table_kept {m' : Mem} (hm : ChangedOnly (L.extents romObjects) m m')
    {table : Word} (halign : PageAligned table)
    (hrom : ∀ t < systemRomTableCount, table ≠ L.paddr .systemRomTables (4096 * t))
    (hself : table ≠ L.paddr .pageDirectory 0) {k : Nat} (hk : k < 1024) :
    loadWord m' (table + BitVec.ofNat 32 (4 * k)) =
      loadWord m (table + BitVec.ofNat 32 (4 * k)) := by
  apply loadWord_of_changedOnly hm
  intro i hi
  have hbase := pageAligned_iff.mp halign
  have hpage : pageBase (table + BitVec.ofNat 32 (4 * k) + BitVec.ofNat 32 i) = table := by
    apply BitVec.eq_of_toNat_eq
    rw [pageBase_toNat]
    bv_omega
  rintro ⟨o, ho, hmem⟩
  rcases List.mem_cons.mp ho with rfl | ho
  · obtain ⟨j, hj, heq⟩ := pageBase_of_mem_extent (by decide) hmem
    rw [Object.size_pageDirectory] at hj
    rw [hpage, show 4096 * j = 0 by omega] at heq
    exact hself heq
  · rw [List.mem_singleton.mp ho] at hmem
    obtain ⟨j, hj, heq⟩ := pageBase_of_mem_extent (by decide) hmem
    rw [Object.size_systemRomTables] at hj
    rw [hpage] at heq
    exact hrom j (by rw [systemRomTableCount]; omega) heq

theorem walk_of_pde_free {root v : Word}
    (h : loadWord m (root + BitVec.ofNat 32 (4 * (v.toNat / 2 ^ 22))) &&& pdeValid = 0) :
    walk m root v = none := by
  rw [walk, directoryOffset_eq]
  exact if_pos h

/-! ## The walk afterwards -/

variable {boot_info : BootInfo}

theorem directoryWord_eq (L : Layout) (m : Mem) (v : Word) :
    loadWord m (bootstrapRoot + BitVec.ofNat 32 (4 * (v.toNat / 2 ^ 22))) =
      loadWord m (L.paddr .pageDirectory (4 * (v.toNat / 2 ^ 22))) := by
  rw [L.pageDirectory_paddr]
  rfl

theorem walk_outside_rom (hacc : RomAccepted boot_info) (h : RomSlotsFree L m)
    (hself : ∀ d < 1024, ¬ Designates L m d (L.paddr .pageDirectory 0)) {v : Word}
    (hv : ¬ InRomWindow v) :
    walk (mapSystemRom L m boot_info).2 bootstrapRoot v = walk m bootstrapRoot v := by
  rw [InRomWindow] at hv
  have hpages := hacc.pages_le
  have htables : romTableCount (romPageCount boot_info.imageSize) =
      (romPageCount boot_info.imageSize + 1023) / 1024 := rfl
  obtain ⟨-, hother, hframe⟩ := mapRomTables_spec (L := L) m hpages (Nat.le_refl _)
  rw [mapSystemRom_of_accepted m hacc]
  generalize mapRomTables L m systemRomBase (BitVec.ofNat 32 (romPageCount boot_info.imageSize))
    (romTableCount (romPageCount boot_info.imageSize)) = m' at hother hframe ⊢
  have hdir := hother (v.toNat / 2 ^ 22) (by omega) (by omega)
  by_cases hvalid : loadWord m (L.paddr .pageDirectory (4 * (v.toNat / 2 ^ 22))) &&& pdeValid = 0
  · rw [walk_of_pde_free (by rw [directoryWord_eq L, hdir]; exact hvalid),
      walk_of_pde_free (by rw [directoryWord_eq L]; exact hvalid)]
  · apply walk_congr
    · rw [directoryWord_eq L, directoryWord_eq L, hdir]
    · rintro table htable
      rw [directoryWord_eq L] at htable
      have hd : v.toNat / 2 ^ 22 < 1024 := by omega
      refine loadWord_table_kept hframe ?_ (fun t ht heq => ?_) (fun heq => ?_) (by omega)
      · rw [htable]
        exact pageAligned_pageBase _
      · exact h.tables _ hd t ht ⟨hvalid, htable.symm.trans heq⟩
      · exact hself _ hd ⟨hvalid, htable.symm.trans heq⟩

theorem translate_inside_rom (hacc : RomAccepted boot_info) (h : RomSlotsFree L m) {v : Word}
    (hv : InRomWindow v) :
    translateVa (mapSystemRom L m boot_info).2 bootstrapRoot v =
      if v.toNat < 0x08000000 + 4096 * romPageCount boot_info.imageSize then
        some ⟨v, true, false, false, false⟩ else none := by
  obtain ⟨hlow, hhigh⟩ := hv
  have hpages := hacc.pages_le
  have htables : romTableCount (romPageCount boot_info.imageSize) =
      (romPageCount boot_info.imageSize + 1023) / 1024 := rfl
  obtain ⟨htable, hother, -⟩ := mapRomTables_spec (L := L) m hpages (Nat.le_refl _)
  rw [mapSystemRom_of_accepted m hacc]
  by_cases hslot : v.toNat / 2 ^ 22 < 32 + romTableCount (romPageCount boot_info.imageSize)
  · exact translate_rom htable (by omega) (by omega) hslot
  · -- a slot that stays free
    have hdir := hother (v.toNat / 2 ^ 22) (by omega) (by omega)
    have hfree := h.free (v.toNat / 2 ^ 22) (by omega) (by omega)
    rw [← hdir, ← directoryWord_eq] at hfree
    rw [if_neg (by omega), translateVa, walk_of_pde_free hfree]
    rfl

/-- `map_system_rom` accepts exactly the images that fit the ROM window and maps exactly
their pages, for reading by the supervisor. -/
theorem mapSystemRom_exact (L : Layout) (m : Mem) (boot_info : BootInfo) (h : RomSlotsFree L m)
    (hself : ∀ d < 1024, ¬ Designates L m d (L.paddr .pageDirectory 0)) :
    ((mapSystemRom L m boot_info).1 = true ↔ boot_info.systemRomBase = 0x08000000 ∧
      1 ≤ boot_info.imageSize.toNat ∧ boot_info.imageSize.toNat ≤ 0x01000000) ∧
    ((mapSystemRom L m boot_info).1 = true → ∀ v,
      (InRomWindow v → translateVa (mapSystemRom L m boot_info).2 bootstrapRoot v =
        if v.toNat < 0x08000000 + 4096 * ((boot_info.imageSize.toNat + 4095) / 4096) then
          some ⟨v, true, false, false, false⟩ else none) ∧
      (¬ InRomWindow v →
        walk (mapSystemRom L m boot_info).2 bootstrapRoot v = walk m bootstrapRoot v)) ∧
    ((mapSystemRom L m boot_info).1 = false → (mapSystemRom L m boot_info).2 = m) := by
  by_cases hacc : RomAccepted boot_info
  · refine ⟨⟨fun _ => ⟨hacc.base, hacc.nonempty, hacc.fits⟩, fun _ => ?_⟩,
      fun _ v => ⟨translate_inside_rom hacc h, walk_outside_rom hacc h hself⟩, fun hfalse => ?_⟩
    · rw [mapSystemRom_of_accepted m hacc]
    · rw [mapSystemRom_of_accepted m hacc] at hfalse
      exact Bool.noConfusion hfalse
  · rw [mapSystemRom_of_not_accepted m hacc]
    exact ⟨⟨fun h => Bool.noConfusion h, fun hok => absurd ⟨hok.1, hok.2.1, hok.2.2⟩ hacc⟩,
      fun h => Bool.noConfusion h, fun _ => rfl⟩

/-! ## The bootstrap directory -/

theorem pageBase_directoryEntry {d : Nat} (h : directoryEntry d &&& pdeValid ≠ 0) :
    ∃ k < 0x12000, pageBase (directoryEntry d) = 0x40011000 + BitVec.ofNat 32 k := by
  by_cases hmmio : d = 64
  · rw [directoryEntry, if_pos hmmio]
    exact ⟨0x11000, by omega, by decide⟩
  by_cases hidentity : d = 256
  · rw [directoryEntry, if_neg hmmio, if_pos hidentity]
    exact ⟨0, by omega, by decide⟩
  by_cases hdirect : 768 ≤ d ∧ d < 784
  · have halign : PageAligned (0x40012000 + BitVec.ofNat 32 (4096 * (d - 768))) := by
      rw [pageAligned_iff]
      bv_omega
    refine ⟨0x1000 + 4096 * (d - 768), by omega, ?_⟩
    rw [directoryEntry, if_neg hmmio, if_neg hidentity, if_pos hdirect,
      pageBase_or halign (by decide)]
    bv_omega
  · rw [directoryEntry, if_neg hmmio, if_neg hidentity, if_neg hdirect] at h
    exact absurd (by decide) h

/-- The bootstrap tables leave the ROM slots free, and no entry of theirs designates the
ROM tables or the directory. -/
theorem bootstrapTables_romSlotsFree (L : Layout) (h : BootstrapTables m) :
    RomSlotsFree L m ∧ ∀ d < 1024, ¬ Designates L m d (L.paddr .pageDirectory 0) := by
  have hdir : ∀ d < 1024, loadWord m (L.paddr .pageDirectory (4 * d)) = directoryEntry d := by
    intro d hd
    rw [L.pageDirectory_paddr]
    exact h.directory d hd
  have hboot : ∀ d < 1024, ∀ o k, o ≠ .bootTables → k < o.size →
      ¬ Designates L m d (L.paddr o k) := by
    rintro d hd o k ho hk ⟨hvalid, hbase⟩
    rw [hdir d hd] at hvalid hbase
    obtain ⟨j, hj, htable⟩ := pageBase_directoryEntry hvalid
    rw [htable, ← L.bootTables_paddr] at hbase
    have hmem := L.paddr_mem (o := .bootTables) (k := j) hj
    rw [hbase] at hmem
    exact L.not_mem_extent ho (L.paddr_mem hk) hmem
  refine ⟨⟨fun d hd hd' => ?_, fun d hd t ht => ?_⟩, fun d hd => ?_⟩
  · rw [hdir d (by omega), directoryEntry, if_neg (by omega), if_neg (by omega), if_neg (by omega)]
    decide
  · rw [systemRomTableCount] at ht
    exact hboot d hd _ _ (by decide) (by simp; omega)
  · exact hboot d hd _ _ (by decide) (by decide)

def zeroMachine : Minemu.Lib.Arm.Machine where
  r _ := 0
  rFiq _ := 0
  sp _ := 0
  lr _ := 0
  spsr _ := 0
  pc := 0
  cpsr := 0xd3
  cp15 _ := 0
  mem _ := 0

def bootstrappedMemory : Mem :=
  ((minemuBootstrapMap zeroMachine).map Minemu.Lib.Arm.Machine.mem).getD fun _ => 0

theorem bootstrappedMemory_tables : BootstrapTables bootstrappedMemory := by
  obtain ⟨machine, hrun, htables, -, -⟩ := minemuBootstrapMap_spec zeroMachine
  rw [bootstrappedMemory, hrun]
  exact htables

/-- The small image over the bootstrap tables: its only page and the one after it. -/
theorem mapSystemRom_exact_bootstrap :
    ∃ m, BootstrapTables m ∧ (mapSystemRom sampleLayout m sampleBootInfo).1 = true ∧
      translateVa (mapSystemRom sampleLayout m sampleBootInfo).2 bootstrapRoot 0x08000ffc =
        some ⟨0x08000ffc, true, false, false, false⟩ ∧
      translateVa (mapSystemRom sampleLayout m sampleBootInfo).2 bootstrapRoot 0x08001000 =
        none := by
  obtain ⟨hfree, hself⟩ := bootstrapTables_romSlotsFree sampleLayout bootstrappedMemory_tables
  obtain ⟨haccept, hmaps, -⟩ :=
    mapSystemRom_exact sampleLayout bootstrappedMemory sampleBootInfo hfree hself
  have htrue := haccept.mpr ⟨rfl, by decide, by decide⟩
  refine ⟨bootstrappedMemory, bootstrappedMemory_tables, htrue, ?_, ?_⟩
  · exact ((hmaps htrue 0x08000ffc).1 ⟨by decide, by decide⟩).trans (if_pos (by decide))
  · exact ((hmaps htrue 0x08001000).1 ⟨by decide, by decide⟩).trans (if_neg (by decide))

/-- The bootstrap directory with a first entry that designates the directory itself. -/
def selfReferring : Mem := storeWord bootstrappedMemory 0x40010000 0x40010001

theorem selfReferring_word {d : Nat} (hd : d < 1024) :
    loadWord selfReferring (sampleLayout.paddr .pageDirectory (4 * d)) =
      if d = 0 then 0x40010001 else directoryEntry d := by
  rw [sampleLayout.pageDirectory_paddr]
  by_cases hzero : d = 0
  · rw [hzero]
    exact loadWord_storeWord_self _ _ _
  · rw [if_neg hzero, selfReferring, loadWord_storeWord_of_apart _ _ (by bv_omega) (by bv_omega)]
    exact bootstrappedMemory_tables.directory d hd

/-- The slots are free and nothing designates the ROM tables, but the walk outside the
window goes through the slots and changes with them. -/
theorem mapSystemRom_selfReferring :
    RomSlotsFree sampleLayout selfReferring ∧
      (mapSystemRom sampleLayout selfReferring sampleBootInfo).1 = true ∧
      ¬ InRomWindow 0x00020000 ∧
      walk (mapSystemRom sampleLayout selfReferring sampleBootInfo).2 bootstrapRoot 0x00020000 ≠
        walk selfReferring bootstrapRoot 0x00020000 := by
  have hacc : RomAccepted sampleBootInfo := ⟨rfl, by decide, by decide⟩
  refine ⟨⟨fun d hd hd' => ?_, fun d hd t ht => ?_⟩, ?_, fun hin => absurd hin.1 (by decide), ?_⟩
  · rw [selfReferring_word (by omega), if_neg (by omega), directoryEntry, if_neg (by omega),
      if_neg (by omega), if_neg (by omega)]
    decide
  · rintro ⟨hvalid, hbase⟩
    rw [selfReferring_word hd] at hvalid hbase
    by_cases hzero : d = 0
    · rw [if_pos hzero] at hbase
      have hmem := sampleLayout.paddr_mem (o := .systemRomTables) (k := 4096 * t) (by
        rw [systemRomTableCount] at ht
        simp
        omega)
      rw [← hbase, Layout.extent] at hmem
      exact absurd hmem (by decide)
    · rw [if_neg hzero] at hvalid hbase
      refine (bootstrapTables_romSlotsFree sampleLayout bootstrappedMemory_tables).1.tables d hd t
        ht ⟨?_, ?_⟩
      · rw [sampleLayout.pageDirectory_paddr, bootstrappedMemory_tables.directory d hd]
        exact hvalid
      · rw [sampleLayout.pageDirectory_paddr, bootstrappedMemory_tables.directory d hd]
        exact hbase
  · rw [mapSystemRom_of_accepted _ hacc]
  · obtain ⟨hrom, hother, -⟩ := mapRomTables_spec (L := sampleLayout) selfReferring hacc.pages_le
      (Nat.le_refl _)
    rw [mapSystemRom_of_accepted _ hacc]
    generalize mapRomTables sampleLayout selfReferring systemRomBase
      (BitVec.ofNat 32 (romPageCount sampleBootInfo.imageSize))
      (romTableCount (romPageCount sampleBootInfo.imageSize)) = m' at hrom hother ⊢
    have hbefore : loadWord selfReferring (bootstrapRoot + BitVec.ofNat 32 (4 *
        ((0x00020000 : Word).toNat / 2 ^ 22))) = 0x40010000 ||| pdeValid := by
      rw [directoryWord_eq sampleLayout, selfReferring_word (by decide)]
      decide
    have hself : loadWord m' (bootstrapRoot + BitVec.ofNat 32 (4 *
        ((0x00020000 : Word).toNat / 2 ^ 22))) = 0x40010000 ||| pdeValid := by
      rw [directoryWord_eq sampleLayout, hother _ (by decide) (by decide),
        ← directoryWord_eq sampleLayout]
      exact hbefore
    have hslot := hrom.directory 0 (by decide)
    have hempty := selfReferring_word (d := 32) (by decide)
    rw [sampleLayout.pageDirectory_paddr] at hslot hempty
    rw [walk_of_pde (by decide) hself, walk_of_pde (by decide) hbefore,
      show 4 * ((0x00020000 : Word).toNat / 4096 % 1024) = 4 * 32 by decide, hempty,
      show 4 * 32 = 4 * (32 + 0) by rfl, hslot]
    decide

end Minemu.Hello
