import Minemu.Hello.FindModule
import Minemu.Hello.UserMemory

/-!
# `minemu_kernel_main` of the user-mode kernel

From the bootstrap page tables the kernel either stops with no user page mapped, or
enters user mode with exactly the pages of the module and the stack.
-/

namespace Minemu.Hello

open Minemu.Lib.Memory Minemu.Lib.Page Minemu.Lib.Registry Minemu.Platform
open Minemu.Startup.BootstrapMap Minemu.Startup.BootstrapWalk

def moduleName : List Byte := [0x75, 0x73, 0x65, 0x72, 0x2d, 0x68, 0x65, 0x6c, 0x6c, 0x6f]

/-- The part of the boot-info check before `map_system_rom`. -/
def bootInfoValid (pointer : Word) (boot_info : BootInfo) : Bool :=
  pointer = bootInfoVaddr && boot_info.magic = bootInfoMagic &&
    boot_info.version = abiVersion && boot_info.size = sizeofBootInfo &&
    boot_info.directMapVaddr = kernelDirectBase && boot_info.directMapPaddr = ramBase &&
    boot_info.directMapSize = kernelDirectSize

/-- Where `minemu_kernel_main` ends: the call of `minemu_enter_user`, or fail-stop after
a trace event. -/
inductive KernelExit where
  | enterUser (entry_vaddr stack_top : Word) (m : Mem)
  | failStop (event : Word) (m : Mem)

def minemuKernelMain (L : Layout) (rom : Mem) (pointer : Word) (boot_info : BootInfo) (m : Mem) :
    Option KernelExit :=
  if !bootInfoValid pointer boot_info then some (.failStop 0x48454c01 m)
  else
    let image : Image := ⟨rom, boot_info.imageSize⟩
    match mapSystemRom L m boot_info with
    | (false, m) => some (.failStop 0x48454c01 m)
    | (true, m) => do
      match ← findModule image boot_info moduleName with
      | none => some (.failStop 0x48454c02 m)
      | some moduleOffset =>
        match ← loadUserModule L image m moduleOffset with
        | (false, m) => some (.failStop 0x48454c02 m)
        | (true, m) => do
          let record ← image.moduleRecord moduleOffset
          some (.enterUser record.entryVaddr userStackTop m)

/-! ## The kernel's tables through the run -/

variable {L : Layout} {m m' : Mem}

theorem bootstrapLeaves_frame (h : BootstrapLeaves m) {os : List Object}
    (hm : ChangedOnly (L.extents os) m m') (hos : .bootTables ∉ os) : BootstrapLeaves m' := by
  have hword : ∀ k, k + 4 ≤ 0x12000 → loadWord m' (0x40011000 + BitVec.ofNat 32 k) =
      loadWord m (0x40011000 + BitVec.ofNat 32 k) := by
    intro k hk
    rw [← L.bootTables_paddr]
    exact L.loadWord_frame hm hos (by simpa using hk)
  refine ⟨fun j hj => ?_, fun j hj => ?_, fun j hj => ?_⟩
  · rw [hword _ (by omega)]
    exact h.identity j hj
  · rw [show (0x40012000 + BitVec.ofNat 32 (4 * j) : Word) =
      0x40011000 + BitVec.ofNat 32 (4096 + 4 * j) by bv_omega, hword _ (by omega),
      show (0x40011000 + BitVec.ofNat 32 (4096 + 4 * j) : Word) =
      0x40012000 + BitVec.ofNat 32 (4 * j) by bv_omega]
    exact h.direct j hj
  · rw [show (0x40022000 + BitVec.ofNat 32 (4 * j) : Word) =
      0x40011000 + BitVec.ofNat 32 (0x11000 + 4 * j) by bv_omega, hword _ (by omega),
      show (0x40011000 + BitVec.ofNat 32 (0x11000 + 4 * j) : Word) =
      0x40022000 + BitVec.ofNat 32 (4 * j) by bv_omega]
    exact h.mmio j hj

theorem kernelTables_of_mapSystemRom (h : BootstrapTables m) {boot_info : BootInfo}
    (hacc : RomAccepted boot_info) :
    ∃ m', mapSystemRom L m boot_info = (true, m') ∧
      KernelTables L (romPageCount boot_info.imageSize) m' ∧
      loadWord m' (L.paddr .pageDirectory 4) = 0 := by
  obtain ⟨hrom, hother, hframe⟩ := mapRomTables_spec (L := L) m hacc.pages_le (Nat.le_refl _)
  have hdir : ∀ d < 1024, loadWord m (L.paddr .pageDirectory (4 * d)) = directoryEntry d := by
    intro d hd
    rw [L.pageDirectory_paddr]
    exact h.directory d hd
  refine ⟨_, mapSystemRom_of_accepted m hacc,
    ⟨bootstrapLeaves_frame h.toBootstrapLeaves hframe (by decide), hrom, fun d hd _ hout => ?_⟩, ?_⟩
  · rw [hother d hd hout, hdir d hd]
  · have hone := hother 1 (by omega) (by omega)
    rw [hdir 1 (by omega)] at hone
    exact hone

theorem KernelTables.frame {pages : Nat} (h : KernelTables L pages m) {os : List Object}
    (hm : ChangedOnly (L.extents os) m m') (hos : .bootTables ∉ os)
    (hos' : .systemRomTables ∉ os) (hpages : pages ≤ 4096)
    (hdir : ∀ d < 1024, d ≠ 1 → loadWord m' (L.paddr .pageDirectory (4 * d)) =
      loadWord m (L.paddr .pageDirectory (4 * d))) : KernelTables L pages m' := by
  have htables : romTableCount pages ≤ 4 := by
    rw [romTableCount]
    omega
  refine ⟨bootstrapLeaves_frame h.leaves hm hos, ⟨fun t ht => ?_, fun t ht i hi => ?_⟩,
    fun d hd hne hout => ?_⟩
  · rw [hdir _ (by omega) (by omega)]
    exact h.rom.directory t ht
  · rw [L.loadWord_frame hm hos' (by simp; omega)]
    exact h.rom.table t ht i hi
  · rw [hdir d hd hne]
    exact h.directory d hd hne hout

def UserMapped (m : Mem) (v : Word) : Prop :=
  ∃ t, translateVa m bootstrapRoot v = some t ∧ t.user = true

theorem not_userMapped_of_bootstrap (h : BootstrapTables m) (v : Word) : ¬ UserMapped m v := by
  rintro ⟨t, ht, huser⟩
  rw [translate_bootstrap h] at ht
  have hkernel : kernelMapping 0 v = some t := by
    rw [kernelMapping, if_neg (by omega)]
    exact ht
  rw [kernelMapping_user hkernel] at huser
  cases huser

theorem KernelTables.not_userMapped {pages : Nat} (h : KernelTables L pages m)
    (hpages : pages ≤ 4096) (hone : loadWord m (L.paddr .pageDirectory 4) = 0) (v : Word) :
    ¬ UserMapped m v := by
  rintro ⟨t, ht, huser⟩
  by_cases hv : v.toNat / 2 ^ 22 = 1
  · rw [L.pageDirectory_paddr] at hone
    have hwalk : walk m bootstrapRoot v = none := walk_of_pde_invalid (by rw [hv]; exact hone)
    rw [translateVa, hwalk] at ht
    cases ht
  · rw [translate_kernel h hpages hv] at ht
    rw [kernelMapping_user ht] at huser
    cases huser

/-! ## The run -/

/-- Memory when user mode is entered for a module found at some offset. -/
structure UserEntered (L : Layout) (image : Image) (boot_info : BootInfo) (moduleOffset : Word)
    (ps : List (Word × Word)) (m : Mem) : Prop where
  found : findModule image boot_info moduleName = some (some moduleOffset)
  wellFormed : WellFormed image (image.moduleRecordAt moduleOffset)
  space : UserSpace L image (moduleSegments image (image.moduleRecordAt moduleOffset)) ps m
  kernel : KernelTables L (romPageCount boot_info.imageSize) m
  rom : RomAccepted boot_info

theorem minemuKernelMain_spec (L : Layout) (rom : Mem) (pointer : Word) (boot_info : BootInfo)
    (m : Mem) (h : BootstrapTables m) :
    ∃ exit, minemuKernelMain L rom pointer boot_info m = some exit ∧
      match exit with
      | .failStop _ m' => ∀ v, ¬ UserMapped m' v
      | .enterUser entry_vaddr stack_top m' => ∃ moduleOffset ps,
          UserEntered L ⟨rom, boot_info.imageSize⟩ boot_info moduleOffset ps m' ∧
          entry_vaddr = (Image.moduleRecordAt ⟨rom, boot_info.imageSize⟩ moduleOffset).entryVaddr ∧
          stack_top = userStackTop := by
  rw [minemuKernelMain]
  split
  · exact ⟨_, rfl, not_userMapped_of_bootstrap h⟩
  by_cases hacc : RomAccepted boot_info
  swap
  · rw [mapSystemRom_of_not_accepted m hacc]
    exact ⟨_, rfl, not_userMapped_of_bootstrap h⟩
  obtain ⟨m1, hmap, htables, hone⟩ := kernelTables_of_mapSystemRom (L := L) h hacc
  simp only [hmap]
  generalize himage : (⟨rom, boot_info.imageSize⟩ : Image) = image
  have hsize : image.size = boot_info.imageSize := by rw [← himage]
  rcases @findModule_inside image boot_info moduleName (by decide) with
    hnull | ⟨moduleOffset, hfound, hinside⟩
  · rw [hnull]
    exact ⟨_, rfl, htables.not_userMapped hacc.pages_le hone⟩
  have hread := image.moduleRecord_eq_some hinside
  rw [hfound]
  rcases loadUserModule_spec L m1 hread with ⟨hwell, ps, m2, hrun, hfilled⟩ | ⟨-, m2, hrun, hframe⟩
  · obtain ⟨hspace, hframe, hdir⟩ := hfilled.install
    have hsub : ChangedOnly (L.extents (loadObjects ++ installObjects)) m1
        (installUserSpace L m2) :=
      (hfilled.frame.mono (L.extents_mono (List.subset_append_left _ _))).trans
        (hframe.mono (L.extents_mono (List.subset_append_right _ _)))
    refine ⟨.enterUser (image.moduleRecordAt moduleOffset).entryVaddr userStackTop
      (installUserSpace L m2), by simp [hrun, hread], moduleOffset, ps,
      ⟨hfound, hwell, hspace, htables.frame hsub (by decide) (by decide) hacc.pages_le ?_, hacc⟩,
      rfl, rfl⟩
    intro d hd hne
    rw [hdir d hd hne, L.loadWord_frame hfilled.frame (by decide) (by simp; omega)]
  · refine ⟨.failStop 0x48454c02 m2, by simp [hrun], ?_⟩
    have hkeep : ∀ d < 1024, loadWord m2 (L.paddr .pageDirectory (4 * d)) =
        loadWord m1 (L.paddr .pageDirectory (4 * d)) :=
      fun d hd => L.loadWord_frame hframe (by decide) (by simp; omega)
    apply (htables.frame hframe (by decide) (by decide) hacc.pages_le
      (fun d hd _ => hkeep d hd)).not_userMapped hacc.pages_le
    exact (hkeep 1 (by omega)).trans hone

/-! ## Isolation at entry -/

theorem pageBase_paddr_page (L : Layout) {o : Object} (ho : o.pageAligned) (i : Nat) (v : Word) :
    pageBase (L.paddr o (4096 * i + v.toNat % 4096)) = L.paddr o (4096 * i) := by
  have hoff : pageBase (v &&& 0xfff) = 0#32 := by
    rw [pageBase, BitVec.and_assoc, show (0xfff : Word) &&& 0xfffff000 = 0#32 by decide,
      BitVec.and_zero]
  rw [← paddr_page_offset, pageBase_add (L.pageAligned_paddr ho i) hoff]

namespace UserEntered

variable {image : Image} {boot_info : BootInfo} {moduleOffset : Word} {ps : List (Word × Word)}

/-- Every user page is a page of the module or the stack page, with its frame. -/
theorem userMapped_cases (h : UserEntered L image boot_info moduleOffset ps m) {v : Word}
    {t : Access} (ht : translateVa m bootstrapRoot v = some t) (huser : t.user = true) :
    (∃ s ∈ moduleSegments image (image.moduleRecordAt moduleOffset),
      (∃ x, Covers s x ∧ pageBase x = pageBase v) ∧
      ∃ i < 16, indexOf ps (pageBase v) = some i ∧
        t = segmentAccess s (L.paddr .userImagePages (4096 * i + v.toNat % 4096))) ∨
    (pageBase v = userStackBottom ∧
      t = ⟨L.paddr .userStack (v.toNat % 4096), true, true, false, true⟩) := by
  by_cases hv : v.toNat / 2 ^ 22 = 1
  · by_cases hstack : pageBase v = userStackBottom
    · rw [h.space.translate_stack hstack] at ht
      exact Or.inr ⟨hstack, (Option.some.inj ht).symm⟩
    · by_cases hpage : pageBase v ∈
          modulePages (moduleSegments image (image.moduleRecordAt moduleOffset))
      · obtain ⟨s, hs, x, hx, hxv⟩ := hpage
        obtain ⟨i, hidx, htrans⟩ := h.space.translate_page hs hx hxv
        have hi := indexOf_lt hidx
        have hlen := h.space.registered.length_le
        rw [htrans] at ht
        exact Or.inl ⟨s, hs, ⟨x, hx, hxv⟩, i, by omega, hidx, (Option.some.inj ht).symm⟩
      · rw [h.space.translate_none hv hstack hpage] at ht
        cases ht
  · rw [translate_kernel h.kernel h.rom.pages_le hv] at ht
    rw [kernelMapping_user ht] at huser
    cases huser

theorem userMapped_iff (h : UserEntered L image boot_info moduleOffset ps m) (v : Word) :
    UserMapped m v ↔
      pageBase v ∈ modulePages (moduleSegments image (image.moduleRecordAt moduleOffset)) ∨
        pageBase v = userStackBottom := by
  constructor
  · rintro ⟨t, ht, huser⟩
    rcases h.userMapped_cases ht huser with ⟨s, hs, hcov, -⟩ | ⟨hstack, -⟩
    · exact Or.inl ⟨s, hs, hcov⟩
    · exact Or.inr hstack
  · rintro (⟨s, hs, x, hx, hxv⟩ | hstack)
    · obtain ⟨i, -, htrans⟩ := h.space.translate_page hs hx hxv
      exact ⟨_, htrans, rfl⟩
    · exact ⟨_, h.space.translate_stack hstack, rfl⟩

theorem frame_cases (h : UserEntered L image boot_info moduleOffset ps m) {v : Word} {t : Access}
    (ht : translateVa m bootstrapRoot v = some t) (huser : t.user = true) :
    (∃ i < 16, indexOf ps (pageBase v) = some i ∧
      pageBase t.paddr = L.paddr .userImagePages (4096 * i)) ∨
    (pageBase v = userStackBottom ∧ pageBase t.paddr = L.paddr .userStack 0) := by
  rcases h.userMapped_cases ht huser with ⟨s, -, -, i, hi, hidx, rfl⟩ | ⟨hstack, rfl⟩
  · exact Or.inl ⟨i, hi, hidx, pageBase_paddr_page L (by decide) i v⟩
  · refine Or.inr ⟨hstack, ?_⟩
    have hbase := pageBase_paddr_page L (o := .userStack) (by decide) 0 v
    rwa [Nat.mul_zero, Nat.zero_add] at hbase

theorem frame_ne (h : UserEntered L image boot_info moduleOffset ps m) {v v' : Word}
    {t t' : Access} (ht : translateVa m bootstrapRoot v = some t) (huser : t.user = true)
    (ht' : translateVa m bootstrapRoot v' = some t') (huser' : t'.user = true)
    (hne : pageBase v ≠ pageBase v') : pageBase t.paddr ≠ pageBase t'.paddr := by
  have hapart : ∀ i < 16, L.paddr .userImagePages (4096 * i) ≠ L.paddr .userStack 0 := by
    intro i hi heq
    have hmem := L.paddr_mem (o := .userImagePages) (k := 4096 * i) (by simp; omega)
    rw [heq] at hmem
    exact L.not_mem_extent (by decide) hmem (L.paddr_mem (by decide))
  rcases h.frame_cases ht huser with ⟨i, hi, hidx, hframe⟩ | ⟨hstack, hframe⟩
  · rcases h.frame_cases ht' huser' with ⟨j, hj, hidx', hframe'⟩ | ⟨-, hframe'⟩
    · rw [hframe, hframe']
      intro heq
      have hbi := L.paddr_toNat .userImagePages (k := 4096 * i) (by simp; omega)
      have hbj := L.paddr_toNat .userImagePages (k := 4096 * j) (by simp; omega)
      rw [heq] at hbi
      have hij : i = j := by omega
      rw [hij] at hidx
      exact hne (indexOf_inj hidx hidx')
    · rw [hframe, hframe']
      exact hapart i hi
  · rcases h.frame_cases ht' huser' with ⟨j, hj, -, hframe'⟩ | ⟨hstack', -⟩
    · rw [hframe, hframe']
      exact (hapart j hj).symm
    · exact absurd (hstack.trans hstack'.symm) hne

end UserEntered

/-- User isolation at entry, from the bootstrap page tables and whatever else memory
holds. -/
theorem minemuKernelMain_isolation (L : Layout) (rom : Mem) (pointer : Word)
    (boot_info : BootInfo) (m : Mem) (h : BootstrapTables m) :
    ∃ exit, minemuKernelMain L rom pointer boot_info m = some exit ∧
      match exit with
      | .failStop _ m' => ∀ v, ¬ UserMapped m' v
      | .enterUser _ _ m' => ∃ moduleOffset segments,
          findModule ⟨rom, boot_info.imageSize⟩ boot_info moduleName = some (some moduleOffset) ∧
          segments = moduleSegments ⟨rom, boot_info.imageSize⟩
            (Image.moduleRecordAt ⟨rom, boot_info.imageSize⟩ moduleOffset) ∧
          (∀ v, UserMapped m' v ↔
            (∃ s ∈ segments, ∃ x, Covers s x ∧ pageBase x = pageBase v) ∨
              pageBase v = userStackBottom) ∧
          (∀ v t, translateVa m' bootstrapRoot v = some t → t.user = true →
            (∀ s ∈ segments, (∃ x, Covers s x ∧ pageBase x = pageBase v) →
              t.readable = (s.flags &&& segmentReadable != 0) ∧
              t.writable = (s.flags &&& segmentWritable != 0) ∧
              t.executable = (s.flags &&& segmentExecutable != 0)) ∧
            (pageBase v = userStackBottom →
              t.readable = true ∧ t.writable = true ∧ t.executable = false) ∧
            ((∃ i < 16, pageBase t.paddr = L.paddr .userImagePages (4096 * i)) ∨
              pageBase t.paddr = L.paddr .userStack 0)) ∧
          (∀ v v' t t', translateVa m' bootstrapRoot v = some t → t.user = true →
            translateVa m' bootstrapRoot v' = some t' → t'.user = true →
            pageBase v ≠ pageBase v' → pageBase t.paddr ≠ pageBase t'.paddr) := by
  obtain ⟨exit, hrun, hexit⟩ := minemuKernelMain_spec L rom pointer boot_info m h
  refine ⟨exit, hrun, ?_⟩
  cases exit with
  | failStop event m' => exact hexit
  | enterUser entry_vaddr stack_top m' =>
      obtain ⟨moduleOffset, ps, hent, -, -⟩ := hexit
      refine ⟨moduleOffset, _, hent.found, rfl, hent.userMapped_iff, fun v t ht huser => ?_,
        fun v v' t t' ht hu ht' hu' hne => hent.frame_ne ht hu ht' hu' hne⟩
      refine ⟨fun s hs hcov => ?_, fun hstack => ?_, ?_⟩
      · obtain ⟨x, hx, hxv⟩ := hcov
        obtain ⟨i, -, htrans⟩ := hent.space.translate_page hs hx hxv
        rw [htrans] at ht
        rw [← Option.some.inj ht]
        exact ⟨rfl, rfl, rfl⟩
      · rw [hent.space.translate_stack hstack] at ht
        rw [← Option.some.inj ht]
        exact ⟨rfl, rfl, rfl⟩
      · rcases hent.frame_cases ht huser with ⟨i, hi, -, hframe⟩ | ⟨-, hframe⟩
        · exact Or.inl ⟨i, hi, hframe⟩
        · exact Or.inr hframe

def sampleBootInfo : BootInfo where
  magic := bootInfoMagic
  version := abiVersion
  size := sizeofBootInfo
  systemRomBase := systemRomBase
  imageSize := 0x100
  moduleTableOffset := 0x40
  moduleCount := 1
  directMapVaddr := kernelDirectBase
  directMapPaddr := ramBase
  directMapSize := kernelDirectSize
  flags := 0
  reserved := fun _ => 0

theorem sampleImage_eq : (⟨sampleRom, sampleBootInfo.imageSize⟩ : Image) = sampleImage := rfl

theorem sampleImage_found :
    findModule sampleImage sampleBootInfo moduleName = some (some 0x40) := by
  decide +kernel

theorem minemuKernelMain_sample {m : Mem} (h : BootstrapTables m) :
    ∃ m', minemuKernelMain sampleLayout sampleRom bootInfoVaddr sampleBootInfo m =
      some (.enterUser 0x00400000 userStackTop m') := by
  have hvalid : bootInfoValid bootInfoVaddr sampleBootInfo = true := by decide
  have hacc : RomAccepted sampleBootInfo := ⟨rfl, by decide, by decide⟩
  obtain ⟨m1, hmap, -, -⟩ := kernelTables_of_mapSystemRom (L := sampleLayout) h hacc
  have hread : sampleImage.moduleRecord 0x40 = some sampleRecord := by
    rw [← sampleImage_record]
    exact sampleImage.moduleRecord_eq_some (by decide)
  rw [minemuKernelMain, hvalid, sampleImage_eq, hmap]
  rcases loadUserModule_spec sampleLayout m1 hread with ⟨-, ps, m2, hrun, -⟩ | ⟨hbad, -⟩
  · refine ⟨installUserSpace sampleLayout m2, ?_⟩
    rw [if_neg (by decide)]
    dsimp only
    rw [sampleImage_found, Option.bind_eq_bind, Option.bind_some]
    dsimp only
    rw [hrun, Option.bind_eq_bind, Option.bind_some]
    dsimp only
    rw [hread]
    rfl
  · exact absurd sampleImage_wellFormed hbad

/-- The small module is entered with one page of code and its stack. -/
theorem minemuKernelMain_isolation_sample :
    ∃ m m', BootstrapTables m ∧
      minemuKernelMain sampleLayout sampleRom bootInfoVaddr sampleBootInfo m =
        some (.enterUser 0x00400000 userStackTop m') ∧
      UserMapped m' 0x00400000 ∧ UserMapped m' 0x007ffffc ∧ ¬ UserMapped m' 0x00401000 := by
  obtain ⟨machine, -, htables, -, -⟩ := minemuBootstrapMap_spec
    { r := fun _ => 0, rFiq := fun _ => 0, sp := fun _ => 0, lr := fun _ => 0,
      spsr := fun _ => 0, pc := 0, cpsr := 0xd3, cp15 := fun _ => 0, mem := fun _ => 0 }
  obtain ⟨m', hrun⟩ := minemuKernelMain_sample htables
  obtain ⟨exit, hrun', hexit⟩ := minemuKernelMain_isolation sampleLayout sampleRom bootInfoVaddr
    sampleBootInfo machine.mem htables
  rw [hrun] at hrun'
  obtain rfl := Option.some.inj hrun'
  obtain ⟨moduleOffset, segments, hfound, hsegments, hmapped, -⟩ := hexit
  rw [sampleImage_eq] at hfound hsegments
  obtain rfl : moduleOffset = 0x40 :=
    (Option.some.inj (Option.some.inj (sampleImage_found.symm.trans hfound))).symm
  rw [sampleImage_record, sampleImage_segments] at hsegments
  subst hsegments
  refine ⟨machine.mem, m', htables, hrun, ?_, ?_, ?_⟩
  · exact (hmapped _).mpr (Or.inl ⟨sampleSegment, List.mem_singleton_self _, 0x00400000,
      by decide, rfl⟩)
  · exact (hmapped _).mpr (Or.inr (by decide))
  · rw [hmapped]
    rintro (⟨s, hs, x, hx, hxv⟩ | hstack)
    · rw [List.mem_singleton.mp hs] at hx
      rw [sampleSegment_covers_page hx] at hxv
      exact absurd hxv (by decide)
    · exact absurd hstack (by decide)

end Minemu.Hello
