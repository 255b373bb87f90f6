import Minemu.Hello.Layout
import Minemu.Platform.BootInfo
import Minemu.Startup.BootstrapWalk

/-!
# `map_system_rom`

The image's pages of system ROM are mapped read-only at their own addresses, in up
to four tables that the directory had no entries for.
-/

namespace Minemu.Hello

open Minemu.Lib.Memory Minemu.Lib.Page Minemu.Platform Minemu.Startup.BootstrapMap
open Minemu.Startup.BootstrapWalk

def bootstrapPageDirectoryPaddr : Word := 0x40010000

def activePageDirectory : Word := kernelDirectBase + bootstrapPageDirectoryPaddr - ramBase

/-- `directory[index] = entry` -/
def setDirectoryEntry (m : Mem) (index entry : Word) : Mem :=
  storeWord m (kernelVaddrToPaddr (activePageDirectory + 4 * index)) entry

def zeroBytes (m : Mem) (destination length : Word) : Mem :=
  fillBytes m destination (fun _ => 0) length.toNat

variable (L : Layout)

/-- One pass of the outer loop. -/
def mapRomTable (m : Mem) (system_rom_base page_count table : Word) : Mem :=
  let m := zeroBytes m (L.paddr .systemRomTables (4096 * table.toNat)) 4096
  let remaining := page_count - table * 1024
  let entries := if remaining < 1024 then remaining else 1024
  let m := fillWords m (L.paddr .systemRomTables (4096 * table.toNat))
    (fun index =>
      let page := table * 1024 + BitVec.ofNat 32 index
      (system_rom_base + page * pageSize) ||| pteValid ||| pteReadable)
    entries.toNat
  let directory_index := (system_rom_base >>> 22) + table
  setDirectoryEntry m directory_index
    (kernelVaddrToPaddr (L.addr .systemRomTables + BitVec.ofNat 32 (4096 * table.toNat)) |||
      pdeValid)

def mapRomTables (m : Mem) (system_rom_base page_count : Word) : Nat → Mem
  | 0 => m
  | table + 1 =>
    mapRomTable L (mapRomTables m system_rom_base page_count table) system_rom_base page_count
      (BitVec.ofNat 32 table)

def mapSystemRom (m : Mem) (boot_info : BootInfo) : Bool × Mem :=
  if boot_info.systemRomBase ≠ systemRomBase || boot_info.imageSize = 0 ||
      systemRomSize < boot_info.imageSize then
    (false, m)
  else
    let page_count := (boot_info.imageSize + pageSize - 1) / pageSize
    let table_count := (page_count + 1023) / 1024
    if BitVec.ofNat 32 systemRomTableCount < table_count then (false, m)
    else (true, mapRomTables L m boot_info.systemRomBase page_count table_count.toNat)

/-! ## Tables -/

def romTableCount (pages : Nat) : Nat := (pages + 1023) / 1024

/-- The first `tables` tables are linked and map the first `pages` pages of ROM. -/
structure RomTables (L : Layout) (pages tables : Nat) (m : Mem) : Prop where
  directory : ∀ t < tables, loadWord m (L.paddr .pageDirectory (4 * (32 + t))) =
    L.paddr .systemRomTables (4096 * t) ||| pdeValid
  table : ∀ t < tables, ∀ i < 1024, loadWord m (L.paddr .systemRomTables (4096 * t + 4 * i)) =
    if 1024 * t + i < pages then
      (systemRomBase + BitVec.ofNat 32 (4096 * (1024 * t + i))) ||| (pteValid ||| pteReadable)
    else 0

theorem setDirectoryEntry_eq (m : Mem) (index entry : Word) :
    setDirectoryEntry m index entry =
      storeWord m (L.paddr .pageDirectory (4 * index.toNat)) entry := by
  have haddr : kernelVaddrToPaddr (activePageDirectory + 4 * index) =
      L.paddr .pageDirectory (4 * index.toNat) := by
    rw [L.pageDirectory_paddr]
    simp only [kernelVaddrToPaddr, activePageDirectory, kernelDirectBase, ramBase,
      bootstrapPageDirectoryPaddr]
    bv_omega
  rw [setDirectoryEntry, haddr]

variable {L}

def romObjects : List Object := [.pageDirectory, .systemRomTables]

/-- One pass links table `t` and leaves the other tables and entries alone. -/
structure RomTable (L : Layout) (pages t : Nat) (m m' : Mem) : Prop where
  linked : loadWord m' (L.paddr .pageDirectory (4 * (32 + t))) =
    L.paddr .systemRomTables (4096 * t) ||| pdeValid
  directory : ∀ d < 1024, d ≠ 32 + t →
    loadWord m' (L.paddr .pageDirectory (4 * d)) = loadWord m (L.paddr .pageDirectory (4 * d))
  table : ∀ i < 1024, loadWord m' (L.paddr .systemRomTables (4096 * t + 4 * i)) =
    if 1024 * t + i < pages then
      (systemRomBase + BitVec.ofNat 32 (4096 * (1024 * t + i))) ||| (pteValid ||| pteReadable)
    else 0
  others : ∀ t' < 4, t' ≠ t → ∀ i < 1024,
    loadWord m' (L.paddr .systemRomTables (4096 * t' + 4 * i)) =
      loadWord m (L.paddr .systemRomTables (4096 * t' + 4 * i))
  frame : ChangedOnly (L.extents romObjects) m m'

theorem romEntries_toNat {pages t : Nat} (hpages : pages ≤ 4096) (hfirst : 1024 * t < pages) :
    (if BitVec.ofNat 32 pages - BitVec.ofNat 32 t * 1024 < 1024 then
      BitVec.ofNat 32 pages - BitVec.ofNat 32 t * 1024 else (1024 : Word)).toNat =
      min (pages - 1024 * t) 1024 := by
  have hmul : BitVec.ofNat 32 t * 1024 = BitVec.ofNat 32 (t * 1024) := by
    rw [BitVec.ofNat_mul]
    rfl
  rw [hmul]
  split
  · bv_omega
  · bv_omega

theorem romEntry_eq (t i : Nat) :
    (systemRomBase + (BitVec.ofNat 32 t * 1024 + BitVec.ofNat 32 i) * pageSize) ||| pteValid |||
        pteReadable =
      (systemRomBase + BitVec.ofNat 32 (4096 * (1024 * t + i))) ||| (pteValid ||| pteReadable) := by
  have hpage : (BitVec.ofNat 32 t * 1024 + BitVec.ofNat 32 i) * pageSize =
      BitVec.ofNat 32 (4096 * (1024 * t + i)) := by
    rw [show (1024 : Word) = BitVec.ofNat 32 1024 from rfl,
      show pageSize = BitVec.ofNat 32 4096 from rfl, ← BitVec.ofNat_mul, ← BitVec.ofNat_add,
      ← BitVec.ofNat_mul]
    congr 1
    omega
  rw [hpage, BitVec.or_assoc]

theorem zeroFill_spec (m : Mem) {o : Object} {k n : Nat} (hk : k + 4096 ≤ o.size) (hn : n ≤ 1024)
    (f : Nat → Word) :
    (∀ i < 1024, loadWord (fillWords (zeroBytes m (L.paddr o k) 4096) (L.paddr o k) f n)
      (L.paddr o (k + 4 * i)) = if i < n then f i else 0) ∧
    ChangedOnly (region (L.paddr o k) 4096) m
      (fillWords (zeroBytes m (L.paddr o k) 4096) (L.paddr o k) f n) := by
  generalize hm1 : zeroBytes m (L.paddr o k) 4096 = m1
  have hframe1 : ChangedOnly (region (L.paddr o k) 4096) m m1 := by
    rw [← hm1]
    exact fillBytes_changedOnly _ _ _ _ (by decide)
  have hframe2 := fillWords_changedOnly m1 (L.paddr o k) f n (by omega)
  have hsub : region (L.paddr o k) (4 * n) ⊆ region (L.paddr o k) 4096 := by
    intro a ha
    rw [mem_region] at ha ⊢
    omega
  refine ⟨fun i hi => ?_, hframe1.trans (hframe2.mono hsub)⟩
  by_cases hin : i < n
  · rw [if_pos hin, ← L.paddr_add, loadWord_fillWords _ _ _ (by omega) hin]
  · rw [if_neg hin, L.loadWord_apart hframe2 (by omega) (by omega) (by omega)]
    apply loadWord_of_zero
    intro j hj
    have hmem : L.paddr o (k + 4 * i + j) ∈ region (L.paddr o k) 4096 := by
      rw [Nat.add_assoc, ← L.paddr_add]
      exact add_ofNat_mem_region _ (by omega)
    rw [L.paddr_add, ← hm1, zeroBytes, show (4096 : Word).toNat = 4096 by decide,
      fillBytes_apply _ _ _ _ _ (by omega), if_pos hmem]

theorem mapRomTable_spec (m : Mem) {pages t : Nat} (hpages : pages ≤ 4096) (ht : t < 4)
    (hfirst : 1024 * t < pages) :
    RomTable L pages t m
      (mapRomTable L m systemRomBase (BitVec.ofNat 32 pages) (BitVec.ofNat 32 t)) := by
  have htoNat : (BitVec.ofNat 32 t).toNat = t := by
    rw [BitVec.toNat_ofNat, Nat.mod_eq_of_lt (by omega)]
  have hindex : ((systemRomBase >>> 22) + BitVec.ofNat 32 t).toNat = 32 + t := by
    rw [show systemRomBase >>> 22 = 32 by decide]
    bv_omega
  have hpage : 4096 * t + 4096 ≤ Object.systemRomTables.size := by
    rw [Object.size_systemRomTables]
    omega
  simp only [mapRomTable, romEntries_toNat hpages hfirst, setDirectoryEntry_eq L, hindex, htoNat,
    romEntry_eq]
  -- the table is zeroed, filled from below, and linked
  obtain ⟨hwords, hframe1⟩ := zeroFill_spec (L := L) m hpage (Nat.min_le_right _ _)
    (fun index => (systemRomBase + BitVec.ofNat 32 (4096 * (1024 * t + index))) |||
      (pteValid ||| pteReadable))
  have hos1 := (L.fillBytes_frame m hpage (fun _ => 0)).trans
    (L.fillWords_frame (zeroBytes m (L.paddr .systemRomTables (4096 * t)) 4096)
      (show 4096 * t + 4 * min (pages - 1024 * t) 1024 ≤ Object.systemRomTables.size by omega)
      (fun index => (systemRomBase + BitVec.ofNat 32 (4096 * (1024 * t + index))) |||
        (pteValid ||| pteReadable)))
  generalize fillWords _ _ _ _ = m2 at *
  have hslot : 4 * (32 + t) + 4 ≤ Object.pageDirectory.size := by
    rw [Object.size_pageDirectory]
    omega
  generalize hm3 : storeWord m2 (L.paddr .pageDirectory (4 * (32 + t))) _ = m3
  have hos3 : ChangedOnly (L.extents [.pageDirectory]) m2 m3 := by
    rw [← hm3]
    exact L.storeWord_frame m2 hslot _
  constructor
  case linked =>
    rw [← hm3, loadWord_storeWord_self]
    rfl
  case directory =>
    intro d hd hne
    have hother : 4 * d + 4 ≤ Object.pageDirectory.size := by
      rw [Object.size_pageDirectory]
      omega
    rw [← hm3, L.loadWord_storeWord_of_ne _ hslot hother (by omega),
      L.loadWord_frame hos1 (by decide) hother]
  case table =>
    intro i hi
    rw [L.loadWord_frame hos3 (by decide) (by omega), hwords i hi]
    by_cases hin : 1024 * t + i < pages
    · rw [if_pos hin, if_pos (by omega)]
    · rw [if_neg hin, if_neg (by omega)]
  case others =>
    intro t' ht' hne i hi
    have hword : 4096 * t' + 4 * i + 4 ≤ Object.systemRomTables.size := by
      rw [Object.size_systemRomTables]
      omega
    rw [L.loadWord_frame hos3 (by decide) hword, L.loadWord_apart hframe1 hpage hword (by omega)]
  case frame =>
    exact (hos1.mono (L.extents_mono (by decide))).trans (hos3.mono (L.extents_mono (by decide)))

theorem mapRomTables_spec (m : Mem) {pages n : Nat} (hpages : pages ≤ 4096)
    (hn : n ≤ romTableCount pages) :
    RomTables L pages n (mapRomTables L m systemRomBase (BitVec.ofNat 32 pages) n) ∧
      (∀ d < 1024, (d < 32 ∨ 32 + n ≤ d) →
        loadWord (mapRomTables L m systemRomBase (BitVec.ofNat 32 pages) n)
          (L.paddr .pageDirectory (4 * d)) = loadWord m (L.paddr .pageDirectory (4 * d))) ∧
      ChangedOnly (L.extents romObjects) m
        (mapRomTables L m systemRomBase (BitVec.ofNat 32 pages) n) := by
  induction n with
  | zero =>
      exact ⟨⟨fun t ht => absurd ht (Nat.not_lt_zero t), fun t ht => absurd ht (Nat.not_lt_zero t)⟩,
        fun _ _ _ => rfl, ChangedOnly.refl _ m⟩
  | succ n ih =>
      obtain ⟨hprev, hother, hframe⟩ := ih (by omega)
      rw [romTableCount] at hn
      have hpass := mapRomTable_spec (L := L)
        (mapRomTables L m systemRomBase (BitVec.ofNat 32 pages) n) hpages
        (show n < 4 by omega) (by omega)
      rw [mapRomTables]
      refine ⟨⟨fun t ht => ?_, fun t ht i hi => ?_⟩, fun d hd hout => ?_,
        hframe.trans hpass.frame⟩
      · by_cases hlast : t = n
        · rw [hlast]
          exact hpass.linked
        · rw [hpass.directory _ (by omega) (by omega)]
          exact hprev.directory t (by omega)
      · by_cases hlast : t = n
        · rw [hlast]
          exact hpass.table i hi
        · rw [hpass.others t (by omega) hlast i hi]
          exact hprev.table t (by omega) i hi
      · rw [hpass.directory d hd (by omega)]
        exact hother d hd (by omega)

def romPageCount (imageSize : Word) : Nat := (imageSize.toNat + 4095) / 4096

structure RomAccepted (boot_info : BootInfo) : Prop where
  base : boot_info.systemRomBase = systemRomBase
  nonempty : 1 ≤ boot_info.imageSize.toNat
  fits : boot_info.imageSize.toNat ≤ 0x01000000

theorem RomAccepted.pages_le {boot_info : BootInfo} (h : RomAccepted boot_info) :
    romPageCount boot_info.imageSize ≤ 4096 := by
  have hfits := h.fits
  rw [romPageCount]
  omega

/-- An accepted image never needs more tables than there are. -/
theorem mapSystemRom_of_accepted (m : Mem) {boot_info : BootInfo} (h : RomAccepted boot_info) :
    mapSystemRom L m boot_info = (true, mapRomTables L m systemRomBase
      (BitVec.ofNat 32 (romPageCount boot_info.imageSize))
      (romTableCount (romPageCount boot_info.imageSize))) := by
  have hfits := h.fits
  have hnonempty := h.nonempty
  have hle := h.pages_le
  have hpages : (boot_info.imageSize + pageSize - 1) / pageSize =
      BitVec.ofNat 32 (romPageCount boot_info.imageSize) := by
    have hsum : (boot_info.imageSize + pageSize - 1).toNat = boot_info.imageSize.toNat + 4095 := by
      rw [pageSize]
      bv_omega
    apply BitVec.eq_of_toNat_eq
    rw [BitVec.toNat_udiv, hsum, BitVec.toNat_ofNat, Nat.mod_eq_of_lt (by omega), romPageCount,
      show pageSize.toNat = 4096 by decide]
  have htables : ((BitVec.ofNat 32 (romPageCount boot_info.imageSize) + 1023) / 1024).toNat =
      romTableCount (romPageCount boot_info.imageSize) := by
    have hsum : (BitVec.ofNat 32 (romPageCount boot_info.imageSize) + 1023).toNat =
        romPageCount boot_info.imageSize + 1023 := by bv_omega
    rw [BitVec.toNat_udiv, hsum, romTableCount, show (1024 : Word).toNat = 1024 by decide]
  have hroom : ¬ BitVec.ofNat 32 systemRomTableCount <
      (BitVec.ofNat 32 (romPageCount boot_info.imageSize) + 1023) / 1024 := by
    rw [BitVec.lt_def, htables, romTableCount, show (BitVec.ofNat 32 systemRomTableCount).toNat = 4
      by decide]
    omega
  have hzero : boot_info.imageSize ≠ 0#32 := by bv_omega
  have hsize : ¬ systemRomSize < boot_info.imageSize := by
    rw [systemRomSize]
    bv_omega
  simp only [mapSystemRom, h.base, hpages, htables, if_neg hroom]
  simp [hzero, hsize]

theorem mapSystemRom_of_not_accepted (m : Mem) {boot_info : BootInfo}
    (h : ¬ RomAccepted boot_info) : mapSystemRom L m boot_info = (false, m) := by
  rw [mapSystemRom, if_pos]
  by_contra hok
  apply h
  simp only [ne_eq, Bool.or_eq_true, decide_eq_true_eq, not_or, not_not] at hok
  obtain ⟨⟨hbase, hzero⟩, hsize⟩ := hok
  rw [systemRomSize] at hsize
  exact ⟨hbase, by bv_omega, by bv_omega⟩

/-! ## What the kernel's tables translate -/

/-- The page tables of a kernel that has mapped `pages` pages of ROM; the directory
entry of the user window is left open. -/
structure KernelTables (L : Layout) (pages : Nat) (m : Mem) : Prop where
  leaves : BootstrapLeaves m
  rom : RomTables L pages (romTableCount pages) m
  directory : ∀ d < 1024, d ≠ 1 → (d < 32 ∨ 32 + romTableCount pages ≤ d) →
    loadWord m (L.paddr .pageDirectory (4 * d)) = directoryEntry d

def kernelMapping (pages : Nat) (v : Word) : Option Access :=
  if 0x08000000 ≤ v.toNat ∧ v.toNat < 0x08000000 + 4096 * pages then
    some ⟨v, true, false, false, false⟩
  else bootstrapMapping v

theorem bootstrapMapping_rom {v : Word} (hlow : 0x08000000 ≤ v.toNat)
    (hhigh : v.toNat < 0x09000000) : bootstrapMapping v = none := by
  rw [bootstrapMapping, if_neg (by bv_omega), if_neg (by bv_omega), if_neg (by bv_omega)]

theorem kernelMapping_user {pages : Nat} {v : Word} {t : Access}
    (h : kernelMapping pages v = some t) : t.user = false := by
  rw [kernelMapping] at h
  split at h
  · rw [← Option.some.inj h]
  · rw [bootstrapMapping] at h
    split at h
    · rw [← Option.some.inj h]
    · split at h
      · rw [← Option.some.inj h]
      · split at h
        · rw [← Option.some.inj h]
        · cases h

theorem translate_rom {pages tables : Nat} {m : Mem} (h : RomTables L pages tables m)
    (htables : tables ≤ 4) {v : Word} (hv : 32 ≤ v.toNat / 2 ^ 22)
    (hv' : v.toNat / 2 ^ 22 < 32 + tables) :
    translateVa m bootstrapRoot v = if v.toNat < 0x08000000 + 4096 * pages then
      some ⟨v, true, false, false, false⟩ else none := by
  have hb := pageBase_toNat v
  generalize ht : v.toNat / 2 ^ 22 - 32 = t
  have hdir := h.directory t (by omega)
  rw [L.pageDirectory_paddr, ← bootstrapRoot, show 32 + t = v.toNat / 2 ^ 22 by omega] at hdir
  have hpte := h.table t (by omega) (v.toNat / 4096 % 1024) (by omega)
  rw [← L.paddr_add] at hpte
  have htable : PageAligned (L.paddr .systemRomTables (4096 * t)) :=
    L.pageAligned_paddr (by decide) t
  have hpage : 1024 * t + v.toNat / 4096 % 1024 = v.toNat / 4096 - 0x8000 := by omega
  rw [hpage] at hpte
  by_cases hin : v.toNat < 0x08000000 + 4096 * pages
  · have hframe : systemRomBase + BitVec.ofNat 32 (4096 * (v.toNat / 4096 - 0x8000)) =
        pageBase v := by
      rw [systemRomBase]
      bv_omega
    rw [if_pos (by omega), hframe] at hpte
    rw [if_pos hin, translate_of_entry htable (pageAligned_pageBase v) (by decide) hdir hpte,
      access_frame_flags (pageAligned_pageBase v) (by decide), pageBase_add_offset]
    rfl
  · rw [if_neg (by omega)] at hpte
    rw [if_neg hin, translateVa, walk_of_pte_invalid htable hdir hpte]
    rfl

theorem translate_kernel {pages : Nat} {m : Mem} (h : KernelTables L pages m)
    (hpages : pages ≤ 4096) {v : Word} (hv : v.toNat / 2 ^ 22 ≠ 1) :
    translateVa m bootstrapRoot v = kernelMapping pages v := by
  have htables : romTableCount pages ≤ 4 := by
    rw [romTableCount]
    omega
  have hcover : pages ≤ 1024 * romTableCount pages := by
    rw [romTableCount]
    omega
  rw [kernelMapping]
  by_cases hrom : 32 ≤ v.toNat / 2 ^ 22 ∧ v.toNat / 2 ^ 22 < 32 + romTableCount pages
  · rw [translate_rom h.rom htables hrom.1 hrom.2]
    by_cases hin : v.toNat < 0x08000000 + 4096 * pages
    · rw [if_pos hin, if_pos (by omega)]
    · rw [if_neg hin, if_neg (by omega), bootstrapMapping_rom (by omega) (by omega)]
  · have hdir := h.directory (v.toNat / 2 ^ 22) (by omega) hv (by omega)
    rw [L.pageDirectory_paddr, ← bootstrapRoot] at hdir
    rw [translate_of_directoryEntry h.leaves hdir, if_neg (by omega)]

end Minemu.Hello
