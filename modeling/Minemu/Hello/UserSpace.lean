import Minemu.Hello.Acceptance

/-!
# The installed user table

After an accepted load the user table has an entry for every registered page and one
for the stack, and is linked into the directory.  Through it user memory reads as the
segments wrote it.
-/

namespace Minemu.Hello

open Minemu.Lib.Memory Minemu.Lib.Page Minemu.Lib.Registry Minemu.Platform
open Minemu.Startup.BootstrapWalk

variable {L : Layout} {m m' : Mem} {ps : List (Word × Word)}

def imageEntry (L : Layout) (i : Nat) (flags : Word) : Word :=
  L.paddr .userImagePages (4096 * i) ||| (pteValid ||| pteUser ||| flags)

def stackEntry (L : Layout) : Word :=
  L.paddr .userStack 0 ||| (pteValid ||| pteUser ||| pteReadable ||| pteWritable)

def tableIndex (page : Word) : Nat := page.toNat / 4096 % 1024

/-- The table entries after `n` pages are installed over an empty table. -/
structure Installed (L : Layout) (ps : List (Word × Word)) (n : Nat) (m : Mem) : Prop where
  registered : Registered L m ps
  entry : ∀ i, (hi : i < ps.length) → i < n →
    loadWord m (L.paddr .userPageTable (4 * tableIndex (ps.get ⟨i, hi⟩).1)) =
      imageEntry L i (ps.get ⟨i, hi⟩).2
  other : ∀ t < 1024, (∀ i, (hi : i < ps.length) → i < n → tableIndex (ps.get ⟨i, hi⟩).1 ≠ t) →
    loadWord m (L.paddr .userPageTable (4 * t)) = 0

theorem installPages_spec (hreg : Registered L m ps)
    (hempty : ∀ t < 1024, loadWord m (L.paddr .userPageTable (4 * t)) = 0)
    (hinj : ∀ i j, (hi : i < ps.length) → (hj : j < ps.length) →
      tableIndex (ps.get ⟨i, hi⟩).1 = tableIndex (ps.get ⟨j, hj⟩).1 → i = j)
    {n : Nat} (hn : n ≤ ps.length) :
    Installed L ps n (installPages L m n) ∧
      ChangedOnly (L.extents [.userPageTable]) m (installPages L m n) := by
  induction n with
  | zero =>
      refine ⟨⟨hreg, fun i _ hi => absurd hi (Nat.not_lt_zero i), fun t ht _ => hempty t ht⟩,
        ChangedOnly.refl _ m⟩
  | succ n ih =>
      obtain ⟨hprev, hframe⟩ := ih (by omega)
      have hvaddr := hprev.registered.vaddrs n (by omega)
      have hflag := hprev.registered.flags n (by omega)
      have hpass : installPages L m (n + 1) = storeWord (installPages L m n)
          (L.paddr .userPageTable (4 * tableIndex (ps.get ⟨n, by omega⟩).1))
          (imageEntry L n (ps.get ⟨n, by omega⟩).2) := by
        rw [installPages, hvaddr, hflag, tableIndex_toNat, imageEntry, tableIndex,
          ← BitVec.or_assoc, ← BitVec.or_assoc]
        rfl
      have hlt : ∀ p, tableIndex p < 1024 := fun p => Nat.mod_lt _ (by omega)
      have hlast := hlt (ps.get ⟨n, by omega⟩).1
      have hwrite : ChangedOnly (L.extents [.userPageTable]) (installPages L m n)
          (installPages L m (n + 1)) := by
        rw [hpass]
        exact L.storeWord_frame _ (by rw [Object.size_userPageTable]; omega) _
      refine ⟨⟨hprev.registered.frame hwrite (by decide), fun i hi hin => ?_, fun t ht hnone => ?_⟩,
        hframe.trans hwrite⟩
      · rw [hpass]
        by_cases hlastidx : i = n
        · subst hlastidx
          rw [loadWord_storeWord_self]
        · have hne : tableIndex (ps.get ⟨n, by omega⟩).1 ≠ tableIndex (ps.get ⟨i, hi⟩).1 :=
            fun heq => hlastidx (hinj _ _ _ _ heq).symm
          have hother := hlt (ps.get ⟨i, hi⟩).1
          rw [L.loadWord_storeWord_of_ne _ (by rw [Object.size_userPageTable]; omega)
            (by rw [Object.size_userPageTable]; omega) (by omega)]
          exact hprev.entry i hi (by omega)
      · have hne := hnone n (by omega) (by omega)
        rw [hpass, L.loadWord_storeWord_of_ne _ (by rw [Object.size_userPageTable]; omega)
          (by rw [Object.size_userPageTable]; omega) (by omega)]
        exact hprev.other t ht (fun i hi hin => hnone i hi (by omega))

/-! ## The pages of a module -/

theorem entry_page {image : Image} {segments : List ModuleSegment}
    (hvalid : ∀ s ∈ segments, SegmentValid image s) {e : Word × Word}
    (he : e ∈ moduleEntries segments) :
    0x00400000 ≤ e.1.toNat ∧ e.1.toNat < 0x007ff000 ∧ e.1.toNat % 4096 = 0 := by
  obtain ⟨p, f⟩ := e
  obtain ⟨s, hs, ⟨v, hv, rfl⟩, -⟩ := (mem_moduleEntries hvalid).mp he
  have hlow := (hvalid s hs).low
  have hhigh := (hvalid s hs).high
  have hbase := pageBase_toNat v
  obtain ⟨hv, hv'⟩ := hv
  simp only
  omega

theorem tableIndex_eq {p : Word} (hlow : 0x00400000 ≤ p.toNat) (hhigh : p.toNat < 0x00800000) :
    tableIndex p = p.toNat / 4096 - 1024 := by
  rw [tableIndex]
  omega

section

variable {image : Image} {segments : List ModuleSegment}
  (hvalid : ∀ s ∈ segments, SegmentValid image s)
  (hent : Entered maxUserImagePages (moduleEntries segments) ps)
include hvalid hent

theorem entered_page {i : Nat} (hi : i < ps.length) :
    0x00400000 ≤ (ps.get ⟨i, hi⟩).1.toNat ∧ (ps.get ⟨i, hi⟩).1.toNat < 0x007ff000 ∧
      (ps.get ⟨i, hi⟩).1.toNat % 4096 = 0 :=
  entry_page hvalid ((hent.mem _).mp (List.get_mem ps ⟨i, hi⟩))

/-- No registered page has the entry of the stack page. -/
theorem tableIndex_lt {i : Nat} (hi : i < ps.length) : tableIndex (ps.get ⟨i, hi⟩).1 < 1023 := by
  obtain ⟨hlow, hhigh, -⟩ := entered_page hvalid hent hi
  rw [tableIndex_eq hlow (by omega)]
  omega

/-- Two registered pages have different entries. -/
theorem tableIndex_inj {i j : Nat} (hi : i < ps.length) (hj : j < ps.length)
    (heq : tableIndex (ps.get ⟨i, hi⟩).1 = tableIndex (ps.get ⟨j, hj⟩).1) : i = j := by
  have hpi := entered_page hvalid hent hi
  have hpj := entered_page hvalid hent hj
  rw [tableIndex_eq hpi.1 (by omega), tableIndex_eq hpj.1 (by omega)] at heq
  have hkey : (ps.get ⟨i, hi⟩).1 = (ps.get ⟨j, hj⟩).1 := by
    apply BitVec.eq_of_toNat_eq
    omega
  have hsame := eq_of_key_eq hent.nodup (List.get_mem ps ⟨i, hi⟩) (List.get_mem ps ⟨j, hj⟩) hkey
  have hidx := (List.Nodup.get_inj_iff (List.Nodup.of_map _ hent.nodup)).mp hsame
  exact congrArg Fin.val hidx

end

def entryFlags (segment_flags : Word) : Word :=
  pteValid ||| pteUser ||| pteFlagsFromSegment segment_flags

theorem pageBase_entryFlags (f : Word) : pageBase (entryFlags f) = 0#32 := by
  simp only [entryFlags, pteFlagsFromSegment]
  split <;> split <;> split <;> decide

theorem entryFlags_bits (f : Word) :
    entryFlags f &&& pteValid ≠ 0 ∧
      (entryFlags f &&& pteReadable != 0) = (f &&& segmentReadable != 0) ∧
      (entryFlags f &&& pteWritable != 0) = (f &&& segmentWritable != 0) ∧
      (entryFlags f &&& pteExecutable != 0) = (f &&& segmentExecutable != 0) ∧
      (entryFlags f &&& pteUser != 0) = true := by
  have hbne : ∀ x : Word, (x != 0) = decide (x ≠ 0) := fun x => by simp [bne, beq_eq_decide]
  simp only [entryFlags, pteFlagsFromSegment, hbne]
  by_cases hr : f &&& segmentReadable = 0 <;> by_cases hw : f &&& segmentWritable = 0 <;>
    by_cases hx : f &&& segmentExecutable = 0 <;> simp only [ne_eq, hr, hw, hx] <;> decide

/-! ## The user window -/

structure UserSpace (L : Layout) (image : Image) (segments : List ModuleSegment)
    (ps : List (Word × Word)) (m : Mem) : Prop where
  valid : ∀ s ∈ segments, SegmentValid image s
  entered : Entered maxUserImagePages (moduleEntries segments) ps
  registered : Registered L m ps
  bytes : ∀ v, userByte L m ps v = moduleByte image segments v
  stackBytes : ∀ k < 4096, m (L.paddr .userStack k) = 0
  directory : loadWord m (L.paddr .pageDirectory 4) = L.paddr .userPageTable 0 ||| pdeValid
  entry : ∀ i, (hi : i < ps.length) →
    loadWord m (L.paddr .userPageTable (4 * tableIndex (ps.get ⟨i, hi⟩).1)) =
      imageEntry L i (ps.get ⟨i, hi⟩).2
  stack : loadWord m (L.paddr .userPageTable (4 * 1023)) = stackEntry L
  other : ∀ t < 1023, (∀ i, (hi : i < ps.length) → tableIndex (ps.get ⟨i, hi⟩).1 ≠ t) →
    loadWord m (L.paddr .userPageTable (4 * t)) = 0

theorem userByte_frame {os : List Object} (h : ChangedOnly (L.extents os) m m')
    (hos : .userImagePages ∉ os) (hlen : ps.length ≤ 16) (v : Word) :
    userByte L m' ps v = userByte L m ps v := by
  simp only [userByte]
  cases hidx : indexOf ps (pageBase v) with
  | none => rfl
  | some i =>
      have hi := indexOf_lt hidx
      exact L.byte_frame h hos (by simp; omega)

def installObjects : List Object := [.userPageTable, .pageDirectory]

/-- The stores after the pages: the entry of the stack page and that of the table. -/
def linkUserTable (L : Layout) (m : Mem) : Mem :=
  storeWord (storeWord m (L.paddr .userPageTable (4 * 1023)) (stackEntry L))
    (L.paddr .pageDirectory 4) (L.paddr .userPageTable 0 ||| pdeValid)

theorem installUserSpace_eq (h : Registered L m ps) :
    installUserSpace L m = linkUserTable L (installPages L m ps.length) := by
  have hstack1023 : ((userStackBottom >>> 12) &&& 1023).toNat = 1023 := by decide
  have hindex1 : (userImageBase >>> 22).toNat = 1 := by decide
  simp only [installUserSpace, h.count_toNat, setDirectoryEntry_eq L, hstack1023, hindex1,
    linkUserTable, stackEntry, L.paddr_zero, ← BitVec.or_assoc]

section

variable (L m)

theorem linkUserTable_frame : ChangedOnly (L.extents installObjects) m (linkUserTable L m) := by
  have hstack := L.storeWord_frame m (o := .userPageTable) (k := 4 * 1023) (by decide) (stackEntry L)
  exact (hstack.mono (L.extents_mono (by decide))).trans
    ((L.storeWord_frame _ (by decide) _).mono (L.extents_mono (by decide)))

theorem linkUserTable_linked :
    loadWord (linkUserTable L m) (L.paddr .pageDirectory 4) =
      L.paddr .userPageTable 0 ||| pdeValid :=
  loadWord_storeWord_self _ _ _

theorem linkUserTable_stack :
    loadWord (linkUserTable L m) (L.paddr .userPageTable (4 * 1023)) = stackEntry L := by
  rw [linkUserTable, L.loadWord_frame (L.storeWord_frame _ (by decide) _) (by decide) (by decide),
    loadWord_storeWord_self]

theorem linkUserTable_page {t : Nat} (ht : t < 1023) :
    loadWord (linkUserTable L m) (L.paddr .userPageTable (4 * t)) =
      loadWord m (L.paddr .userPageTable (4 * t)) := by
  rw [linkUserTable, L.loadWord_frame (L.storeWord_frame _ (by decide) _) (by decide)
      (by rw [Object.size_userPageTable]; omega),
    L.loadWord_storeWord_of_ne _ (by decide) (by rw [Object.size_userPageTable]; omega) (by omega)]

theorem linkUserTable_directory {d : Nat} (hd : d < 1024) (hne : d ≠ 1) :
    loadWord (linkUserTable L m) (L.paddr .pageDirectory (4 * d)) =
      loadWord m (L.paddr .pageDirectory (4 * d)) := by
  rw [linkUserTable,
    L.loadWord_storeWord_of_ne _ (by decide) (by rw [Object.size_pageDirectory]; omega) (by omega),
    L.loadWord_frame (L.storeWord_frame _ (by decide) _) (by decide)
      (by rw [Object.size_pageDirectory]; omega)]

end

theorem Filled.emptyTable {image : Image} {record : ModuleRecord} {m1 : Mem}
    (h : Filled L image record m ps m1) {t : Nat} (ht : t < 1024) :
    loadWord m1 (L.paddr .userPageTable (4 * t)) = 0 := by
  apply loadWord_of_zero
  intro k hk
  rw [L.paddr_add]
  exact h.table _ (by omega)

theorem Filled.install {image : Image} {record : ModuleRecord} {m1 : Mem}
    (h : Filled L image record m ps m1) :
    UserSpace L image (moduleSegments image record) ps (installUserSpace L m1) ∧
      ChangedOnly (L.extents installObjects) m1 (installUserSpace L m1) ∧
      (∀ d < 1024, d ≠ 1 → loadWord (installUserSpace L m1) (L.paddr .pageDirectory (4 * d)) =
        loadWord m1 (L.paddr .pageDirectory (4 * d))) := by
  have hloaded := h.loaded
  have hent := hloaded.isEntered
  obtain ⟨hinst, hpages⟩ := installPages_spec hloaded.registered (fun t ht => h.emptyTable ht)
    (fun i j hi hj heq => tableIndex_inj hloaded.valid hent hi hj heq) (Nat.le_refl _)
  rw [installUserSpace_eq hloaded.registered]
  generalize installPages L m1 ps.length = m2 at *
  have hframe : ChangedOnly (L.extents installObjects) m1 (linkUserTable L m2) :=
    (hpages.mono (L.extents_mono (by decide))).trans (linkUserTable_frame L m2)
  refine ⟨?_, hframe, fun d hd hne => ?_⟩
  · constructor
    case valid => exact hloaded.valid
    case entered => exact hent
    case registered => exact hloaded.registered.frame hframe (by decide)
    case bytes =>
      intro v
      rw [userByte_frame hframe (by decide) hloaded.registered.length_le, hloaded.bytes]
    case stackBytes =>
      intro k hk
      rw [L.byte_frame hframe (by decide) (by simpa using hk)]
      exact h.stack k hk
    case directory => exact linkUserTable_linked L m2
    case entry =>
      intro i hi
      rw [linkUserTable_page L m2 (tableIndex_lt hloaded.valid hent hi)]
      exact hinst.entry i hi hi
    case stack => exact linkUserTable_stack L m2
    case other =>
      intro t ht hnone
      rw [linkUserTable_page L m2 ht]
      exact hinst.other t (by omega) (fun i hi _ => hnone i hi)
  · rw [linkUserTable_directory L m2 hd hne]
    exact L.loadWord_frame hpages (by decide) (by rw [Object.size_pageDirectory]; omega)

/-! ## Translation in the user window -/

theorem paddr_page_offset (L : Layout) (o : Object) (i : Nat) (v : Word) :
    L.paddr o (4096 * i) + (v &&& 0xfff) = L.paddr o (4096 * i + v.toNat % 4096) := by
  have hoff : v &&& 0xfff = BitVec.ofNat 32 (v.toNat % 4096) := by
    apply BitVec.eq_of_toNat_eq
    rw [and_offset_toNat, BitVec.toNat_ofNat]
    omega
  rw [hoff, L.paddr_add]

/-- What a segment permits at an address of one of its pages. -/
def segmentAccess (s : ModuleSegment) (paddr : Word) : Access where
  paddr := paddr
  readable := s.flags &&& segmentReadable != 0
  writable := s.flags &&& segmentWritable != 0
  executable := s.flags &&& segmentExecutable != 0
  user := true

namespace UserSpace

variable {image : Image} {segments : List ModuleSegment}

theorem directory_of_window (h : UserSpace L image segments ps m) {v : Word}
    (hv : v.toNat / 2 ^ 22 = 1) :
    loadWord m (bootstrapRoot + BitVec.ofNat 32 (4 * (v.toNat / 2 ^ 22))) =
      L.paddr .userPageTable 0 ||| pdeValid := by
  have hdir := h.directory
  rw [L.pageDirectory_paddr] at hdir
  rw [hv]
  exact hdir

/-- A page that a segment overlaps translates to its frame, with the segment's
permissions. -/
theorem translate_page (h : UserSpace L image segments ps m) {s : ModuleSegment}
    (hs : s ∈ segments) {x v : Word} (hx : Covers s x) (hpage : pageBase x = pageBase v) :
    ∃ i, indexOf ps (pageBase v) = some i ∧
      translateVa m bootstrapRoot v = some (segmentAccess s
        (L.paddr .userImagePages (4096 * i + v.toNat % 4096))) := by
  have hmem : (pageBase v, pteFlagsFromSegment s.flags) ∈ moduleEntries segments :=
    (mem_moduleEntries h.valid).mpr ⟨s, hs, ⟨x, hx, hpage⟩, rfl⟩
  obtain ⟨hlow, hhigh, -⟩ := entry_page h.valid hmem
  simp only [pageBase_toNat] at hlow hhigh
  obtain ⟨i, hi, hidx, hget⟩ := exists_indexOf_of_mem h.entered.nodup ((h.entered.mem _).mpr hmem)
  have hentry := h.entry i hi
  rw [hget, tableIndex, pageBase_toNat, show v.toNat / 4096 * 4096 / 4096 = v.toNat / 4096 by omega,
    imageEntry, L.paddr_eq_add .userPageTable] at hentry
  have hdir := h.directory_of_window (show v.toNat / 2 ^ 22 = 1 by omega)
  have htable : PageAligned (L.paddr .userPageTable 0) := L.pageAligned_base (by decide)
  have hframe : PageAligned (L.paddr .userImagePages (4096 * i)) :=
    L.pageAligned_paddr (by decide) i
  obtain ⟨hvalid, hr, hw, hx', hu⟩ := entryFlags_bits s.flags
  refine ⟨i, hidx, ?_⟩
  rw [translate_of_entry htable hframe hvalid hdir hentry,
    access_frame_flags hframe (pageBase_entryFlags _), hr, hw, hx', hu, paddr_page_offset]
  rfl

theorem translate_stack (h : UserSpace L image segments ps m) {v : Word}
    (hv : pageBase v = userStackBottom) :
    translateVa m bootstrapRoot v =
      some ⟨L.paddr .userStack (v.toNat % 4096), true, true, false, true⟩ := by
  have hbase := pageBase_toNat v
  rw [hv, show userStackBottom.toNat = 0x007ff000 by decide] at hbase
  have hdir := h.directory_of_window (show v.toNat / 2 ^ 22 = 1 by omega)
  have htable : PageAligned (L.paddr .userPageTable 0) := L.pageAligned_base (by decide)
  have hframe : PageAligned (L.paddr .userStack 0) := L.pageAligned_base (by decide)
  have hentry := h.stack
  rw [show 1023 = v.toNat / 4096 % 1024 by omega, L.paddr_eq_add .userPageTable,
    stackEntry] at hentry
  rw [translate_of_entry htable hframe (by decide) hdir hentry,
    access_frame_flags hframe (by decide), ← Nat.mul_zero 4096, paddr_page_offset,
    Nat.mul_zero, Nat.zero_add]
  rfl

theorem translate_none (h : UserSpace L image segments ps m) {v : Word}
    (hv : v.toNat / 2 ^ 22 = 1) (hstack : pageBase v ≠ userStackBottom)
    (hpages : pageBase v ∉ modulePages segments) : translateVa m bootstrapRoot v = none := by
  have hbase := pageBase_toNat v
  have hdir := h.directory_of_window hv
  have htable : PageAligned (L.paddr .userPageTable 0) := L.pageAligned_base (by decide)
  have hne : v.toNat / 4096 ≠ 0x7ff := by
    intro heq
    apply hstack
    apply BitVec.eq_of_toNat_eq
    rw [hbase, heq]
    rfl
  have hentry := h.other (v.toNat / 4096 % 1024) (by omega) (fun i hi heq => by
    have hmem := (h.entered.mem _).mp (List.get_mem ps ⟨i, hi⟩)
    obtain ⟨hlow, hhigh, halign⟩ := entry_page h.valid hmem
    rw [tableIndex_eq hlow (by omega)] at heq
    obtain ⟨s, hs, hcov, -⟩ := (mem_moduleEntries h.valid).mp hmem
    apply hpages
    refine ⟨s, hs, ?_⟩
    have hkey : pageBase v = (ps.get ⟨i, hi⟩).1 := by
      apply BitVec.eq_of_toNat_eq
      omega
    rw [hkey]
    exact hcov)
  rw [L.paddr_eq_add .userPageTable] at hentry
  rw [translateVa, walk_of_pte_invalid htable hdir hentry]
  rfl

end UserSpace

end Minemu.Hello
