import Minemu.Hello.UserPages

/-!
# User memory as flat memory

`write_user_range` writes through the registry, page by page.  Over the addresses of
the registered pages this is a write to flat memory that stops at the first page that
is not registered.
-/

namespace Minemu.Hello

open Minemu.Lib.Memory Minemu.Lib.Page Minemu.Lib.Registry Minemu.Platform

structure PagesDistinct (L : Layout) (m : Mem) : Prop where
  bound : (userPageCount L m).toNat ≤ maxUserImagePages
  aligned : ∀ i < (userPageCount L m).toNat, PageAligned (userPageVaddr L m i)
  distinct : ∀ i < (userPageCount L m).toNat, ∀ j < (userPageCount L m).toNat,
    userPageVaddr L m i = userPageVaddr L m j → i = j

def PageKnown (L : Layout) (m : Mem) (page : Word) : Prop :=
  ∃ i < (userPageCount L m).toNat, userPageVaddr L m i = page

/-- The byte of user address `a` is kept at physical address `x`. -/
def StoredAt (L : Layout) (m : Mem) (a x : Word) : Prop :=
  ∃ i < (userPageCount L m).toNat, userPageVaddr L m i = pageBase a ∧
    x = L.paddr .userImagePages (4096 * i + a.toNat % 4096)

/-- User memory from `vaddr` up to `stop` is replaced by `f`, and nothing else. -/
structure FlatWrite (L : Layout) (m : Mem) (vaddr : Word) (f : Nat → Byte) (stop : Nat)
    (m' : Mem) : Prop where
  byte : ∀ a x, StoredAt L m a x →
    m' x = if vaddr.toNat ≤ a.toNat ∧ a.toNat < stop then f (a.toNat - vaddr.toNat) else m x
  frame : ∀ x, (∀ a : Word, vaddr.toNat ≤ a.toNat → a.toNat < stop → ¬ StoredAt L m a x) →
    m' x = m x
  count : userPageCount L m' = userPageCount L m
  vaddrs : ∀ i < maxUserImagePages, userPageVaddr L m' i = userPageVaddr L m i
  flags : ∀ i < maxUserImagePages, userPageFlag L m' i = userPageFlag L m i

def registeredPages (L : Layout) (m : Mem) : List (Word × Word) :=
  (List.range (userPageCount L m).toNat).map fun i => (userPageVaddr L m i, userPageFlag L m i)

variable {L : Layout} {m : Mem}

theorem registeredPages_length : (registeredPages L m).length = (userPageCount L m).toNat := by
  rw [registeredPages, List.length_map, List.length_range]

namespace PagesDistinct

theorem registered (h : PagesDistinct L m) : Registered L m (registeredPages L m) where
  count := by
    rw [registeredPages_length, BitVec.ofNat_toNat, BitVec.setWidth_eq]
  bound := by
    rw [registeredPages_length]
    exact h.bound
  vaddrs i hi := by simp [registeredPages]
  flags i hi := by simp [registeredPages]
  nodup := by
    rw [registeredPages, List.map_map]
    apply List.Nodup.map_on _ List.nodup_range
    intro i hi j hj heq
    exact h.distinct i (List.mem_range.mp hi) j (List.mem_range.mp hj) heq

/-- Looking a page up in the registry. -/
theorem indexOf_eq_some (h : PagesDistinct L m) {page : Word} {i : Nat} :
    indexOf (registeredPages L m) page = some i ↔
      i < (userPageCount L m).toNat ∧ userPageVaddr L m i = page := by
  rw [indexOf_eq_some_iff h.registered.nodup, registeredPages, List.getElem?_map]
  by_cases hi : i < (userPageCount L m).toNat
  · rw [List.getElem?_range hi]
    simp [hi]
  · rw [List.getElem?_eq_none (by rw [List.length_range]; omega)]
    simp [hi]

theorem pageKnown_iff (h : PagesDistinct L m) {page : Word} :
    PageKnown L m page ↔ indexOf (registeredPages L m) page ≠ none := by
  rw [Option.ne_none_iff_exists']
  exact exists_congr fun i => h.indexOf_eq_some.symm

theorem userByte_of_storedAt (h : PagesDistinct L m) {a x : Word} (hx : StoredAt L m a x)
    (m' : Mem) : userByte L m' (registeredPages L m) a = m' x := by
  obtain ⟨i, hi, hpage, rfl⟩ := hx
  rw [userByte, h.indexOf_eq_some.mpr ⟨hi, hpage⟩]

theorem exists_storedAt (h : PagesDistinct L m) {i k : Nat} (hi : i < (userPageCount L m).toNat)
    (hk : k < 4096) : StoredAt L m (userPageVaddr L m i + BitVec.ofNat 32 k)
      (L.paddr .userImagePages (4096 * i + k)) := by
  have halign := pageAligned_iff.mp (h.aligned i hi)
  have hoff : (userPageVaddr L m i + BitVec.ofNat 32 k).toNat =
      (userPageVaddr L m i).toNat + k := by bv_omega
  refine ⟨i, hi, ?_, ?_⟩
  · rw [← pageBase_eq_self (h.aligned i hi), pageBase_eq_iff, pageBase_eq_self (h.aligned i hi)]
    omega
  · congr 2
    omega

end PagesDistinct

theorem sub_toNat_lt_iff {a vaddr : Word} {n : Nat} (h : vaddr.toNat + n ≤ 2 ^ 32) :
    (a - vaddr).toNat < n ↔ vaddr.toNat ≤ a.toNat ∧ a.toNat < vaddr.toNat + n :=
  mem_region_of_le h

theorem Written.flat (h : PagesDistinct L m) {vaddr : Word} {f : Nat → Byte} {n : Nat} {m' : Mem}
    (hw : Written L m (registeredPages L m) vaddr f n m') (hn : vaddr.toNat + n ≤ 2 ^ 32) :
    FlatWrite L m vaddr f (vaddr.toNat + n) m' := by
  have hreg := h.registered.frame hw.frame (by decide)
  have hlen := registeredPages_length (L := L) (m := m)
  have hbyte : ∀ a x, StoredAt L m a x → m' x =
      if vaddr.toNat ≤ a.toNat ∧ a.toNat < vaddr.toNat + n then f (a.toNat - vaddr.toNat)
      else m x := by
    intro a x hx
    rw [← h.userByte_of_storedAt hx m', hw.userByte, h.userByte_of_storedAt hx m]
    by_cases hin : (a - vaddr).toNat < n
    · have hbounds := (sub_toNat_lt_iff hn).mp hin
      rw [if_pos hin, if_pos hbounds, BitVec.toNat_sub_of_le (BitVec.le_def.mpr hbounds.1)]
    · rw [if_neg hin, if_neg (mt (sub_toNat_lt_iff hn).mpr hin)]
  refine ⟨hbyte, fun x hx => ?_, ?_, fun i hi => ?_, fun i hi => ?_⟩
  · by_cases hpages : x ∈ L.extent .userImagePages
    · obtain ⟨k, hk, rfl⟩ := L.exists_paddr hpages
      rw [Object.size_userImagePages] at hk
      have hsplit : L.paddr .userImagePages k =
          L.paddr .userImagePages (4096 * (k / 4096) + k % 4096) := by
        congr 1
        omega
      rw [hsplit] at hx ⊢
      by_cases huse : k / 4096 < (userPageCount L m).toNat
      · have hstored := h.exists_storedAt huse (Nat.mod_lt k (by omega : 0 < 4096))
        rw [hbyte _ _ hstored, if_neg (fun hin => hx _ hin.1 hin.2 hstored)]
      · exact hw.spare _ _ (by omega) (by omega) (Nat.mod_lt _ (by omega))
    · apply hw.frame
      rintro ⟨o, ho, hmem⟩
      rw [List.mem_singleton.mp ho] at hmem
      exact hpages hmem
  · exact L.loadWord_frame hw.frame (by decide) (by decide)
  · rw [maxUserImagePages] at hi
    exact L.loadWord_frame hw.frame (by decide) (by simp; omega)
  · rw [maxUserImagePages] at hi
    exact L.loadWord_frame hw.frame (by decide) (by simp; omega)

/-- The paged store behaves as flat memory: the write runs to its end exactly when every
page of the range is registered, and otherwise up to the first page that is not. -/
theorem writeUserRange_flat (L : Layout) (image : Image) (m : Mem) (h : PagesDistinct L m)
    (vaddr length : Word) (source : Option Word)
    (hend : vaddr.toNat + length.toNat ≤ 2 ^ 32)
    (hsource : ∀ s, source = some s → s.toNat + length.toNat ≤ image.size.toNat) :
    ∃ b m' stop, writeUserRange L image m vaddr source length = some (b, m') ∧
      FlatWrite L m vaddr (sourceByte image source) stop m' ∧
      (b = true ↔ ∀ a : Word, vaddr.toNat ≤ a.toNat → a.toNat < vaddr.toNat + length.toNat →
        PageKnown L m (pageBase a)) ∧
      (b = true → stop = vaddr.toNat + length.toNat) ∧
      (b = false → vaddr.toNat ≤ stop ∧ stop < vaddr.toNat + length.toNat ∧
        ¬ PageKnown L m (pageBase (BitVec.ofNat 32 stop)) ∧
        ∀ a : Word, vaddr.toNat ≤ a.toNat → a.toNat < stop → PageKnown L m (pageBase a)) := by
  obtain ⟨b, m', n, hrun, hn, hknown, hdone, hstop, hwritten⟩ :=
    h.registered.writeUserRange_spec image vaddr length source hsource
  have hbefore : ∀ a : Word, vaddr.toNat ≤ a.toNat → a.toNat < vaddr.toNat + n →
      PageKnown L m (pageBase a) := by
    intro a hlow hhigh
    have hpage := hknown (a.toNat - vaddr.toNat) (by omega)
    rw [show vaddr + BitVec.ofNat 32 (a.toNat - vaddr.toNat) = a by bv_omega] at hpage
    exact h.pageKnown_iff.mpr hpage
  have hunknown : b = false → ¬ PageKnown L m (pageBase (BitVec.ofNat 32 (vaddr.toNat + n))) := by
    intro hb
    rw [h.pageKnown_iff, not_not, BitVec.ofNat_add, BitVec.ofNat_toNat, BitVec.setWidth_eq]
    exact hstop hb
  have hlt : b = false → n < length.toNat := by
    intro hb
    have hne : n ≠ length.toNat := fun heq => by simp [hdone.mpr heq] at hb
    omega
  refine ⟨b, m', vaddr.toNat + n, hrun, hwritten.flat h (by omega), ⟨fun hb => ?_, fun hall => ?_⟩,
    fun hb => by rw [hdone.mp hb], fun hb => ⟨by omega, by have := hlt hb; omega, hunknown hb,
      hbefore⟩⟩
  · rw [hdone.mp hb] at hbefore
    exact hbefore
  · by_contra hb
    have hb' : b = false := by simpa using hb
    have hroom := hlt hb'
    apply hunknown hb'
    apply hall
    · rw [BitVec.toNat_ofNat, Nat.mod_eq_of_lt (by omega)]
      omega
    · rw [BitVec.toNat_ofNat, Nat.mod_eq_of_lt (by omega)]
      omega

def twoPages : Mem :=
  let m := storeWord (fun _ => 0xa5) (sampleLayout.paddr .userPageCount 0) 2
  let m := storeWord m (sampleLayout.paddr .userPageVaddrs 0) 0x00401000
  storeWord m (sampleLayout.paddr .userPageVaddrs 4) 0x00400000

theorem twoPages_distinct : PagesDistinct sampleLayout twoPages := by
  have hcount : (userPageCount sampleLayout twoPages).toNat = 2 := by decide +kernel
  refine ⟨?_, ?_, ?_⟩
  · rw [hcount]
    decide
  · rw [hcount]
    decide +kernel
  · rw [hcount]
    decide +kernel

/-- Four bytes across the border of the two pages. -/
theorem writeUserRange_flat_twoPages :
    ∃ m', writeUserRange sampleLayout ⟨fun a => a.setWidth 8, 0x10⟩ twoPages 0x00400ffe
        (some 8) 4 = some (true, m') ∧
      m' (sampleLayout.paddr .userImagePages 0x1fff) = 9 ∧
      m' (sampleLayout.paddr .userImagePages 0x0001) = 11 ∧
      m' (sampleLayout.paddr .userImagePages 0x0002) = 0xa5 := by
  obtain ⟨b, m', stop, hrun, hflat, hdone, hstop, hfail⟩ :=
    writeUserRange_flat sampleLayout ⟨fun a => a.setWidth 8, 0x10⟩ twoPages twoPages_distinct
      0x00400ffe 4 (some 8) (by decide) (by
        rintro s ⟨rfl⟩
        decide)
  have hknown : ∀ p : Word, p = 0x00400000 ∨ p = 0x00401000 →
      PageKnown sampleLayout twoPages p := by
    rintro p (rfl | rfl)
    · exact ⟨1, by decide +kernel, by decide +kernel⟩
    · exact ⟨0, by decide +kernel, by decide +kernel⟩
  have hb : b = true := by
    refine hdone.mpr fun a hlow hhigh => hknown _ ?_
    have hbase := pageBase_toNat a
    rw [show (0x00400ffe : Word).toNat = 0x00400ffe by decide] at hlow hhigh
    rw [show (4 : Word).toNat = 4 by decide] at hhigh
    by_cases hpage : a.toNat < 0x00401000
    · exact Or.inl (by bv_omega)
    · exact Or.inr (by bv_omega)
  subst hb
  rw [hstop rfl] at hflat
  refine ⟨m', hrun, ?_, ?_, ?_⟩
  · rw [hflat.byte 0x00400fff (sampleLayout.paddr .userImagePages 0x1fff)
      ⟨1, by decide +kernel, by decide +kernel, by decide⟩, if_pos (by decide)]
    decide
  · rw [hflat.byte 0x00401001 (sampleLayout.paddr .userImagePages 0x0001)
      ⟨0, by decide +kernel, by decide +kernel, by decide⟩, if_pos (by decide)]
    decide
  · rw [hflat.byte 0x00401002 (sampleLayout.paddr .userImagePages 0x0002)
      ⟨0, by decide +kernel, by decide +kernel, by decide⟩, if_neg (by decide)]
    decide +kernel

end Minemu.Hello
