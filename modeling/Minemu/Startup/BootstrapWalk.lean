import Minemu.Startup.BootstrapMap

/-!
# What the bootstrap page tables translate

`BootstrapTables` lists words; here the walk over them is computed for every
virtual address.
-/

namespace Minemu.Startup.BootstrapWalk

open Minemu.Lib.Memory Minemu.Lib.Page Minemu.Lib.Arm Minemu.Platform
open Minemu.Startup.BootstrapMap

def bootstrapRoot : Word := 0x40010000

/-- The intended map: RAM twice, then the MMIO window, all for the supervisor. -/
def bootstrapMapping (v : Word) : Option Access :=
  if 0x40000000 ≤ v ∧ v < 0x40400000 then some ⟨v, true, true, true, false⟩
  else if 0xc0000000 ≤ v ∧ v < 0xc4000000 then
    some ⟨v - 0x80000000, true, true, true, false⟩
  else if 0x10000000 ≤ v ∧ v < 0x10010000 then some ⟨v, true, true, false, false⟩
  else none

theorem mul_page (j : Nat) : BitVec.ofNat 32 j * 4096 = BitVec.ofNat 32 (j * 4096) := by
  rw [BitVec.ofNat_mul]
  rfl

theorem pageEntry_eq {v : Word} {j : Nat} (base shift flags : Word)
    (hflags : pageBase flags = 0#32)
    (hframe : base + BitVec.ofNat 32 (j * 4096) = pageBase v - shift)
    (hshift : PageAligned (pageBase v - shift)) :
    base + flags + BitVec.ofNat 32 j * 4096 = (pageBase v - shift) ||| flags := by
  rw [mul_page, ← add_flags_eq_or hshift hflags, ← hframe]
  bv_omega

theorem translate_identity {m : Mem} (h : BootstrapLeaves m) {v : Word}
    (hdir : loadWord m (bootstrapRoot + BitVec.ofNat 32 (4 * (v.toNat / 2 ^ 22))) =
      directoryEntry (v.toNat / 2 ^ 22))
    (hv : v.toNat / 2 ^ 22 = 256) :
    translateVa m bootstrapRoot v = some ⟨v, true, true, true, false⟩ := by
  have hb := pageBase_toNat v
  rw [hv] at hdir
  have hpte := h.identity (v.toNat / 4096 % 1024) (by omega)
  rw [show (0x4000001b : Word) = 0x40000000 + 0x1b by decide,
    pageEntry_eq (v := v) 0x40000000 0#32 0x1b (by decide) (by bv_omega)
      (by rw [pageAligned_iff]; bv_omega)] at hpte
  rw [BitVec.sub_zero] at hpte
  rw [translate_of_entry (by decide : PageAligned 0x40011000) (pageAligned_pageBase v)
    (by decide) (by rw [hv]; exact hdir) hpte,
    access_frame_flags (pageAligned_pageBase v) (by decide), pageBase_add_offset]
  rfl

theorem translate_direct {m : Mem} (h : BootstrapLeaves m) {v : Word}
    (hdir : loadWord m (bootstrapRoot + BitVec.ofNat 32 (4 * (v.toNat / 2 ^ 22))) =
      directoryEntry (v.toNat / 2 ^ 22))
    (hv : 768 ≤ v.toNat / 2 ^ 22) (hv' : v.toNat / 2 ^ 22 < 784) :
    translateVa m bootstrapRoot v = some ⟨v - 0x80000000, true, true, true, false⟩ := by
  have hb := pageBase_toNat v
  rw [directoryEntry, if_neg (by omega), if_neg (by omega), if_pos ⟨hv, hv'⟩] at hdir
  have hpte := h.direct (1024 * (v.toNat / 2 ^ 22 - 768) + v.toNat / 4096 % 1024) (by omega)
  have hframe : PageAligned (pageBase v - 0x80000000) := by
    rw [pageAligned_iff]
    bv_omega
  rw [show (0x4000001b : Word) = 0x40000000 + 0x1b by decide,
    pageEntry_eq (v := v) 0x40000000 0x80000000 0x1b (by decide) (by bv_omega) hframe] at hpte
  rw [show (0x40012000 + BitVec.ofNat 32
      (4 * (1024 * (v.toNat / 2 ^ 22 - 768) + v.toNat / 4096 % 1024)) : Word) =
    0x40012000 + BitVec.ofNat 32 (4096 * (v.toNat / 2 ^ 22 - 768)) +
      BitVec.ofNat 32 (4 * (v.toNat / 4096 % 1024)) by bv_omega] at hpte
  have htable : PageAligned (0x40012000 + BitVec.ofNat 32 (4096 * (v.toNat / 2 ^ 22 - 768))) := by
    rw [pageAligned_iff]
    bv_omega
  have hoff := pageBase_add_offset v
  rw [translate_of_entry htable hframe (by decide) hdir hpte,
    access_frame_flags hframe (by decide),
    show pageBase v - 0x80000000 + (v &&& 0xfff) = v - 0x80000000 by bv_omega]
  rfl

theorem translate_mmio {m : Mem} (h : BootstrapLeaves m) {v : Word}
    (hdir : loadWord m (bootstrapRoot + BitVec.ofNat 32 (4 * (v.toNat / 2 ^ 22))) =
      directoryEntry (v.toNat / 2 ^ 22))
    (hv : v.toNat / 2 ^ 22 = 64) :
    translateVa m bootstrapRoot v =
      if v.toNat < 0x10010000 then some ⟨v, true, true, false, false⟩ else none := by
  have hb := pageBase_toNat v
  rw [hv] at hdir
  have hpte := h.mmio (v.toNat / 4096 % 1024) (by omega)
  have htable : PageAligned 0x40022000 := by decide
  by_cases hlow : v.toNat < 0x10010000
  · rw [if_pos (by omega), show (0x10000013 : Word) = 0x10000000 + 0x13 by decide,
      pageEntry_eq (v := v) 0x10000000 0#32 0x13 (by decide) (by bv_omega)
        (by rw [pageAligned_iff]; bv_omega), BitVec.sub_zero] at hpte
    rw [if_pos hlow, translate_of_entry htable (pageAligned_pageBase v) (by decide)
      (by rw [hv]; exact hdir) hpte,
      access_frame_flags (pageAligned_pageBase v) (by decide), pageBase_add_offset]
    rfl
  · rw [if_neg (by omega)] at hpte
    rw [if_neg hlow, translateVa, walk_of_pte_invalid htable (by rw [hv]; exact hdir) hpte]
    rfl

theorem translate_of_directoryEntry {m : Mem} (h : BootstrapLeaves m) {v : Word}
    (hdir : loadWord m (bootstrapRoot + BitVec.ofNat 32 (4 * (v.toNat / 2 ^ 22))) =
      directoryEntry (v.toNat / 2 ^ 22)) :
    translateVa m bootstrapRoot v = bootstrapMapping v := by
  unfold bootstrapMapping
  by_cases h256 : v.toNat / 2 ^ 22 = 256
  · rw [translate_identity h hdir h256, if_pos (by bv_omega)]
  rw [if_neg (by bv_omega)]
  by_cases hdirect : 768 ≤ v.toNat / 2 ^ 22 ∧ v.toNat / 2 ^ 22 < 784
  · rw [translate_direct h hdir hdirect.1 hdirect.2, if_pos (by bv_omega)]
  rw [if_neg (by bv_omega)]
  by_cases h64 : v.toNat / 2 ^ 22 = 64
  · rw [translate_mmio h hdir h64]
    by_cases hlow : v.toNat < 0x10010000
    · rw [if_pos hlow, if_pos (by bv_omega)]
    · rw [if_neg hlow, if_neg (by bv_omega)]
  · rw [directoryEntry, if_neg h64, if_neg h256, if_neg hdirect] at hdir
    have hwalk : walk m bootstrapRoot v = none := walk_of_pde_invalid hdir
    rw [if_neg (by bv_omega), translateVa, hwalk]
    rfl

theorem translate_bootstrap {m : Mem} (h : BootstrapTables m) (v : Word) :
    translateVa m bootstrapRoot v = bootstrapMapping v :=
  translate_of_directoryEntry h.toBootstrapLeaves (h.directory _ (by omega))

/-! ## The map as a whole -/

theorem pageWord_and_user (base flags : Word) (j : Nat) (hbase : PageAligned base)
    (hflags : pageBase flags = 0#32) :
    (base + flags + BitVec.ofNat 32 j * 4096) &&& pteUser = flags &&& pteUser := by
  have halign : PageAligned (base + BitVec.ofNat 32 (j * 4096)) := by
    rw [pageAligned_iff] at hbase ⊢
    bv_omega
  rw [mul_page, show base + flags + BitVec.ofNat 32 (j * 4096) =
    base + BitVec.ofNat 32 (j * 4096) + flags by bv_omega]
  exact add_and_flag halign hflags (by decide)

theorem tables_and_user {m : Mem} (h : BootstrapLeaves m) {i : Nat} (hi : i < 18 * 1024) :
    loadWord m (0x40011000 + BitVec.ofNat 32 (4 * i)) &&& pteUser = 0 := by
  by_cases h1 : i < 1024
  · rw [h.identity i h1]
    exact pageWord_and_user 0x40000000 0x1b i (by decide) (by decide)
  by_cases h2 : i < 17 * 1024
  · have hword := h.direct (i - 1024) (by omega)
    rw [show (0x40012000 + BitVec.ofNat 32 (4 * (i - 1024)) : Word) =
      0x40011000 + BitVec.ofNat 32 (4 * i) by bv_omega] at hword
    rw [hword]
    exact pageWord_and_user 0x40000000 0x1b (i - 1024) (by decide) (by decide)
  · have hword := h.mmio (i - 17 * 1024) (by omega)
    rw [show (0x40022000 + BitVec.ofNat 32 (4 * (i - 17 * 1024)) : Word) =
      0x40011000 + BitVec.ofNat 32 (4 * i) by bv_omega] at hword
    rw [hword]
    split
    · exact pageWord_and_user 0x10000000 0x13 (i - 17 * 1024) (by decide) (by decide)
    · rfl

theorem bootstrapMapping_direct {v : Word} (hlow : kernelDirectBase ≤ v)
    (hhigh : v < kernelDirectBase + kernelDirectSize) :
    bootstrapMapping v = some ⟨kernelVaddrToPaddr v, true, true, true, false⟩ := by
  have hconv : kernelVaddrToPaddr v = v - 0x80000000 := by
    simp only [kernelVaddrToPaddr, kernelDirectBase, ramBase]
    bv_omega
  rw [show kernelDirectBase + kernelDirectSize = 0xc4000000 by decide] at hhigh
  rw [kernelDirectBase] at hlow
  rw [bootstrapMapping, if_neg (by bv_omega), if_pos ⟨hlow, hhigh⟩, hconv]

theorem kernelVaddrToPaddr_eq_minemuTestPaddr (v : Word) :
    kernelVaddrToPaddr v = minemuTestPaddr v := by
  simp only [kernelVaddrToPaddr, minemuTestPaddr, kernelDirectBase, ramBase]
  bv_omega

/-- The bootstrap page tables, for every prior machine state. -/
theorem minemuBootstrapMap_exact (m : Machine) :
    ∃ m', minemuBootstrapMap m = some m' ∧
      (∀ v, translateVa m'.mem bootstrapRoot v = bootstrapMapping v) ∧
      (∀ i < 18 * 1024,
        loadWord m'.mem (0x40011000 + BitVec.ofNat 32 (4 * i)) &&& pteUser = 0) ∧
      (∀ a, a < 0x40010000 ∨ 0x40023000 ≤ a → m'.mem a = m.mem a) ∧
      (∀ v, kernelDirectBase ≤ v → v < kernelDirectBase + kernelDirectSize →
        ∃ t, translateVa m'.mem bootstrapRoot v = some t ∧
          kernelVaddrToPaddr v = t.paddr ∧ minemuTestPaddr v = t.paddr) := by
  obtain ⟨m', hrun, htables, hframe, -⟩ := minemuBootstrapMap_spec m
  refine ⟨m', hrun, translate_bootstrap htables,
    fun i hi => tables_and_user htables.toBootstrapLeaves hi,
    fun a ha => ?_, fun v hlow hhigh => ?_⟩
  · apply hframe a
    rw [tableRegion, mem_region]
    bv_omega
  · exact ⟨_, (translate_bootstrap htables v).trans (bootstrapMapping_direct hlow hhigh), rfl,
      (kernelVaddrToPaddr_eq_minemuTestPaddr v).symm⟩

end Minemu.Startup.BootstrapWalk
