import Minemu.Lib.Page

/-!
# The platform memory map and its page tables

Constants of `platform.h`, `boot.h` and `mmu.h`, and the two-level walk those
entry formats describe: the top ten bits of an address select a directory entry,
the next ten an entry of the table it designates.
-/

namespace Minemu.Platform

open Minemu.Lib.Memory Minemu.Lib.Page

/-! ## `platform.h` -/

def systemRomBase : Word := 0x08000000

def systemRomSize : Word := 0x01000000

def ramBase : Word := 0x40000000

def ramSize : Word := 0x04000000

def kernelDirectBase : Word := 0xc0000000

def kernelDirectSize : Word := ramSize

/-! ## `mmu.h` -/

def pageSize : Word := 4096

def pteValid : Word := 1

def pteWritable : Word := 2

def pteUser : Word := 4

def pteExecutable : Word := 8

def pteReadable : Word := 16

def pteAccessed : Word := 32

def pteDirty : Word := 64

def ptePageMask : Word := 0xfffff000

def pdeValid : Word := 1

def pdePageMask : Word := 0xfffff000

/-! ## Address conversion -/

def kernelVaddrToPaddr (address : Word) : Word := address - kernelDirectBase + ramBase

def minemuTestPaddr (address : Word) : Word := address - 0x80000000

/-! ## The walk -/

/-- The valid page-table entry for `v`, or `none` for a translation fault. -/
def walk (m : Mem) (root v : Word) : Option Word :=
  let pde := loadWord m (root + 4 * (v >>> 22))
  if pde &&& pdeValid = 0 then none
  else
    let pte := loadWord m ((pde &&& pdePageMask) + 4 * ((v >>> 12) &&& 1023))
    if pte &&& pteValid = 0 then none else some pte

structure Access where
  paddr : Word
  readable : Bool
  writable : Bool
  executable : Bool
  user : Bool
  deriving DecidableEq, Repr

def access (v pte : Word) : Access where
  paddr := (pte &&& ptePageMask) + (v &&& 0xfff)
  readable := pte &&& pteReadable != 0
  writable := pte &&& pteWritable != 0
  executable := pte &&& pteExecutable != 0
  user := pte &&& pteUser != 0

def translateVa (m : Mem) (root v : Word) : Option Access :=
  (walk m root v).map (access v)

/-- The byte a privileged load reads at a virtual address. -/
def virtualByte (m : Mem) (root v : Word) : Option Byte := do
  let t ← translateVa m root v
  if t.readable then some (m t.paddr) else none

/-! ## Index arithmetic -/

theorem directoryIndex_toNat (v : Word) : (v >>> 22).toNat = v.toNat / 2 ^ 22 := by
  rw [BitVec.toNat_ushiftRight, Nat.shiftRight_eq_div_pow]

theorem tableIndex_toNat (v : Word) :
    ((v >>> 12) &&& 1023).toNat = v.toNat / 4096 % 1024 := by
  rw [BitVec.toNat_and, BitVec.toNat_ushiftRight, Nat.shiftRight_eq_div_pow,
    show (1023 : Word).toNat = 2 ^ 10 - 1 by decide, Nat.and_two_pow_sub_one_eq_mod]

theorem directoryOffset_eq (v : Word) :
    4 * (v >>> 22) = BitVec.ofNat 32 (4 * (v.toNat / 2 ^ 22)) := by
  apply BitVec.eq_of_toNat_eq
  rw [BitVec.toNat_mul, directoryIndex_toNat, BitVec.toNat_ofNat]
  rfl

theorem tableOffset_eq (v : Word) :
    4 * ((v >>> 12) &&& 1023) = BitVec.ofNat 32 (4 * (v.toNat / 4096 % 1024)) := by
  apply BitVec.eq_of_toNat_eq
  rw [BitVec.toNat_mul, tableIndex_toNat, BitVec.toNat_ofNat]
  rfl

/-! ## Walks through known entries -/

theorem walk_of_pde_invalid {m : Mem} {root v : Word}
    (h : loadWord m (root + BitVec.ofNat 32 (4 * (v.toNat / 2 ^ 22))) = 0) :
    walk m root v = none := by
  rw [walk, directoryOffset_eq, h]
  simp

/-- A directory entry made of a page-aligned table and the valid bit leads to the
table's entry. -/
theorem walk_of_pde {m : Mem} {root v table : Word} (htable : PageAligned table)
    (h : loadWord m (root + BitVec.ofNat 32 (4 * (v.toNat / 2 ^ 22))) = table ||| pdeValid) :
    walk m root v =
      if loadWord m (table + BitVec.ofNat 32 (4 * (v.toNat / 4096 % 1024))) &&& pteValid = 0
      then none
      else some (loadWord m (table + BitVec.ofNat 32 (4 * (v.toNat / 4096 % 1024)))) := by
  have hvalid : (table ||| pdeValid) &&& pdeValid = pdeValid := by
    rw [or_and_flag htable (by decide)]
    decide
  have hbase : (table ||| pdeValid) &&& pdePageMask = table :=
    pageBase_or htable (by decide)
  rw [walk, directoryOffset_eq, h, tableOffset_eq]
  simp only [hvalid, hbase]
  rw [if_neg (by decide)]

theorem walk_congr {m m' : Mem} {root v : Word}
    (hdir : loadWord m' (root + BitVec.ofNat 32 (4 * (v.toNat / 2 ^ 22))) =
      loadWord m (root + BitVec.ofNat 32 (4 * (v.toNat / 2 ^ 22))))
    (htab : ∀ table, table = pageBase (loadWord m
        (root + BitVec.ofNat 32 (4 * (v.toNat / 2 ^ 22)))) →
      loadWord m' (table + BitVec.ofNat 32 (4 * (v.toNat / 4096 % 1024))) =
        loadWord m (table + BitVec.ofNat 32 (4 * (v.toNat / 4096 % 1024)))) :
    walk m' root v = walk m root v := by
  have h := htab _ rfl
  rw [pageBase] at h
  simp only [walk, directoryOffset_eq, tableOffset_eq, hdir, pdePageMask, h]

/-! ## Entries made of a frame and flags -/

theorem access_frame_flags {v frame flags : Word} (hframe : PageAligned frame)
    (hflags : pageBase flags = 0#32) :
    access v (frame ||| flags) = {
      paddr := frame + (v &&& 0xfff)
      readable := flags &&& pteReadable != 0
      writable := flags &&& pteWritable != 0
      executable := flags &&& pteExecutable != 0
      user := flags &&& pteUser != 0 } := by
  have hbase : (frame ||| flags) &&& ptePageMask = frame := pageBase_or hframe hflags
  rw [access, hbase, or_and_flag hframe (by decide), or_and_flag hframe (by decide),
    or_and_flag hframe (by decide), or_and_flag hframe (by decide)]

theorem translate_of_entry {m : Mem} {root v table frame flags : Word}
    (htable : PageAligned table) (hframe : PageAligned frame) (hvalid : flags &&& pteValid ≠ 0)
    (hpde : loadWord m (root + BitVec.ofNat 32 (4 * (v.toNat / 2 ^ 22))) = table ||| pdeValid)
    (hpte : loadWord m (table + BitVec.ofNat 32 (4 * (v.toNat / 4096 % 1024))) =
      frame ||| flags) :
    translateVa m root v = some (access v (frame ||| flags)) := by
  rw [translateVa, walk_of_pde htable hpde, hpte, or_and_flag hframe (by decide),
    if_neg hvalid]
  rfl

/-- Addresses of one page lie side by side in its frame. -/
theorem translate_add {m : Mem} {root v : Word} {t : Access} (ht : translateVa m root v = some t)
    {k : Nat} (hk : v.toNat % 4096 + k < 4096) :
    translateVa m root (v + BitVec.ofNat 32 k) =
      some { t with paddr := t.paddr + BitVec.ofNat 32 k } := by
  have hsum : (v + BitVec.ofNat 32 k).toNat = v.toNat + k := by bv_omega
  have hwalk : walk m root (v + BitVec.ofNat 32 k) = walk m root v := by
    have hdirectory : (v.toNat + k) / 2 ^ 22 = v.toNat / 2 ^ 22 := by omega
    have htable : (v.toNat + k) / 4096 = v.toNat / 4096 := by omega
    simp only [walk, directoryOffset_eq, tableOffset_eq, hsum, hdirectory, htable]
  have hoffset : (v + BitVec.ofNat 32 k) &&& 0xfff = (v &&& 0xfff) + BitVec.ofNat 32 k := by
    have hv := and_offset_toNat v
    have hvk := and_offset_toNat (v + BitVec.ofNat 32 k)
    apply BitVec.eq_of_toNat_eq
    rw [BitVec.toNat_add, BitVec.toNat_ofNat, hvk, hv, hsum]
    omega
  rw [translateVa] at ht ⊢
  rw [hwalk]
  cases hpte : walk m root v with
  | none =>
      rw [hpte] at ht
      cases ht
  | some pte =>
      rw [hpte] at ht
      obtain rfl := Option.some.inj ht
      simp only [Option.map_some, access, hoffset, BitVec.add_assoc]

theorem walk_of_pte_invalid {m : Mem} {root v table : Word} (htable : PageAligned table)
    (hpde : loadWord m (root + BitVec.ofNat 32 (4 * (v.toNat / 2 ^ 22))) = table ||| pdeValid)
    (hpte : loadWord m (table + BitVec.ofNat 32 (4 * (v.toNat / 4096 % 1024))) = 0) :
    walk m root v = none := by
  rw [walk_of_pde htable hpde, hpte]
  simp

end Minemu.Platform
