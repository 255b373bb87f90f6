import Minemu.Platform.Mmu

/-!
# Where the user-mode kernel's memory objects lie

The kernel addresses its objects through the direct map; the model keeps physical
memory and converts.  A layout is any placement the linker may choose: inside the
direct map, pairwise disjoint, and aligned as declared.
-/

namespace Minemu.Hello

open Minemu.Lib.Memory Minemu.Lib.Page Minemu.Platform

inductive Object where
  /-- The bootstrap directory, which the kernel extends. -/
  | pageDirectory
  /-- The eighteen tables of the bootstrap code. -/
  | bootTables
  | systemRomTables
  | userPageTable
  | userImagePages
  | userStack
  | userPageVaddrs
  | userPageFlags
  | userPageCount
  | userSyscallObserved
  | svcStack
  deriving DecidableEq, Repr

def maxUserImagePages : Nat := 16

def systemRomTableCount : Nat := 4

namespace Object

def size : Object → Nat
  | .pageDirectory => 4096
  | .bootTables => 0x12000
  | .systemRomTables => systemRomTableCount * 4096
  | .userPageTable => 4096
  | .userImagePages => maxUserImagePages * 4096
  | .userStack => 4096
  | .userPageVaddrs => maxUserImagePages * 4
  | .userPageFlags => maxUserImagePages * 4
  | .userPageCount => 4
  | .userSyscallObserved => 1
  | .svcStack => 4096

@[simp] theorem size_pageDirectory : pageDirectory.size = 4096 := rfl

@[simp] theorem size_bootTables : bootTables.size = 0x12000 := rfl

@[simp] theorem size_systemRomTables : systemRomTables.size = 16384 := rfl

@[simp] theorem size_userPageTable : userPageTable.size = 4096 := rfl

@[simp] theorem size_userImagePages : userImagePages.size = 65536 := rfl

@[simp] theorem size_userStack : userStack.size = 4096 := rfl

@[simp] theorem size_userPageVaddrs : userPageVaddrs.size = 64 := rfl

@[simp] theorem size_userPageFlags : userPageFlags.size = 64 := rfl

def pageAligned : Object → Bool
  | .pageDirectory | .bootTables | .systemRomTables | .userPageTable | .userImagePages
  | .userStack => true
  | _ => false

end Object

structure Layout where
  addr : Object → Word
  low : ∀ o, kernelDirectBase.toNat ≤ (addr o).toNat
  high : ∀ o, (addr o).toNat + o.size ≤ 0xc4000000
  disjoint : ∀ o o', o ≠ o' →
    (addr o).toNat + o.size ≤ (addr o').toNat ∨ (addr o').toNat + o'.size ≤ (addr o).toNat
  aligned : ∀ o, o.pageAligned → PageAligned (addr o)
  pageDirectory_addr : addr .pageDirectory = 0xc0010000
  bootTables_addr : addr .bootTables = 0xc0011000

namespace Layout

variable (L : Layout)

/-- The physical address of byte `k` of an object. -/
def paddr (o : Object) (k : Nat) : Word := kernelVaddrToPaddr (L.addr o + BitVec.ofNat 32 k)

def extent (o : Object) : Set Word := region (L.paddr o 0) o.size

def extents (os : List Object) : Set Word := {a | ∃ o ∈ os, a ∈ L.extent o}

/-! ## Addresses -/

theorem paddr_toNat (o : Object) {k : Nat} (hk : k ≤ o.size) :
    (L.paddr o k).toNat = (L.addr o).toNat - 0x80000000 + k := by
  have hlow := L.low o
  have hhigh := L.high o
  simp only [paddr, kernelVaddrToPaddr, kernelDirectBase, ramBase, BitVec.reduceToNat] at hlow ⊢
  bv_omega

theorem paddr_zero (o : Object) : L.paddr o 0 = kernelVaddrToPaddr (L.addr o) := by
  rw [paddr, show BitVec.ofNat 32 0 = 0#32 from rfl, BitVec.add_zero]

theorem paddr_add (o : Object) (k i : Nat) :
    L.paddr o k + BitVec.ofNat 32 i = L.paddr o (k + i) := by
  simp only [paddr, kernelVaddrToPaddr]
  bv_omega

theorem paddr_eq_add (o : Object) (k : Nat) :
    L.paddr o k = L.paddr o 0 + BitVec.ofNat 32 k := by
  rw [paddr_add, Nat.zero_add]

theorem mem_extent {o : Object} {a : Word} :
    a ∈ L.extent o ↔ (L.addr o).toNat - 0x80000000 ≤ a.toNat ∧
      a.toNat < (L.addr o).toNat - 0x80000000 + o.size := by
  have hlow := L.low o
  have hhigh := L.high o
  have hbase := L.paddr_toNat o (Nat.zero_le o.size)
  rw [show kernelDirectBase.toNat = 0xc0000000 by decide] at hlow
  rw [extent, mem_region]
  bv_omega

theorem paddr_mem {o : Object} {k : Nat} (hk : k < o.size) : L.paddr o k ∈ L.extent o := by
  rw [mem_extent, L.paddr_toNat o (Nat.le_of_lt hk)]
  omega

theorem exists_paddr {o : Object} {a : Word} (ha : a ∈ L.extent o) :
    ∃ k < o.size, a = L.paddr o k := by
  rw [mem_extent] at ha
  refine ⟨a.toNat - ((L.addr o).toNat - 0x80000000), by omega, ?_⟩
  apply BitVec.eq_of_toNat_eq
  rw [L.paddr_toNat o (by omega)]
  omega

theorem not_mem_extent {o o' : Object} (h : o ≠ o') {a : Word} (ha : a ∈ L.extent o) :
    a ∉ L.extent o' := by
  have hdisj := L.disjoint o o' h
  have hlow := L.low o
  have hlow' := L.low o'
  rw [show kernelDirectBase.toNat = 0xc0000000 by decide] at hlow hlow'
  rw [mem_extent] at ha ⊢
  omega

theorem not_mem_extents {o : Object} {os : List Object} (h : o ∉ os) {a : Word}
    (ha : a ∈ L.extent o) : a ∉ L.extents os := by
  rintro ⟨o', ho', ha'⟩
  exact L.not_mem_extent (fun heq : o = o' => h (heq ▸ ho')) ha ha'

theorem extents_mono {os os' : List Object} (h : os ⊆ os') : L.extents os ⊆ L.extents os' := by
  rintro a ⟨o, ho, ha⟩
  exact ⟨o, h ho, ha⟩

theorem pageAligned_paddr {o : Object} (h : o.pageAligned) (i : Nat) :
    PageAligned (L.paddr o (4096 * i)) := by
  have halign := L.aligned o h
  rw [pageAligned_iff] at halign ⊢
  simp only [paddr, kernelVaddrToPaddr, kernelDirectBase, ramBase]
  bv_omega

theorem pageAligned_base {o : Object} (h : o.pageAligned) : PageAligned (L.paddr o 0) := by
  have halign := L.pageAligned_paddr h 0
  rwa [Nat.mul_zero] at halign

theorem pageDirectory_paddr (k : Nat) :
    L.paddr .pageDirectory k = 0x40010000 + BitVec.ofNat 32 k := by
  simp only [paddr, kernelVaddrToPaddr, L.pageDirectory_addr, kernelDirectBase, ramBase]
  bv_omega

theorem bootTables_paddr (k : Nat) :
    L.paddr .bootTables k = 0x40011000 + BitVec.ofNat 32 k := by
  simp only [paddr, kernelVaddrToPaddr, L.bootTables_addr, kernelDirectBase, ramBase]
  bv_omega

/-! ## Frames -/

theorem byte_frame {os : List Object} {m m' : Mem} (h : ChangedOnly (L.extents os) m m')
    {o : Object} (ho : o ∉ os) {k : Nat} (hk : k < o.size) :
    m' (L.paddr o k) = m (L.paddr o k) :=
  h _ (L.not_mem_extents ho (L.paddr_mem hk))

theorem loadWord_frame {os : List Object} {m m' : Mem} (h : ChangedOnly (L.extents os) m m')
    {o : Object} (ho : o ∉ os) {k : Nat} (hk : k + 4 ≤ o.size) :
    loadWord m' (L.paddr o k) = loadWord m (L.paddr o k) := by
  apply loadWord_congr
  intro i hi
  rw [paddr_add]
  exact L.byte_frame h ho (by omega)

theorem storeWord_frame (m : Mem) {o : Object} {k : Nat} (hk : k + 4 ≤ o.size) (w : Word) :
    ChangedOnly (L.extents [o]) m (storeWord m (L.paddr o k) w) := by
  apply (storeWord_changedOnly m _ w).mono
  intro a ha
  have hbase := L.paddr_toNat o (by omega : k ≤ o.size)
  have hhigh := L.high o
  refine ⟨o, List.mem_singleton_self o, ?_⟩
  rw [mem_region] at ha
  rw [mem_extent]
  bv_omega

theorem fillBytes_frame (m : Mem) {o : Object} {k n : Nat} (hk : k + n ≤ o.size)
    (f : Nat → Byte) : ChangedOnly (L.extents [o]) m (fillBytes m (L.paddr o k) f n) := by
  have hhigh := L.high o
  apply (fillBytes_changedOnly m _ f n (by omega)).mono
  intro a ha
  have hbase := L.paddr_toNat o (by omega : k ≤ o.size)
  refine ⟨o, List.mem_singleton_self o, ?_⟩
  rw [mem_region] at ha
  rw [mem_extent]
  bv_omega

theorem fillWords_frame (m : Mem) {o : Object} {k n : Nat} (hk : k + 4 * n ≤ o.size)
    (f : Nat → Word) : ChangedOnly (L.extents [o]) m (fillWords m (L.paddr o k) f n) := by
  have hhigh := L.high o
  apply (fillWords_changedOnly m _ f n (by omega)).mono
  intro a ha
  have hbase := L.paddr_toNat o (by omega : k ≤ o.size)
  refine ⟨o, List.mem_singleton_self o, ?_⟩
  rw [mem_region] at ha
  rw [mem_extent]
  bv_omega

theorem loadWord_apart {m m' : Mem} {o : Object} {j n k : Nat}
    (h : ChangedOnly (region (L.paddr o j) n) m m') (hj : j + n ≤ o.size) (hk : k + 4 ≤ o.size)
    (hoff : k + 4 ≤ j ∨ j + n ≤ k) :
    loadWord m' (L.paddr o k) = loadWord m (L.paddr o k) := by
  have hhigh := L.high o
  have hbj := L.paddr_toNat o (by omega : j ≤ o.size)
  apply loadWord_of_changedOnly h
  intro i hi
  have hbk := L.paddr_toNat o (by omega : k + i ≤ o.size)
  rw [paddr_add, mem_region_of_le (by omega)]
  omega

/-- Two words of an object at different word offsets do not overlap. -/
theorem loadWord_storeWord_of_ne (m : Mem) {o : Object} {j k : Nat} (hj : j + 4 ≤ o.size)
    (hk : k + 4 ≤ o.size) (h : j + 4 ≤ k ∨ k + 4 ≤ j) (w : Word) :
    loadWord (storeWord m (L.paddr o j) w) (L.paddr o k) = loadWord m (L.paddr o k) := by
  exact L.loadWord_apart (storeWord_changedOnly m _ w) hj hk (by omega)

end Layout

def sampleLayout : Layout where
  addr
    | .pageDirectory => 0xc0010000
    | .bootTables => 0xc0011000
    | .systemRomTables => 0xc0040000
    | .userPageTable => 0xc0044000
    | .userImagePages => 0xc0045000
    | .userStack => 0xc0055000
    | .userPageVaddrs => 0xc0056000
    | .userPageFlags => 0xc0056040
    | .userPageCount => 0xc0056080
    | .userSyscallObserved => 0xc0056084
    | .svcStack => 0xc0057000
  low o := by cases o <;> decide
  high o := by cases o <;> decide
  disjoint o o' h := by cases o <;> cases o' <;> first | exact absurd rfl h | decide
  aligned o h := by cases o <;> first | decide | cases h
  pageDirectory_addr := rfl
  bootTables_addr := rfl

end Minemu.Hello
