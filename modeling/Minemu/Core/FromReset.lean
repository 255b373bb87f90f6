import Minemu.KernelCall

/-!
# The baseline kernel from reset

The kernel stands for the whole boot path: of its two variables one is copied from the
image and the other is cleared.  Its event is that of the image, whatever RAM held at
reset.
-/

namespace Minemu.Core

open Minemu.Lib.Memory Minemu.Lib.Arm Minemu.Platform Minemu.Startup Minemu.Handoff
open Minemu.Startup.BootstrapMap Minemu.Startup.BootstrapWalk
open Minemu.Bootloader.Boot hiding bootInfoVaddr bootInfoMagic abiVersion

/-- Where the linker put the variables of `core/main.c`. -/
structure Symbols where
  initializedData : Word
  zeroedBss : Word
  dataLow : 0xc0030000 ≤ initializedData.toNat
  dataHigh : initializedData.toNat + 4 ≤ 0xc4000000
  bssLow : 0xc0030000 ≤ zeroedBss.toNat
  bssHigh : zeroedBss.toNat + 4 * 32 ≤ 0xc4000000

/-! ## The path -/

def loadAll {n : Nat} (f : Fin n → Option Word) : Option (Fin n → Word) :=
  if h : ∀ i, (f i).isSome then some fun i => (f i).get (h i) else none

def runFromReset (x : Symbols) (y : Bootstrap.Symbols) (s : Machine) : Option Word := do
  let m ← kernelCall y s
  let read := virtualByte m.mem (m.cp15 .ttbr0)
  let boot_info ← BootInfo.load read (m.r 0)
  let initialized_data ← tryLoadWord read x.initializedData
  let zeroed_bss ← loadAll fun i : Fin 32 =>
    tryLoadWord read (x.zeroedBss + BitVec.ofNat 32 (4 * i))
  some (minemuKernelMain (m.r 0) boot_info initialized_data zeroed_bss)

theorem loadAll_eq_some {n : Nat} {f : Fin n → Option Word} {g : Fin n → Word}
    (h : ∀ i, f i = some (g i)) : loadAll f = some g := by
  obtain rfl : f = fun i => some (g i) := funext h
  exact dif_pos fun _ => rfl

/-! ## The image -/

/-- The variables are in segment `i`, one among its file bytes and one behind them. -/
structure Linked (m : Mem) (x : Symbols) (i : Nat) : Prop where
  data : ∀ k < 4, LastOver m i (x.initializedData + BitVec.ofNat 32 k - 0x80000000) ∧
    (x.initializedData + BitVec.ofNat 32 k - 0x80000000 - (kernelSegment m i).paddr).toNat <
      (kernelSegment m i).fileSize.toNat
  bss : ∀ k < 128, LastOver m i (x.zeroedBss + BitVec.ofNat 32 k - 0x80000000) ∧
    (kernelSegment m i).fileSize.toNat ≤
      (x.zeroedBss + BitVec.ofNat 32 k - 0x80000000 - (kernelSegment m i).paddr).toNat

def packedData (m : Mem) (x : Symbols) (i : Nat) : Word :=
  loadWord m (systemRomBase +
    ((kernelSegment m i).data + (x.initializedData - 0x80000000 - (kernelSegment m i).paddr)))

/-! ## What the kernel reads -/

section Reads

variable {s k : Machine} {x : Symbols} {i : Nat}

/-- A byte of a segment, as the kernel finds it. -/
theorem virtualByte_segment (hk : KernelCalled s k) {v : Word} (hlow : 0xc0030000 ≤ v.toNat)
    (hhigh : v.toNat < 0xc4000000) (hover : LastOver s.mem i (v - 0x80000000)) :
    virtualByte k.mem (k.cp15 .ttbr0) v =
      some ((kernelSegment s.mem i).byteAt s.mem (v - 0x80000000)) := by
  have hinfo : v - 0x80000000 ∉ bootInfoRegion := by
    rw [bootInfoRegion, mem_region, show bootInfoSize.toNat = 64 by decide, bootInfoPaddr]
    bv_omega
  have htable : v - 0x80000000 ∉ tableRegion := by
    rw [tableRegion, mem_region]
    bv_omega
  rw [hk.ttbr0, virtualByte_directMap hk.tables (by omega) hhigh,
    hk.mem_segment hover hinfo htable]

theorem initializedData_load (hk : KernelCalled s k) (hx : Linked s.mem x i) :
    tryLoadWord (virtualByte k.mem (k.cp15 .ttbr0)) x.initializedData =
      some (packedData s.mem x i) := by
  apply tryLoadWord_eq_some
  intro j hj
  have hlow := x.dataLow
  have hhigh := x.dataHigh
  obtain ⟨hover, hfile⟩ := hx.data j hj
  rw [virtualByte_segment hk (by bv_omega) (by bv_omega) hover, KernelSegment.byteAt,
    if_pos hfile]
  congr 2
  generalize (kernelSegment s.mem i).paddr = p
  generalize (kernelSegment s.mem i).data = d
  bv_omega

theorem zeroedBss_load (hk : KernelCalled s k) (hx : Linked s.mem x i) (j : Fin 32) :
    tryLoadWord (virtualByte k.mem (k.cp15 .ttbr0)) (x.zeroedBss + BitVec.ofNat 32 (4 * j)) =
      some 0 := by
  have hzero : loadWord (fun _ => 0) 0 = 0 := by decide
  rw [← hzero]
  apply tryLoadWord_eq_some
  intro l hl
  have hlow := x.bssLow
  have hhigh := x.bssHigh
  obtain ⟨hover, htail⟩ := hx.bss (4 * j + l) (by omega)
  rw [BitVec.add_assoc, ← BitVec.ofNat_add,
    virtualByte_segment hk (by bv_omega) (by bv_omega) hover, KernelSegment.byteAt,
    if_neg (Nat.not_lt.mpr htail)]

end Reads

/-! ## The outcome -/

structure Expected (m : Mem) (x : Symbols) (i : Nat) : Prop where
  imageSize : readU32 m (systemRomBase + imageSizeOffset) ≠ 0
  moduleCount : readU32 m (systemRomBase + moduleCountOffset) = 1
  moduleTable : readU32 m (systemRomBase + moduleTableOffset) ≠ 0
  data : packedData m x i = 0x13579bdf

/-- From reset the kernel reports success exactly for an image with one module, a size and
the initial value that it expects, and otherwise that these are wrong: its zeroed data is
never at fault. -/
theorem baseline_outcome (x : Symbols) (y : Bootstrap.Symbols) (s : Machine) (i : Nat)
    (hp : Packed s.mem) (hx : Linked s.mem x i) :
    (Expected s.mem x i ∧ runFromReset x y s = some 0x20000001) ∨
      (¬ Expected s.mem x i ∧ runFromReset x y s = some 0xb007bad0) := by
  obtain ⟨k, hcall, hk⟩ := kernelCall_spec y s hp
  have hrun : runFromReset x y s = some (minemuKernelMain bootInfoVaddr (packedBootInfo s.mem)
      (packedData s.mem x i) fun _ => 0) := by
    rw [runFromReset, hcall, Option.bind_eq_bind, Option.bind_some]
    dsimp only
    rw [hk.info, Option.bind_eq_bind, Option.bind_some, initializedData_load hk hx,
      Option.bind_eq_bind, Option.bind_some, loadAll_eq_some (zeroedBss_load hk hx),
      Option.bind_eq_bind, Option.bind_some, hk.pointer]
  have haccepted := bootInfoAccepted_packed s.mem
  have hzero : ¬ ∃ j : Fin 32, (0 : Word) ≠ 0 := fun ⟨_, h⟩ => h rfl
  by_cases hexpected : Expected s.mem x i
  · refine Or.inl ⟨hexpected, ?_⟩
    obtain ⟨hsize, hcount, htable, hdata⟩ := hexpected
    rw [hrun, minemuKernelMain, haccepted.mpr ⟨hsize, hcount, htable⟩, hdata]
    simp
  · refine Or.inr ⟨hexpected, ?_⟩
    rw [hrun, minemuKernelMain, if_pos]
    rw [Bool.or_eq_true]
    by_cases hinfo : bootInfoAccepted bootInfoVaddr (packedBootInfo s.mem) = true
    · obtain ⟨hsize, hcount, htable⟩ := haccepted.mp hinfo
      exact Or.inr (decide_eq_true fun hdata => hexpected ⟨hsize, hcount, htable, hdata⟩)
    · exact Or.inl (by rw [Bool.eq_false_iff.mpr hinfo]; rfl)

def samplePlaces : Symbols :=
  ⟨0xc0030000, 0xc0030004, by decide, by decide, by decide, by decide⟩

theorem sampleMemory_linked : Linked sampleMemory samplePlaces 0 := by
  obtain ⟨hcount, hsegment, -⟩ := sampleMemory_segment
  have hover : ∀ a, a ∈ (kernelSegment sampleMemory 0).extent → LastOver sampleMemory 0 a :=
    fun a ha => ⟨by rw [hcount]; decide, ha, fun j hj hj' => by omega⟩
  constructor <;> intro k hk <;> rw [hsegment] <;> rw [hsegment] at hover
  · refine ⟨hover _ ?_, ?_⟩
    · simp only [KernelSegment.extent, mem_region, samplePlaces, BitVec.reduceToNat]
      bv_omega
    · simp only [samplePlaces]
      bv_omega
  · refine ⟨hover _ ?_, ?_⟩
    · simp only [KernelSegment.extent, mem_region, samplePlaces, BitVec.reduceToNat]
      bv_omega
    · simp only [samplePlaces]
      bv_omega

theorem baseline_outcome_sample :
    runFromReset samplePlaces ⟨0, 0, 0, 0, 0, 0, 0, 0, 0, 0⟩
      ⟨fun _ => 0, fun _ => 0, fun _ => 0, fun _ => 0, fun _ => 0, 0, 0xd3, fun _ => 0,
        sampleMemory⟩ = some 0x20000001 := by
  rcases baseline_outcome samplePlaces ⟨0, 0, 0, 0, 0, 0, 0, 0, 0, 0⟩
    ⟨fun _ => 0, fun _ => 0, fun _ => 0, fun _ => 0, fun _ => 0, 0, 0xd3, fun _ => 0,
      sampleMemory⟩ 0 sampleMemory_packed sampleMemory_linked with ⟨-, hrun⟩ | ⟨hbad, -⟩
  · exact hrun
  · refine absurd ⟨?_, ?_, ?_, ?_⟩ hbad <;> decide +kernel

end Minemu.Core
