import Minemu.Bootloader.Load
import Minemu.Core.Main
import Minemu.Hello.Main
import Minemu.Startup.Bootstrap
import Mathlib.Tactic.IntervalCases

/-!
# Boot info from the loader to the kernels

The loader writes the record byte by byte at a physical address; the kernels read a
C structure at a virtual address, through tables that the bootstrap code builds in
between.
-/

namespace Minemu.Handoff

open Minemu.Lib.Memory Minemu.Lib.Arm Minemu.Platform Minemu.Startup
open Minemu.Startup.BootstrapMap Minemu.Startup.BootstrapWalk
open Minemu.Bootloader.Boot (writeBootInfo bootInfoPaddr)

def bootInfoWord (image_size module_table module_count : Word) : Nat → Word
  | 0 => 0x4d424f4f
  | 1 => 0x00400001
  | 2 => 0x08000000
  | 3 => image_size
  | 4 => module_table
  | 5 => module_count
  | 6 => 0xc0000000
  | 7 => 0x40000000
  | 8 => 0x04000000
  | _ => 0

theorem loadWord_zeroBytes_bootInfo (m : Mem) {i : Nat} (hi : i < 16) :
    loadWord (Bootloader.Boot.zeroBytes m bootInfoPaddr Bootloader.Boot.bootInfoSize)
      (bootInfoPaddr + BitVec.ofNat 32 (4 * i)) = 0 := by
  apply loadWord_of_zero
  intro k hk
  rw [Bootloader.Boot.zeroBytes, fillBytes_apply _ _ _ _ _ (by decide), if_pos]
  rw [mem_region, show Bootloader.Boot.bootInfoSize.toNat = 64 by decide]
  bv_omega

theorem loadWord_writeBootInfo (m : Mem) (image_size module_table module_count : Word) {i : Nat}
    (hi : i < 16) :
    loadWord (writeBootInfo m image_size module_table module_count)
      (bootInfoPaddr + BitVec.ofNat 32 (4 * i)) =
        bootInfoWord image_size module_table module_count i := by
  have hother : ∀ (m : Mem) (off w : Word) (j : Nat), off = BitVec.ofNat 32 (4 * j) → j < 16 →
      loadWord (storeWord m (bootInfoPaddr + off) w) (bootInfoPaddr + BitVec.ofNat 32 (4 * i)) =
        if i = j then w else loadWord m (bootInfoPaddr + BitVec.ofNat 32 (4 * i)) := by
    rintro m off w j rfl hj
    by_cases hij : i = j
    · rw [hij, if_pos rfl, loadWord_storeWord_self]
    · rw [if_neg hij, loadWord_storeWord_of_apart _ _ (by bv_omega) (by bv_omega)]
  rw [Bootloader.Boot.writeBootInfo_eq]
  simp only
  rw [hother _ 0x20 _ 8 rfl (by omega), hother _ 0x1c _ 7 rfl (by omega),
    hother _ 0x18 _ 6 rfl (by omega), hother _ 0x14 _ 5 rfl (by omega),
    hother _ 0x10 _ 4 rfl (by omega), hother _ 0x0c _ 3 rfl (by omega),
    hother _ 0x08 _ 2 rfl (by omega), hother _ 0x04 _ 1 rfl (by omega),
    hother _ 0x00 _ 0 rfl (by omega), loadWord_zeroBytes_bootInfo m hi]
  interval_cases i <;> rfl

def handedOver (image_size module_table module_count : Word) : BootInfo where
  magic := 0x4d424f4f
  version := 1
  size := 64
  systemRomBase := 0x08000000
  imageSize := image_size
  moduleTableOffset := module_table
  moduleCount := module_count
  directMapVaddr := 0xc0000000
  directMapPaddr := 0x40000000
  directMapSize := 0x04000000
  flags := 0
  reserved := fun _ => 0

theorem virtualByte_bootInfo {m : Mem} (h : BootstrapTables m) {k : Nat} (hk : k < 64) :
    virtualByte m bootstrapRoot (0xc0007000 + BitVec.ofNat 32 k) =
      some (m (bootInfoPaddr + BitVec.ofNat 32 k)) := by
  have htrans := translate_bootstrap h (0xc0007000 + BitVec.ofNat 32 k)
  rw [bootstrapMapping, if_neg (by bv_omega), if_pos (by constructor <;> bv_omega)] at htrans
  rw [virtualByte, htrans, show (0xc0007000 + BitVec.ofNat 32 k - 0x80000000 : Word) =
    bootInfoPaddr + BitVec.ofNat 32 k by rw [bootInfoPaddr]; bv_omega]
  rfl

theorem load_bootInfo {m : Mem} (h : BootstrapTables m)
    {image_size module_table module_count : Word}
    (hwords : ∀ i < 16, loadWord m (bootInfoPaddr + BitVec.ofNat 32 (4 * i)) =
      bootInfoWord image_size module_table module_count i) :
    BootInfo.load (virtualByte m bootstrapRoot) bootInfoVaddr =
      some (handedOver image_size module_table module_count) := by
  have hbytes : ∀ j < 16, ∀ i < 4,
      virtualByte m bootstrapRoot (bootInfoVaddr + BitVec.ofNat 32 (4 * j) + BitVec.ofNat 32 i) =
        some (m (bootInfoPaddr + BitVec.ofNat 32 (4 * j) + BitVec.ofNat 32 i)) := by
    intro j hj i hi
    rw [BitVec.add_assoc, BitVec.add_assoc, ← BitVec.ofNat_add]
    exact virtualByte_bootInfo h (by omega)
  have hword : ∀ (off : Word) (j : Nat), off = BitVec.ofNat 32 (4 * j) → j < 16 →
      tryLoadWord (virtualByte m bootstrapRoot) (bootInfoVaddr + off) =
        some (bootInfoWord image_size module_table module_count j) := by
    rintro off j rfl hj
    rw [tryLoadWord_eq_some (hbytes j hj), hwords j hj]
  have hhalves := tryLoadHalf_eq_some (hbytes 1 (by omega))
  rw [hwords 1 (by omega),
    show bootInfoVaddr + BitVec.ofNat 32 (4 * 1) = bootInfoVaddr + 4 from rfl,
    show bootInfoVaddr + 4 + 2 = bootInfoVaddr + 6 from rfl] at hhalves
  have hzero : tryLoadWord (virtualByte m bootstrapRoot) bootInfoVaddr =
      some (bootInfoWord image_size module_table module_count 0) := hword 0 0 rfl (by omega)
  rw [BootInfo.load, hzero, hhalves.1, hhalves.2, hword 8 2 rfl (by omega),
    hword 12 3 rfl (by omega), hword 16 4 rfl (by omega), hword 20 5 rfl (by omega),
    hword 24 6 rfl (by omega), hword 28 7 rfl (by omega), hword 32 8 rfl (by omega),
    hword 36 9 rfl (by omega), hword 40 10 rfl (by omega), hword 44 11 rfl (by omega),
    hword 48 12 rfl (by omega), hword 52 13 rfl (by omega), hword 56 14 rfl (by omega),
    hword 60 15 rfl (by omega)]
  have hreserved : (fun _ : Fin 6 => (0 : Word)) =
      fun i : Fin 6 => ([0, 0, 0, 0, 0, 0] : List Word).get i := by decide
  have hversion : (0x00400001 : Word).extractLsb' 0 16 = 1 := by decide
  have hsize : (0x00400001 : Word).extractLsb' 16 16 = 64 := by decide
  simp only [bootInfoWord, hversion, hsize, Option.bind_eq_bind, Option.bind_some, handedOver,
    hreserved]

end Minemu.Handoff
