import Minemu.Platform.BootInfo

/-!
# `core/main.c`: the baseline kernel

The kernel checks boot info, its initialised data and its zeroed data, traces one
event and stops.
-/

namespace Minemu.Core

open Minemu.Lib.Memory Minemu.Platform

def bootInfoAccepted (pointer : Word) (boot_info : BootInfo) : Bool :=
  pointer = bootInfoVaddr && boot_info.magic = bootInfoMagic &&
    boot_info.version = abiVersion && boot_info.size = sizeofBootInfo &&
    boot_info.systemRomBase = 0x08000000 && boot_info.imageSize ≠ 0 &&
    boot_info.moduleCount = 1 && boot_info.moduleTableOffset ≠ 0 &&
    boot_info.directMapVaddr = 0xc0000000 && boot_info.directMapPaddr = 0x40000000 &&
    boot_info.directMapSize = 0x04000000

/-- The event that `minemu_kernel_main` traces before it stops. -/
def minemuKernelMain (pointer : Word) (boot_info : BootInfo) (initialized_data : Word)
    (zeroed_bss : Fin 32 → Word) : Word :=
  if !bootInfoAccepted pointer boot_info || initialized_data ≠ 0x13579bdf then 0xb007bad0
  else if ∃ i, zeroed_bss i ≠ 0 then 0xb007bad1
  else 0x20000001

end Minemu.Core
