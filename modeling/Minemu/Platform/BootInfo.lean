import Minemu.Platform.Mmu

/-!
# `boot.h`: boot info and the packed records

The structures carry the fields the kernels read, in declaration order; the
reserved words of a module record or segment are read by none.
-/

namespace Minemu.Platform

open Minemu.Lib.Memory

def bootInfoMagic : Word := 0x4d424f4f

def abiVersion : BitVec 16 := 1

def bootInfoVaddr : Word := 0xc0007000

def segmentReadable : Word := 1

def segmentWritable : Word := 2

def segmentExecutable : Word := 4

structure BootInfo where
  magic : Word
  version : BitVec 16
  size : BitVec 16
  systemRomBase : Word
  imageSize : Word
  moduleTableOffset : Word
  moduleCount : Word
  directMapVaddr : Word
  directMapPaddr : Word
  directMapSize : Word
  flags : Word
  reserved : Fin 6 → Word

def sizeofBootInfo : BitVec 16 := 64

def BootInfo.load (read : Word → Option Byte) (p : Word) : Option BootInfo := do
  let magic ← tryLoadWord read p
  let version ← tryLoadHalf read (p + 4)
  let size ← tryLoadHalf read (p + 6)
  let systemRomBase ← tryLoadWord read (p + 8)
  let imageSize ← tryLoadWord read (p + 12)
  let moduleTableOffset ← tryLoadWord read (p + 16)
  let moduleCount ← tryLoadWord read (p + 20)
  let directMapVaddr ← tryLoadWord read (p + 24)
  let directMapPaddr ← tryLoadWord read (p + 28)
  let directMapSize ← tryLoadWord read (p + 32)
  let flags ← tryLoadWord read (p + 36)
  let r0 ← tryLoadWord read (p + 40)
  let r1 ← tryLoadWord read (p + 44)
  let r2 ← tryLoadWord read (p + 48)
  let r3 ← tryLoadWord read (p + 52)
  let r4 ← tryLoadWord read (p + 56)
  let r5 ← tryLoadWord read (p + 60)
  some {
    magic, version, size, systemRomBase, imageSize, moduleTableOffset, moduleCount,
    directMapVaddr, directMapPaddr, directMapSize, flags
    reserved := fun i => [r0, r1, r2, r3, r4, r5].get i }

structure ModuleRecord where
  nameOffset : Word
  nameLength : Word
  segmentTableOffset : Word
  segmentCount : Word
  entryVaddr : Word
  deriving DecidableEq

structure ModuleSegment where
  dataOffset : Word
  virtualAddress : Word
  fileSize : Word
  memorySize : Word
  flags : Word
  deriving DecidableEq

end Minemu.Platform
