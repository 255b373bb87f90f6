import Minemu.Hello.UserPages

/-!
# `load_user_module`

The segments of a module are validated, registered and written one after the other;
the first refusal ends the load.  Whether the load is accepted is a property of the
list of segments, `Acceptable`, that does not mention the loop.
-/

namespace Minemu.Hello

open Minemu.Lib.Memory Minemu.Lib.Page Minemu.Lib.Registry Minemu.Platform

def userImageBase : Word := 0x00400000

def userStackBottom : Word := 0x007ff000

def userStackTop : Word := 0x00800000

def pteFlagsFromSegment (segment_flags : Word) : Word :=
  let pte_flags : Word := 0
  let pte_flags :=
    if segment_flags &&& segmentReadable ≠ 0 then pte_flags ||| pteReadable else pte_flags
  let pte_flags :=
    if segment_flags &&& segmentWritable ≠ 0 then pte_flags ||| pteWritable else pte_flags
  if segment_flags &&& segmentExecutable ≠ 0 then pte_flags ||| pteExecutable else pte_flags

/-! ## The segment loop -/

/-- The conditions under which the loop returns false before it prepares anything. -/
def segmentRefused (image : Image) (segment : ModuleSegment) : Bool :=
  segment.memorySize == 0 || segment.memorySize < segment.fileSize ||
    segment.flags &&& ~~~(segmentReadable ||| segmentWritable ||| segmentExecutable) != 0 ||
    (segment.flags &&& segmentExecutable != 0 && segment.flags &&& segmentReadable == 0) ||
    segment.virtualAddress < userImageBase ||
    userStackBottom ≤ segment.virtualAddress ||
    userStackBottom - segment.virtualAddress < segment.memorySize ||
    !imageRangeValid segment.dataOffset segment.fileSize image.size

def entryExecutable (entry_vaddr : Word) (segment : ModuleSegment) : Bool :=
  segment.flags &&& segmentExecutable != 0 && 4 ≤ segment.fileSize &&
    segment.virtualAddress ≤ entry_vaddr &&
    entry_vaddr - segment.virtualAddress ≤ segment.fileSize - 4

/-- After some passes: the load has failed, or it goes on with a value of
`entry_is_executable`. -/
inductive LoadStep where
  | failed (m : Mem)
  | running (m : Mem) (entry_is_executable : Bool)

variable (L : Layout) (image : Image)

def loadSegment (entry_vaddr : Word) (m : Mem) (entry_is_executable : Bool)
    (segment : ModuleSegment) : Option LoadStep :=
  if segmentRefused image segment then some (.failed m)
  else do
    let pte_flags := pteFlagsFromSegment segment.flags
    let (prepared, m) ←
      prepareUserRange L m segment.virtualAddress segment.memorySize pte_flags
    if !prepared then some (.failed m) else
    let (zeroed, m) ←
      writeUserRange L image m segment.virtualAddress none segment.memorySize
    if !zeroed then some (.failed m) else
    let (copied, m) ←
      writeUserRange L image m segment.virtualAddress (some segment.dataOffset) segment.fileSize
    if !copied then some (.failed m) else
    some (.running m (entry_is_executable || entryExecutable entry_vaddr segment))

def loadSegments (record : ModuleRecord) (m : Mem) : Nat → Option LoadStep
  | 0 => some (.running m false)
  | index + 1 => do
    match ← loadSegments record m index with
    | .failed m => some (.failed m)
    | .running m entry_is_executable =>
      let segment ←
        image.moduleSegment (record.segmentTableOffset + BitVec.ofNat 32 (32 * index))
      loadSegment L image record.entryVaddr m entry_is_executable segment

/-! ## The table -/

def installPages (m : Mem) : Nat → Mem
  | 0 => m
  | index + 1 =>
    let m := installPages m index
    let table_index := ((userPageVaddr L m index >>> 12) &&& 1023).toNat
    storeWord m (L.paddr .userPageTable (4 * table_index))
      (kernelVaddrToPaddr (L.addr .userImagePages + BitVec.ofNat 32 (4096 * index)) |||
        pteValid ||| pteUser ||| userPageFlag L m index)

/-- The user table and stack empty, and no page registered. -/
def clearUserSpace (m : Mem) : Mem :=
  let m := zeroBytes m (L.paddr .userPageTable 0) 4096
  let m := zeroBytes m (L.paddr .userStack 0) 4096
  storeWord m (L.paddr .userPageCount 0) 0

/-- The table of the registered pages and the stack, linked into the directory. -/
def installUserSpace (m : Mem) : Mem :=
  let m := installPages L m (userPageCount L m).toNat
  let m := storeWord m
    (L.paddr .userPageTable (4 * ((userStackBottom >>> 12) &&& 1023).toNat))
    (kernelVaddrToPaddr (L.addr .userStack) ||| pteValid ||| pteUser ||| pteReadable |||
      pteWritable)
  setDirectoryEntry m (userImageBase >>> 22)
    (kernelVaddrToPaddr (L.addr .userPageTable) ||| pdeValid)

def loadUserModule (m : Mem) (moduleOffset : Word) : Option (Bool × Mem) := do
  let record ← image.moduleRecord moduleOffset
  if record.segmentCount = 0 ||
      !imageRecordsValid record.segmentTableOffset record.segmentCount image.size ||
      record.entryVaddr &&& 3 ≠ 0 then
    some (false, m)
  else
    let m := clearUserSpace L m
    match ← loadSegments L image record m record.segmentCount.toNat with
    | .failed m => some (false, m)
    | .running m entry_is_executable =>
      if !entry_is_executable then some (false, m) else some (true, installUserSpace L m)

end Minemu.Hello
