import Minemu.Hello.Main

/-!
# The memory of user code

What user code finds when the kernel enters user mode, byte by byte and with the
permissions, is a function of the module's segments.
-/

namespace Minemu.Hello

open Minemu.Lib.Memory Minemu.Lib.Page Minemu.Lib.Registry Minemu.Platform
open Minemu.Startup.BootstrapMap Minemu.Startup.BootstrapWalk

/-- A byte that user code can reach, and what it may do there. -/
structure UserByte where
  byte : Byte
  readable : Bool
  writable : Bool
  executable : Bool
  deriving DecidableEq, Repr

/-- User memory through the page tables. -/
def userView (m : Mem) (v : Word) : Option UserByte := do
  let t ← translateVa m bootstrapRoot v
  if t.user then some ⟨m t.paddr, t.readable, t.writable, t.executable⟩ else none

def TouchesPage (s : ModuleSegment) (v : Word) : Prop :=
  s.virtualAddress.toNat / 4096 ≤ v.toNat / 4096 ∧
    v.toNat / 4096 * 4096 < s.virtualAddress.toNat + s.memorySize.toNat

instance (s : ModuleSegment) (v : Word) : Decidable (TouchesPage s v) :=
  inferInstanceAs (Decidable (_ ∧ _))

/-- The program that a module is: the pages of its segments, and an empty stack page
below `0x00800000`. -/
def programView (image : Image) (segments : List ModuleSegment) (v : Word) : Option UserByte :=
  if pageBase v = userStackBottom then some ⟨0, true, true, false⟩
  else
    (segments.find? fun s => decide (TouchesPage s v)).map fun s =>
      ⟨moduleByte image segments v, s.flags &&& segmentReadable != 0,
        s.flags &&& segmentWritable != 0, s.flags &&& segmentExecutable != 0⟩

theorem touchesPage_iff {image : Image} {s : ModuleSegment} (h : SegmentValid image s) (v : Word) :
    TouchesPage s v ↔ ∃ x, Covers s x ∧ pageBase x = pageBase v := by
  have hmemory := h.memory
  have hhigh := h.high
  simp only [TouchesPage, Covers, pageBase_eq_iff]
  constructor
  · rintro ⟨hlow, hlast⟩
    -- the first byte of the segment, or of the page if that is later
    by_cases hfirst : s.virtualAddress.toNat / 4096 = v.toNat / 4096
    · exact ⟨s.virtualAddress, ⟨Nat.le_refl _, by omega⟩, hfirst⟩
    · have hpage : (pageBase v).toNat = v.toNat / 4096 * 4096 := pageBase_toNat v
      exact ⟨pageBase v, by omega, by omega⟩
  · rintro ⟨x, ⟨hlow, hlast⟩, hpage⟩
    omega

variable {L : Layout} {m : Mem} {image : Image} {boot_info : BootInfo} {moduleOffset : Word}
  {ps : List (Word × Word)}

theorem userView_of_translate {v : Word} {t : Access}
    (ht : translateVa m bootstrapRoot v = some t) (huser : t.user = true) :
    userView m v = some ⟨m t.paddr, t.readable, t.writable, t.executable⟩ := by
  rw [userView, ht, Option.bind_eq_bind, Option.bind_some, if_pos huser]

theorem userView_eq_none {v : Word} (h : ¬ UserMapped m v) : userView m v = none := by
  rw [userView]
  cases ht : translateVa m bootstrapRoot v with
  | none => rfl
  | some t =>
      have huser : t.user ≠ true := fun huser => h ⟨t, ht, huser⟩
      rw [Option.bind_eq_bind, Option.bind_some, if_neg huser]

theorem UserEntered.userView_eq (h : UserEntered L image boot_info moduleOffset ps m) :
    userView m = programView image
      (moduleSegments image (image.moduleRecordAt moduleOffset)) := by
  funext v
  rw [programView]
  by_cases hstack : pageBase v = userStackBottom
  · rw [if_pos hstack, userView_of_translate (h.space.translate_stack hstack) rfl,
      h.space.stackBytes _ (Nat.mod_lt _ (by omega))]
  rw [if_neg hstack]
  cases hfind : (moduleSegments image (image.moduleRecordAt moduleOffset)).find?
      fun s => decide (TouchesPage s v) with
  | some s =>
      have hs := List.mem_of_find?_eq_some hfind
      have htouch : TouchesPage s v := by simpa using List.find?_some hfind
      obtain ⟨x, hx, hpage⟩ := (touchesPage_iff (h.space.valid s hs) v).mp htouch
      obtain ⟨i, hidx, htrans⟩ := h.space.translate_page hs hx hpage
      have hbyte := h.space.bytes v
      rw [userByte, hidx] at hbyte
      rw [userView_of_translate htrans rfl, Option.map_some, ← hbyte]
      rfl
  | none =>
      rw [Option.map_none]
      apply userView_eq_none
      rw [h.userMapped_iff]
      rintro (⟨s, hs, hcov⟩ | hpage)
      · have htouch := (touchesPage_iff (h.space.valid s hs) v).mpr hcov
        exact List.find?_eq_none.mp hfind s hs (decide_eq_true htouch)
      · exact hstack hpage

end Minemu.Hello
