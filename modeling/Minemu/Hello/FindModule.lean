import Minemu.Hello.Image

/-!
# `find_module`

A linear search of the module table for a record whose name lies in the image and
equals the name looked for.
-/

namespace Minemu.Hello

open Minemu.Lib.Memory Minemu.Platform

variable (image : Image)

/-- `bytes_equal(image + left, right, length)`, which stops at the first difference. -/
def bytesEqual : Word → List Byte → Option Bool
  | _, [] => some true
  | left, b :: right => do
    let a ← image.byte left
    if a ≠ b then some false else bytesEqual (left + 1) right

def moduleNamed (name : List Byte) (record : ModuleRecord) : Option Bool :=
  if record.nameLength = BitVec.ofNat 32 name.length &&
      imageRangeValid record.nameOffset record.nameLength image.size then
    bytesEqual image record.nameOffset name
  else some false

def findModuleFrom (moduleTableOffset : Word) (name : List Byte) :
    Nat → Nat → Option (Option Word)
  | 0, _ => some none
  | remaining + 1, index => do
    let moduleOffset := moduleTableOffset + BitVec.ofNat 32 (32 * index)
    let record ← image.moduleRecord moduleOffset
    if ← moduleNamed image name record then some (some moduleOffset)
    else findModuleFrom moduleTableOffset name remaining (index + 1)

/-- The offset of the module's record, or `none` for a null pointer. -/
def findModule (boot_info : BootInfo) (name : List Byte) : Option (Option Word) :=
  if !imageRecordsValid boot_info.moduleTableOffset boot_info.moduleCount image.size then
    some none
  else
    findModuleFrom image boot_info.moduleTableOffset name boot_info.moduleCount.toNat 0

/-! ## The search -/

variable {image}

theorem bytesEqual_eq_some (name : List Byte) {left : Word}
    (h : left.toNat + name.length ≤ image.size.toNat) :
    bytesEqual image left name = some (decide (∀ k, (hk : k < name.length) →
      image.bytes (left + BitVec.ofNat 32 k) = name.get ⟨k, hk⟩)) := by
  have hsize := image.size.isLt
  induction name generalizing left with
  | nil => simp [bytesEqual]
  | cons b name ih =>
      rw [List.length_cons] at h
      have hfirst : image.byte left = some (image.bytes left) := image.byte_eq_some (by omega)
      rw [bytesEqual, hfirst, Option.bind_eq_bind, Option.bind_some]
      by_cases hb : image.bytes left = b
      · rw [if_neg (not_not.mpr hb), ih (by bv_omega)]
        congr 2
        apply propext
        constructor
        · intro hrest k hk
          cases k with
          | zero => simpa using hb
          | succ k =>
              have hnext := hrest k (by simpa using hk)
              rw [show left + 1 + BitVec.ofNat 32 k = left + BitVec.ofNat 32 (k + 1) by bv_omega]
                at hnext
              simpa using hnext
        · intro hall k hk
          have hnext := hall (k + 1) (by simpa using hk)
          rw [show left + 1 + BitVec.ofNat 32 k = left + BitVec.ofNat 32 (k + 1) by bv_omega]
          simpa using hnext
      · rw [if_pos hb, eq_comm, Option.some.injEq, decide_eq_false_iff_not]
        intro hall
        exact hb (by simpa using hall 0 (by simp))

/-- A record has the name, inside the image. -/
def Named (image : Image) (name : List Byte) (record : ModuleRecord) : Prop :=
  record.nameLength = BitVec.ofNat 32 name.length ∧
    record.nameOffset.toNat + record.nameLength.toNat ≤ image.size.toNat ∧
    ∀ k, (hk : k < name.length) →
      image.bytes (record.nameOffset + BitVec.ofNat 32 k) = name.get ⟨k, hk⟩

instance (name : List Byte) (record : ModuleRecord) : Decidable (Named image name record) :=
  inferInstanceAs (Decidable (_ ∧ _ ∧ _))

theorem moduleNamed_eq_some {name : List Byte} (hname : name.length < 2 ^ 32)
    (record : ModuleRecord) :
    moduleNamed image name record = some (decide (Named image name record)) := by
  have hrange := imageRangeValid_iff record.nameOffset record.nameLength image.size
  rw [moduleNamed]
  split
  · rename_i hcond
    rw [Bool.and_eq_true, decide_eq_true_eq, hrange] at hcond
    obtain ⟨hlen, hin⟩ := hcond
    have hfits : record.nameOffset.toNat + name.length ≤ image.size.toNat := by
      rw [hlen] at hin
      bv_omega
    rw [bytesEqual_eq_some name hfits]
    congr 2
    exact propext ⟨fun hbytes => ⟨hlen, hin, hbytes⟩, fun h => h.2.2⟩
  · rename_i hcond
    rw [Bool.and_eq_true, decide_eq_true_eq, hrange] at hcond
    rw [decide_eq_false (fun h => hcond ⟨h.1, h.2.1⟩)]

/-- The search from `index` on returns the first record with the name. -/
theorem findModuleFrom_spec {name : List Byte} (hname : name.length < 2 ^ 32) {table : Word}
    {n remaining index : Nat} (hn : index + remaining = n)
    (htable : table.toNat + 32 * n ≤ image.size.toNat) :
    (∃ i, index ≤ i ∧ i < n ∧
      Named image name (image.moduleRecordAt (table + BitVec.ofNat 32 (32 * i))) ∧
      (∀ j, index ≤ j → j < i →
        ¬ Named image name (image.moduleRecordAt (table + BitVec.ofNat 32 (32 * j)))) ∧
      findModuleFrom image table name remaining index =
        some (some (table + BitVec.ofNat 32 (32 * i)))) ∨
    ((∀ j, index ≤ j → j < n →
        ¬ Named image name (image.moduleRecordAt (table + BitVec.ofNat 32 (32 * j)))) ∧
      findModuleFrom image table name remaining index = some none) := by
  have hsize := image.size.isLt
  induction remaining generalizing index with
  | zero => exact Or.inr ⟨fun j hj hj' => by omega, rfl⟩
  | succ remaining ih =>
      have hread := image.moduleRecord_eq_some
        (show (table + BitVec.ofNat 32 (32 * index)).toNat + 32 ≤ image.size.toNat by bv_omega)
      have hpass : findModuleFrom image table name (remaining + 1) index =
          if Named image name (image.moduleRecordAt (table + BitVec.ofNat 32 (32 * index))) then
            some (some (table + BitVec.ofNat 32 (32 * index)))
          else findModuleFrom image table name remaining (index + 1) := by
        simp [findModuleFrom, hread, moduleNamed_eq_some hname]
      rw [hpass]
      by_cases hnamed : Named image name
          (image.moduleRecordAt (table + BitVec.ofNat 32 (32 * index)))
      · exact Or.inl ⟨index, Nat.le_refl _, by omega, hnamed, fun j hj hj' => by omega,
          if_pos hnamed⟩
      · rw [if_neg hnamed]
        have hfirst : ∀ j, index ≤ j → (index + 1 ≤ j →
            ¬ Named image name (image.moduleRecordAt (table + BitVec.ofNat 32 (32 * j)))) →
            ¬ Named image name (image.moduleRecordAt (table + BitVec.ofNat 32 (32 * j))) := by
          intro j hj hlater
          by_cases heq : j = index
          · rw [heq]
            exact hnamed
          · exact hlater (by omega)
        rcases ih (show (index + 1) + remaining = n by omega) with
          ⟨i, hle, hlt, hfound, hbefore, hrun⟩ | ⟨hnone, hrun⟩
        · exact Or.inl ⟨i, by omega, hlt, hfound,
            fun j hj hj' => hfirst j hj (fun hle => hbefore j hle hj'), hrun⟩
        · exact Or.inr ⟨fun j hj hj' => hfirst j hj (fun hle => hnone j hle hj'), hrun⟩

/-- What `find_module` returns, if not null, is a record of the table inside the image. -/
theorem findModule_inside {boot_info : BootInfo} {name : List Byte}
    (hname : name.length < 2 ^ 32) :
    findModule image boot_info name = some none ∨
      ∃ offset, findModule image boot_info name = some (some offset) ∧
        offset.toNat + 32 ≤ image.size.toNat := by
  have hrecords := imageRecordsValid_iff boot_info.moduleTableOffset boot_info.moduleCount
    image.size
  have hsize := image.size.isLt
  rw [findModule]
  split
  · exact Or.inl rfl
  · rename_i hvalid
    simp only [Bool.not_eq_true', Bool.not_eq_false, hrecords] at hvalid
    rcases findModuleFrom_spec hname (show 0 + boot_info.moduleCount.toNat =
        boot_info.moduleCount.toNat by omega) hvalid with ⟨i, -, hi, -, -, hrun⟩ | ⟨-, hrun⟩
    · refine Or.inr ⟨_, hrun, ?_⟩
      bv_omega
    · exact Or.inl hrun

/-! ## The first match -/

def TableFits (image : Image) (boot_info : BootInfo) : Prop :=
  boot_info.moduleTableOffset.toNat + 32 * boot_info.moduleCount.toNat ≤ image.size.toNat

def recordOffset (boot_info : BootInfo) (i : Nat) : Word :=
  boot_info.moduleTableOffset + BitVec.ofNat 32 (32 * i)

structure FirstNamed (image : Image) (boot_info : BootInfo) (name : List Byte) (i : Nat) :
    Prop where
  index : i < boot_info.moduleCount.toNat
  named : Named image name (image.moduleRecordAt (recordOffset boot_info i))
  first : ∀ j < i, ¬ Named image name (image.moduleRecordAt (recordOffset boot_info j))

theorem findModule_of_fits {boot_info : BootInfo} {name : List Byte}
    (hname : name.length < 2 ^ 32) (hfits : TableFits image boot_info) :
    (∃ i, FirstNamed image boot_info name i ∧
      findModule image boot_info name = some (some (recordOffset boot_info i))) ∨
    ((∀ i < boot_info.moduleCount.toNat,
        ¬ Named image name (image.moduleRecordAt (recordOffset boot_info i))) ∧
      findModule image boot_info name = some none) := by
  have hvalid := (imageRecordsValid_iff boot_info.moduleTableOffset boot_info.moduleCount
    image.size).mpr hfits
  rw [findModule, hvalid]
  rcases findModuleFrom_spec hname (show 0 + boot_info.moduleCount.toNat =
      boot_info.moduleCount.toNat by omega) hfits with
      ⟨i, -, hi, hnamed, hfirst, hrun⟩ | ⟨hnone, hrun⟩
  · exact Or.inl ⟨i, ⟨hi, hnamed, fun j hj => hfirst j (Nat.zero_le j) hj⟩, hrun⟩
  · exact Or.inr ⟨fun i hi => hnone i (Nat.zero_le i) hi, hrun⟩

theorem findModule_of_not_fits {boot_info : BootInfo} (name : List Byte)
    (hfits : ¬ TableFits image boot_info) : findModule image boot_info name = some none := by
  have hinvalid : imageRecordsValid boot_info.moduleTableOffset boot_info.moduleCount image.size =
      false := by
    rw [← Bool.not_eq_true]
    exact mt (imageRecordsValid_iff _ _ _).mp hfits
  rw [findModule, hinvalid]
  rfl

theorem FirstNamed.unique {boot_info : BootInfo} {name : List Byte} {i j : Nat}
    (h : FirstNamed image boot_info name i) (h' : FirstNamed image boot_info name j) : i = j := by
  rcases Nat.lt_trichotomy i j with hlt | heq | hlt
  · exact absurd h.named (h'.first i hlt)
  · exact heq
  · exact absurd h'.named (h.first j hlt)

/-- The search returns the first record whose name lies in the image and is the name
looked for, and a null pointer if there is none or the table does not fit. -/
theorem findModule_first (rom : Mem) (boot_info : BootInfo) {name : List Byte}
    (hname : name.length < 2 ^ 32) :
    (∀ offset, findModule ⟨rom, boot_info.imageSize⟩ boot_info name = some (some offset) ↔
      TableFits ⟨rom, boot_info.imageSize⟩ boot_info ∧
        ∃ i, FirstNamed ⟨rom, boot_info.imageSize⟩ boot_info name i ∧
          offset = recordOffset boot_info i) ∧
    (findModule ⟨rom, boot_info.imageSize⟩ boot_info name = some none ↔
      ¬ TableFits ⟨rom, boot_info.imageSize⟩ boot_info ∨
        ∀ i < boot_info.moduleCount.toNat, ¬ Named ⟨rom, boot_info.imageSize⟩ name
          (Image.moduleRecordAt ⟨rom, boot_info.imageSize⟩ (recordOffset boot_info i))) := by
  generalize (⟨rom, boot_info.imageSize⟩ : Image) = image
  by_cases hfits : TableFits image boot_info
  · rcases findModule_of_fits hname hfits with ⟨i, hi, hrun⟩ | ⟨hnone, hrun⟩
    · rw [hrun]
      refine ⟨fun offset => ⟨fun h => ⟨hfits, i, hi, ?_⟩, ?_⟩, ?_⟩
      · exact (Option.some.inj (Option.some.inj h)).symm
      · rintro ⟨-, j, hj, rfl⟩
        rw [hi.unique hj]
      · simp only [Option.some.injEq, reduceCtorEq, hfits, not_true_eq_false, false_or, false_iff]
        exact fun hnone => hnone i hi.index hi.named
    · rw [hrun]
      refine ⟨fun offset => ⟨fun h => absurd h (by simp), ?_⟩, fun _ => Or.inr hnone, fun _ => rfl⟩
      rintro ⟨-, i, hi, -⟩
      exact absurd hi.named (hnone i hi.index)
  · rw [findModule_of_not_fits name hfits]
    refine ⟨fun offset => ⟨fun h => absurd h (by simp), fun h => absurd h.1 hfits⟩,
      fun _ => Or.inl hfits, fun _ => rfl⟩

/-- An image with two records: the name of the first lies outside, the second is `a`. -/
def twoRecordsRom : Mem :=
  let m := storeWord (fun _ => 0) 0x10 0xffffffff
  let m := storeWord m 0x14 1
  let m := storeWord m 0x30 0x50
  let m := storeWord m 0x34 1
  storeWord m 0x50 0x61

def twoRecordsBootInfo : BootInfo where
  magic := bootInfoMagic
  version := abiVersion
  size := sizeofBootInfo
  systemRomBase := systemRomBase
  imageSize := 0x51
  moduleTableOffset := 0x10
  moduleCount := 2
  directMapVaddr := kernelDirectBase
  directMapPaddr := ramBase
  directMapSize := kernelDirectSize
  flags := 0
  reserved := fun _ => 0

theorem findModule_first_twoRecords :
    findModule ⟨twoRecordsRom, 0x51⟩ twoRecordsBootInfo [0x61] = some (some 0x30) := by
  refine ((findModule_first twoRecordsRom twoRecordsBootInfo
    (show [0x61].length < 2 ^ 32 by decide)).1 0x30).mpr ⟨?_, 1, ⟨?_, ?_, ?_⟩, ?_⟩
  · rw [TableFits]
    decide
  · decide
  · decide +kernel
  · decide +kernel
  · decide

end Minemu.Hello
