import Minemu.Headless.Attainable
import Mathlib.Logic.Function.Basic

/-!
# `headless/block`: two units behind one controller

A ledger replays the conversation on an ideal RAM and two ideal units: a READ copies as
many sectors as the guest asked for to the DMA address it gave, a WRITE copies them back,
and a command that the guest finds to have failed did nothing.  In a passing run every
byte that the guest loads is the byte of the ideal RAM.
-/

namespace Minemu.Headless.Block

open Minemu.Lib.Memory Minemu.Lib.Guest Minemu.Platform

structure Dma where
  base : Word
  low : 0xc0000000 ≤ base.toNat
  high : base.toNat + 512 ≤ 0xc4000000

instance : Inhabited Dma := ⟨⟨0xc0200000, by decide, by decide⟩⟩

variable (dma : Dma)

def Dma.byte (i : Nat) : Word := dma.base + BitVec.ofNat 32 i

/-! ## `block.c` -/

def transferError : Code Unit Word := do
  let status ← read blockStatus
  if status &&& blockStatusError != 0 then read blockError else pure blockErrorNone

/-- IRQs as they were when `cpsr` was read. -/
def restoreIrq (cpsr : Word) : Code Unit Unit :=
  if cpsr &&& 0x80 == 0 then cpsieI else pure ()

def minemuBlockTransfer (operation unit lba sector_count dma_paddr : Word) :
    Code Unit Word := do
  let cpsr ← sense
  cpsidI
  write blockUnit unit
  write blockLba lba
  write blockSectorCount sector_count
  write blockDmaPaddr dma_paddr
  write blockCommand operation
  let _ ← Prog.await (.read blockStatus) fun v => v &&& blockStatusComplete == 0
  let error ← transferError
  write blockAckRegister blockAck
  restoreIrq cpsr
  pure error

def minemuBlockRead (unit lba sector_count dma_paddr : Word) : Code Unit Word :=
  minemuBlockTransfer blockCommandRead unit lba sector_count dma_paddr

def minemuBlockWrite (unit lba sector_count dma_paddr : Word) : Code Unit Word :=
  minemuBlockTransfer blockCommandWrite unit lba sector_count dma_paddr

/-! ## The case -/

def minemuBlockExact32 (operation : Word) : Code Unit (Word × Word) := do
  write blockCommand operation
  let first ← read blockStatus
  let second ← read blockStatus
  pure (first, second)

def waitComplete (expected_error : Word) : Code Unit Unit := do
  let _ ← Prog.await (.read blockStatus) fun v => v &&& blockStatusComplete == 0
  let error ← read blockError
  if error != expected_error then
    let error ← read blockError
    minemuTraceEvent (0xe0030000 ||| (expected_error <<< 8 ||| error))
    minemuConformanceFail (10 + expected_error)
  let status ← read blockStatus
  minemuRequire ((status &&& blockStatusError != 0) == (expected_error != blockErrorNone))
    (20 + expected_error)
  write blockAckRegister blockAck

def command (unit operation lba sectors address : Word) : Code Unit Unit := do
  write blockUnit unit
  write blockLba lba
  write blockSectorCount sectors
  write blockDmaPaddr address
  write blockCommand operation

def exactCommand (unit operation lba sectors address expected_error : Word) :
    Code Unit Unit := do
  write blockUnit unit
  write blockLba lba
  write blockSectorCount sectors
  write blockDmaPaddr address
  let (first, second) ← minemuBlockExact32 operation
  minemuRequire (first == blockStatusBusy) 6
  minemuRequire (second &&& blockStatusBusy == 0 && second &&& blockStatusComplete != 0) 7
  waitComplete expected_error

/-- `for (i = 0; i < sizeof(dma); ++i) dma[i] = value` -/
def fill (value : Word) : Code Unit Unit :=
  Prog.forUpTo (fun i => write (dma.byte i) value) 512

/-- `for (i = 0; i < sizeof(dma); ++i) MINEMU_REQUIRE(dma[i] == value, code)` -/
def check (value code : Word) : Code Unit Unit :=
  Prog.forUpTo (fun i => do
    let b ← readByte (dma.byte i)
    minemuRequire (b == value) code) 512

/-- The body of the loop over the units with IRQs enabled at the controller. -/
def checkInterrupt (dma_paddr unit : Word) : Code Unit Unit := do
  command unit blockCommandRead 0 1 dma_paddr
  let _ ← Prog.await (.read blockStatus) fun v => v &&& blockStatusComplete == 0
  let pending ← read interruptPending
  minemuRequire (pending &&& (1 <<< 3) != 0) (30 + unit * 3)
  let claim ← read interruptClaimRegister
  minemuRequire (claim == irqBlock) (31 + unit * 3)
  write blockAckRegister blockAck
  write interruptEoi irqBlock
  let pending ← read interruptPending
  minemuRequire (pending &&& (1 <<< 3) == 0) (32 + unit * 3)

def minemuKernelMain : Code Unit Unit := do
  let dma_paddr := minemuTestPaddr dma.base
  let unit ← read blockUnit
  minemuRequire (unit == blockUnitFilesystem) 1
  exactCommand blockUnitFilesystem blockCommandRead 0 1 dma_paddr blockErrorNone
  Prog.forUpTo (fun i => do
    let b ← readByte (dma.byte i)
    minemuRequire (b == 0) 2
    write (dma.byte i) 0xa5) 512
  exactCommand blockUnitFilesystem blockCommandWrite 1 1 dma_paddr blockErrorNone
  fill dma 0x5a
  exactCommand blockUnitSwap blockCommandWrite 1 1 dma_paddr blockErrorNone
  fill dma 0
  exactCommand blockUnitFilesystem blockCommandRead 1 1 dma_paddr blockErrorNone
  check dma 0xa5 4
  exactCommand blockUnitSwap blockCommandRead 1 1 dma_paddr blockErrorNone
  check dma 0x5a 8
  exactCommand blockUnitFilesystem 99 0 1 dma_paddr blockErrorInvalidCommand
  exactCommand blockUnitFilesystem blockCommandRead 0 1 (dma_paddr + 1) blockErrorInvalidDma
  exactCommand blockUnitFilesystem blockCommandRead 2 1 dma_paddr blockErrorInvalidLba
  exactCommand 2 blockCommandRead 0 1 dma_paddr blockErrorInvalidUnit
  fill dma 0
  command blockUnitFilesystem blockCommandRead 1 1 dma_paddr
  write blockUnit blockUnitSwap
  write blockCommand blockCommandRead
  let error ← read blockError
  minemuRequire (error == blockErrorBusy) 5
  write blockAckRegister blockAck
  waitComplete blockErrorNone
  let unit ← read blockUnit
  minemuRequire (unit == blockUnitSwap) 9
  check dma 0xa5 11
  write interruptEnable (1 <<< 3)
  write blockControl blockControlIrqEnable
  Prog.forUpTo (fun unit => checkInterrupt dma_paddr (BitVec.ofNat 32 unit)) 2
  fill dma 0x3c
  let error ← minemuBlockWrite blockUnitSwap 0 1 dma_paddr
  minemuRequire (error == blockErrorNone) 40
  fill dma 0
  let error ← minemuBlockRead blockUnitSwap 0 1 dma_paddr
  minemuRequire (error == blockErrorNone) 41
  check dma 0x3c 42
  let error ← minemuBlockRead 2 0 1 dma_paddr
  minemuRequire (error == blockErrorInvalidUnit) 43
  let status ← read blockStatus
  minemuRequire (status &&& (blockStatusComplete ||| blockStatusError) == 0) 44
  minemuTraceEvent 0x20030001
  minemuFailStop

def program : Case Unit where
  globals := ()
  minemuKernelMain := minemuKernelMain dma
  dispatch := weakDispatch
  traceValues := [0x20030001]
  codes := [1, 2, 4, 5, 6, 7, 8, 9, 10, 11, 13, 14, 15, 17, 20, 23, 24, 25, 27,
    30, 31, 32, 33, 34, 35, 40, 41, 42, 43, 44]
  diagnostics := [0xe0030000]

/-! ## The ideal store -/

abbrev Sector : Type := Fin 512 → Word

abbrev Media : Type := Word → Word → Sector

def Media.put (media : Media) (unit lba : Word) (s : Sector) : Media :=
  Function.update media unit (Function.update (media unit) lba s)

structure Arguments where
  unit : Word
  lba : Word
  sectorCount : Word
  dmaPaddr : Word
  deriving DecidableEq

/-- A value of the command register, and the arguments it was written with. -/
abbrev Issued : Type := Word × Arguments

structure Ledger where
  arguments : Arguments
  /-- Bytes by physical address. -/
  ram : Word → Word
  media : Media
  /-- RAM and media before the last command. -/
  before : (Word → Word) × Media
  last : Issued
  /-- The commands that failed, with their errors. -/
  refused : List (Issued × Word)
  /-- The answers of the interrupt controller to claims. -/
  claims : List Word
  /-- How many bytes of RAM have been loaded. -/
  loads : Nat
  /-- Every load so far gave what RAM holds. -/
  agrees : Bool

def InDirectMap (a : Word) : Prop := 0xc0000000 ≤ a ∧ a < 0xc4000000

instance (a : Word) : Decidable (InDirectMap a) := inferInstanceAs (Decidable (_ ∧ _))

namespace Ledger

/-- RAM after a READ: the sectors from the LBA on, from the DMA address on. -/
def readSectors (l : Ledger) (a : Word) : Word :=
  let k := (a - l.arguments.dmaPaddr).toNat
  if k < 512 * l.arguments.sectorCount.toNat then
    l.media l.arguments.unit (l.arguments.lba + BitVec.ofNat 32 (k / 512))
      ⟨k % 512, Nat.mod_lt k (by decide)⟩
  else l.ram a

/-- The media after a WRITE: the bytes from the DMA address on, in the sectors from the
LBA on. -/
def writeSectors (l : Ledger) : Media := fun unit lba i =>
  let k := (lba - l.arguments.lba).toNat
  if unit = l.arguments.unit ∧ k < l.arguments.sectorCount.toNat then
    l.ram (l.arguments.dmaPaddr + BitVec.ofNat 32 (512 * k + i))
  else l.media unit lba i

/-- What a command does if it succeeds. -/
def perform (l : Ledger) (operation : Word) : Ledger :=
  { l with
    last := (operation, l.arguments)
    before := (l.ram, l.media)
    ram := if operation = blockCommandRead then l.readSectors else l.ram
    media := if operation = blockCommandWrite then l.writeSectors else l.media }

/-- The guest finds an error: the last command did nothing. -/
def refuse (l : Ledger) (error : Word) : Ledger :=
  { l with
    ram := l.before.1
    media := l.before.2
    refused := l.refused ++ [(l.last, error)] }

def store (l : Ledger) (a x : Word) : Ledger := { l with ram := Function.update l.ram a x }

def load (l : Ledger) (a x : Word) : Ledger :=
  { l with
    loads := l.loads + 1
    agrees := l.agrees && x == l.ram a }

def writeDevice (l : Ledger) (a x : Word) : Ledger :=
  if a = blockUnit then { l with arguments.unit := x }
  else if a = blockLba then { l with arguments.lba := x }
  else if a = blockSectorCount then { l with arguments.sectorCount := x }
  else if a = blockDmaPaddr then { l with arguments.dmaPaddr := x }
  else if a = blockCommand then l.perform x
  else l

def step (l : Ledger) : Access → Ledger
  | .read a x =>
      if InDirectMap a then l.load (minemuTestPaddr a) x
      else if a = blockError ∧ x ≠ blockErrorNone then l.refuse x
      else if a = interruptClaimRegister then { l with claims := l.claims ++ [x] }
      else l
  | .write a x =>
      if InDirectMap a then l.store (minemuTestPaddr a) x else l.writeDevice a x
  | _ => l

end Ledger

/-- The buffer and both media images are zero when the case starts. -/
def ledger : Monitor Ledger where
  init := ⟨⟨0, 0, 0, 0⟩, fun _ => 0, fun _ _ _ => 0, (fun _ => 0, fun _ _ _ => 0),
    (0, ⟨0, 0, 0, 0⟩), [], [], 0, true⟩
  step := Ledger.step

def expectedRefusals : List (Issued × Word) :=
  let dma_paddr := minemuTestPaddr dma.base
  [((99, ⟨blockUnitFilesystem, 0, 1, dma_paddr⟩), blockErrorInvalidCommand),
    ((blockCommandRead, ⟨blockUnitFilesystem, 0, 1, dma_paddr + 1⟩), blockErrorInvalidDma),
    ((blockCommandRead, ⟨blockUnitFilesystem, 2, 1, dma_paddr⟩), blockErrorInvalidLba),
    ((blockCommandRead, ⟨2, 0, 1, dma_paddr⟩), blockErrorInvalidUnit),
    ((blockCommandRead, ⟨blockUnitSwap, 1, 1, dma_paddr⟩), blockErrorBusy),
    ((blockCommandRead, ⟨2, 0, 1, dma_paddr⟩), blockErrorInvalidUnit)]

/-- The guest has read back five sectors.  Every load agreed with the ideal RAM, the second
sectors of the ideal media are what the host looks for in the images, the commands that
failed are the expected ones, and each unit has raised the block interrupt. -/
def Passed (w : World Unit) : Prop :=
  let l := ledger.watch w.log
  l.loads = 5 * 512 ∧ l.agrees = true ∧ (∀ i, l.media blockUnitFilesystem 1 i = 0xa5) ∧
    (∀ i, l.media blockUnitSwap 1 i = 0x5a) ∧ l.refused = expectedRefusals dma ∧
      l.claims = [irqBlock, irqBlock]

/-! ## The ledger, access by access -/

theorem program_weak : (program dma).Weak :=
  ⟨⟨by simp [program], by simp [program]⟩, rfl⟩

theorem program_pending : (program dma).Pending [] := by
  show [] <+: [_] ∧ [] ≠ [_]
  simp

variable {dma} {l : Ledger} {Q : Unit → World Unit → Prop}

theorem not_inDirectMap {a : Word} (ha : a.toNat < 0x20000000) : ¬ InDirectMap a := by
  rintro ⟨hlow, -⟩
  rw [BitVec.le_def] at hlow
  exact absurd hlow (by simp only [BitVec.reduceToNat]; omega)

theorem Dma.inDirectMap {i : Nat} (hi : i < 512) : InDirectMap (dma.byte i) := by
  have hlow := dma.low
  have hhigh := dma.high
  rw [InDirectMap, Dma.byte, BitVec.le_def, BitVec.lt_def]
  constructor
  · bv_omega
  · bv_omega

theorem Dma.byte_ne_trace {i : Nat} (hi : i < 512) : dma.byte i ≠ traceBase := by
  have hlow := dma.low
  have hhigh := dma.high
  rw [Dma.byte, traceBase]
  bv_omega

def Dma.paddr (dma : Dma) (i : Nat) : Word := minemuTestPaddr dma.base + BitVec.ofNat 32 i

theorem Dma.minemuTestPaddr_byte (i : Nat) : minemuTestPaddr (dma.byte i) = dma.paddr i := by
  rw [minemuTestPaddr, Dma.byte, Dma.paddr, minemuTestPaddr]
  bv_omega

theorem Dma.paddr_sub (dma : Dma) {i : Nat} (hi : i < 512) :
    (dma.paddr i - minemuTestPaddr dma.base).toNat = i := by
  rw [Dma.paddr]
  bv_omega

theorem Dma.paddr_inj {i j : Nat} (hi : i < 512) (hj : j < 512) (h : dma.paddr i = dma.paddr j) :
    i = j := by
  rw [← dma.paddr_sub hi, h, dma.paddr_sub hj]

theorem ledger_step (x : Access) : ledger.step l x = Ledger.step l x := rfl

theorem step_read_device {a : Word} (ha : a.toNat < 0x20000000) (hne : a ≠ blockError)
    (hclaim : a ≠ interruptClaimRegister) (x : Word) : ledger.step l (.read a x) = l := by
  rw [ledger_step, Ledger.step, if_neg (not_inDirectMap ha), if_neg fun h => hne h.1,
    if_neg hclaim]

theorem step_read_claim (x : Word) :
    ledger.step l (.read interruptClaimRegister x) = { l with claims := l.claims ++ [x] } := by
  rw [ledger_step, Ledger.step, if_neg (not_inDirectMap (by decide)),
    if_neg fun h => absurd h.1 (by decide), if_pos rfl]

/-- The error that the guest waits for, found in the error register. -/
theorem step_read_error (expected_error : Word) :
    ledger.step l (.read blockError expected_error) =
      if expected_error = blockErrorNone then l else l.refuse expected_error := by
  rw [ledger_step, Ledger.step, if_neg (not_inDirectMap (by decide))]
  by_cases herror : expected_error = blockErrorNone
  · rw [if_neg fun h => h.2 herror, if_neg (by decide), if_pos herror]
  · rw [if_pos ⟨rfl, herror⟩, if_neg herror]

theorem step_write_device {a : Word} (ha : a.toNat < 0x20000000) (x : Word) :
    ledger.step l (.write a x) = l.writeDevice a x := by
  rw [ledger_step, Ledger.step, if_neg (not_inDirectMap ha)]

theorem step_read_byte {i : Nat} (hi : i < 512) (x : Word) :
    ledger.step l (.read (dma.byte i) x) = l.load (dma.paddr i) x := by
  rw [ledger_step, Ledger.step, if_pos (Dma.inDirectMap hi), Dma.minemuTestPaddr_byte]

theorem step_write_byte {i : Nat} (hi : i < 512) (x : Word) :
    ledger.step l (.write (dma.byte i) x) = l.store (dma.paddr i) x := by
  rw [ledger_step, Ledger.step, if_pos (Dma.inDirectMap hi), Dma.minemuTestPaddr_byte]

/-! ## The ledger between two functions of the case -/

/-- What the case knows of a ledger: of RAM the buffer only. -/
structure Summary where
  buffer : Sector
  media : Media
  refused : List (Issued × Word)
  claims : List Word
  loads : Nat

structure Ledger.Has (dma : Dma) (s : Summary) (l : Ledger) : Prop where
  ram : ∀ i : Fin 512, l.ram (dma.paddr i) = s.buffer i
  media : l.media = s.media
  refused : l.refused = s.refused
  claims : l.claims = s.claims
  loads : l.loads = s.loads
  agrees : l.agrees = true

namespace Summary

def done (s : Summary) (operation unit lba : Word) : Summary :=
  { s with
    buffer := if operation = blockCommandRead then s.media unit lba else s.buffer
    media := if operation = blockCommandWrite then s.media.put unit lba s.buffer else s.media }

def failed (s : Summary) (issued : Issued) (error : Word) : Summary :=
  { s with refused := s.refused ++ [(issued, error)] }

end Summary

namespace Ledger.Has

variable {s : Summary}

theorem congr_arguments (h : l.Has dma s) (arguments : Arguments) :
    Ledger.Has dma s { l with arguments := arguments } :=
  ⟨h.ram, h.media, h.refused, h.claims, h.loads, h.agrees⟩

theorem claim (h : l.Has dma s) (x : Word) :
    Ledger.Has dma { s with claims := s.claims ++ [x] } { l with claims := l.claims ++ [x] } :=
  ⟨h.ram, h.media, h.refused, congrArg (· ++ [x]) h.claims, h.loads, h.agrees⟩

theorem store (h : l.Has dma s) (i : Fin 512) (x : Word) :
    (l.store (dma.paddr i) x).Has dma { s with buffer := Function.update s.buffer i x } where
  ram j := by
    show Function.update l.ram (dma.paddr i) x (dma.paddr j) = Function.update s.buffer i x j
    by_cases hj : j = i
    · rw [hj, Function.update_self, Function.update_self]
    · have hne : dma.paddr j ≠ dma.paddr i := fun heq =>
        hj (Fin.ext (Dma.paddr_inj j.isLt i.isLt heq))
      rw [Function.update_of_ne hne, Function.update_of_ne hj]
      exact h.ram j
  media := h.media
  refused := h.refused
  claims := h.claims
  loads := h.loads
  agrees := h.agrees

theorem load (h : l.Has dma s) (i : Fin 512) :
    (l.load (dma.paddr i) (s.buffer i)).Has dma { s with loads := s.loads + 1 } where
  ram := h.ram
  media := h.media
  refused := h.refused
  claims := h.claims
  loads := congrArg (· + 1) h.loads
  agrees := by rw [Ledger.load, h.agrees, h.ram i, beq_self_eq_true, Bool.and_self]

theorem perform (h : l.Has dma s) (operation : Word) {unit lba : Word}
    (harguments : l.arguments = ⟨unit, lba, 1, minemuTestPaddr dma.base⟩) :
    (l.perform operation).Has dma (s.done operation unit lba) where
  ram i := by
    rw [Ledger.perform, Summary.done]
    dsimp only
    split
    · have hoffset := dma.paddr_sub i.isLt
      have hlt : (dma.paddr i - minemuTestPaddr dma.base).toNat < 512 * (1 : Word).toNat := by
        rw [hoffset]
        exact i.isLt
      simp only [Ledger.readSectors, harguments, if_pos hlt, h.media]
      have hlba : lba + BitVec.ofNat 32 ((dma.paddr i - minemuTestPaddr dma.base).toNat / 512) =
          lba := by
        rw [hoffset, Nat.div_eq_of_lt i.isLt]
        exact BitVec.add_zero lba
      rw [hlba]
      congr 1
      exact Fin.ext (by rw [Fin.val_mk, hoffset, Nat.mod_eq_of_lt i.isLt])
    · exact h.ram i
  media := by
    rw [Ledger.perform, Summary.done]
    dsimp only
    split
    · funext unit' lba' i
      have hone : (lba' - lba).toNat < (1 : Word).toNat ↔ lba' = lba := by
        rw [show (1 : Word).toNat = 1 from rfl, Nat.lt_one_iff]
        constructor
        · intro hzero
          bv_omega
        · rintro rfl
          rw [BitVec.sub_self]
          rfl
      simp only [Ledger.writeSectors, harguments, Media.put, hone]
      by_cases hunit : unit' = unit
      · by_cases hlba : lba' = lba
        · rw [if_pos ⟨hunit, hlba⟩, hunit, hlba, Function.update_self, Function.update_self,
            BitVec.sub_self, BitVec.toNat_zero, Nat.mul_zero, Nat.zero_add]
          exact h.ram i
        · rw [if_neg fun h => hlba h.2, hunit, Function.update_self, Function.update_of_ne hlba,
            h.media]
      · rw [if_neg fun h => hunit h.1, Function.update_of_ne hunit, h.media]
    · exact h.media
  refused := h.refused
  claims := h.claims
  loads := h.loads
  agrees := h.agrees

/-- A failed command leaves no trace but its error. -/
theorem refuse (h : l.Has dma s) (operation error : Word) :
    ((l.perform operation).refuse error).Has dma (s.failed (operation, l.arguments) error) where
  ram := h.ram
  media := h.media
  refused := congrArg (· ++ [((operation, l.arguments), error)]) h.refused
  claims := h.claims
  loads := h.loads
  agrees := h.agrees

end Ledger.Has

/-! ## The functions of the case -/

abbrev Spec (dma : Dma) (P : World Unit → Prop) {α : Type} (g : Code Unit α)
    (Q : α → World Unit → Prop) : Prop :=
  Triple (program dma).handlers ((program dma).Invariant (Passed dma)) P g Q

abbrev At (l : Ledger) (w : World Unit) : Prop := Saw ledger [] l w

def Holding (dma : Dma) (s : Summary) (w : World Unit) : Prop := ∃ l, Ledger.Has dma s l ∧ At l w

section

variable {α : Type} {Q : α → World Unit → Prop} {k : Word → Code Unit α} {g : Code Unit α}
  {s : Summary}

theorem of_has (h : ∀ l, Ledger.Has dma s l → Spec dma (At l) g Q) :
    Spec dma (Holding dma s) g Q := by
  refine .of_exists fun l => .of_pre (fun _ hw => hw.1) fun hl => ?_
  exact (h l hl).pre fun _ hw => hw.2

theorem of_holding (hl : l.Has dma s) (h : Spec dma (Holding dma s) g Q) : Spec dma (At l) g Q :=
  h.pre fun _ hw => ⟨l, hl, hw⟩

theorem stable_of_events {P : World Unit → Prop} (hP : ∀ w, P w → w.events = []) :
    Stable (program dma).handlers ((program dma).Invariant (Passed dma)) P :=
  (program_weak dma).stable fun w hw => (program_pending dma).invariant (hP w hw)

theorem stable_at : Stable (program dma).handlers ((program dma).Invariant (Passed dma)) (At l) :=
  stable_of_events fun _ hw => hw.events

theorem Holding.events {w : World Unit} (h : Holding dma s w) : w.events = [] := by
  obtain ⟨l, -, hw⟩ := h
  exact hw.events

theorem stable_holding :
    Stable (program dma).handlers ((program dma).Invariant (Passed dma)) (Holding dma s) :=
  stable_of_events fun _ hw => hw.events

theorem device_read_then {a : Word} (ha : a.toNat < 0x20000000) (hne : a ≠ blockError)
    (hclaim : a ≠ interruptClaimRegister) (hk : ∀ v, Spec dma (At l) (k v) Q) :
    Spec dma (At l) (read a >>= k) Q := by
  refine (program_weak dma).read_then (program_pending dma) fun v => ?_
  rw [step_read_device ha hne hclaim]
  exact hk v

theorem device_await_then {a : Word} {again : Word → Bool} (ha : a.toNat < 0x20000000)
    (hne : a ≠ blockError) (hclaim : a ≠ interruptClaimRegister)
    (hk : ∀ v, Spec dma (At l) (k v) Q) :
    Spec dma (At l) (Prog.await (.read a) again >>= k) Q :=
  (program_weak dma).await_then (program_pending dma)
    (fun v => step_read_device ha hne hclaim v) fun v _ => hk v

theorem device_write_then {a x : Word} (ha : a.toNat < 0x20000000) (hne : a ≠ traceBase)
    {l' : Ledger} (hl : l.writeDevice a x = l') (hg : Spec dma (At l') g Q) :
    Spec dma (At l) (write a x >>= fun _ => g) Q := by
  refine (program_weak dma).write_then (program_pending dma) hne ?_
  rw [step_write_device ha, hl]
  exact hg

theorem require_then {b : Bool} {code : Word} (hcode : code ∈ (program dma).codes)
    (hg : b = true → Spec dma (At l) g Q) :
    Spec dma (At l) (minemuRequire b code >>= fun _ => g) Q :=
  (program_weak dma).require_then (program_pending dma) hcode hg

theorem arguments_then {unit lba sectors address : Word}
    (hg : Spec dma (At { l with arguments := ⟨unit, lba, sectors, address⟩ }) g Q) :
    Spec dma (At l) (write blockUnit unit >>= fun _ => write blockLba lba >>= fun _ =>
      write blockSectorCount sectors >>= fun _ => write blockDmaPaddr address >>= fun _ => g)
      Q := by
  refine device_write_then (by decide) (by decide) rfl ?_
  refine device_write_then (by decide) (by decide) rfl ?_
  refine device_write_then (by decide) (by decide) rfl ?_
  exact device_write_then (by decide) (by decide) rfl hg

theorem waitComplete_then {expected_error : Word}
    (hcode : 10 + expected_error ∈ (program dma).codes)
    (hcode' : 20 + expected_error ∈ (program dma).codes)
    (hg : Spec dma
      (At (if expected_error = blockErrorNone then l else l.refuse expected_error)) g Q) :
    Spec dma (At l) (waitComplete expected_error >>= fun _ => g) Q := by
  unfold waitComplete
  simp only [bind_assoc]
  refine device_await_then (by decide) (by decide) (by decide) fun _ => ?_
  refine (program_weak dma).read_then (program_pending dma) fun error => ?_
  by_cases herror : error = expected_error
  · subst herror
    rw [if_neg (by simp), step_read_error]
    simp only [bind_assoc]
    refine device_read_then (by decide) (by decide) (by decide) fun status => ?_
    refine require_then hcode' fun _ => ?_
    exact device_write_then (by decide) (by decide) rfl hg
  · have hfailing : Stable (program dma).handlers ((program dma).Invariant (Passed dma))
        fun w => (program dma).Failing w.events :=
      (program_weak dma).stable fun w hw => hw.invariant (program_weak dma).expects
    rw [if_pos (by simpa using herror)]
    simp only [bind_assoc]
    refine (program_weak dma).read_then (program_pending dma) fun error => ?_
    refine Triple.alarm_then ((program_weak dma).saw (program_pending dma))
      (Or.inl ⟨_, List.mem_singleton_self _, _, rfl⟩) ?_
    refine Triple.bind (M := fun _ _ => False)
      (Triple.fail (program_weak dma).expects hfailing hcode) fun _ w hw => hw.elim

theorem exactCommand_then {unit operation lba sectors address expected_error : Word}
    (hcode : 10 + expected_error ∈ (program dma).codes)
    (hcode' : 20 + expected_error ∈ (program dma).codes) {l' : Ledger}
    (hl : Ledger.perform { l with arguments := ⟨unit, lba, sectors, address⟩ } operation = l')
    (hg : Spec dma
      (At (if expected_error = blockErrorNone then l' else l'.refuse expected_error)) g Q) :
    Spec dma (At l)
      (exactCommand unit operation lba sectors address expected_error >>= fun _ => g) Q := by
  unfold exactCommand minemuBlockExact32
  simp only [bind_assoc, pure_bind]
  refine arguments_then ?_
  refine device_write_then (by decide) (by decide) hl ?_
  refine device_read_then (by decide) (by decide) (by decide) fun first => ?_
  refine device_read_then (by decide) (by decide) (by decide) fun second => ?_
  refine require_then (by simp [program]) fun _ => ?_
  refine require_then (by simp [program]) fun _ => ?_
  exact waitComplete_then hcode hcode' hg

theorem exactCommand_done {unit operation lba : Word}
    (hg : Spec dma (Holding dma (s.done operation unit lba)) g Q) :
    Spec dma (Holding dma s) (exactCommand unit operation lba 1 (minemuTestPaddr dma.base)
      blockErrorNone >>= fun _ => g) Q := by
  refine of_has fun l hl => exactCommand_then (by simp [program, blockErrorNone])
    (by simp [program, blockErrorNone]) rfl ?_
  rw [if_pos rfl]
  exact of_holding ((hl.congr_arguments _).perform operation rfl) hg

theorem exactCommand_failed {unit operation lba sectors address expected_error : Word}
    (hcode : 10 + expected_error ∈ (program dma).codes)
    (hcode' : 20 + expected_error ∈ (program dma).codes) (herror : expected_error ≠ blockErrorNone)
    (hg : Spec dma (Holding dma
      (s.failed (operation, ⟨unit, lba, sectors, address⟩) expected_error)) g Q) :
    Spec dma (Holding dma s)
      (exactCommand unit operation lba sectors address expected_error >>= fun _ => g) Q := by
  refine of_has fun l hl => exactCommand_then hcode hcode' rfl ?_
  rw [if_neg herror]
  exact of_holding ((hl.congr_arguments _).refuse operation expected_error) hg

/-! ## Loops over the buffer -/

/-- The buffer when the first `i` bytes have been replaced. -/
def overwritten (buffer : Sector) (value : Word) (i : Nat) : Sector :=
  fun j => if j.val < i then value else buffer j

theorem overwritten_zero (buffer : Sector) (value : Word) :
    overwritten buffer value 0 = buffer := by
  funext j
  exact if_neg (Nat.not_lt_zero _)

theorem overwritten_all (buffer : Sector) (value : Word) :
    overwritten buffer value 512 = fun _ => value := by
  funext j
  exact if_pos j.isLt

theorem update_overwritten (buffer : Sector) (value : Word) (i : Fin 512) :
    Function.update (overwritten buffer value i) i value = overwritten buffer value (i + 1) := by
  funext j
  by_cases hj : j = i
  · subst hj
    rw [Function.update_self, overwritten, if_pos (Nat.lt_succ_self _)]
  · rw [Function.update_of_ne hj, overwritten, overwritten]
    have hne : j.val ≠ i.val := fun h => hj (Fin.ext h)
    by_cases hlt : j.val < i.val
    · rw [if_pos hlt, if_pos (by omega)]
    · rw [if_neg hlt, if_neg (by omega)]

/-- One load of a loop over the buffer: if it passes the check it agrees. -/
theorem checkByte_then {value code : Word} {i : Nat} (hi : i < 512)
    (hcode : code ∈ (program dma).codes) (hvalue : s.buffer ⟨i, hi⟩ = value)
    (hg : Spec dma (Holding dma { s with loads := s.loads + 1 }) g Q) :
    Spec dma (Holding dma s)
      (readByte (dma.byte i) >>= fun x => minemuRequire (x == value) code >>= fun _ => g) Q := by
  refine of_has fun l hl => (program_weak dma).readByte_then (program_pending dma) fun x => ?_
  refine require_then hcode fun hx => ?_
  rw [step_read_byte hi, eq_of_beq hx, ← hvalue]
  exact of_holding (hl.load ⟨i, hi⟩) hg

theorem storeByte_spec {buffer : Sector} {value : Word} {i : Nat} (hi : i < 512) :
    Spec dma (Holding dma { s with buffer := overwritten buffer value i })
      (write (dma.byte i) value)
      fun _ => Holding dma { s with buffer := overwritten buffer value (i + 1) } := by
  refine Triple.issue stable_holding stable_holding ?_
  rintro v w ⟨l, hl, hw⟩
  have hne : dma.byte i ≠ traceBase := Dma.byte_ne_trace hi
  have hrecord := hw.record_quiet (event?_write (x := value) hne)
  rw [step_write_byte hi] at hrecord
  have hstore := hl.store ⟨i, hi⟩ value
  have hupdate := update_overwritten buffer value ⟨i, hi⟩
  dsimp only at hstore hupdate
  rw [hupdate] at hstore
  exact ⟨_, hstore, hrecord⟩

/-- A loop whose body replaces byte `i` of the buffer; `f i` bytes have been loaded before. -/
theorem overwrite_then {body : Nat → Code Unit Unit} {value : Word} {f : Nat → Nat}
    (hf : s.loads = f 0)
    (hbody : ∀ i < 512,
      Spec dma (Holding dma { s with buffer := overwritten s.buffer value i, loads := f i })
        (body i) fun _ =>
          Holding dma { s with buffer := overwritten s.buffer value (i + 1), loads := f (i + 1) })
    (hg : Spec dma (Holding dma { s with buffer := fun _ => value, loads := f 512 }) g Q) :
    Spec dma (Holding dma s) (Prog.forUpTo body 512 >>= fun _ => g) Q := by
  have hloop := Triple.forUpTo (n := 512)
    (J := fun i => Holding dma { s with buffer := overwritten s.buffer value i, loads := f i })
    stable_holding hbody
  rw [overwritten_zero, overwritten_all, ← hf] at hloop
  exact hloop.bind fun _ => hg

theorem fill_then {value : Word}
    (hg : Spec dma (Holding dma { s with buffer := fun _ => value }) g Q) :
    Spec dma (Holding dma s) (fill dma value >>= fun _ => g) Q :=
  overwrite_then (f := fun _ => s.loads) rfl (fun _ hi => storeByte_spec hi) hg

theorem check_then {value code : Word} (hcode : code ∈ (program dma).codes)
    (hvalue : ∀ i, s.buffer i = value)
    (hg : Spec dma (Holding dma { s with loads := s.loads + 512 }) g Q) :
    Spec dma (Holding dma s) (check dma value code >>= fun _ => g) Q := by
  refine Triple.bind (Triple.forUpTo (J := fun i => Holding dma { s with loads := s.loads + i })
    stable_holding fun i hi => ?_) fun _ => hg
  have hbyte := checkByte_then (s := { s with loads := s.loads + i }) (g := pure ()) hi hcode
    (hvalue ⟨i, hi⟩) (Triple.ret (Q := fun _ => Holding dma { s with loads := s.loads + i + 1 })
      stable_holding)
  simp only [bind_pure_unit] at hbyte
  exact hbyte

/-! ## Synchronous transfers -/

theorem transferError_then (hdone : Spec dma (At l) (k blockErrorNone) Q)
    (hfailed : ∀ error, error ≠ blockErrorNone → Spec dma (At (l.refuse error)) (k error) Q) :
    Spec dma (At l) (transferError >>= k) Q := by
  unfold transferError
  simp only [bind_assoc]
  refine device_read_then (by decide) (by decide) (by decide) fun status => ?_
  split
  · refine (program_weak dma).read_then (program_pending dma) fun error => ?_
    rw [step_read_error]
    by_cases herror : error = blockErrorNone
    · rw [if_pos herror, herror]
      exact hdone
    · rw [if_neg herror]
      exact hfailed error herror
  · exact hdone

theorem mask_then {masked : Bool} (hg : Spec dma (At l) g Q) :
    Spec dma (At l) (Prog.issue (.mask masked) >>= fun _ => g) Q :=
  Triple.issue_then stable_at (fun _ _ hw => Saw.mk hw.events hw.watched) hg

theorem restoreIrq_then {cpsr : Word} (hg : Spec dma (At l) g Q) :
    Spec dma (At l) (restoreIrq cpsr >>= fun _ => g) Q := by
  unfold restoreIrq
  split
  · exact mask_then hg
  · exact hg

/-- A synchronous transfer: its result tells whether the command has been done. -/
theorem minemuBlockTransfer_then {operation unit lba : Word}
    (hdone : Spec dma (Holding dma (s.done operation unit lba)) (k blockErrorNone) Q)
    (hfailed : ∀ error, error ≠ blockErrorNone → Spec dma (Holding dma
      (s.failed (operation, ⟨unit, lba, 1, minemuTestPaddr dma.base⟩) error)) (k error) Q) :
    Spec dma (Holding dma s)
      (minemuBlockTransfer operation unit lba 1 (minemuTestPaddr dma.base) >>= k) Q := by
  refine of_has fun l hl => ?_
  have hl' := hl.congr_arguments ⟨unit, lba, 1, minemuTestPaddr dma.base⟩
  unfold minemuBlockTransfer
  simp only [bind_assoc, pure_bind]
  refine Triple.perform_then (M := fun _ => At _) stable_at (fun v w hw => hw) fun cpsr => ?_
  refine mask_then (arguments_then (device_write_then (by decide) (by decide) rfl ?_))
  refine device_await_then (by decide) (by decide) (by decide) fun _ => ?_
  refine transferError_then ?_ fun error herror => ?_
  · exact device_write_then (by decide) (by decide) rfl
      (restoreIrq_then (of_holding (hl'.perform operation rfl) hdone))
  · exact device_write_then (by decide) (by decide) rfl
      (restoreIrq_then (of_holding (hl'.refuse operation error) (hfailed error herror)))

theorem transfer_done {operation unit lba code : Word} (hcode : code ∈ (program dma).codes)
    (hg : Spec dma (Holding dma (s.done operation unit lba)) g Q) :
    Spec dma (Holding dma s)
      (minemuBlockTransfer operation unit lba 1 (minemuTestPaddr dma.base) >>= fun error =>
        minemuRequire (error == blockErrorNone) code >>= fun _ => g) Q := by
  refine minemuBlockTransfer_then ?_ fun error herror => ?_
  · exact of_has fun l hl => require_then hcode fun _ => of_holding hl hg
  · exact of_has fun l hl => require_then hcode fun h => absurd (eq_of_beq h) herror

theorem transfer_failed {operation unit lba expected code : Word}
    (hcode : code ∈ (program dma).codes) (hexpected : blockErrorNone ≠ expected)
    (hg : Spec dma (Holding dma
      (s.failed (operation, ⟨unit, lba, 1, minemuTestPaddr dma.base⟩) expected)) g Q) :
    Spec dma (Holding dma s)
      (minemuBlockTransfer operation unit lba 1 (minemuTestPaddr dma.base) >>= fun error =>
        minemuRequire (error == expected) code >>= fun _ => g) Q := by
  refine minemuBlockTransfer_then ?_ fun error herror => ?_
  · exact of_has fun l hl => require_then hcode fun h => absurd (eq_of_beq h) hexpected
  · refine of_has fun l hl => require_then hcode fun h => ?_
    rw [eq_of_beq h] at hl
    exact of_holding hl hg

/-! ## Commands without the wait for their result -/

theorem command_then {unit operation lba sectors address : Word}
    (hg : Spec dma
      (At (Ledger.perform { l with arguments := ⟨unit, lba, sectors, address⟩ } operation)) g Q) :
    Spec dma (At l) (command unit operation lba sectors address >>= fun _ => g) Q := by
  unfold command
  simp only [bind_assoc]
  exact arguments_then (device_write_then (by decide) (by decide) rfl hg)

/-- After the command that is rejected as busy the first one is still under way. -/
theorem busy_then
    (hg : Spec dma (Holding dma
      ((s.done blockCommandRead blockUnitFilesystem 1).failed
        (blockCommandRead, ⟨blockUnitSwap, 1, 1, minemuTestPaddr dma.base⟩) blockErrorBusy))
        g Q) :
    Spec dma (Holding dma s) (do
      command blockUnitFilesystem blockCommandRead 1 1 (minemuTestPaddr dma.base)
      write blockUnit blockUnitSwap
      write blockCommand blockCommandRead
      let error ← read blockError
      minemuRequire (error == blockErrorBusy) 5
      write blockAckRegister blockAck
      waitComplete blockErrorNone
      g) Q := by
  refine of_has fun l hl => command_then ?_
  have hfirst := (hl.congr_arguments ⟨blockUnitFilesystem, 1, 1, minemuTestPaddr dma.base⟩).perform
    blockCommandRead rfl
  refine device_write_then (by decide) (by decide) rfl ?_
  refine device_write_then (by decide) (by decide) rfl ?_
  refine (program_weak dma).read_then (program_pending dma) fun error => ?_
  refine require_then (by simp [program]) fun hbusy => ?_
  rw [eq_of_beq hbusy, step_read_error, if_neg (by decide)]
  refine device_write_then (by decide) (by decide) rfl ?_
  refine waitComplete_then (by simp [program, blockErrorNone])
    (by simp [program, blockErrorNone]) ?_
  exact of_holding ((hfirst.congr_arguments _).refuse blockCommandRead blockErrorBusy) hg

end

/-- The units that have raised their interrupt, with what the last command left in the
buffer. -/
def Claimed (dma : Dma) (s : Summary) (n : Nat) (w : World Unit) : Prop :=
  ∃ buffer, Holding dma
    { s with buffer := buffer, claims := s.claims ++ List.replicate n irqBlock } w

theorem stable_claimed {s : Summary} {n : Nat} :
    Stable (program dma).handlers ((program dma).Invariant (Passed dma)) (Claimed dma s n) :=
  stable_of_events fun _ ⟨_, hw⟩ => hw.events

theorem checkInterrupt_spec {s : Summary} {n : Nat} {unit : Word}
    (hcode : ∀ j : Fin 3, 30 + BitVec.ofNat 32 j + unit * 3 ∈ (program dma).codes) :
    Spec dma (Claimed dma s n) (checkInterrupt (minemuTestPaddr dma.base) unit)
      fun _ => Claimed dma s (n + 1) := by
  refine .of_exists fun buffer => of_has fun l hl => ?_
  rw [← bind_pure_unit (x := checkInterrupt (minemuTestPaddr dma.base) unit)]
  unfold checkInterrupt
  simp only [bind_assoc]
  refine command_then ?_
  have hdone := ((hl.congr_arguments ⟨unit, 0, 1, minemuTestPaddr dma.base⟩).perform
    blockCommandRead rfl).claim irqBlock
  refine device_await_then (by decide) (by decide) (by decide) fun _ => ?_
  refine device_read_then (by decide) (by decide) (by decide) fun pending => ?_
  refine require_then (hcode 0) fun _ => ?_
  refine (program_weak dma).read_then (program_pending dma) fun claim => ?_
  refine require_then (hcode 1) fun hclaim => ?_
  rw [eq_of_beq hclaim, step_read_claim]
  refine device_write_then (by decide) (by decide) rfl ?_
  refine device_write_then (by decide) (by decide) rfl ?_
  refine device_read_then (by decide) (by decide) (by decide) fun pending => ?_
  refine require_then (hcode 2) fun _ => ?_
  refine (Triple.ret (Q := fun _ => Claimed dma s (n + 1)) stable_claimed).pre fun w hw => ?_
  refine ⟨s.media unit 0, _, ?_, hw⟩
  rw [List.replicate_succ', ← List.append_assoc]
  exact hdone

theorem replaceZero_then {α : Type} {Q : α → World Unit → Prop} {g : Code Unit α} {s : Summary}
    (hzero : ∀ i, s.buffer i = 0)
    (hg : Spec dma (Holding dma { s with buffer := fun _ => 0xa5, loads := s.loads + 512 }) g Q) :
    Spec dma (Holding dma s)
      (Prog.forUpTo (fun i => do
        let b ← readByte (dma.byte i)
        minemuRequire (b == 0) 2
        write (dma.byte i) 0xa5) 512 >>= fun _ => g) Q := by
  refine overwrite_then (f := fun i => s.loads + i) rfl (fun i hi => ?_) hg
  refine checkByte_then hi (by simp [program]) ?_
    (storeByte_spec (s := { s with loads := s.loads + i + 1 }) hi)
  show overwritten s.buffer 0xa5 i ⟨i, hi⟩ = 0
  rw [overwritten, if_neg (Nat.lt_irrefl i)]
  exact hzero _

/-! ## The case as a whole -/

def markedMedia : Media :=
  Media.put (Media.put (fun _ _ _ => 0) blockUnitFilesystem 1 fun _ => 0xa5) blockUnitSwap 1
    fun _ => 0x5a

def finalMedia : Media := markedMedia.put blockUnitSwap 0 fun _ => 0x3c

theorem marked_filesystem (i : Fin 512) : markedMedia blockUnitFilesystem 1 i = 0xa5 := rfl

theorem marked_swap (i : Fin 512) : markedMedia blockUnitSwap 1 i = 0x5a := rfl

theorem final_passed {buffer : Sector} {es : List Word} {w : World Unit}
    (h : ∃ l, Ledger.Has dma ⟨buffer, finalMedia, expectedRefusals dma, [irqBlock, irqBlock],
      5 * 512⟩ l ∧ Saw ledger es l w) : Passed dma w := by
  obtain ⟨l, hl, hw⟩ := h
  rw [Passed, hw.watched, hl.media]
  exact ⟨hl.loads, hl.agrees, fun _ => rfl, fun _ => rfl, hl.refused, hl.claims⟩

def earlyRefusals (dma : Dma) : List (Issued × Word) := (expectedRefusals dma).dropLast

theorem driver_spec (buffer : Sector) :
    Spec dma (Holding dma
        ⟨buffer, markedMedia, earlyRefusals dma, [irqBlock, irqBlock], 4 * 512⟩) (do
      fill dma 0x3c
      let error ← minemuBlockWrite blockUnitSwap 0 1 (minemuTestPaddr dma.base)
      minemuRequire (error == blockErrorNone) 40
      fill dma 0
      let error ← minemuBlockRead blockUnitSwap 0 1 (minemuTestPaddr dma.base)
      minemuRequire (error == blockErrorNone) 41
      check dma 0x3c 42
      let error ← minemuBlockRead 2 0 1 (minemuTestPaddr dma.base)
      minemuRequire (error == blockErrorInvalidUnit) 43
      let status ← read blockStatus
      minemuRequire (status &&& (blockStatusComplete ||| blockStatusError) == 0) 44
      minemuTraceEvent 0x20030001
      minemuFailStop) fun (_ : Unit) _ => False := by
  refine fill_then (transfer_done (by simp [program]) ?_)
  refine fill_then (transfer_done (by simp [program]) ?_)
  refine check_then (by simp [program]) (fun _ => rfl) ?_
  refine transfer_failed (by simp [program]) (by decide) ?_
  refine of_has fun l hl => device_read_then (by decide) (by decide) (by decide) fun status => ?_
  refine require_then (by simp [program]) fun _ => ?_
  refine (program_weak dma).pass (program_pending dma) rfl fun w hw => ?_
  rw [step_write_device (by decide)] at hw
  exact final_passed ⟨l, hl, hw⟩

theorem minemuKernelMain_spec :
    Spec dma (Holding dma ⟨fun _ => 0, fun _ _ _ => 0, [], [], 0⟩) (minemuKernelMain dma)
      fun _ _ => False := by
  unfold minemuKernelMain
  dsimp only
  refine of_has fun l hl => device_read_then (by decide) (by decide) (by decide) fun unit => ?_
  refine require_then (by simp [program]) fun _ => of_holding hl ?_
  refine exactCommand_done (replaceZero_then (fun _ => rfl) ?_)
  refine exactCommand_done (fill_then ?_)
  refine exactCommand_done (fill_then ?_)
  show Spec dma (Holding dma ⟨fun _ => 0, markedMedia, [], [], 512⟩) _ _
  refine exactCommand_done (check_then (by simp [program]) marked_filesystem ?_)
  refine exactCommand_done (check_then (by simp [program]) marked_swap ?_)
  refine exactCommand_failed (by simp [program, blockErrorInvalidCommand])
    (by simp [program, blockErrorInvalidCommand]) (by decide) ?_
  refine exactCommand_failed (by simp [program, blockErrorInvalidDma])
    (by simp [program, blockErrorInvalidDma]) (by decide) ?_
  refine exactCommand_failed (by simp [program, blockErrorInvalidLba])
    (by simp [program, blockErrorInvalidLba]) (by decide) ?_
  refine exactCommand_failed (by simp [program, blockErrorInvalidUnit])
    (by simp [program, blockErrorInvalidUnit]) (by decide) ?_
  refine fill_then (busy_then ?_)
  refine of_has fun l hl => device_read_then (by decide) (by decide) (by decide) fun unit => ?_
  refine require_then (by simp [program]) fun _ => of_holding hl ?_
  refine check_then (by simp [program]) marked_filesystem ?_
  show Spec dma (Holding dma
    ⟨markedMedia blockUnitFilesystem 1, markedMedia, earlyRefusals dma, [], 4 * 512⟩) _ _
  refine of_has fun l hl => ?_
  refine device_write_then (by decide) (by decide) rfl ?_
  refine device_write_then (by decide) (by decide) rfl ?_
  refine of_holding hl ?_
  refine (Triple.bind (Triple.forUpTo (J := Claimed dma
    ⟨markedMedia blockUnitFilesystem 1, markedMedia, earlyRefusals dma, [], 4 * 512⟩)
    stable_claimed fun i hi => ?_) fun _ => ?_).pre fun w hw => ⟨_, hw⟩
  · have hcodes : ∀ i < 2, ∀ j : Fin 3, 30 + BitVec.ofNat 32 j + BitVec.ofNat 32 i * 3 ∈
        [(30 : Word), 31, 32, 33, 34, 35] := by decide
    have hsubset : [(30 : Word), 31, 32, 33, 34, 35] ⊆ (program dma).codes := by
      simp [program]
    exact checkInterrupt_spec fun j => hsubset (hcodes i hi j)
  · exact .of_exists fun buffer => driver_spec buffer

theorem program_sound (dma : Dma) : (program dma).Sound (Passed dma) :=
  Case.sound_of_triple minemuKernelMain_spec
    ⟨_, ⟨fun _ => rfl, rfl, rfl, rfl, rfl, rfl⟩, rfl, rfl⟩

section Attaining

variable {g : Code Unit Unit} {k : Word → Code Unit Unit}

abbrev Attained (dma : Dma) (g : Code Unit Unit) : Prop :=
  Attains (program dma).handlers (Stands [] () true) g (fun _ _ => False)
    fun w => w.events = [0x20030001]

theorem waitComplete_attains {expected_error : Word} (hg : Attained dma g) :
    Attained dma (waitComplete expected_error >>= fun _ => g) := by
  have hnone : blockErrorNone = 0 := rfl
  unfold waitComplete
  simp only [bind_assoc]
  refine Stands.await_then blockStatusComplete (by decide) (Stands.read_then expected_error ?_)
  rw [if_neg (by simp)]
  simp only [bind_assoc]
  by_cases herror : expected_error = blockErrorNone
  · refine Stands.read_then 0 (Stands.require_then ?_ (Stands.write_then (by decide) hg))
    simp [herror, hnone]
  · refine Stands.read_then blockStatusError
      (Stands.require_then ?_ (Stands.write_then (by decide) hg))
    have hset : blockStatusError &&& blockStatusError ≠ 0 := by decide
    rw [bne_iff_ne.mpr hset, bne_iff_ne.mpr herror]
    rfl

theorem command_attains {unit operation lba sectors address : Word} (hg : Attained dma g) :
    Attained dma (command unit operation lba sectors address >>= fun _ => g) := by
  unfold command
  simp only [bind_assoc]
  iterate 5 refine Stands.write_then (by decide) ?_
  exact hg

theorem exactCommand_attains {unit operation lba sectors address expected_error : Word}
    (hg : Attained dma g) :
    Attained dma (exactCommand unit operation lba sectors address expected_error >>=
      fun _ => g) := by
  unfold exactCommand minemuBlockExact32
  simp only [bind_assoc, pure_bind]
  iterate 5 refine Stands.write_then (by decide) ?_
  refine Stands.read_then blockStatusBusy (Stands.read_then blockStatusComplete ?_)
  iterate 2 refine Stands.require_then (by decide) ?_
  exact waitComplete_attains hg

theorem fill_attains {value : Word} (hg : Attained dma g) :
    Attained dma (fill dma value >>= fun _ => g) :=
  Stands.loop_then
    (fun _ hi => Stands.write_then (g := pure ()) (dma.byte_ne_trace hi) Stands.ret) hg

theorem check_attains {value code : Word} (hvalue : value &&& 0xff = value)
    (hg : Attained dma g) : Attained dma (check dma value code >>= fun _ => g) := by
  refine Stands.loop_then (fun i _ => Stands.readByte_then value hvalue ?_) hg
  rw [beq_self_eq_true]
  exact Stands.ret

theorem checkInterrupt_attains {dma_paddr unit : Word} :
    Attains (program dma).handlers (Stands [] () true) (checkInterrupt dma_paddr unit)
      (fun _ => Stands [] () true) fun w => w.events = [0x20030001] := by
  rw [← bind_pure_unit (x := checkInterrupt dma_paddr unit)]
  unfold checkInterrupt command
  simp only [bind_assoc]
  iterate 5 refine Stands.write_then (by decide) ?_
  refine Stands.await_then blockStatusComplete (by decide) ?_
  refine Stands.read_then (1 <<< 3) (Stands.require_then (by decide) ?_)
  refine Stands.read_then irqBlock (Stands.require_then (by decide) ?_)
  refine Stands.write_then (by decide) (Stands.write_then (by decide) ?_)
  refine Stands.read_then 0 (Stands.require_then (by decide) ?_)
  exact Stands.ret

theorem minemuBlockTransfer_attains {operation unit lba sector_count dma_paddr : Word}
    (error : Word) (hk : Attained dma (k error)) :
    Attained dma (minemuBlockTransfer operation unit lba sector_count dma_paddr >>= k) := by
  unfold minemuBlockTransfer transferError restoreIrq
  simp only [bind_assoc]
  refine Stands.sense_then 0x80 (Stands.mask_then ?_)
  iterate 5 refine Stands.write_then (by decide) ?_
  refine Stands.await_then blockStatusComplete (by decide) ?_
  refine Stands.read_then blockStatusError ?_
  rw [if_pos (by decide), if_neg (by decide)]
  refine Stands.read_then error (Stands.write_then (by decide) ?_)
  exact hk

theorem minemuKernelMain_attained : Attained dma (minemuKernelMain dma) := by
  unfold minemuKernelMain
  dsimp only
  refine Stands.read_then blockUnitFilesystem (Stands.require_then (by decide) ?_)
  refine exactCommand_attains (Stands.loop_then (fun i hi => ?_) ?_)
  · refine Stands.readByte_then 0 (by decide) (Stands.require_then (by decide) ?_)
    exact Stands.write_then (g := pure ()) (dma.byte_ne_trace hi) Stands.ret
  refine exactCommand_attains (fill_attains (exactCommand_attains (fill_attains ?_)))
  refine exactCommand_attains (check_attains (by decide) ?_)
  refine exactCommand_attains (check_attains (by decide) ?_)
  iterate 4 refine exactCommand_attains ?_
  refine fill_attains (command_attains ?_)
  refine Stands.write_then (by decide) (Stands.write_then (by decide) ?_)
  refine Stands.read_then blockErrorBusy (Stands.require_then (by decide) ?_)
  refine Stands.write_then (by decide) (waitComplete_attains ?_)
  refine Stands.read_then blockUnitSwap (Stands.require_then (by decide) ?_)
  refine check_attains (by decide) ?_
  refine Stands.write_then (by decide) (Stands.write_then (by decide) ?_)
  refine Stands.loop_then (fun _ _ => checkInterrupt_attains) ?_
  refine fill_attains (minemuBlockTransfer_attains blockErrorNone ?_)
  refine Stands.require_then (by decide) (fill_attains ?_)
  refine minemuBlockTransfer_attains blockErrorNone (Stands.require_then (by decide) ?_)
  refine check_attains (by decide) ?_
  refine minemuBlockTransfer_attains blockErrorInvalidUnit (Stands.require_then (by decide) ?_)
  refine Stands.read_then 0 (Stands.require_then (by decide) ?_)
  exact Stands.event_then Stands.stop

end Attaining

theorem program_attainable : (program dma).Attainable :=
  Case.attainable (c := program dma) minemuKernelMain_attained

end Minemu.Headless.Block
