import Minemu.Lib.Loop
import Minemu.Lib.Memory
import Mathlib.Data.Nat.Find

/-!
# `block.c`: synchronous block transfers

The block controller is hardware outside the repository.  It is a parameter: any
device whose answers to register accesses have the properties listed in
`Controller.Documented`, with any delay and any outcome of its commands.
-/

namespace Minemu.Runtime.Block

open Minemu.Lib Minemu.Lib.Memory

def blockCommandRead : Word := 1

def blockCommandWrite : Word := 2

def blockStatusComplete : Word := 2

def blockStatusError : Word := 4

def blockAck : Word := 1

def blockErrorNone : Word := 0

/-! ## The controller -/

inductive Argument where
  | unit | lba | sectorCount | dmaPaddr
  deriving DecidableEq, Repr

structure Command where
  code : Word
  arguments : Argument → Word

/-- What a controller is doing, and the commands it has finished with their outcomes: the
error code of a failed command, `none` for a successful one. -/
structure Activity where
  current : Option Command
  complete : Bool
  error : Bool
  finished : List (Command × Option Word)

/-- A device with states `σ`: its answers to register accesses, and what they mean. -/
structure Controller (σ : Type) where
  writeArgument : Argument → Word → σ → σ
  writeCommand : Word → σ → σ
  writeAck : Word → σ → σ
  readStatus : σ → Word × σ
  readError : σ → Word × σ
  arguments : σ → Argument → Word
  activity : σ → Activity

variable {σ : Type}

def Activity.finish (a : Activity) (c : Command) (outcome : Option Word) : Activity where
  current := none
  complete := true
  error := outcome.isSome
  finished := a.finished ++ [(c, outcome)]

namespace Controller

variable (C : Controller σ)

def afterReads : Nat → σ → σ
  | 0, s => s
  | n + 1, s => (C.readStatus (afterReads n s)).2

def Busy (s : σ) : Prop := (C.activity s).current ≠ none

/-! ### The phases of a transfer -/

structure Ready (s : σ) : Prop where
  idle : ¬ C.Busy s
  complete : (C.activity s).complete = false
  error : (C.activity s).error = false

structure Working (c : Command) (s : σ) : Prop where
  current : (C.activity s).current = some c
  complete : (C.activity s).complete = false
  error : (C.activity s).error = false

structure Done (c : Command) (outcome : Option Word) (s : σ) : Prop where
  idle : (C.activity s).current = none
  complete : (C.activity s).complete = true
  error : (C.activity s).error = outcome.isSome
  last : (C.activity s).finished.getLast? = some (c, outcome)

/-- What the driver relies on.  Nothing is asked of a controller in other states, say of a
command written before the last one is acknowledged. -/
structure Documented : Prop where
  /-- Argument registers hold what was written, and writing them starts nothing. -/
  argument : ∀ a v s, C.Ready s → C.arguments (C.writeArgument a v s) =
    Function.update (C.arguments s) a v ∧ C.activity (C.writeArgument a v s) = C.activity s
  /-- A command latches the arguments and makes the controller busy. -/
  command : ∀ v s, C.Ready s → C.activity (C.writeCommand v s) =
    { C.activity s with current := some ⟨v, C.arguments s⟩ }
  /-- The status word shows the two flags. -/
  flags : ∀ s,
    ((C.readStatus s).1 &&& blockStatusComplete = 0 ↔
      (C.activity (C.readStatus s).2).complete = false) ∧
    ((C.readStatus s).1 &&& blockStatusError = 0 ↔
      (C.activity (C.readStatus s).2).error = false)
  /-- While status is read a command goes on or ends, with a nonzero code if it fails. -/
  statusWorking : ∀ s c, C.Working c s →
    C.activity (C.readStatus s).2 = C.activity s ∨
      ∃ outcome, outcome ≠ some 0 ∧ C.activity (C.readStatus s).2 = (C.activity s).finish c outcome
  /-- Every command ends after finitely many status reads. -/
  ends : ∀ s c, C.Working c s → ∃ n, ¬ C.Busy (C.afterReads n s)
  statusDone : ∀ s c outcome, C.Done c outcome s → C.activity (C.readStatus s).2 = C.activity s
  /-- The error register has the code of a failed command. -/
  errorCode : ∀ s c code, C.Done c (some code) s →
    (C.readError s).1 = code ∧ C.activity (C.readError s).2 = C.activity s
  ack : ∀ s c outcome, C.Done c outcome s → C.activity (C.writeAck blockAck s) =
    { C.activity s with complete := false, error := false }

variable {C}

theorem Ready.congr {s s' : σ} (h : C.Ready s) (hs : C.activity s' = C.activity s) :
    C.Ready s' :=
  ⟨by rw [Busy, hs]; exact h.idle, by rw [hs]; exact h.complete, by rw [hs]; exact h.error⟩

theorem Working.congr {c : Command} {s s' : σ} (h : C.Working c s)
    (hs : C.activity s' = C.activity s) : C.Working c s' :=
  ⟨by rw [hs]; exact h.current, by rw [hs]; exact h.complete, by rw [hs]; exact h.error⟩

theorem Done.congr {c : Command} {outcome : Option Word} {s s' : σ} (h : C.Done c outcome s)
    (hs : C.activity s' = C.activity s) : C.Done c outcome s' :=
  ⟨by rw [hs]; exact h.idle, by rw [hs]; exact h.complete, by rw [hs]; exact h.error,
    by rw [hs]; exact h.last⟩

theorem Done.of_finish {c : Command} {outcome : Option Word} {s : σ} {a : Activity}
    (h : C.activity s = a.finish c outcome) : C.Done c outcome s := by
  constructor <;> rw [h]
  · rfl
  · rfl
  · rfl
  · exact List.getLast?_concat ..

end Controller

/-! ## The driver -/

inductive Access where
  | writeArgument (a : Argument) (v : Word)
  | writeCommand (v : Word)
  | writeAck (v : Word)
  | readStatus
  | readError
  deriving DecidableEq, Repr

/-- The processor's status register, the device, and the accesses made so far, each with
the CPSR it was made under. -/
structure World (σ : Type) where
  cpsr : Word
  device : σ
  accesses : List (Access × Word)

namespace World

def record (w : World σ) (a : Access) (device : σ) : World σ :=
  { w with device := device, accesses := w.accesses ++ [(a, w.cpsr)] }

end World

variable (C : Controller σ)

def writeArgument (a : Argument) (v : Word) (w : World σ) : World σ :=
  w.record (.writeArgument a v) (C.writeArgument a v w.device)

def writeCommand (v : Word) (w : World σ) : World σ :=
  w.record (.writeCommand v) (C.writeCommand v w.device)

def writeAck (v : Word) (w : World σ) : World σ :=
  w.record (.writeAck v) (C.writeAck v w.device)

def readStatus (w : World σ) : Word × World σ :=
  ((C.readStatus w.device).1, w.record .readStatus (C.readStatus w.device).2)

def readError (w : World σ) : Word × World σ :=
  ((C.readError w.device).1, w.record .readError (C.readError w.device).2)

/-- Every mode but User mode. -/
def privileged (cpsr : Word) : Bool := cpsr &&& 0x1f ≠ 0x10

/-- `cpsid i`, which does nothing in User mode -/
def cpsidI (w : World σ) : World σ :=
  { w with cpsr := if privileged w.cpsr then w.cpsr ||| 0x80 else w.cpsr }

/-- `cpsie i`, which does nothing in User mode -/
def cpsieI (w : World σ) : World σ :=
  { w with cpsr := if privileged w.cpsr then w.cpsr &&& ~~~0x80 else w.cpsr }

/-- The polling loop, for at most `fuel` passes. -/
def pollComplete (fuel : Nat) (w : World σ) : Option (World σ) := do
  let (_, w) ← Loop.doWhile (fun p => some (readStatus C p.2))
    (fun p => p.1 &&& blockStatusComplete = 0) fuel (0, w)
  some w

def minemuBlockTransfer (fuel : Nat) (command unit lba sector_count dma_paddr : Word)
    (w : World σ) : Option (Word × World σ) := do
  let cpsr := w.cpsr
  let w := cpsidI w
  let w := writeArgument C .unit unit w
  let w := writeArgument C .lba lba w
  let w := writeArgument C .sectorCount sector_count w
  let w := writeArgument C .dmaPaddr dma_paddr w
  let w := writeCommand C command w
  let w ← pollComplete C fuel w
  let (status, w) := readStatus C w
  let (error, w) :=
    if status &&& blockStatusError ≠ 0 then readError C w else (blockErrorNone, w)
  let w := writeAck C blockAck w
  let w := if cpsr &&& 0x80 = 0 then cpsieI w else w
  some (error, w)

def minemuBlockRead (fuel : Nat) (unit lba sector_count dma_paddr : Word) (w : World σ) :
    Option (Word × World σ) :=
  minemuBlockTransfer C fuel blockCommandRead unit lba sector_count dma_paddr w

def minemuBlockWrite (fuel : Nat) (unit lba sector_count dma_paddr : Word) (w : World σ) :
    Option (Word × World σ) :=
  minemuBlockTransfer C fuel blockCommandWrite unit lba sector_count dma_paddr w

/-! ## Calls in sequence -/

inductive Direction where
  | read | write
  deriving DecidableEq, Repr

structure Call where
  direction : Direction
  unit : Word
  lba : Word
  sectorCount : Word
  dmaPaddr : Word
  cpsr : Word

namespace Call

def run (fuel : Nat) (call : Call) (device : σ) : Option (Word × World σ) :=
  let w : World σ := ⟨call.cpsr, device, []⟩
  match call.direction with
  | .read => minemuBlockRead C fuel call.unit call.lba call.sectorCount call.dmaPaddr w
  | .write => minemuBlockWrite C fuel call.unit call.lba call.sectorCount call.dmaPaddr w

def command (call : Call) : Command where
  code := match call.direction with
    | .read => 1
    | .write => 2
  arguments
    | .unit => call.unit
    | .lba => call.lba
    | .sectorCount => call.sectorCount
    | .dmaPaddr => call.dmaPaddr

end Call

def runCalls (fuel : Nat) : List Call → σ → Option (List (Word × World σ))
  | [], _ => some []
  | call :: calls, device => do
    let (r, w) ← call.run C fuel device
    let results ← runCalls fuel calls w.device
    some ((r, w) :: results)

def Access.isCommand : Access → Bool
  | .writeCommand _ => true
  | _ => false

/-- A call for command `c` under `cpsr`: its result `r` and what it left. -/
structure Served (c : Command) (cpsr : Word) (device : σ) (r : Word) (w : World σ) : Prop where
  /-- One command was started, it has ended, and `r` is its error code. -/
  finished : ∃ outcome, (C.activity w.device).finished =
      (C.activity device).finished ++ [(c, outcome)] ∧
    r = outcome.getD 0 ∧ (r = 0 ↔ outcome = none)
  commands : (w.accesses.map Prod.fst).filter Access.isCommand = [.writeCommand c.code]
  ready : C.Ready w.device
  cpsr : w.cpsr = cpsr
  masked : ∀ a ∈ w.accesses, a.2 &&& 0x80 ≠ 0
  acknowledged : (w.accesses.map Prod.fst).getLast? = some (.writeAck blockAck)

inductive AllServed : σ → List Call → List (Word × World σ) → Prop where
  | nil (device : σ) : AllServed device [] []
  | cons {device : σ} {call : Call} {calls : List Call} {r : Word} {w : World σ}
      {results : List (Word × World σ)} :
      Served C call.command call.cpsr device r w → AllServed w.device calls results →
        AllServed device (call :: calls) ((r, w) :: results)

/-! ## The polling loop -/

section

variable {C} (h : C.Documented)

include h

/-- A command ends after some status reads and is unchanged until then. -/
theorem reads_end {s : σ} {c : Command} (hc : C.Working c s) :
    ∃ n outcome, 0 < n ∧ outcome ≠ some 0 ∧
      (∀ j < n, C.activity (C.afterReads j s) = C.activity s) ∧
      C.activity (C.afterReads n s) = (C.activity s).finish c outcome := by
  classical
  have hends := h.ends s c hc
  have hlast := Nat.find_spec hends
  have hbefore : ∀ j < Nat.find hends, C.Busy (C.afterReads j s) := fun j hj =>
    not_not.mp (Nat.find_min hends hj)
  generalize Nat.find hends = n at hlast hbefore
  have hsame : ∀ j < n, C.activity (C.afterReads j s) = C.activity s := by
    intro j
    induction j with
    | zero => exact fun _ => rfl
    | succ j ih =>
        intro hj
        have hprev := ih (by omega)
        rcases h.statusWorking (C.afterReads j s) c (hc.congr hprev) with hkept | ⟨outcome, -, hend⟩
        · exact hkept.trans hprev
        · exact absurd (congrArg Activity.current hend) (hbefore (j + 1) hj)
  cases n with
  | zero =>
      exact absurd (by rw [Controller.Busy, Controller.afterReads, hc.current]; simp) hlast
  | succ n =>
      have hprev := hsame n (by omega)
      rcases h.statusWorking (C.afterReads n s) c (hc.congr hprev) with
        hkept | ⟨outcome, hcode, hend⟩
      · refine absurd ?_ hlast
        rw [Controller.Busy, Controller.afterReads, hkept, hprev, hc.current]
        simp
      · exact ⟨n + 1, outcome, by omega, hcode, hsame, by rw [Controller.afterReads, hend, hprev]⟩

end

def polled (n : Nat) (w : World σ) : World σ where
  cpsr := w.cpsr
  device := C.afterReads n w.device
  accesses := w.accesses ++ List.replicate n (.readStatus, w.cpsr)

theorem readStatus_polled (n : Nat) (w : World σ) :
    (readStatus C (polled C n w)).2 = polled C (n + 1) w := by
  simp [readStatus, World.record, polled, Controller.afterReads, List.replicate_succ']

variable {C}

theorem pollComplete_spec (h : C.Documented) {w : World σ} {c : Command}
    (hc : C.Working c w.device) :
    ∃ n outcome, outcome ≠ some 0 ∧
      C.activity (C.afterReads n w.device) = (C.activity w.device).finish c outcome ∧
      ∀ fuel, n ≤ fuel → pollComplete C fuel w = some (polled C n w) := by
  obtain ⟨n, outcome, hpos, hcode, hsame, hend⟩ := reads_end h hc
  refine ⟨n, outcome, hcode, hend, fun fuel hfuel => ?_⟩
  have hloop : ∃ p, Loop.doWhile (fun p : Word × World σ => some (readStatus C p.2))
      (fun p => p.1 &&& blockStatusComplete = 0) fuel (0, w) = some p ∧ p.2 = polled C n w := by
    refine Loop.doWhile_counted (fun i (p : Word × World σ) => p.2 = polled C i w) hpos
      (fun i hi p hp => ?_) hfuel
      (by simp [polled, Controller.afterReads])
    refine ⟨_, rfl, by rw [hp, readStatus_polled], ?_⟩
    -- the flag is set by the last read only
    have hflag := (h.flags (C.afterReads i w.device)).1
    have hcomplete' :
        (C.activity (C.afterReads (i + 1) w.device)).complete = false ↔ i + 1 < n := by
      by_cases hlt : i + 1 < n
      · rw [hsame (i + 1) hlt]
        exact ⟨fun _ => hlt, fun _ => hc.complete⟩
      · rw [show i + 1 = n by omega, hend]
        simp [Activity.finish]
    rw [hp]
    exact decide_eq_decide.mpr (hflag.trans hcomplete')
  obtain ⟨p, hrun, hp⟩ := hloop
  rw [pollComplete, hrun]
  exact congrArg some hp

/-! ## One transfer -/

/-- The mask goes on and comes off, or was on. -/
theorem restore_mask (cpsr : Word) :
    (cpsr ||| 0x80) &&& 0x80 ≠ 0 ∧
      (if cpsr &&& 0x80 = 0 then (cpsr ||| 0x80) &&& ~~~0x80 else cpsr ||| 0x80) = cpsr := by
  have hbit : (0x80 : Word) = BitVec.twoPow 32 7 := by decide
  constructor
  · intro hzero
    have h7 := congrArg (fun x => BitVec.getLsbD x 7) hzero
    simp at h7
  · split
    · rename_i hclear
      rw [BitVec.and_or_distrib_right, and_not_eq_self hclear,
        show (0x80 : Word) &&& ~~~0x80 = 0#32 by decide, BitVec.or_zero]
    · rename_i hset
      have h7 : cpsr.getLsbD 7 = true := by
        by_contra hclear
        exact hset (by rw [hbit, BitVec.and_twoPow, if_neg hclear]; rfl)
      apply BitVec.eq_of_getLsbD_eq
      intro i hi
      rw [BitVec.getLsbD_or, hbit, BitVec.getLsbD_twoPow]
      by_cases hi7 : 7 = i
      · rw [← hi7, h7, Bool.true_or]
      · simp [hi7]

theorem privileged_or_mask (cpsr : Word) : privileged (cpsr ||| 0x80) = privileged cpsr := by
  rw [privileged, BitVec.and_or_distrib_right, show (0x80 : Word) &&& 0x1f = 0#32 by decide,
    BitVec.or_zero, privileged]

theorem cpsidI_cpsr {w : World σ} (h : privileged w.cpsr = true) :
    (cpsidI w).cpsr = w.cpsr ||| 0x80 := by
  rw [cpsidI, if_pos h]

def argumentsOf (unit lba sector_count dma_paddr : Word) : Argument → Word
  | .unit => unit
  | .lba => lba
  | .sectorCount => sector_count
  | .dmaPaddr => dma_paddr

theorem writeArguments_spec (h : C.Documented) {s : σ} (hs : C.Ready s)
    (unit lba sector_count dma_paddr : Word) :
    C.arguments (C.writeArgument .dmaPaddr dma_paddr (C.writeArgument .sectorCount sector_count
        (C.writeArgument .lba lba (C.writeArgument .unit unit s)))) =
      argumentsOf unit lba sector_count dma_paddr ∧
    C.activity (C.writeArgument .dmaPaddr dma_paddr (C.writeArgument .sectorCount sector_count
        (C.writeArgument .lba lba (C.writeArgument .unit unit s)))) = C.activity s := by
  have hstep : ∀ a v t, C.activity t = C.activity s →
      C.arguments (C.writeArgument a v t) = Function.update (C.arguments t) a v ∧
        C.activity (C.writeArgument a v t) = C.activity s := by
    intro a v t ht
    obtain ⟨harguments, hactivity⟩ := h.argument a v t (hs.congr ht)
    exact ⟨harguments, hactivity.trans ht⟩
  obtain ⟨ha1, hs1⟩ := hstep .unit unit s rfl
  obtain ⟨ha2, hs2⟩ := hstep .lba lba _ hs1
  obtain ⟨ha3, hs3⟩ := hstep .sectorCount sector_count _ hs2
  obtain ⟨ha4, hs4⟩ := hstep .dmaPaddr dma_paddr _ hs3
  refine ⟨?_, hs4⟩
  rw [ha4, ha3, ha2, ha1]
  funext a
  cases a <;> rfl

def issue (C : Controller σ) (code : Word) (arguments : Argument → Word) (w : World σ) : World σ :=
  writeCommand C code (writeArgument C .dmaPaddr (arguments .dmaPaddr)
    (writeArgument C .sectorCount (arguments .sectorCount) (writeArgument C .lba (arguments .lba)
      (writeArgument C .unit (arguments .unit) (cpsidI w)))))

theorem issue_activity (h : C.Documented) {w : World σ} (hs : C.Ready w.device) (c : Command) :
    C.activity (issue C c.code c.arguments w).device =
      { C.activity w.device with current := some c } := by
  obtain ⟨harguments, hactivity⟩ := writeArguments_spec h hs (c.arguments .unit)
    (c.arguments .lba) (c.arguments .sectorCount) (c.arguments .dmaPaddr)
  have hc : argumentsOf (c.arguments .unit) (c.arguments .lba) (c.arguments .sectorCount)
      (c.arguments .dmaPaddr) = c.arguments := by
    funext a
    cases a <;> rfl
  have hcommand := h.command c.code _ (hs.congr hactivity)
  rw [harguments, hactivity, hc] at hcommand
  exact hcommand

theorem issue_working (h : C.Documented) {w : World σ} (hs : C.Ready w.device) (c : Command) :
    C.Working c (issue C c.code c.arguments w).device := by
  have hissued := issue_activity h hs c
  exact ⟨by rw [hissued], by rw [hissued]; exact hs.complete, by rw [hissued]; exact hs.error⟩

def conclude (C : Controller σ) (cpsr : Word) (w : World σ) : Word × World σ :=
  let (status, w) := readStatus C w
  let (error, w) :=
    if status &&& blockStatusError ≠ 0 then readError C w else (blockErrorNone, w)
  let w := writeAck C blockAck w
  (error, if cpsr &&& 0x80 = 0 then cpsieI w else w)

theorem minemuBlockTransfer_eq (C : Controller σ) (fuel : Nat) (code : Word)
    (arguments : Argument → Word) (w : World σ) :
    minemuBlockTransfer C fuel code (arguments .unit) (arguments .lba) (arguments .sectorCount)
        (arguments .dmaPaddr) w =
      (pollComplete C fuel (issue C code arguments w)).map (conclude C w.cpsr) := by
  rw [minemuBlockTransfer]
  change (pollComplete C fuel (issue C code arguments w)).bind _ = _
  cases pollComplete C fuel (issue C code arguments w) with
  | none => rfl
  | some w' => rfl

theorem restore_fields {cpsr : Word} (w : World σ) (h : privileged w.cpsr = true) :
    (if cpsr &&& 0x80 = 0 then cpsieI w else w) =
      { w with cpsr := if cpsr &&& 0x80 = 0 then w.cpsr &&& ~~~0x80 else w.cpsr } := by
  split
  · rw [cpsieI, if_pos h]
  · rfl

/-- What the end of a transfer returns and leaves, when command `c` has ended with
`outcome`. -/
theorem conclude_spec (h : C.Documented) {a : Activity} {c : Command} {outcome : Option Word}
    {w : World σ} (hw : C.activity w.device = a.finish c outcome) (cpsr : Word)
    (hprivileged : privileged w.cpsr = true) :
    (conclude C cpsr w).1 = outcome.getD 0 ∧
      C.activity (conclude C cpsr w).2.device =
        ⟨none, false, false, a.finished ++ [(c, outcome)]⟩ ∧
      (conclude C cpsr w).2.cpsr = (if cpsr &&& 0x80 = 0 then w.cpsr &&& ~~~0x80 else w.cpsr) ∧
      ∃ reads : List Access, (∀ a ∈ reads, a = .readStatus ∨ a = .readError) ∧
        (conclude C cpsr w).2.accesses =
          w.accesses ++ (reads ++ [Access.writeAck blockAck]).map (fun a => (a, w.cpsr)) := by
  have hdone := Controller.Done.of_finish hw
  have hread := h.statusDone w.device c outcome hdone
  have hdone' := hdone.congr hread
  have hflag := (h.flags w.device).2
  rw [hdone'.error] at hflag
  have hrestore : ∀ (device : σ) (accesses : List (Access × Word)),
      (if cpsr &&& 0x80 = 0 then cpsieI ⟨w.cpsr, device, accesses⟩
        else ⟨w.cpsr, device, accesses⟩) =
      ⟨if cpsr &&& 0x80 = 0 then w.cpsr &&& ~~~0x80 else w.cpsr, device, accesses⟩ :=
    fun device accesses => restore_fields ⟨w.cpsr, device, accesses⟩ hprivileged
  cases houtcome : outcome with
  | none =>
      rw [houtcome] at hflag hw
      have hclear : (C.readStatus w.device).1 &&& blockStatusError = 0 := hflag.mpr rfl
      have hack := h.ack _ c outcome hdone'
      rw [hread, hw] at hack
      simp only [conclude, readStatus, hclear, ne_eq, not_true_eq_false, if_false, writeAck,
        World.record, hrestore]
      refine ⟨rfl, hack, trivial, [.readStatus], by simp, ?_⟩
      simp
  | some code =>
      rw [houtcome] at hflag hw hdone'
      have hset : (C.readStatus w.device).1 &&& blockStatusError ≠ 0 :=
        fun hzero => Bool.noConfusion (hflag.mp hzero)
      obtain ⟨hvalue, hkept⟩ := h.errorCode (C.readStatus w.device).2 c code hdone'
      have hack := h.ack _ c (some code) (hdone'.congr hkept)
      rw [hkept, hread, hw] at hack
      simp only [conclude, readStatus, ne_eq, hset, not_false_eq_true, if_true, writeAck, readError,
        World.record, hrestore]
      refine ⟨hvalue, hack, trivial, [.readStatus, .readError], by simp, ?_⟩
      simp

/-- The accesses of a transfer: the writes before the command, the reads after it, and the
acknowledgement. -/
def transferAccesses (c : Command) (n : Nat) (reads : List Access) : List Access :=
  [.writeArgument .unit (c.arguments .unit), .writeArgument .lba (c.arguments .lba),
    .writeArgument .sectorCount (c.arguments .sectorCount),
    .writeArgument .dmaPaddr (c.arguments .dmaPaddr), .writeCommand c.code] ++
    (List.replicate n .readStatus ++ reads) ++ [.writeAck blockAck]

theorem transferAccesses_commands (c : Command) (n : Nat) {reads : List Access}
    (hreads : ∀ a ∈ reads, a = .readStatus ∨ a = .readError) :
    (transferAccesses c n reads).filter Access.isCommand = [.writeCommand c.code] := by
  have hquiet : (List.replicate n Access.readStatus ++ reads).filter Access.isCommand = [] := by
    rw [List.filter_eq_nil_iff]
    intro a ha
    have hkind : a = .readStatus ∨ a = .readError := by
      rcases List.mem_append.mp ha with hpolled | hread
      · exact Or.inl (List.eq_of_mem_replicate hpolled)
      · exact hreads a hread
    rcases hkind with rfl | rfl <;> simp [Access.isCommand]
  rw [transferAccesses, List.filter_append, List.filter_append, hquiet]
  rfl

/-- Up to the end of the polling loop, all under the mask. -/
theorem polled_issue_accesses (C : Controller σ) (n : Nat) (c : Command) {cpsr : Word} (s : σ)
    (reads : List Access) (hprivileged : privileged cpsr = true) :
    (polled C n (issue C c.code c.arguments ⟨cpsr, s, []⟩)).accesses ++
        (reads ++ [Access.writeAck blockAck]).map (fun a => (a, cpsr ||| 0x80)) =
      (transferAccesses c n reads).map (fun a => (a, cpsr ||| 0x80)) := by
  simp [transferAccesses, polled, issue, writeCommand, writeArgument, World.record, cpsidI,
    hprivileged]

theorem minemuBlockTransfer_spec (h : C.Documented) {s : σ} (hs : C.Ready s) {cpsr : Word}
    (hprivileged : privileged cpsr = true) (c : Command) :
    ∃ n r w, (∀ fuel, n ≤ fuel → minemuBlockTransfer C fuel c.code (c.arguments .unit)
        (c.arguments .lba) (c.arguments .sectorCount) (c.arguments .dmaPaddr) ⟨cpsr, s, []⟩ =
          some (r, w)) ∧
      Served C c cpsr s r w := by
  have hissued := issue_activity h (w := ⟨cpsr, s, []⟩) hs c
  obtain ⟨n, outcome, hcode, hended, hpoll⟩ :=
    pollComplete_spec h (issue_working h (w := ⟨cpsr, s, []⟩) hs c)
  rw [hissued] at hended
  have hcpsr' : (polled C n (issue C c.code c.arguments ⟨cpsr, s, []⟩)).cpsr = cpsr ||| 0x80 :=
    cpsidI_cpsr (w := ⟨cpsr, s, []⟩) hprivileged
  obtain ⟨hresult, hactivity, hcpsr, reads, hreads, hlog⟩ := conclude_spec h
    (w := polled C n (issue C c.code c.arguments ⟨cpsr, s, []⟩)) hended cpsr
    (by rw [hcpsr', privileged_or_mask, hprivileged])
  obtain ⟨hmasked, hrestored⟩ := restore_mask cpsr
  refine ⟨n, (conclude C cpsr (polled C n (issue C c.code c.arguments ⟨cpsr, s, []⟩))).1,
    (conclude C cpsr (polled C n (issue C c.code c.arguments ⟨cpsr, s, []⟩))).2,
    fun fuel hfuel => ?_, ?_⟩
  · rw [minemuBlockTransfer_eq, hpoll fuel hfuel]
    rfl
  rw [hcpsr', polled_issue_accesses C n c s reads hprivileged] at hlog
  have hmap : ∀ l : List Access, (l.map (fun a => (a, cpsr ||| 0x80))).map Prod.fst = l := by
    intro l
    rw [List.map_map]
    exact List.map_id l
  refine ⟨⟨outcome, by rw [hactivity], hresult, ?_⟩, ?_, ?_, ?_, ?_, ?_⟩
  · rw [hresult]
    cases outcome with
    | none => simp
    | some code =>
        have hnonzero : code ≠ 0 := fun hzero => hcode (congrArg some hzero)
        simpa using hnonzero
  · rw [hlog, hmap]
    exact transferAccesses_commands c n hreads
  · exact ⟨by rw [Controller.Busy, hactivity]; simp, by rw [hactivity], by rw [hactivity]⟩
  · rw [hcpsr, hcpsr', hrestored]
  · rw [hlog]
    intro a ha
    obtain ⟨access, -, rfl⟩ := List.mem_map.mp ha
    exact hmasked
  · rw [hlog, hmap]
    exact List.getLast?_concat ..

/-! ## Sequences of calls -/

theorem Call.run_spec (h : C.Documented) {s : σ} (hs : C.Ready s) {call : Call}
    (hprivileged : privileged call.cpsr = true) :
    ∃ n r w, (∀ fuel, n ≤ fuel → call.run C fuel s = some (r, w)) ∧
      Served C call.command call.cpsr s r w := by
  obtain ⟨n, r, w, hrun, hserved⟩ := minemuBlockTransfer_spec h hs hprivileged call.command
  refine ⟨n, r, w, fun fuel hfuel => ?_, hserved⟩
  rw [← hrun fuel hfuel]
  cases hdirection : call.direction with
  | read => simp only [Call.run, Call.command, hdirection, minemuBlockRead, blockCommandRead]
  | write => simp only [Call.run, Call.command, hdirection, minemuBlockWrite, blockCommandWrite]

/-- Serialized transfers never mix up their results: from a ready controller every call of
every sequence returns, with the error code of its own command, and leaves the controller
ready.  The calls are made in privileged modes. -/
theorem runCalls_served (C : Controller σ) (h : C.Documented) (s : σ) (hs : C.Ready s)
    (calls : List Call) (hprivileged : ∀ call ∈ calls, privileged call.cpsr = true) :
    ∃ n results, (∀ fuel, n ≤ fuel → runCalls C fuel calls s = some results) ∧
      AllServed C s calls results := by
  induction calls generalizing s with
  | nil => exact ⟨0, [], fun _ _ => rfl, .nil s⟩
  | cons call calls ih =>
      obtain ⟨hcall, hcalls⟩ := List.forall_mem_cons.mp hprivileged
      obtain ⟨n, r, w, hrun, hserved⟩ := Call.run_spec h hs hcall
      obtain ⟨n', results, hruns, hall⟩ := ih w.device hserved.ready hcalls
      refine ⟨max n n', (r, w) :: results, fun fuel hfuel => ?_, .cons hserved hall⟩
      rw [runCalls, hrun fuel (by omega)]
      simp [hruns fuel (by omega)]

/-! ## A small controller -/

/-- Its argument registers, what it is doing, and the reads left until the command ends. -/
structure SmallDevice where
  arguments : Argument → Word
  activity : Activity
  delay : Nat

/-- A command takes as many reads as its LBA says; unit 2 and above is invalid. -/
def smallOutcome (c : Command) : Option Word :=
  if c.arguments .unit < 2 then none else some 7

def smallController : Controller SmallDevice where
  writeArgument a v d := { d with arguments := Function.update d.arguments a v }
  writeCommand v d :=
    { d with
      activity := { d.activity with current := some ⟨v, d.arguments⟩ }
      delay := (d.arguments .lba).toNat }
  writeAck _ d := { d with activity := { d.activity with complete := false, error := false } }
  readStatus d :=
    let d' := match d.activity.current, d.delay with
      | none, _ => d
      | some _, delay + 1 => { d with delay := delay }
      | some c, 0 => { d with activity := d.activity.finish c (smallOutcome c) }
    ((if d'.activity.complete then 2 else 0) ||| (if d'.activity.error then 4 else 0), d')
  readError d := ((d.activity.finished.getLast?.bind Prod.snd).getD 0, d)
  arguments := SmallDevice.arguments
  activity := SmallDevice.activity

theorem statusWord_flags : ∀ complete error : Bool,
    (((if complete then (2 : Word) else 0) ||| (if error then 4 else 0)) &&& blockStatusComplete =
      0 ↔ complete = false) ∧
    (((if complete then (2 : Word) else 0) ||| (if error then 4 else 0)) &&& blockStatusError =
      0 ↔ error = false) := by
  decide

theorem smallController_readStatus (d : SmallDevice) :
    (d.activity.current = none → (smallController.readStatus d).2 = d) ∧
    (∀ c delay, d.activity.current = some c → d.delay = delay + 1 →
      (smallController.readStatus d).2 = { d with delay := delay }) ∧
    (∀ c, d.activity.current = some c → d.delay = 0 →
      (smallController.readStatus d).2 =
        { d with activity := d.activity.finish c (smallOutcome c) }) := by
  refine ⟨fun h => ?_, fun c delay h hdelay => ?_, fun c h hdelay => ?_⟩
  · simp only [smallController, h]
  · simp only [smallController, h, hdelay]
  · simp only [smallController, h, hdelay]

theorem smallController_ends (d : SmallDevice) (c : Command)
    (hworking : smallController.Working c d) :
    ∃ n, ¬ smallController.Busy (smallController.afterReads n d) := by
  have hc : d.activity.current = some c := hworking.current
  have hcount : ∀ n ≤ d.delay,
      smallController.afterReads n d = { d with delay := d.delay - n } := by
    intro n hn
    induction n with
    | zero => rfl
    | succ n ih =>
        rw [Controller.afterReads, ih (by omega)]
        exact (smallController_readStatus _).2.1 c (d.delay - (n + 1)) hc (by dsimp only; omega)
  refine ⟨d.delay + 1, not_not.mpr ?_⟩
  have hlast := (smallController_readStatus { d with delay := d.delay - d.delay }).2.2 c hc
    (Nat.sub_self _)
  rw [Controller.afterReads, hcount d.delay (Nat.le_refl _), hlast]
  rfl

theorem smallController_documented : smallController.Documented where
  argument _ _ _ _ := ⟨rfl, rfl⟩
  command _ _ _ := rfl
  flags d := statusWord_flags _ _
  statusWorking d c hworking := by
    have hc : d.activity.current = some c := hworking.current
    cases hdelay : d.delay with
    | zero =>
        refine Or.inr ⟨smallOutcome c, ?_, ?_⟩
        · rw [smallOutcome]
          split <;> simp
        · rw [(smallController_readStatus d).2.2 c hc hdelay]
          rfl
    | succ delay =>
        rw [(smallController_readStatus d).2.1 c delay hc hdelay]
        exact Or.inl rfl
  ends := smallController_ends
  statusDone d _ _ hdone := by
    rw [(smallController_readStatus d).1 hdone.idle]
  errorCode d c code hdone := by
    refine ⟨?_, rfl⟩
    have hlast : d.activity.finished.getLast? = some (c, some code) := hdone.last
    simp only [smallController, hlast]
    rfl
  ack _ _ _ _ := rfl

def smallDevice : SmallDevice := ⟨fun _ => 0, ⟨none, false, false, []⟩, 0⟩

theorem smallDevice_ready : smallController.Ready smallDevice :=
  ⟨fun h => h rfl, rfl, rfl⟩

/-- A read that succeeds after three status reads and a write of an invalid unit. -/
def twoCalls : List Call :=
  [⟨.read, 0, 3, 1, 0x40001000, 0x13⟩, ⟨.write, 2, 0, 1, 0x40002000, 0x93⟩]

theorem runCalls_served_twoCalls :
    ∃ n results, (∀ fuel, n ≤ fuel →
        runCalls smallController fuel twoCalls smallDevice = some results) ∧
      AllServed smallController smallDevice twoCalls results :=
  runCalls_served smallController smallController_documented smallDevice smallDevice_ready
    twoCalls (by decide)

/-- A call in User mode, where `cpsid i` masks nothing. -/
def userCall : Call := ⟨.read, 0, 0, 1, 0x40001000, 0x10⟩

theorem runCalls_served_not_user :
    smallController.Documented ∧ smallController.Ready smallDevice ∧
      ¬ ∃ n results, (∀ fuel, n ≤ fuel →
          runCalls smallController fuel [userCall] smallDevice = some results) ∧
        AllServed smallController smallDevice [userCall] results := by
  refine ⟨smallController_documented, smallDevice_ready, ?_⟩
  rintro ⟨n, results, hrun, hserved⟩
  have hcalls : ∀ fuel, ∃ r w, runCalls smallController (fuel + 1) [userCall] smallDevice =
      some [(r, w)] ∧ (Access.writeCommand 1, 0x10) ∈ w.accesses := by
    intro fuel
    refine ⟨_, _, rfl, ?_⟩
    decide
  obtain ⟨r, w, hcalls, hmem⟩ := hcalls n
  rw [hrun (n + 1) (Nat.le_succ n)] at hcalls
  cases Option.some.inj hcalls
  cases hserved with
  | cons hcall _ => exact hcall.masked _ hmem (by decide)

end Minemu.Runtime.Block
