import Minemu.Headless.Handling

/-!
# `headless/exceptions`: every vector

Stages say which exceptions are due: undefined instructions, aborts, and the device
aborts of a user program.  Supervisor calls and IRQs are counted.  The exceptions of
each kind are looked at by themselves, so nothing is said about their order across
kinds.  IRQs are let through from the entry of the user program on.  Left out are
dispatchers that are interrupted themselves, and device aborts that skip another
instruction than the device access at which they are due.
-/

namespace Minemu.Headless.Exceptions

open Minemu.Lib.Memory Minemu.Lib.Arm Minemu.Lib.Guest Minemu.Platform Minemu.Trap

def dataVaddr : Word := 0x20000000

structure Globals where
  undefinedStage : Word
  abortStage : Word
  svcCount : Word
  irqCount : Word
  userDeviceStage : Word
  expectedSvcFrame : Word

structure Symbols where
  dataTable : StaticPage
  dataPage : StaticPage
  /-- The start of `.stacks`, four of 4096 bytes. -/
  stacksStart : Word
  stacksAligned : stacksStart &&& 7 = 0
  stacksLow : 0xc0030000 ≤ stacksStart.toNat
  stacksHigh : stacksStart.toNat + 4 * 4096 ≤ 0xc4000000
  prefetchProbe : Word
  userProbe : Word

instance : Inhabited Symbols :=
  ⟨⟨default, default, 0xc0300000, by decide, by decide, by decide, 0xc0400000, 0xc0401000⟩⟩

variable (s : Symbols)

def Symbols.svcStackTop : Word := s.stacksStart + 4096

def Symbols.irqStackTop : Word := s.stacksStart + 2 * 4096

def Symbols.abtStackTop : Word := s.stacksStart + 3 * 4096

def Symbols.undStackTop : Word := s.stacksStart + 4 * 4096

def rootEntry : Word := 0xc0010000 + 4 * (dataVaddr >>> 22)

def directPte (address : Word) : Word :=
  (0xc0012000 : Word) + ((address >>> 12) &&& 0x3ff) * (4 : Word)

theorem directPte_ne (address : Word) : directPte address ≠ traceBase := by
  have hindex : ((address >>> 12) &&& 0x3ff).toNat < 1024 := by
    rw [BitVec.toNat_and]
    exact Nat.lt_of_le_of_lt Nat.and_le_right (by decide)
  have hbase : (0xc0012000 : Word).toNat = 0xc0012000 := by decide
  have hfour : (4 : Word).toNat = 4 := by decide
  have htrace : traceBase.toNat = 0x1000f000 := by decide
  intro heq
  have hval := congrArg BitVec.toNat heq
  rw [directPte, BitVec.toNat_add, BitVec.toNat_mul, hbase, hfour] at hval
  omega

/-! ## The dispatchers -/

def requireExactStack (address top code : Word) : Code Globals Unit :=
  minemuRequire (address == top - BitVec.ofNat 32 sizeofTrapFrame && address &&& 7 == 0) code

def minemuSvcDispatch (address : Word) (frame : TrapFrame) : Code Globals TrapFrame := do
  let expected ← get Globals.expectedSvcFrame
  minemuRequire (address == expected && s.svcStackTop - 4096 ≤ address &&
    address < s.svcStackTop && address &&& 7 == 0) 59
  minemuRequire (frame.exceptionId == exceptionSvc) 30
  minemuRequire (frame.returnLr == frame.faultPc + 4 && frame.reserved == 0) 53
  let count ← get Globals.svcCount
  minemuRequire (frame.spsr &&& 0x1f == if count == 0 then 0x13 else 0x10) 31
  let count ← get Globals.svcCount
  set fun g => { g with svcCount := count + 1 }
  if frame.spsr &&& 0x1f == 0x10 then
    pure { frame with spsr := frame.spsr &&& ~~~0x1f ||| 0x13 }
  else pure frame

def minemuSvcTrampoline (address : Word) (frame : TrapFrame) : Code Globals TrapFrame :=
  minemuSvcDispatch s address (trampolineFrame exceptionSvc frame)

def minemuIrqDispatch (address : Word) (frame : TrapFrame) : Code Globals TrapFrame := do
  let cpsr ← sense
  requireExactStack address s.irqStackTop 60
  minemuRequire (cpsr &&& 0x80 != 0) 61
  minemuRequire (frame.exceptionId == irqSystick) 32
  minemuRequire (frame.returnLr == frame.faultPc + 4 && frame.reserved == 0) 54
  let status ← read systickStatus
  minemuRequire (status &&& systickStatusPending != 0) 33
  write systickAckRegister systickAck
  write interruptEoi irqSystick
  let count ← get Globals.irqCount
  set fun g => { g with irqCount := count + 1 }
  pure frame

/-- The branches on `undefined_stage`. -/
def requireMode (frame : TrapFrame) : Code Globals Unit := do
  let stage ← get Globals.undefinedStage
  if stage == 1 then minemuRequire (frame.spsr &&& 0x1f == 0x13) 35
  else
    let stage ← get Globals.undefinedStage
    if stage == 2 then minemuRequire (frame.spsr &&& 0x1f == 0x10) 36
    else minemuConformanceFail 37

def minemuUndefinedDispatch (address : Word) (frame : TrapFrame) : Code Globals TrapFrame := do
  requireExactStack address s.undStackTop 62
  minemuRequire (frame.exceptionId == exceptionUndefined) 34
  minemuRequire (frame.returnLr == frame.faultPc + 4 && frame.reserved == 0) 55
  requireMode frame
  set fun g => { g with undefinedStage := 0 }
  pure frame

def requireAbortLink (frame : TrapFrame) : Code Globals Unit :=
  if frame.exceptionId == exceptionDataAbort then
    minemuRequire (frame.returnLr == frame.faultPc + 8) 56
  else if frame.exceptionId == exceptionPrefetchAbort then
    minemuRequire (frame.returnLr == frame.faultPc + 4) 57
  else pure ()

/-- `*pte |= flag` -/
def grant (pte flag : Word) : Code Globals Unit := do
  let value ← read pte
  write pte (value ||| flag)

/-- The branches on `abort_stage`. -/
def repair (frame : TrapFrame) : Code Globals Unit := do
  let stage ← get Globals.abortStage
  if stage == 1 then
    minemuRequire (frame.exceptionId == exceptionDataAbort) 40
    minemuRequire (frame.dfar == dataVaddr && frame.dfsr == 1) 41
    write (s.dataTable.word 0)
      (minemuTestPaddr s.dataPage.base ||| pteValid ||| pteReadable ||| pteWritable)
  else
    let stage ← get Globals.abortStage
    if stage == 2 then
      minemuRequire (frame.exceptionId == exceptionPrefetchAbort) 42
      minemuRequire (frame.dfar == s.prefetchProbe) 43
      minemuRequire (frame.dfsr == 0x404) 44
      grant (directPte s.prefetchProbe) pteExecutable
    else
      let stage ← get Globals.abortStage
      if stage == 3 then
        minemuRequire (frame.exceptionId == exceptionPrefetchAbort) 45
        minemuRequire (frame.dfar == s.userProbe) 46
        minemuRequire (frame.dfsr == 0x504) 47
        grant (directPte s.userProbe) pteUser
      else
        minemuTraceEvent
          (0xe0070000 ||| (frame.exceptionId &&& 0xff) <<< 8 ||| (frame.dfsr &&& 0xff))
        minemuTraceEvent frame.dfar
        minemuConformanceFail 48

def skipDevice (frame : TrapFrame) (dfsr code stage : Word) : Code Globals TrapFrame := do
  minemuRequire (frame.dfsr == dfsr) code
  set fun g => { g with userDeviceStage := stage }
  pure { frame with returnLr := frame.returnLr + 4 }

def minemuAbortDispatch (address : Word) (frame : TrapFrame) : Code Globals TrapFrame := do
  requireExactStack address s.abtStackTop 63
  requireAbortLink frame
  minemuRequire (frame.reserved == 0) 58
  let stage ← get Globals.userDeviceStage
  if stage == 1 && frame.exceptionId == exceptionDataAbort && frame.dfar == rngBase then
    skipDevice frame 0x102 50 2
  else
    let stage ← get Globals.userDeviceStage
    if stage == 2 && frame.exceptionId == exceptionDataAbort && frame.dfar == traceBase then
      skipDevice frame 0x303 52 3
    else
      repair s frame
      minemuMmuTlbiall
      set fun g => { g with abortStage := 0 }
      pure frame

def dispatch (taken : Taken) : Code Globals TrapFrame :=
  match taken.vector with
  | .undefined => minemuUndefinedDispatch s taken.address taken.frame
  | .svc => minemuSvcTrampoline s taken.address taken.frame
  | .prefetchAbort | .dataAbort => minemuAbortDispatch s taken.address taken.frame
  | .irq => minemuIrqTrampoline (minemuIrqDispatch s taken.address) taken.frame

/-! ## The kernel -/

/-- An instruction that only raises an exception, or does nothing. -/
def instruction : Code Globals Unit := Prog.issue .sense

/-- `expected_svc_frame`, from the stack pointer. -/
def expectSvcFrame : Code Globals Unit := do
  let sp ← sense
  set fun g => { g with expectedSvcFrame := sp }
  let expected ← get Globals.expectedSvcFrame
  set fun g => { g with expectedSvcFrame := expected - BitVec.ofNat 32 sizeofTrapFrame }

/-- A load of user code, which a dispatcher may have skipped. -/
def readOrSkip (a : Word) : Code Globals Word := do
  let skipped ← sense
  if skipped == 0 then read a else sense

def userWriteOrSkip (a x : Word) : Code Globals Unit := do
  let skipped ← sense
  if skipped == 0 then Prog.issue (.userWrite a x) else pure ()

/-- `minemu_user_probe`: a fetch, two device accesses, an undefined instruction, a call. -/
def minemuUserProbe : Code Globals Unit := do
  instruction
  let r1 ← readOrSkip rngBase
  userWriteOrSkip traceBase r1
  instruction
  instruction

/-- `movs pc` goes to user mode with `spsr` 0x10, so IRQs are let through there, and after
the call that comes back. -/
def minemuRunUserProbe : Code Globals Unit := do
  Prog.issue (.mask false)
  minemuUserProbe

/-- `*pte &= ~flag` -/
def revoke (pte flag : Word) : Code Globals Unit := do
  let value ← read pte
  write pte (value &&& ~~~flag)

def minemuKernelMain : Code Globals Unit := do
  Prog.forUpTo (fun i => write (s.dataTable.word i) 0) 1024
  write rootEntry (minemuTestPaddr s.dataTable.base ||| pteValid)
  expectSvcFrame
  instruction
  let count ← get Globals.svcCount
  minemuRequire (count == 1) 1
  set fun g => { g with undefinedStage := 1 }
  instruction
  let stage ← get Globals.undefinedStage
  minemuRequire (stage == 0) 2
  instruction
  set fun g => { g with abortStage := 1 }
  let data ← read dataVaddr
  minemuRequire (data == 0) 3
  let stage ← get Globals.abortStage
  minemuRequire (stage == 0) 4
  revoke (directPte s.prefetchProbe) pteExecutable
  minemuMmuTlbiall
  set fun g => { g with abortStage := 2 }
  instruction
  let stage ← get Globals.abortStage
  minemuRequire (stage == 0) 5
  revoke (directPte s.userProbe) pteUser
  minemuMmuTlbiall
  set fun g => { g with abortStage := 3 }
  set fun g => { g with undefinedStage := 2 }
  set fun g => { g with userDeviceStage := 1 }
  expectSvcFrame
  minemuRunUserProbe
  let stage ← get Globals.abortStage
  minemuRequire (stage == 0) 6
  let stage ← get Globals.undefinedStage
  minemuRequire (stage == 0) 7
  let count ← get Globals.svcCount
  minemuRequire (count == 2) 8
  let stage ← get Globals.userDeviceStage
  minemuRequire (stage == 3) 10
  write interruptEnable 1
  write systickPeriod 64
  write systickControl (systickControlEnable ||| systickControlIrqEnable)
  cpsieI
  let _ ← Prog.await (.get Globals.irqCount) fun count => count == 0
  cpsidI
  let count ← get Globals.irqCount
  minemuRequire (count == 1) 9
  minemuTraceEvent 0x20070001
  minemuFailStop

def codes : List Word := [
  1, 2, 3, 4, 5, 6, 7, 8, 9, 10, 30, 31, 32, 33, 34, 35, 36, 37, 40, 41, 42, 43, 44, 45, 46, 47,
  48, 50, 52, 53, 54, 55, 56, 57, 58, 59, 60, 61, 62, 63]

def program : Case Globals where
  globals := ⟨0, 0, 0, 0, 0, 0⟩
  minemuKernelMain := minemuKernelMain s
  dispatch := dispatch s
  traceValues := [0x20070001]
  codes := codes
  diagnostics := [0xe0070000]

/-! ## The exceptions of a passing run -/

structure Entry where
  address : Word
  frame : TrapFrame
  left : TrapFrame

def entry? : Access → Option Entry
  | .exception address frame left => some ⟨address, frame, left⟩
  | _ => none

inductive Kind where
  | undefined
  | svc
  | irq
  /-- An abort at one of the two devices of the user program. -/
  | device
  /-- Any other abort. -/
  | abort
  deriving DecidableEq

def Entry.kind? (e : Entry) : Option Kind :=
  if e.left.exceptionId = exceptionUndefined then some .undefined
  else if e.left.exceptionId = exceptionSvc then some .svc
  else if e.left.exceptionId = irqSystick then some .irq
  else if e.left.exceptionId = exceptionDataAbort ∧
    (e.left.dfar = rngBase ∨ e.left.dfar = traceBase) then some .device
  else if e.left.exceptionId = exceptionDataAbort ∨
    e.left.exceptionId = exceptionPrefetchAbort then some .abort
  else none

def ofKind (kind : Kind) (entries : List Entry) : List Entry :=
  entries.filter fun e => e.kind? = some kind

structure OnStack (address top : Word) : Prop where
  first : address = top - BitVec.ofNat 32 sizeofTrapFrame
  aligned : address &&& 7 = 0

structure Undefined (mode : Word) (e : Entry) : Prop where
  stack : OnStack e.address s.undStackTop
  exceptionId : e.frame.exceptionId = exceptionUndefined
  link : e.frame.returnLr = e.frame.faultPc + 4
  mode : e.frame.spsr &&& 0x1f = mode
  left : e.left = e.frame

structure Abort (cause dfar dfsr : Word) (e : Entry) : Prop where
  stack : OnStack e.address s.abtStackTop
  exceptionId : e.frame.exceptionId = cause
  link : e.frame.returnLr = e.frame.faultPc + if cause = exceptionDataAbort then 8 else 4
  dfar : e.frame.dfar = dfar
  dfsr : e.frame.dfsr = dfsr

structure Restarted (cause dfar dfsr : Word) (e : Entry) : Prop where
  abort : Abort s cause dfar dfsr e
  left : e.left = e.frame

structure Skipped (dfar dfsr : Word) (e : Entry) : Prop where
  abort : Abort s exceptionDataAbort dfar dfsr e
  left : e.left = { e.frame with returnLr := e.frame.returnLr + 4 }

/-- A call, the first one from SVC mode.  A later one comes from user mode and does not go
back there. -/
structure Svc (first : Bool) (e : Entry) : Prop where
  stack : s.svcStackTop - 4096 ≤ e.address ∧ e.address < s.svcStackTop ∧ e.address &&& 7 = 0
  mode : e.frame.spsr &&& 0x1f = if first then 0x13 else 0x10
  left : e.left = trampolineFrame exceptionSvc
    (if first then e.frame else { e.frame with spsr := e.frame.spsr &&& ~~~0x1f ||| 0x13 })

structure Irq (e : Entry) : Prop where
  stack : OnStack e.address s.irqStackTop
  left : e.left = trampolineFrame irqSystick e.frame

def undefinedDue : List (Entry → Prop) := [Undefined s 0x13, Undefined s 0x10]

def abortsDue : List (Entry → Prop) := [
  Restarted s exceptionDataAbort dataVaddr 1,
  Restarted s exceptionPrefetchAbort s.prefetchProbe 0x404,
  Restarted s exceptionPrefetchAbort s.userProbe 0x504]

def devicesDue : List (Entry → Prop) := [Skipped s rngBase 0x102, Skipped s traceBase 0x303]

/-- Every call so far, from the value of the counter at each. -/
def Called (xs : List Entry) : Prop :=
  ∀ i (h : i < xs.length), Svc s (BitVec.ofNat 32 i == 0) xs[i]

structure Complete (entries : List Entry) : Prop where
  undefined : Matches (undefinedDue s) (ofKind .undefined entries)
  abort : Matches (abortsDue s) (ofKind .abort entries)
  device : Matches (devicesDue s) (ofKind .device entries)
  called : Called s (ofKind .svc entries)
  calls : 2 ≤ (ofKind .svc entries).length
  irq : ∀ e ∈ ofKind .irq entries, Irq s e
  irqs : BitVec.ofNat 32 (ofKind .irq entries).length = 1

def Passed (w : World Globals) : Prop := Complete s (w.log.filterMap entry?)

theorem program_expects : (program s).Expects := ⟨by simp [program], by simp [program]⟩

theorem program_pending : (program s).Pending [] := by
  show [] <+: [_] ∧ [] ≠ [_]
  simp

theorem program_failsWithin : (program s).FailsWithin ((program s).Invariant (Passed s)) :=
  (program_expects s).failsWithin (program_pending s)

end Minemu.Headless.Exceptions
