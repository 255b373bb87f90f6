import Minemu.Headless.Handling
import Mathlib.Logic.Function.Basic

/-!
# `headless/interrupts`: the controller, polled and taken

The kernel claims and finishes with IRQs masked, then lets the two ports interrupt
it.  The log of a passing run, without the polls of a port, is fixed but for the data.
-/

namespace Minemu.Headless.Interrupts

open Minemu.Lib.Memory Minemu.Lib.Arm Minemu.Lib.Guest Minemu.Platform Minemu.Trap

structure Globals where
  irqCount : Word
  /-- The code indexes it below 2. -/
  irqOrder : Word → Word

/-! ## The dispatcher -/

/-- The load that takes the request of a port back. -/
def drain (source : Word) : Code Globals Unit :=
  if source == irqUart0 then do
    let _ ← read (uartRxData uart0Base)
  else do
    let _ ← read (uartRxData uart1Base)

def minemuIrqDispatch (frame : TrapFrame) : Code Globals TrapFrame := do
  let cpsr ← sense
  minemuRequire (cpsr &&& 0x80 != 0) 22
  let count ← get Globals.irqCount
  minemuRequire (count < 2) 20
  minemuRequire (frame.exceptionId == irqUart0 || frame.exceptionId == irqUart1) 21
  let count ← get Globals.irqCount
  set fun g => ⟨count + 1, Function.update g.irqOrder count frame.exceptionId⟩
  drain frame.exceptionId
  write interruptEoi frame.exceptionId
  pure frame

def dispatch (taken : Taken) : Code Globals TrapFrame :=
  match taken.vector with
  | .irq => minemuIrqTrampoline minemuIrqDispatch taken.frame
  | _ => weakDispatch taken

/-! ## The kernel -/

def minemuSystickExact128 (control : Word) : Code Globals (Word × Word) := do
  write systickControl control
  let first ← read systickStatus
  let second ← read systickStatus
  pure (first, second)

def minemuSystickExact64 (control : Word) : Code Globals Word := do
  write systickControl control
  let first ← read systickStatus
  let second ← read systickStatus
  write systickAckRegister 1
  let third ← read systickStatus
  let fourth ← read systickStatus
  pure (first ||| second <<< 8 ||| third <<< 16 ||| fourth <<< 24)

def waitUart (uart : Word) : Code Globals Unit := do
  let _ ← Prog.await (.read (uartStatus uart)) fun v => v &&& uartStatusRxReady == 0

def claim : Code Globals Word := read interruptClaimRegister

def acknowledge (source : Word) : Code Globals Unit :=
  if source == irqSystick then write systickAckRegister systickAck
  else if source == irqUart0 then do
    let _ ← read (uartRxData uart0Base)
  else if source == irqUart1 then do
    let _ ← read (uartRxData uart1Base)
  else pure ()

def finish (source : Word) : Code Globals Unit := do
  acknowledge source
  write interruptEoi source

def minemuKernelMain : Code Globals Unit := do
  cpsidI
  write systickPeriod 128
  let (first, second) ← minemuSystickExact128 (systickControlEnable ||| systickControlIrqEnable)
  minemuRequire (first == 0) 1
  minemuRequire (second == systickStatusPending) 13
  waitUart uart0Base
  waitUart uart1Base
  write (uartControl uart0Base) uartControlRxIrqEnable
  write (uartControl uart1Base) uartControlRxIrqEnable
  write interruptEnable 7
  let source ← claim
  minemuRequire (source == irqSystick) 2
  let source ← claim
  minemuRequire (source == irqSystick) 3
  finish irqSystick
  write interruptPriorityUart0 10
  write interruptPriorityUart1 5
  let source ← claim
  minemuRequire (source == irqUart1) 4
  let source ← claim
  minemuRequire (source == irqUart1) 5
  finish irqUart1
  let source ← claim
  minemuRequire (source == irqUart0) 6
  finish irqUart0
  waitUart uart0Base
  waitUart uart1Base
  write interruptPriorityUart0 7
  write interruptPriorityUart1 7
  let source ← claim
  minemuRequire (source == irqUart0) 7
  finish irqUart0
  let source ← claim
  minemuRequire (source == irqUart1) 8
  finish irqUart1
  let source ← claim
  minemuRequire (source == irqNone) 9
  write systickPeriod 64
  let samples ← minemuSystickExact64 (systickControlEnable ||| systickControlPeriodic)
  minemuRequire (samples == 0x01000100) 14
  write systickAckRegister systickAck
  waitUart uart0Base
  waitUart uart1Base
  write interruptPriorityUart0 9
  write interruptPriorityUart1 3
  cpsieI
  let _ ← Prog.await (.get Globals.irqCount) fun count => count < 2
  cpsidI
  let source ← get fun g => g.irqOrder 0
  minemuRequire (source == irqUart1) 11
  let source ← get fun g => g.irqOrder 1
  minemuRequire (source == irqUart0) 12
  minemuTraceEvent 0x20050001
  minemuFailStop

def program : Case Globals where
  globals := ⟨0, fun _ => 0⟩
  minemuKernelMain := minemuKernelMain
  dispatch := dispatch
  traceValues := [0x20050001]
  codes := [1, 2, 3, 4, 5, 6, 7, 8, 9, 11, 12, 13, 14, 20, 21, 22]
  diagnostics := []

/-! ## What a passing run has seen -/

/-- Every access but the polls of a port. -/
def conversation : Access → Bool
  | .read a _ => a != uartStatus uart0Base && a != uartStatus uart1Base
  | _ => true

def finished (source data : Word) : List Access :=
  [.read (if source == irqUart0 then uartRxData uart0Base else uartRxData uart1Base) data,
    .write interruptEoi source]

inductive Served : List Word → List Access → Prop where
  | nil : Served [] []
  | snoc {sources : List Word} {es : List Access} (h : Served sources es)
      (source data address : Word) (frame left : TrapFrame) :
      Served (sources ++ [source]) (es ++ [.read interruptClaimRegister source] ++
        finished source data ++ [.exception address frame left])

structure Loaded where
  first0 : Word
  first1 : Word
  second0 : Word
  second1 : Word
  sample0 : Word
  sample1 : Word
  sample2 : Word
  sample3 : Word
  periodic : sample0 ||| sample1 <<< 8 ||| sample2 <<< 16 ||| sample3 <<< 24 = 0x01000100

/-- The kernel with IRQs masked.  A claim is repeated until it is finished, the lower
priority value comes first, and among equal ones the lower source. -/
def polled (loaded : Loaded) : List Access :=
  [.write systickPeriod 128,
    .write systickControl (systickControlEnable ||| systickControlIrqEnable),
    .read systickStatus 0, .read systickStatus systickStatusPending,
    .write (uartControl uart0Base) uartControlRxIrqEnable,
    .write (uartControl uart1Base) uartControlRxIrqEnable,
    .write interruptEnable 7,
    .read interruptClaimRegister irqSystick, .read interruptClaimRegister irqSystick,
    .write systickAckRegister systickAck, .write interruptEoi irqSystick,
    .write interruptPriorityUart0 10, .write interruptPriorityUart1 5,
    .read interruptClaimRegister irqUart1, .read interruptClaimRegister irqUart1] ++
  finished irqUart1 loaded.first1 ++ [.read interruptClaimRegister irqUart0] ++
  finished irqUart0 loaded.first0 ++
  [.write interruptPriorityUart0 7, .write interruptPriorityUart1 7,
    .read interruptClaimRegister irqUart0] ++
  finished irqUart0 loaded.second0 ++ [.read interruptClaimRegister irqUart1] ++
  finished irqUart1 loaded.second1 ++
  [.read interruptClaimRegister irqNone,
    .write systickPeriod 64,
    .write systickControl (systickControlEnable ||| systickControlPeriodic),
    .read systickStatus loaded.sample0, .read systickStatus loaded.sample1,
    .write systickAckRegister 1,
    .read systickStatus loaded.sample2, .read systickStatus loaded.sample3,
    .write systickAckRegister systickAck,
    .write interruptPriorityUart0 9, .write interruptPriorityUart1 3]

def Passed (w : World Globals) : Prop :=
  ∃ loaded taken, Served [irqUart1, irqUart0] taken ∧
    w.log.filter conversation = polled loaded ++ taken ++ [.write traceBase 0x20050001]

theorem program_expects : program.Expects := ⟨by simp [program], by simp [program]⟩

theorem program_pending : program.Pending [] := by
  show [] <+: [_] ∧ [] ≠ [_]
  simp

theorem program_failsWithin : program.FailsWithin (program.Invariant Passed) :=
  program_expects.failsWithin program_pending

abbrev monitor : Monitor (List Access) := .selecting conversation

theorem step_conversation {x : Access} (t : List Access) (hx : conversation x = true) :
    monitor.step t x = t ++ [x] :=
  if_pos hx

/-! ## What a dispatcher does -/

def Post (taken : Taken) (t : List Access) (g : Globals) (_ : TrapFrame) (t' : List Access)
    (g' : Globals) : Prop :=
  taken.vector = .irq ∧ ∃ source data, g.irqCount < 2 ∧
    t' = t ++ [.read interruptClaimRegister source] ++ finished source data ∧
    g' = ⟨g.irqCount + 1, Function.update g.irqOrder g.irqCount source⟩

section Dispatch

variable {t : List Access} {s : Globals} {b : Bool}

theorem stable_alone : Stable (alone : Handlers (Command Globals) Word (World Globals) Empty)
    (program.Invariant Passed) (Quiet monitor (Exactly t s b)) :=
  Quiet.stable_alone program_pending

theorem drain_then {α : Type} {source : Word} {g : Code Globals α} {Q : α → World Globals → Prop}
    (hg : ∀ data, Triple alone (program.Invariant Passed) (Quiet monitor
      (Exactly (t ++ [.read (if source == irqUart0 then uartRxData uart0Base
        else uartRxData uart1Base) data]) s b)) g Q) :
    Triple alone (program.Invariant Passed) (Quiet monitor (Exactly t s b))
      (drain source >>= fun _ => g) Q := by
  unfold drain
  by_cases hsource : (source == irqUart0) = true
  · rw [if_pos hsource] at hg ⊢
    refine Exactly.read_then stable_alone fun data => ?_
    rw [step_conversation t rfl]
    exact hg data
  · rw [if_neg hsource] at hg ⊢
    refine Exactly.read_then stable_alone fun data => ?_
    rw [step_conversation t rfl]
    exact hg data

theorem minemuIrqTrampoline_spec (taken : Taken) (hvector : taken.vector = .irq) :
    Triple alone (program.Invariant Passed) (Quiet monitor (Exactly t s b))
      (minemuIrqTrampoline minemuIrqDispatch taken.frame)
      fun left => Quiet monitor fun t' g' b' => Post taken t s left t' g' ∧ b' = b := by
  refine Exactly.read_then stable_alone fun source => ?_
  rw [step_conversation t rfl]
  refine Quiet.sense_then stable_alone fun cpsr => ?_
  refine Quiet.require_then stable_alone program_failsWithin (by decide) fun _ => ?_
  refine Exactly.get_then stable_alone ?_
  refine Quiet.require_then stable_alone program_failsWithin (by decide) fun hcount => ?_
  refine Quiet.require_then stable_alone program_failsWithin (by decide) fun _ => ?_
  refine Exactly.get_then stable_alone (Exactly.set_then stable_alone ?_)
  refine drain_then fun data => ?_
  refine Exactly.write_then stable_alone (by decide) ?_
  rw [step_conversation _ rfl]
  refine Quiet.ret_alone program_pending ?_
  rintro t' g' b' ⟨rfl, rfl, rfl⟩
  refine ⟨⟨hvector, source, data, of_decide_eq_true hcount, ?_, rfl⟩, rfl⟩
  simp [finished, trampolineFrame]

end Dispatch

theorem dispatch_spec (taken : Taken) (t : List Access) (g : Globals) (b : Bool) :
    Triple alone (program.Invariant Passed) (Quiet monitor (Exactly t g b))
      (program.dispatch taken)
      fun left => Quiet monitor fun t' g' b' => Post taken t g left t' g' ∧ b' = b := by
  have hweak : Triple alone (program.Invariant Passed) (Quiet monitor (Exactly t g b))
      (weakDispatch taken)
      fun left => Quiet monitor fun t' g' b' => Post taken t g left t' g' ∧ b' = b :=
    Triple.stop fun w hw => hw.invariant program_pending
  show Triple _ _ _ (dispatch taken) _
  unfold dispatch
  cases hvector : taken.vector with
  | irq => exact minemuIrqTrampoline_spec taken hvector
  | undefined => exact hweak
  | svc => exact hweak
  | prefetchAbort => exact hweak
  | dataAbort => exact hweak

/-! ## The kernel, polling -/

abbrev Spec (R : List Access → Globals → Bool → Prop) (g : Code Globals Unit)
    (Q : Unit → World Globals → Prop) : Prop :=
  Triple program.handlers (program.Invariant Passed) (Quiet monitor R) g Q

/-- No interrupt yet, and none can come. -/
def Idle (t : List Access) : List Access → Globals → Bool → Prop :=
  Exactly t program.globals true

theorem idle_stable {t : List Access} :
    Stable program.handlers (program.Invariant Passed) (Quiet monitor (Idle t)) := by
  refine Quiet.stable program_pending (fun taken t g b _ => dispatch_spec taken t g b) ?_
  rintro taken t' g b ⟨rfl, rfl, rfl⟩ hpasses left t'' g' ⟨hvector, -⟩
  exact absurd (hpasses hvector) (by decide)

section Polling

variable {t : List Access} {k : Word → Code Globals Unit} {g : Code Globals Unit}
  {Q : Unit → World Globals → Prop}

theorem load_then {a : Word} (ha : ∀ v, conversation (.read a v) = true)
    (hk : ∀ v, Spec (Idle (t ++ [.read a v])) (k v) Q) : Spec (Idle t) (read a >>= k) Q := by
  refine Exactly.read_then idle_stable fun v => ?_
  rw [step_conversation t (ha v)]
  exact hk v

theorem store_then {a x : Word} (hne : a ≠ traceBase)
    (hg : Spec (Idle (t ++ [.write a x])) g Q) :
    Spec (Idle t) (write a x >>= fun _ => g) Q := by
  refine Exactly.write_then idle_stable hne ?_
  rw [step_conversation t rfl]
  exact hg

theorem check_then {b : Bool} {code : Word} (hcode : code ∈ program.codes)
    (hg : b = true → Spec (Idle t) g Q) :
    Spec (Idle t) (minemuRequire b code >>= fun _ => g) Q :=
  Quiet.require_then idle_stable program_failsWithin hcode hg

theorem waitUart_then {uart : Word} (huart : ∀ v, conversation (.read (uartStatus uart) v) = false)
    (hg : Spec (Idle t) g Q) : Spec (Idle t) (waitUart uart >>= fun _ => g) Q := by
  have hsame : ∀ t v, monitor.step t (.read (uartStatus uart) v) = t := fun t v =>
    if_neg (by simp [huart v])
  exact Quiet.await_ignored idle_stable hsame fun _ => hg

theorem claim_then {source code : Word} (hcode : code ∈ program.codes)
    (hg : Spec (Idle (t ++ [.read interruptClaimRegister source])) g Q) :
    Spec (Idle t) (claim >>= fun v => minemuRequire (v == source) code >>= fun _ => g) Q := by
  refine load_then (fun _ => rfl) fun v => check_then hcode fun hv => ?_
  rw [eq_of_beq hv]
  exact hg

theorem finish_uart0_then (hg : ∀ data, Spec (Idle (t ++ finished irqUart0 data)) g Q) :
    Spec (Idle t) (finish irqUart0 >>= fun _ => g) Q := by
  refine load_then (fun _ => rfl) fun data => store_then (by decide) ?_
  rw [← List.append_cons]
  exact hg data

theorem finish_uart1_then (hg : ∀ data, Spec (Idle (t ++ finished irqUart1 data)) g Q) :
    Spec (Idle t) (finish irqUart1 >>= fun _ => g) Q := by
  refine load_then (fun _ => rfl) fun data => store_then (by decide) ?_
  rw [← List.append_cons]
  exact hg data

end Polling

/-! ## The kernel, interrupted -/

/-- The globals tell the sources that were served. -/
structure Recorded (sources : List Word) (g : Globals) : Prop where
  short : sources.length ≤ 2
  count : g.irqCount = BitVec.ofNat 32 sources.length
  order : ∀ i (h : i < sources.length), g.irqOrder (BitVec.ofNat 32 i) = sources[i]

theorem Recorded.snoc {sources : List Word} {g : Globals} (h : Recorded sources g)
    (hcount : g.irqCount < 2) (source : Word) :
    Recorded (sources ++ [source])
      ⟨g.irqCount + 1, Function.update g.irqOrder g.irqCount source⟩ := by
  have hlength : sources.length < 2 := by
    have hshort := h.short
    rw [h.count, BitVec.lt_def, BitVec.toNat_ofNat, Nat.mod_eq_of_lt (by omega)] at hcount
    exact hcount
  refine ⟨by rw [List.length_append]; exact hlength, ?_, fun i hi => ?_⟩
  · rw [h.count, List.length_append, BitVec.ofNat_add]
    rfl
  · rw [List.length_append, List.length_singleton] at hi
    rw [h.count]
    by_cases hlast : i = sources.length
    · subst hlast
      simp
    · have hne : BitVec.ofNat 32 i ≠ BitVec.ofNat 32 sources.length := by
        intro heq
        have hval := congrArg BitVec.toNat heq
        rw [BitVec.toNat_ofNat, BitVec.toNat_ofNat, Nat.mod_eq_of_lt (by omega),
          Nat.mod_eq_of_lt (by omega)] at hval
        exact hlast hval
      refine (Function.update_of_ne hne _ _).trans ?_
      rw [h.order i (by omega), List.getElem_append_left]

def Serving (t : List Access) (p : List Word → Prop) : List Access → Globals → Bool → Prop :=
  fun t' g _ => ∃ sources es, Served sources es ∧ t' = t ++ es ∧ Recorded sources g ∧ p sources

section Interrupted

variable {t : List Access} {p p' : List Word → Prop} {g : Code Globals Unit}
  {Q : Unit → World Globals → Prop}

theorem serving_stable (hp : ∀ sources source, p sources → sources.length < 2 →
    p (sources ++ [source])) :
    Stable program.handlers (program.Invariant Passed) (Quiet monitor (Serving t p)) := by
  refine Quiet.stable program_pending (fun taken t g b _ => dispatch_spec taken t g b) ?_
  rintro taken t' g b ⟨sources, es, hserved, rfl, hrecorded, hsources⟩ - left t'' g'
    ⟨-, source, data, hcount, rfl, rfl⟩
  have hnext := hrecorded.snoc hcount source
  have hlength := hnext.short
  rw [List.length_append, List.length_singleton] at hlength
  refine ⟨_, _, hserved.snoc source data taken.address taken.frame left, ?_, hnext,
    hp sources source hsources hlength⟩
  · rw [step_conversation _ rfl]
    simp

/-- Once two are served, no more can be. -/
theorem served_stable (hp : ∀ sources, p sources → sources.length = 2) :
    Stable program.handlers (program.Invariant Passed) (Quiet monitor (Serving t p)) :=
  serving_stable fun sources _ hsources hlength => absurd (hp sources hsources) (by omega)

theorem order_then {i : Nat} {source code : Word} (hcode : code ∈ program.codes)
    (hp : ∀ sources, p sources → sources.length = 2) (hi : i < 2)
    (hg : Spec (Serving t fun sources => p sources ∧ sources[i]? = some source) g Q) :
    Spec (Serving t p) (get (fun g => g.irqOrder (BitVec.ofNat 32 i)) >>= fun v =>
      minemuRequire (v == source) code >>= fun _ => g) Q := by
  refine Quiet.requireGet_then (served_stable hp) program_failsWithin hcode ?_
    (served_stable fun sources hsources => hp sources hsources.1) hg
  rintro t' g b ⟨sources, es, hserved, rfl, hrecorded, hsources⟩ hsource
  have hlength := hp sources hsources
  refine ⟨sources, es, hserved, rfl, hrecorded, hsources, ?_⟩
  rw [List.getElem?_eq_getElem (by omega), ← hrecorded.order i (by omega), eq_of_beq hsource]

theorem interrupted_spec (loaded : Loaded) :
    Spec (Idle (polled loaded)) (do
      cpsieI
      let _ ← Prog.await (.get Globals.irqCount) fun count => count < 2
      cpsidI
      let source ← get fun g => g.irqOrder 0
      minemuRequire (source == irqUart1) 11
      let source ← get fun g => g.irqOrder 1
      minemuRequire (source == irqUart0) 12
      minemuTraceEvent 0x20050001
      minemuFailStop) fun _ _ => False := by
  have hnone : ∀ t g b, Idle (polled loaded) t g b →
      Serving (polled loaded) (fun _ => True) t g false := by
    rintro t g b ⟨rfl, rfl, rfl⟩
    exact ⟨[], [], .nil, (List.append_nil _).symm, ⟨by decide, rfl, nofun⟩, trivial⟩
  have hboth : ∀ t g b, Serving (polled loaded) (fun _ => True) t g b →
      decide (g.irqCount < 2) = false →
        Serving (polled loaded) (fun sources => sources.length = 2) t g b := by
    rintro t g b ⟨sources, es, hserved, rfl, hrecorded, -⟩ hdone
    refine ⟨sources, es, hserved, rfl, hrecorded, ?_⟩
    have hshort := hrecorded.short
    rw [decide_eq_false_iff_not, hrecorded.count, BitVec.lt_def, BitVec.toNat_ofNat,
      Nat.mod_eq_of_lt (by omega)] at hdone
    exact Nat.le_antisymm hshort (Nat.not_lt.mp hdone)
  refine Quiet.mask_then idle_stable hnone ?_
  refine Quiet.awaitGet_then (serving_stable fun _ _ _ _ => trivial) hboth fun _ => ?_
  have hmasked : ∀ t g b, Serving (polled loaded) (fun sources => sources.length = 2) t g b →
      Serving (polled loaded) (fun sources => sources.length = 2) t g true := fun _ _ _ h => h
  refine Quiet.mask_then (served_stable fun _ h => h) hmasked ?_
  refine order_then (i := 0) (by decide) (fun _ h => h) (by decide) ?_
  refine order_then (i := 1) (by decide) (fun _ h => h.1) (by decide) ?_
  refine Quiet.pass (served_stable fun _ h => h.1.1) (fun _ h => h) rfl ?_
  rintro t g b ⟨sources, es, hserved, rfl, -, ⟨hlength, h0⟩, h1⟩ w hw
  obtain ⟨x, y, rfl⟩ := List.length_eq_two.mp hlength
  obtain rfl := Option.some.inj h0
  obtain rfl := Option.some.inj h1
  rw [Monitor.watch_selecting, step_conversation _ rfl] at hw
  exact ⟨loaded, es, hserved, hw⟩

end Interrupted

theorem minemuKernelMain_spec : Spec (Idle []) minemuKernelMain fun _ _ => False := by
  unfold minemuKernelMain
  refine Exactly.mask_then idle_stable ?_
  refine store_then (by decide) (store_then (by decide) ?_)
  refine load_then (fun _ => rfl) fun first => load_then (fun _ => rfl) fun second => ?_
  refine check_then (by decide) fun hfirst => check_then (by decide) fun hsecond => ?_
  obtain rfl := eq_of_beq hfirst
  obtain rfl := eq_of_beq hsecond
  refine waitUart_then (fun _ => rfl) (waitUart_then (fun _ => rfl) ?_)
  refine store_then (by decide) (store_then (by decide) (store_then (by decide) ?_))
  refine claim_then (by decide) (claim_then (by decide) ?_)
  refine store_then (by decide) (store_then (by decide) ?_)
  refine store_then (by decide) (store_then (by decide) ?_)
  refine claim_then (by decide) (claim_then (by decide) (finish_uart1_then fun first1 => ?_))
  refine claim_then (by decide) (finish_uart0_then fun first0 => ?_)
  refine waitUart_then (fun _ => rfl) (waitUart_then (fun _ => rfl) ?_)
  refine store_then (by decide) (store_then (by decide) ?_)
  refine claim_then (by decide) (finish_uart0_then fun second0 => ?_)
  refine claim_then (by decide) (finish_uart1_then fun second1 => ?_)
  refine claim_then (by decide) (store_then (by decide) ?_)
  refine store_then (by decide) ?_
  refine load_then (fun _ => rfl) fun sample0 => load_then (fun _ => rfl) fun sample1 => ?_
  refine store_then (by decide) ?_
  refine load_then (fun _ => rfl) fun sample2 => load_then (fun _ => rfl) fun sample3 => ?_
  refine check_then (by decide) fun hsamples => store_then (by decide) ?_
  refine waitUart_then (fun _ => rfl) (waitUart_then (fun _ => rfl) ?_)
  refine store_then (by decide) (store_then (by decide) ?_)
  refine (interrupted_spec ⟨first0, first1, second0, second1,
    sample0, sample1, sample2, sample3, eq_of_beq hsamples⟩).pre fun w hw => hw.mono ?_
  intro t g b ⟨ht, hg, hb⟩
  refine ⟨?_, hg, hb⟩
  simp [ht, polled]

theorem program_sound : program.Sound Passed :=
  Case.sound_of_triple minemuKernelMain_spec ⟨rfl, rfl, rfl, rfl⟩

/-- The case passes only on a controller that goes by the enabled sources and their priorities,
whether it is polled or interrupts the kernel. -/
theorem interrupts_sound : program.Sound Passed := program_sound

/-! ## A passing run exists -/

section Attaining

variable {x : Globals} {b : Bool} {g : Code Globals Unit} {Q : Unit → World Globals → Prop}
  {T : World Globals → Prop}

abbrev Attained (x : Globals) (b : Bool) (g : Code Globals Unit) : Prop :=
  Attains program.handlers (Stands [] x b) g (fun _ _ => False) fun w => w.events = [0x20050001]

theorem waitUart_attains {uart : Word} (hg : Attained x b g) :
    Attained x b (waitUart uart >>= fun _ => g) :=
  Stands.await_then (k := fun _ => g) uartStatusRxReady (by decide) hg

theorem claim_attains {source code : Word} (hg : Attained x b g) :
    Attained x b (claim >>= fun v => minemuRequire (v == source) code >>= fun _ => g) :=
  Stands.read_then source (Stands.require_then (beq_self_eq_true source) hg)

theorem finish_attains {source : Word} (hsource : source ∈ [irqSystick, irqUart0, irqUart1])
    (hg : Attained x b g) : Attained x b (finish source >>= fun _ => g) := by
  simp only [List.mem_cons, List.not_mem_nil, or_false] at hsource
  unfold finish acknowledge
  simp only [bind_assoc]
  rcases hsource with rfl | rfl | rfl
  · rw [if_pos (by decide)]
    exact Stands.write_then (by decide) (Stands.write_then (by decide) hg)
  · rw [if_neg (by decide), if_pos (by decide)]
    exact Stands.read_then 0 (Stands.write_then (by decide) hg)
  · rw [if_neg (by decide), if_neg (by decide), if_pos (by decide)]
    exact Stands.read_then 0 (Stands.write_then (by decide) hg)

/-- An IRQ of a port, once they are let through. -/
theorem served_attains (source : Word) (hsource : source = irqUart0 ∨ source = irqUart1)
    (hcount : x.irqCount < 2) (hrunning : g.Running)
    (hg : Attained ⟨x.irqCount + 1, Function.update x.irqOrder x.irqCount source⟩ false g) :
    Attained x false g := by
  refine Stands.interrupt (c := program) hrunning ⟨.irq, 0, plainFrame⟩ rfl
    (trampolineFrame source plainFrame) ?_ hg
  show Attains alone _ (minemuIrqTrampoline minemuIrqDispatch plainFrame) _ _
  refine Stands.read_then source (Stands.sense_then 0x80 (Stands.require_then (by decide) ?_))
  refine Stands.get_then (Stands.require_then (decide_eq_true hcount) ?_)
  refine Stands.require_then ?_ (Stands.get_then (Stands.set_then ?_))
  · rcases hsource with rfl | rfl <;> rfl
  unfold drain
  have hid : (trampolineFrame source plainFrame).exceptionId = source := rfl
  rw [hid]
  rcases hsource with rfl | rfl
  · rw [if_pos (by decide)]
    refine Stands.read_then 0 (Stands.write_then (by decide) ?_)
    exact Attains.ret fun _ hw => ⟨rfl, hw⟩
  · rw [if_neg (by decide)]
    refine Stands.read_then 0 (Stands.write_then (by decide) ?_)
    exact Attains.ret fun _ hw => ⟨rfl, hw⟩

end Attaining

theorem program_attainable : program.Attainable := by
  refine Case.attainable (c := program) ?_
  show Attained ⟨0, fun _ => 0⟩ true minemuKernelMain
  unfold minemuKernelMain minemuSystickExact128 minemuSystickExact64
  simp only [bind_assoc, pure_bind]
  refine Stands.mask_then (Stands.write_then (by decide) (Stands.write_then (by decide) ?_))
  refine Stands.read_then 0 (Stands.read_then systickStatusPending ?_)
  refine Stands.require_then (by decide) (Stands.require_then (by decide) ?_)
  refine waitUart_attains (waitUart_attains ?_)
  iterate 3 refine Stands.write_then (by decide) ?_
  refine claim_attains (claim_attains (finish_attains (by decide) ?_))
  refine Stands.write_then (by decide) (Stands.write_then (by decide) ?_)
  refine claim_attains (claim_attains (finish_attains (by decide) ?_))
  refine claim_attains (finish_attains (by decide) ?_)
  refine waitUart_attains (waitUart_attains ?_)
  refine Stands.write_then (by decide) (Stands.write_then (by decide) ?_)
  refine claim_attains (finish_attains (by decide) ?_)
  refine claim_attains (finish_attains (by decide) (claim_attains ?_))
  refine Stands.write_then (by decide) (Stands.write_then (by decide) ?_)
  refine Stands.read_then 0 (Stands.read_then 1 (Stands.write_then (by decide) ?_))
  refine Stands.read_then 0 (Stands.read_then 1 (Stands.require_then (by decide) ?_))
  refine Stands.write_then (by decide) (waitUart_attains (waitUart_attains ?_))
  refine Stands.write_then (by decide) (Stands.write_then (by decide) (Stands.mask_then ?_))
  refine served_attains irqUart1 (Or.inr rfl) (by decide) trivial ?_
  refine served_attains irqUart0 (Or.inl rfl) (by decide) trivial ?_
  refine Stands.awaitGet_then (by decide) (Stands.mask_then ?_)
  refine Stands.get_then (Stands.require_then (by decide) ?_)
  refine Stands.get_then (Stands.require_then (by decide) ?_)
  exact Stands.event_then Stands.stop

end Minemu.Headless.Interrupts
