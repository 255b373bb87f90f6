import Minemu.Headless.Attainable

/-!
# `headless/uart`: both ports, polled

A passing run has sent on each port the byte that it received there.
-/

namespace Minemu.Headless.Uart

open Minemu.Lib.Memory Minemu.Lib.Guest Minemu.Platform

def receive (uart : Word) : Code Unit Word := do
  let _ ← Prog.await (.read (uartStatus uart)) fun v => v &&& uartStatusRxReady == 0
  read (uartRxData uart)

def minemuKernelMain : Code Unit Unit := do
  let status0 ← read (uartStatus uart0Base)
  minemuRequire (status0 &&& uartStatusTxReady != 0) 1
  let status1 ← read (uartStatus uart1Base)
  minemuRequire (status1 &&& uartStatusTxReady != 0) 2
  let uart0 ← receive uart0Base
  let uart1 ← receive uart1Base
  minemuRequire (uart0 == 0x41) 3
  minemuRequire (uart1 == 0x42) 4
  let status0 ← read (uartStatus uart0Base)
  minemuRequire (status0 &&& uartStatusRxReady == 0) 5
  let status1 ← read (uartStatus uart1Base)
  minemuRequire (status1 &&& uartStatusRxReady == 0) 6
  write (uartTxData uart0Base) uart0
  write (uartTxData uart1Base) uart1
  minemuTraceEvent 0x20010001
  minemuFailStop

def program : Case Unit where
  globals := ()
  minemuKernelMain := minemuKernelMain
  dispatch := weakDispatch
  traceValues := [0x20010001]
  codes := [1, 2, 3, 4, 5, 6]
  diagnostics := []

/-- Every access but the loads of a status register. -/
def transfers : Access → Bool
  | .read a _ => a != uartStatus uart0Base && a != uartStatus uart1Base
  | _ => true

/-- One byte came in on each port, and the same bytes went out. -/
def Passed (w : World Unit) : Prop :=
  w.log.filter transfers = [
    .read (uartRxData uart0Base) 0x41,
    .read (uartRxData uart1Base) 0x42,
    .write (uartTxData uart0Base) 0x41,
    .write (uartTxData uart1Base) 0x42,
    .write traceBase 0x20010001]

theorem program_weak : program.Weak := ⟨⟨by simp [program], by simp [program]⟩, rfl⟩

theorem program_pending : program.Pending [] := by decide

variable {L : List Access} {Q : Unit → World Unit → Prop}

abbrev Transferred (L : List Access) (g : Code Unit Unit) (Q : Unit → World Unit → Prop) : Prop :=
  Triple program.handlers (program.Invariant Passed) (Saw (.selecting transfers) [] L) g Q

theorem status_then {uart : Word} {k : Word → Code Unit Unit}
    (hf : ∀ v, transfers (.read (uartStatus uart) v) = false)
    (hk : ∀ v, Transferred L (k v) Q) : Transferred L (read (uartStatus uart) >>= k) Q := by
  refine program_weak.read_then program_pending fun v => ?_
  have hsame : (Monitor.selecting transfers).step L (.read (uartStatus uart) v) = L :=
    if_neg (by simp [hf v])
  rw [hsame]
  exact hk v

theorem receive_then {uart : Word} {k : Word → Code Unit Unit}
    (hf : ∀ v, transfers (.read (uartStatus uart) v) = false)
    (hk : ∀ v, Transferred ((Monitor.selecting transfers).step L (.read (uartRxData uart) v))
      (k v) Q) :
    Transferred L (receive uart >>= k) Q :=
  program_weak.await_then program_pending (fun v => if_neg (by simp [hf v])) fun _ _ =>
    program_weak.read_then program_pending hk

theorem minemuKernelMain_spec : Transferred [] minemuKernelMain fun _ _ => False := by
  have hstatus0 : ∀ v, transfers (.read (uartStatus uart0Base) v) = false := fun _ => rfl
  have hstatus1 : ∀ v, transfers (.read (uartStatus uart1Base) v) = false := fun _ => rfl
  have hrequire : ∀ {L g Q code b}, code ∈ program.codes → (b = true → Transferred L g Q) →
      Transferred L (minemuRequire b code >>= fun _ => g) Q :=
    program_weak.require_then program_pending
  unfold minemuKernelMain
  refine status_then hstatus0 fun _ => hrequire (by decide) fun _ => ?_
  refine status_then hstatus1 fun _ => hrequire (by decide) fun _ => ?_
  refine receive_then hstatus0 fun uart0 => receive_then hstatus1 fun uart1 => ?_
  refine hrequire (by decide) fun h0 => hrequire (by decide) fun h1 => ?_
  obtain rfl := eq_of_beq h0
  obtain rfl := eq_of_beq h1
  refine status_then hstatus0 fun _ => hrequire (by decide) fun _ => ?_
  refine status_then hstatus1 fun _ => hrequire (by decide) fun _ => ?_
  refine program_weak.write_then program_pending (by decide) ?_
  refine program_weak.write_then program_pending (by decide) ?_
  exact program_weak.pass program_pending rfl fun w hw =>
    (Monitor.watch_selecting transfers w.log).symm.trans hw.watched

theorem program_sound : program.Sound Passed :=
  Case.sound_of_triple minemuKernelMain_spec ⟨rfl, rfl⟩

theorem receive_attains {uart : Word} {k : Word → Code Unit Unit} {es : List Word} {b : Bool}
    {T : World Unit → Prop} (v : Word)
    (hk : Attains program.handlers (Stands es () b) (k v) Q T) :
    Attains program.handlers (Stands es () b) (receive uart >>= k) Q T :=
  Stands.await_then (k := fun _ => read (uartRxData uart) >>= k) uartStatusRxReady (by decide)
    (Stands.read_then v hk)

theorem program_attainable : program.Attainable := by
  refine Case.attainable (c := program) ?_
  show Attains program.handlers (Stands [] () true) minemuKernelMain _ _
  unfold minemuKernelMain
  iterate 2 refine Stands.read_then uartStatusTxReady (Stands.require_then (by decide) ?_)
  refine receive_attains 0x41 (receive_attains 0x42 ?_)
  iterate 2 refine Stands.require_then (by decide) ?_
  iterate 2 refine Stands.read_then 0 (Stands.require_then (by decide) ?_)
  iterate 2 refine Stands.write_then (by decide) ?_
  exact Stands.event_then Stands.stop

end Minemu.Headless.Uart
