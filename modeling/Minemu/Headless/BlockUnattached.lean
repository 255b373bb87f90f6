import Minemu.Headless.Block

/-!
# `headless/block-unattached`: a unit without media

A command to the unattached unit is scheduled like any other and completes with
No Media.
-/

namespace Minemu.Headless.BlockUnattached

open Minemu.Lib.Memory Minemu.Lib.Guest Minemu.Platform
open Minemu.Headless.Block (Dma minemuBlockExact32)

variable (dma : Dma)

def minemuKernelMain : Code Unit Unit := do
  write blockUnit blockUnitSwap
  write blockLba 0
  write blockSectorCount 1
  write blockDmaPaddr (minemuTestPaddr dma.base)
  let (first, second) ← minemuBlockExact32 blockCommandRead
  minemuRequire (first == blockStatusBusy) 1
  minemuRequire (second &&& blockStatusComplete != 0) 2
  let error ← read blockError
  minemuRequire (error == blockErrorNoMedia) 3
  write blockAckRegister blockAck
  minemuTraceEvent 0x20030002
  minemuFailStop

def program : Case Unit where
  globals := ()
  minemuKernelMain := minemuKernelMain dma
  dispatch := weakDispatch
  traceValues := [0x20030002]
  codes := [1, 2, 3]
  diagnostics := []

/-- The accesses of a passing run, by the second sample of the status. -/
def conversation (second : Word) : List Access := [
  .write blockUnit blockUnitSwap,
  .write blockLba 0,
  .write blockSectorCount 1,
  .write blockDmaPaddr (minemuTestPaddr dma.base),
  .write blockCommand blockCommandRead,
  .read blockStatus blockStatusBusy,
  .read blockStatus second,
  .read blockError blockErrorNoMedia,
  .write blockAckRegister blockAck,
  .write traceBase 0x20030002]

/-- The command was busy, then complete, and failed for want of media. -/
def Passed (w : World Unit) : Prop :=
  ∃ second, second &&& blockStatusComplete ≠ 0 ∧ w.log = conversation dma second

theorem program_weak : (program dma).Weak := ⟨⟨by simp [program], by simp [program]⟩, rfl⟩

theorem program_pending : (program dma).Pending [] := by
  show [] <+: [_] ∧ [] ≠ [_]
  simp

theorem minemuKernelMain_spec :
    Triple (program dma).handlers ((program dma).Invariant (Passed dma))
      (Saw (.selecting fun _ => true) [] []) (minemuKernelMain dma) fun _ _ => False := by
  have hweak := program_weak dma
  have hnone := program_pending dma
  unfold minemuKernelMain minemuBlockExact32
  simp only [bind_assoc, pure_bind]
  iterate 5 refine hweak.write_then hnone (by decide) ?_
  refine hweak.read_then hnone fun first => hweak.read_then hnone fun second => ?_
  refine hweak.require_then hnone (by simp [program]) fun hfirst => ?_
  refine hweak.require_then hnone (by simp [program]) fun hsecond => ?_
  refine hweak.read_then hnone fun error => ?_
  refine hweak.require_then hnone (by simp [program]) fun herror => ?_
  rw [eq_of_beq hfirst, eq_of_beq herror]
  refine hweak.write_then hnone (by decide) ?_
  refine hweak.pass hnone rfl fun w hw => ⟨second, by simpa using hsecond, ?_⟩
  have hlog : w.log.filter (fun _ => true) = w.log := List.filter_eq_self.mpr fun _ _ => rfl
  rw [← hlog, ← Monitor.watch_selecting]
  exact hw.watched

/-- The trace is the expected one only after a No Media completion. -/
theorem program_sound : (program dma).Sound (Passed dma) :=
  Case.sound_of_triple (minemuKernelMain_spec dma) ⟨rfl, rfl⟩

theorem program_attainable : (program dma).Attainable := by
  refine Case.attainable (c := program dma) ?_
  show Attains (program dma).handlers (Stands [] () true) (minemuKernelMain dma) _ _
  unfold minemuKernelMain minemuBlockExact32
  simp only [bind_assoc, pure_bind]
  iterate 5 refine Stands.write_then (by decide) ?_
  refine Stands.read_then blockStatusBusy (Stands.read_then blockStatusComplete ?_)
  iterate 2 refine Stands.require_then (by decide) ?_
  refine Stands.read_then blockErrorNoMedia (Stands.require_then (by decide) ?_)
  exact Stands.write_then (by decide) (Stands.event_then Stands.stop)

end Minemu.Headless.BlockUnattached
