import Minemu.Headless.Attainable

/-!
# `headless/rng-trace`: the deterministic generator

The case passes with one conversation only.
-/

namespace Minemu.Headless.RngTrace

open Minemu.Lib.Memory Minemu.Lib.Guest Minemu.Platform

def requireRead (a value code : Word) : Code Unit Unit := do
  let v ← read a
  minemuRequire (v == value) code

def minemuKernelMain : Code Unit Unit := do
  requireRead rngSeed 0x4d454d55 1
  requireRead rngState 0x4d454d55 2
  requireRead rngData 0x791c7b62 3
  requireRead rngData 0x38784b1a 4
  requireRead rngSeed 0x4d454d55 5
  requireRead rngState 0x38784b1a 6
  write rngSeed 0
  requireRead rngSeed 0x4d454d55 7
  requireRead rngState 0x4d454d55 8
  write rngSeed 0x12345678
  requireRead rngSeed 0x12345678 9
  requireRead rngState 0x12345678 10
  requireRead rngData 0x87985aa5 11
  requireRead rngData 0x155b24a3 12
  requireRead rngSeed 0x12345678 13
  requireRead rngState 0x155b24a3 14
  minemuTraceEvent 0x20020001
  minemuTraceEvent 0x20020002
  minemuTraceEvent 0x20020003
  minemuFailStop

def program : Case Unit where
  globals := ()
  minemuKernelMain := minemuKernelMain
  dispatch := weakDispatch
  traceValues := [0x20020001, 0x20020002, 0x20020003]
  codes := [1, 2, 3, 4, 5, 6, 7, 8, 9, 10, 11, 12, 13, 14]
  diagnostics := []

def conversation : List Access := [
  .read rngSeed 0x4d454d55,
  .read rngState 0x4d454d55,
  .read rngData 0x791c7b62,
  .read rngData 0x38784b1a,
  .read rngSeed 0x4d454d55,
  .read rngState 0x38784b1a,
  .write rngSeed 0,
  .read rngSeed 0x4d454d55,
  .read rngState 0x4d454d55,
  .write rngSeed 0x12345678,
  .read rngSeed 0x12345678,
  .read rngState 0x12345678,
  .read rngData 0x87985aa5,
  .read rngData 0x155b24a3,
  .read rngSeed 0x12345678,
  .read rngState 0x155b24a3,
  .write traceBase 0x20020001,
  .write traceBase 0x20020002,
  .write traceBase 0x20020003]

theorem program_weak : program.Weak := ⟨⟨by simp [program], by simp [program]⟩, rfl⟩

def Passed (w : World Unit) : Prop := w.log = conversation

variable {es : List Word} {L : List Access} {Q : Unit → World Unit → Prop} {g : Code Unit Unit}

theorem requireRead_then (hes : program.Pending es) {a value code : Word}
    (hcode : code ∈ program.codes)
    (hg : Triple program.handlers (program.Invariant Passed)
      (Saw (.selecting fun _ => true) es (L ++ [.read a value])) g Q) :
    Triple program.handlers (program.Invariant Passed) (Saw (.selecting fun _ => true) es L)
      (requireRead a value code >>= fun _ => g) Q := by
  refine program_weak.read_then hes (k := fun v => minemuRequire (v == value) code >>= fun _ => g)
    fun v => program_weak.require_then hes hcode fun hv => ?_
  obtain rfl := eq_of_beq hv
  exact hg

theorem minemuKernelMain_spec :
    Triple program.handlers (program.Invariant Passed) (Saw (.selecting fun _ => true) [] [])
      minemuKernelMain fun _ _ => False := by
  have hnone : program.Pending [] := by decide
  have hfirst : program.Pending [0x20020001] := by decide
  have hsecond : program.Pending [0x20020001, 0x20020002] := by decide
  unfold minemuKernelMain
  iterate 6 refine requireRead_then hnone (by decide) ?_
  refine program_weak.write_then hnone (by decide) ?_
  iterate 2 refine requireRead_then hnone (by decide) ?_
  refine program_weak.write_then hnone (by decide) ?_
  iterate 6 refine requireRead_then hnone (by decide) ?_
  refine program_weak.event_then hnone ?_
  refine program_weak.event_then hfirst ?_
  refine program_weak.pass hsecond rfl fun w hw => ?_
  have hlog : w.log.filter (fun _ => true) = w.log := List.filter_eq_self.mpr fun _ _ => rfl
  rw [Passed, ← hlog, ← Monitor.watch_selecting]
  exact hw.watched

/-- The trace is the expected one only after exactly the documented conversation. -/
theorem program_sound : program.Sound Passed :=
  Case.sound_of_triple minemuKernelMain_spec ⟨rfl, rfl⟩

theorem requireRead_attains {b : Bool} {a value code : Word} {T : World Unit → Prop}
    (hg : Attains program.handlers (Stands es () b) g Q T) :
    Attains program.handlers (Stands es () b) (requireRead a value code >>= fun _ => g) Q T :=
  Stands.read_then (k := fun v => minemuRequire (v == value) code >>= fun _ => g) value
    (Stands.require_then (beq_self_eq_true value) hg)

theorem program_attainable : program.Attainable := by
  refine Case.attainable (c := program) ?_
  show Attains program.handlers (Stands [] () true) minemuKernelMain _ _
  unfold minemuKernelMain
  iterate 6 refine requireRead_attains ?_
  refine Stands.write_then (by decide) ?_
  iterate 2 refine requireRead_attains ?_
  refine Stands.write_then (by decide) ?_
  iterate 6 refine requireRead_attains ?_
  exact Stands.event_then (Stands.event_then (Stands.event_then Stands.stop))

end Minemu.Headless.RngTrace
