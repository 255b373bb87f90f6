import Minemu.Headless.Exceptions.Case
import Minemu.Headless.Attainable

/-!
# A passing run of `headless/exceptions`

Each instruction raises the exception that is due, and the dispatchers handle it.
-/

namespace Minemu.Headless.Exceptions

open Minemu.Lib.Memory Minemu.Lib.Arm Minemu.Lib.Guest Minemu.Platform Minemu.Trap

variable {s : Symbols}

/-! ## Frames on a stack -/

theorem frame_aligned (k : Nat) :
    s.stacksStart + BitVec.ofNat 32 (k * 4096) - BitVec.ofNat 32 sizeofTrapFrame &&& 7 = 0 := by
  have hmod : ∀ x : Word, x &&& 7 = 0 ↔ x.toNat % 8 = 0 := by
    intro x
    rw [← BitVec.toNat_inj, BitVec.toNat_and, show (7 : Word).toNat = 2 ^ 3 - 1 by decide,
      Nat.and_two_pow_sub_one_eq_mod]
    rfl
  have haligned := (hmod _).mp s.stacksAligned
  rw [hmod]
  rw [show sizeofTrapFrame = 88 from rfl]
  bv_omega

theorem requireStack {top : Word} (k : Nat)
    (htop : top = s.stacksStart + BitVec.ofNat 32 (k * 4096)) :
    (top - BitVec.ofNat 32 sizeofTrapFrame == top - BitVec.ofNat 32 sizeofTrapFrame &&
      (top - BitVec.ofNat 32 sizeofTrapFrame) &&& 7 == 0) = true := by
  rw [beq_self_eq_true, Bool.true_and, htop]
  exact beq_iff_eq.mpr (frame_aligned k)

section Attaining

variable {x : Globals} {b : Bool} {α : Type} {g : Code Globals α} {Q : α → World Globals → Prop}
  {T : World Globals → Prop}

abbrev Attained (s : Symbols) (x : Globals) (b : Bool) (g : Code Globals Unit) : Prop :=
  Attains (program s).handlers (Stands [] x b) g (fun _ _ => False)
    fun w => w.events = [0x20070001]

/-- A run of a dispatcher that returns `left`, from here. -/
abbrev Handled (x : Globals) (b : Bool) (g : Code Globals TrapFrame) (left : TrapFrame)
    (x' : Globals) : Prop :=
  Attains alone (Stands [] x b) g (fun left' w => left' = left ∧ Stands [] x' b w) fun _ => False

theorem handled_ret {left : TrapFrame} : Handled x b (pure left) left x :=
  Attains.ret fun _ hw => ⟨rfl, hw⟩

/-! ## The exceptions -/

theorem undefined_attains {g : Code Globals Unit} (mode : Word)
    (hmode : (x.undefinedStage, mode) ∈ [((1 : Word), (0x13 : Word)), (2, 0x10)])
    (hrunning : g.Running) (hg : Attained s { x with undefinedStage := 0 } b g) :
    Attained s x b g := by
  let frame : TrapFrame := { plainFrame with
    exceptionId := exceptionUndefined
    spsr := mode
    returnLr := 4 }
  refine Stands.interrupt (c := program s) hrunning
    ⟨.undefined, s.undStackTop - BitVec.ofNat 32 sizeofTrapFrame, frame⟩ rfl frame ?_ hg
  show Handled x b (minemuUndefinedDispatch s _ frame) frame _
  refine Stands.require_then (requireStack 4 rfl) ?_
  refine Stands.require_then rfl (Stands.require_then rfl ?_)
  unfold requireMode
  simp only [bind_assoc]
  refine Stands.get_then ?_
  simp only [List.mem_cons, Prod.mk.injEq, List.not_mem_nil, or_false] at hmode
  rcases hmode with ⟨hstage, hmode⟩ | ⟨hstage, hmode⟩
  · rw [hstage, if_pos (by decide)]
    exact Stands.require_then (by simp [frame, hmode]) (Stands.set_then handled_ret)
  · rw [hstage, if_neg (by decide)]
    simp only [bind_assoc]
    refine Stands.get_then ?_
    rw [hstage, if_pos (by decide)]
    exact Stands.require_then (by simp [frame, hmode]) (Stands.set_then handled_ret)

theorem svc_attains {g : Code Globals Unit} (mode : Word)
    (hexpected : x.expectedSvcFrame = s.svcStackTop - BitVec.ofNat 32 sizeofTrapFrame)
    (hmode : (x.svcCount, mode) ∈ [((0 : Word), (0x13 : Word)), (1, 0x10)])
    (hrunning : g.Running) (hg : Attained s { x with svcCount := x.svcCount + 1 } b g) :
    Attained s x b g := by
  let frame : TrapFrame := { plainFrame with
    spsr := mode
    returnLr := 4 }
  let left : TrapFrame := { trampolineFrame exceptionSvc frame with spsr := 0x13 }
  have hstack : s.svcStackTop - 4096 ≤ x.expectedSvcFrame ∧ x.expectedSvcFrame < s.svcStackTop ∧
      x.expectedSvcFrame &&& 7 = 0 := by
    have hlow := s.stacksLow
    have hhigh := s.stacksHigh
    have haligned : s.svcStackTop - BitVec.ofNat 32 sizeofTrapFrame &&& 7 = 0 :=
      frame_aligned 1
    rw [hexpected]
    refine ⟨?_, ?_, haligned⟩
    · rw [Symbols.svcStackTop, show sizeofTrapFrame = 88 from rfl]
      bv_omega
    · rw [Symbols.svcStackTop, show sizeofTrapFrame = 88 from rfl]
      bv_omega
  obtain ⟨hlow, hhigh, haligned⟩ := hstack
  refine Stands.interrupt (c := program s) hrunning ⟨.svc, x.expectedSvcFrame, frame⟩ rfl left ?_ hg
  show Handled x b (minemuSvcDispatch s _ (trampolineFrame exceptionSvc frame)) left _
  refine Stands.get_then (Stands.require_then ?_ ?_)
  · rw [beq_self_eq_true, decide_eq_true hlow, decide_eq_true hhigh, beq_iff_eq.mpr haligned]
    rfl
  refine Stands.require_then rfl (Stands.require_then ?_ (Stands.get_then ?_))
  · simp [trampolineFrame, frame, plainFrame]
  simp only [List.mem_cons, Prod.mk.injEq, List.not_mem_nil, or_false] at hmode
  have hspsr : (trampolineFrame exceptionSvc frame).spsr = mode := rfl
  rcases hmode with ⟨hcount, rfl⟩ | ⟨hcount, rfl⟩
  · refine Stands.require_then (by rw [hspsr, hcount]; decide) ?_
    refine Stands.get_then (Stands.set_then ?_)
    rw [hspsr, if_neg (by decide)]
    exact handled_ret
  · refine Stands.require_then (by rw [hspsr, hcount]; decide) ?_
    refine Stands.get_then (Stands.set_then ?_)
    rw [hspsr, if_pos (by decide)]
    exact handled_ret

theorem requireAbortLink_attains {H : Handlers (Command Globals) Word (World Globals) Empty}
    {frame : TrapFrame}
    (hdata : frame.exceptionId = exceptionDataAbort → frame.returnLr = frame.faultPc + 8)
    (hprefetch : frame.exceptionId = exceptionPrefetchAbort → frame.returnLr = frame.faultPc + 4)
    (hg : Attains H (Stands [] x b) g Q T) :
    Attains H (Stands [] x b) (requireAbortLink frame >>= fun _ => g) Q T := by
  unfold requireAbortLink
  split
  next hid => exact Stands.require_then (beq_iff_eq.mpr (hdata (eq_of_beq hid))) hg
  next =>
    split
    next hid => exact Stands.require_then (beq_iff_eq.mpr (hprefetch (eq_of_beq hid))) hg
    next => exact hg

theorem device_attains {g : Code Globals Unit} (dfar dfsr stage : Word)
    (hstage : (x.userDeviceStage, dfar, dfsr, stage) ∈
      [((1 : Word), rngBase, (0x102 : Word), (2 : Word)), (2, traceBase, 0x303, 3)])
    (hrunning : g.Running) (hg : Attained s { x with userDeviceStage := stage } b g) :
    Attained s x b g := by
  let frame : TrapFrame := { plainFrame with
    exceptionId := exceptionDataAbort
    returnLr := 8
    dfar := dfar
    dfsr := dfsr }
  refine Stands.interrupt (c := program s) hrunning
    ⟨.dataAbort, s.abtStackTop - BitVec.ofNat 32 sizeofTrapFrame, frame⟩ rfl
    { frame with returnLr := 12 } ?_ hg
  show Handled x b (minemuAbortDispatch s _ frame) _ _
  refine Stands.require_then (requireStack 3 rfl) ?_
  refine requireAbortLink_attains (fun _ => rfl) nofun ?_
  refine Stands.require_then rfl (Stands.get_then ?_)
  simp only [List.mem_cons, Prod.mk.injEq, List.not_mem_nil, or_false] at hstage
  rcases hstage with ⟨hstage, rfl, rfl, rfl⟩ | ⟨hstage, rfl, rfl, rfl⟩
  · rw [hstage, if_pos (by decide)]
    exact Stands.require_then rfl (Stands.set_then handled_ret)
  · rw [hstage, if_neg (by decide)]
    refine Stands.get_then ?_
    rw [hstage, if_pos (by decide)]
    exact Stands.require_then rfl (Stands.set_then handled_ret)

theorem grant_attains {H : Handlers (Command Globals) Word (World Globals) Empty}
    {address flag : Word} (hg : Attains H (Stands [] x b) g Q T) :
    Attains H (Stands [] x b) (grant (directPte address) flag >>= fun _ => g) Q T :=
  Stands.read_then 0 (Stands.write_then (directPte_ne address) hg)

theorem repair_attains {H : Handlers (Command Globals) Word (World Globals) Empty}
    {frame : TrapFrame}
    (hstage : (x.abortStage, frame.exceptionId, frame.dfar, frame.dfsr) ∈
      [((1 : Word), exceptionDataAbort, dataVaddr, (1 : Word)),
        (2, exceptionPrefetchAbort, s.prefetchProbe, 0x404),
        (3, exceptionPrefetchAbort, s.userProbe, 0x504)])
    (hg : Attains H (Stands [] x b) g Q T) :
    Attains H (Stands [] x b) (repair s frame >>= fun _ => g) Q T := by
  unfold repair
  simp only [bind_assoc]
  simp only [List.mem_cons, Prod.mk.injEq, List.not_mem_nil, or_false] at hstage
  rcases hstage with ⟨hstage, hid, hdfar, hdfsr⟩ | ⟨hstage, hid, hdfar, hdfsr⟩ |
    ⟨hstage, hid, hdfar, hdfsr⟩
  · refine Stands.get_then ?_
    rw [hstage, if_pos (by decide), hid, hdfar, hdfsr]
    simp only [bind_assoc]
    refine Stands.require_then rfl (Stands.require_then rfl ?_)
    exact Stands.write_then (StaticPage.word_ne (by decide)) hg
  · refine Stands.get_then ?_
    rw [hstage, if_neg (by decide)]
    simp only [bind_assoc]
    refine Stands.get_then ?_
    rw [hstage, if_pos (by decide), hid, hdfar, hdfsr]
    simp only [bind_assoc]
    refine Stands.require_then rfl (Stands.require_then (beq_self_eq_true _) ?_)
    exact Stands.require_then rfl (grant_attains hg)
  · refine Stands.get_then ?_
    rw [hstage, if_neg (by decide)]
    simp only [bind_assoc]
    refine Stands.get_then ?_
    rw [hstage, if_neg (by decide)]
    simp only [bind_assoc]
    refine Stands.get_then ?_
    rw [hstage, if_pos (by decide), hid, hdfar, hdfsr]
    simp only [bind_assoc]
    refine Stands.require_then rfl (Stands.require_then (beq_self_eq_true _) ?_)
    exact Stands.require_then rfl (grant_attains hg)

theorem abort_attains {g : Code Globals Unit} (vector : Exception) (cause dfar dfsr returnLr : Word)
    (hcause : vector = .dataAbort ∧ cause = exceptionDataAbort ∧ returnLr = 8 ∨
      vector = .prefetchAbort ∧ cause = exceptionPrefetchAbort ∧ returnLr = 4)
    (hdevice : x.userDeviceStage = 0 ∨ cause = exceptionPrefetchAbort)
    (hstage : (x.abortStage, cause, dfar, dfsr) ∈
      [((1 : Word), exceptionDataAbort, dataVaddr, (1 : Word)),
        (2, exceptionPrefetchAbort, s.prefetchProbe, 0x404),
        (3, exceptionPrefetchAbort, s.userProbe, 0x504)])
    (hrunning : g.Running) (hg : Attained s { x with abortStage := 0 } b g) :
    Attained s x b g := by
  let frame : TrapFrame := { plainFrame with
    exceptionId := cause
    returnLr := returnLr
    dfar := dfar
    dfsr := dfsr }
  have hid : frame.exceptionId = cause := rfl
  have hne : exceptionDataAbort ≠ exceptionPrefetchAbort := by decide
  have hvector : vector = .dataAbort ∨ vector = .prefetchAbort :=
    hcause.imp And.left And.left
  let taken : Taken := ⟨vector, s.abtStackTop - BitVec.ofNat 32 sizeofTrapFrame, frame⟩
  have hpasses : (!(taken.vector == .irq && b)) = true := by
    rcases hvector with h | h <;> simp [taken, h]
  refine Stands.interrupt (c := program s) hrunning taken hpasses frame ?_ hg
  have hdispatch : (program s).dispatch taken = minemuAbortDispatch s taken.address frame := by
    rcases hvector with h | h <;> simp [program, dispatch, taken, h]
  rw [hdispatch]
  show Handled x b (minemuAbortDispatch s _ frame) _ _
  refine Stands.require_then (requireStack 3 rfl) (requireAbortLink_attains ?_ ?_ ?_)
  · intro hdata
    rcases hcause with ⟨-, -, hlink⟩ | ⟨-, hprefetch, -⟩
    · exact hlink
    · exact absurd (hdata.symm.trans hprefetch) hne
  · intro hprefetch
    rcases hcause with ⟨-, hdata, -⟩ | ⟨-, -, hlink⟩
    · exact absurd (hdata.symm.trans hprefetch) hne
    · exact hlink
  have hnodevice : ∀ stage base, stage ≠ (0 : Word) →
      (x.userDeviceStage == stage && frame.exceptionId == exceptionDataAbort &&
        frame.dfar == base) = false := by
    intro stage base hzero
    rcases hdevice with hoff | hprefetch
    · rw [hoff, beq_eq_false_iff_ne.mpr (Ne.symm hzero)]
      rfl
    · rw [hid, hprefetch, beq_eq_false_iff_ne.mpr (Ne.symm hne), Bool.and_false, Bool.false_and]
  refine Stands.require_then rfl (Stands.get_then ?_)
  rw [hnodevice 1 rngBase (by decide)]
  refine Stands.get_then ?_
  rw [hnodevice 2 traceBase (by decide)]
  exact repair_attains hstage (Stands.mcr_then (Stands.set_then handled_ret))

theorem irq_attains {g : Code Globals Unit} (hrunning : g.Running)
    (hg : Attained s { x with irqCount := x.irqCount + 1 } false g) : Attained s x false g := by
  refine Stands.interrupt (c := program s) hrunning
    ⟨.irq, s.irqStackTop - BitVec.ofNat 32 sizeofTrapFrame, plainFrame⟩ rfl
    (trampolineFrame irqSystick plainFrame) ?_ hg
  show Handled x false (minemuIrqTrampoline (minemuIrqDispatch s _) plainFrame) _ _
  refine Stands.read_then irqSystick (Stands.sense_then 0x80 ?_)
  refine Stands.require_then (requireStack 2 rfl) (Stands.require_then (by decide) ?_)
  refine Stands.require_then (by decide) (Stands.require_then (by decide) ?_)
  refine Stands.read_then systickStatusPending (Stands.require_then (by decide) ?_)
  refine Stands.write_then (by decide) (Stands.write_then (by decide) ?_)
  exact Stands.get_then (Stands.set_then handled_ret)

theorem expectSvcFrame_attains {g : Code Globals Unit}
    (hg : Attained s { x with
      expectedSvcFrame := s.svcStackTop - BitVec.ofNat 32 sizeofTrapFrame } b g) :
    Attained s x b (expectSvcFrame >>= fun _ => g) := by
  unfold expectSvcFrame
  simp only [bind_assoc]
  exact Stands.sense_then s.svcStackTop (Stands.set_then (Stands.get_then (Stands.set_then hg)))

theorem instruction_attains {g : Code Globals Unit} (hg : Attained s x b g) :
    Attained s x b (instruction >>= fun _ => g) :=
  Attains.issue_then (fun _ hw => ⟨0, hw⟩) hg

theorem revoke_attains {g : Code Globals Unit} {address flag : Word} (hg : Attained s x b g) :
    Attained s x b (revoke (directPte address) flag >>= fun _ => g) :=
  Stands.read_then 0 (Stands.write_then (directPte_ne address) hg)

theorem minemuRunUserProbe_attains {g : Code Globals Unit}
    (hexpected : x.expectedSvcFrame = s.svcStackTop - BitVec.ofNat 32 sizeofTrapFrame)
    (habort : x.abortStage = 3) (hundefined : x.undefinedStage = 2)
    (hdevice : x.userDeviceStage = 1) (hsvc : x.svcCount = 1)
    (hg : Attained s { x with
      abortStage := 0
      undefinedStage := 0
      userDeviceStage := 3
      svcCount := 2 } false g) : Attained s x b (minemuRunUserProbe >>= fun _ => g) := by
  unfold minemuRunUserProbe minemuUserProbe readOrSkip userWriteOrSkip
  simp only [bind_assoc]
  refine Stands.mask_then ?_
  refine abort_attains .prefetchAbort exceptionPrefetchAbort s.userProbe 0x504 4 (by simp)
    (Or.inr rfl) (by simp [habort]) trivial (instruction_attains ?_)
  refine device_attains rngBase 0x102 2 (by simp [hdevice]) trivial (Stands.sense_then 1 ?_)
  rw [if_neg (by decide)]
  refine Stands.sense_then 0 ?_
  refine device_attains traceBase 0x303 3 (by simp) trivial (Stands.sense_then 1 ?_)
  rw [if_neg (by decide)]
  refine undefined_attains 0x10 (by simp [hundefined]) trivial (instruction_attains ?_)
  refine svc_attains 0x10 hexpected (by simp [hsvc]) trivial (instruction_attains ?_)
  rw [show x.svcCount + 1 = 2 by rw [hsvc]; rfl]
  exact hg

theorem minemuKernelMain_attained :
    Attained s (program s).globals true (minemuKernelMain s) := by
  unfold minemuKernelMain
  refine Stands.loop_then (fun i hi => ?_) ?_
  · exact Stands.write_then (g := pure ()) (StaticPage.word_ne hi) Stands.ret
  refine Stands.write_then (by decide) (expectSvcFrame_attains ?_)
  refine svc_attains 0x13 rfl (by simp [program]) trivial (instruction_attains ?_)
  refine Stands.get_then (Stands.require_then (by simp [program]) (Stands.set_then ?_))
  refine undefined_attains 0x13 (by simp) trivial (instruction_attains ?_)
  refine Stands.get_then (Stands.require_then (by simp) (instruction_attains (Stands.set_then ?_)))
  refine abort_attains .dataAbort exceptionDataAbort dataVaddr 1 8 (by simp)
    (Or.inl rfl) (by simp) trivial ?_
  refine Stands.read_then 0 (Stands.require_then (by decide) ?_)
  refine Stands.get_then (Stands.require_then (by simp) ?_)
  refine revoke_attains (Stands.mcr_then (Stands.set_then ?_))
  refine abort_attains .prefetchAbort exceptionPrefetchAbort s.prefetchProbe 0x404 4 (by simp)
    (Or.inr rfl) (by simp) trivial (instruction_attains ?_)
  refine Stands.get_then (Stands.require_then (by simp) ?_)
  refine revoke_attains (Stands.mcr_then (Stands.set_then (Stands.set_then ?_)))
  refine Stands.set_then (expectSvcFrame_attains ?_)
  refine minemuRunUserProbe_attains rfl rfl rfl rfl rfl ?_
  refine Stands.get_then (Stands.require_then (by simp) ?_)
  refine Stands.get_then (Stands.require_then (by simp) ?_)
  refine Stands.get_then (Stands.require_then (by simp) ?_)
  refine Stands.get_then (Stands.require_then (by simp) ?_)
  iterate 3 refine Stands.write_then (by decide) ?_
  refine Stands.mask_then (irq_attains trivial ?_)
  refine Stands.awaitGet_then (by simp [program]) (Stands.mask_then ?_)
  refine Stands.get_then (Stands.require_then (by simp [program]) ?_)
  exact Stands.event_then Stands.stop

end Attaining

theorem program_attainable : (program s).Attainable :=
  Case.attainable (c := program s) minemuKernelMain_attained

end Minemu.Headless.Exceptions
