import Minemu.Headless.Exceptions.Case

/-!
# What a dispatcher of `headless/exceptions` does

A dispatcher that returns has handled the exception that was due, and no other.
-/

namespace Minemu.Headless.Exceptions

open Minemu.Lib.Memory Minemu.Lib.Arm Minemu.Lib.Guest Minemu.Platform Minemu.Trap

variable (s : Symbols)

/-- One handled exception, and the globals after it. -/
inductive Served (g : Globals) : Exception → Entry → Globals → Prop where
  | undefined {k : Nat} {p : Entry → Prop} {e : Entry} (hp : (undefinedDue s)[k]? = some p)
      (hstage : g.undefinedStage = BitVec.ofNat 32 (k + 1)) (he : p e) :
      Served g .undefined e { g with undefinedStage := 0 }
  | svc {e : Entry} (he : Svc s (g.svcCount == 0) e) :
      Served g .svc e { g with svcCount := g.svcCount + 1 }
  | irq {e : Entry} (he : Irq s e) : Served g .irq e { g with irqCount := g.irqCount + 1 }
  | device {vector : Exception} {k : Nat} {p : Entry → Prop} {e : Entry}
      (hp : (devicesDue s)[k]? = some p)
      (hstage : g.userDeviceStage = BitVec.ofNat 32 (k + 1)) (he : p e) :
      Served g vector e { g with userDeviceStage := BitVec.ofNat 32 (k + 2) }
  | abort {vector : Exception} {k : Nat} {p : Entry → Prop} {e : Entry}
      (hp : (abortsDue s)[k]? = some p)
      (hstage : g.abortStage = BitVec.ofNat 32 (k + 1)) (he : p e) :
      Served g vector e { g with abortStage := 0 }

abbrev monitor : Monitor (List Entry) := .collecting entry?

def Post (taken : Taken) (t : List Entry) (g : Globals) (left : TrapFrame) (t' : List Entry)
    (g' : Globals) : Prop :=
  t' = t ∧ Served s g taken.vector ⟨taken.address, taken.frame, left⟩ g'

variable {s}

section Dispatch

variable {α : Type} {address : Word} {frame : TrapFrame} {t : List Entry} {x : Globals} {b : Bool}
  {k : TrapFrame → Code Globals α} {g : Code Globals α} {Q : α → World Globals → Prop}
  {code : Word}

abbrev Midway (s : Symbols) (t : List Entry) (x : Globals) (b : Bool) (g : Code Globals α)
    (Q : α → World Globals → Prop) : Prop :=
  Triple alone ((program s).Invariant (Passed s)) (Quiet monitor (Exactly t x b)) g Q

theorem stable_alone : Stable (alone : Handlers (Command Globals) Word (World Globals) Empty)
    ((program s).Invariant (Passed s)) (Quiet monitor (Exactly t x b)) :=
  Quiet.stable_alone (program_pending s)

theorem require_then {condition : Bool} (hcode : code ∈ codes)
    (hg : condition = true → Midway s t x b g Q) :
    Midway s t x b (minemuRequire condition code >>= fun _ => g) Q :=
  Quiet.require_then stable_alone (program_failsWithin s) hcode hg

theorem fail_then (hcode : code ∈ codes) :
    Midway s t x b (minemuConformanceFail code >>= fun _ => g) Q :=
  Triple.bind (M := fun _ _ => False) (Triple.fail (program_expects s) stable_alone hcode)
    fun _ _ hw => hw.elim

theorem requireExactStack_then {top : Word} (hcode : code ∈ codes)
    (hg : OnStack address top → Midway s t x b g Q) :
    Midway s t x b (requireExactStack address top code >>= fun _ => g) Q := by
  refine require_then hcode fun hstack => ?_
  rw [Bool.and_eq_true] at hstack
  exact hg ⟨eq_of_beq hstack.1, eq_of_beq hstack.2⟩

theorem grant_then {address flag : Word} (hg : Midway s t x b g Q) :
    Midway s t x b (grant (directPte address) flag >>= fun _ => g) Q :=
  Exactly.read_then stable_alone fun _ =>
    Exactly.write_then stable_alone (directPte_ne address) hg

theorem served_spec {taken : Taken} {left : TrapFrame} {x' : Globals}
    (h : Served s x taken.vector ⟨taken.address, taken.frame, left⟩ x') :
    Midway s t x' b (pure left) fun left =>
      Quiet monitor fun t' g' b' => Post s taken t x left t' g' ∧ b' = b := by
  refine Quiet.ret_alone (program_pending s) ?_
  rintro t' g' b' ⟨rfl, rfl, rfl⟩
  exact ⟨⟨rfl, h⟩, rfl⟩

theorem minemuSvcTrampoline_spec {taken : Taken} (hvector : taken.vector = .svc) :
    Midway s t x b (minemuSvcTrampoline s taken.address taken.frame) fun left =>
      Quiet monitor fun t' g' b' => Post s taken t x left t' g' ∧ b' = b := by
  refine Exactly.get_then stable_alone ?_
  refine require_then (by decide) fun hstack => ?_
  refine require_then (by decide) fun _ => require_then (by decide) fun _ => ?_
  refine Exactly.get_then stable_alone (require_then (by decide) fun hmode => ?_)
  refine Exactly.get_then stable_alone (Exactly.set_then stable_alone ?_)
  simp only [Bool.and_eq_true, decide_eq_true_eq] at hstack
  obtain ⟨⟨⟨-, hlow⟩, hhigh⟩, haligned⟩ := hstack
  have hstack : s.svcStackTop - 4096 ≤ taken.address ∧ taken.address < s.svcStackTop ∧
      taken.address &&& 7 = 0 := ⟨hlow, hhigh, eq_of_beq haligned⟩
  have hserved : ∀ left, Svc s (x.svcCount == 0) ⟨taken.address, taken.frame, left⟩ →
      Served s x taken.vector ⟨taken.address, taken.frame, left⟩
        { x with svcCount := x.svcCount + 1 } := by
    rw [hvector]
    exact fun _ => .svc
  cases hfirst : x.svcCount == 0 with
  | true =>
      rw [hfirst] at hmode hserved
      have hspsr : taken.frame.spsr &&& 0x1f = 0x13 := eq_of_beq hmode
      show Midway s _ _ b (if taken.frame.spsr &&& 0x1f == 0x10 then _ else _) _
      rw [hspsr, if_neg (by decide)]
      exact served_spec (hserved _ ⟨hstack, hspsr, rfl⟩)
  | false =>
      rw [hfirst] at hmode hserved
      have hspsr : taken.frame.spsr &&& 0x1f = 0x10 := eq_of_beq hmode
      show Midway s _ _ b (if taken.frame.spsr &&& 0x1f == 0x10 then _ else _) _
      rw [hspsr, if_pos (by decide)]
      exact served_spec (hserved _ ⟨hstack, hspsr, rfl⟩)

theorem minemuIrqTrampoline_spec {taken : Taken} (hvector : taken.vector = .irq) :
    Midway s t x b (minemuIrqTrampoline (minemuIrqDispatch s taken.address) taken.frame)
      fun left => Quiet monitor fun t' g' b' => Post s taken t x left t' g' ∧ b' = b := by
  refine Exactly.read_then stable_alone fun source => ?_
  refine Quiet.sense_then stable_alone fun _ => ?_
  refine requireExactStack_then (by decide) fun hstack => ?_
  refine require_then (by decide) fun _ => require_then (by decide) fun hid => ?_
  refine require_then (by decide) fun _ => ?_
  refine Exactly.read_then stable_alone fun _ => require_then (by decide) fun _ => ?_
  refine Exactly.write_then stable_alone (by decide) ?_
  refine Exactly.write_then stable_alone (by decide) ?_
  refine Exactly.get_then stable_alone (Exactly.set_then stable_alone ?_)
  obtain rfl := eq_of_beq hid
  refine served_spec ?_
  rw [hvector]
  exact .irq ⟨hstack, rfl⟩

/-- The branches on `undefined_stage` lead on at stages 1 and 2 only. -/
theorem requireMode_then {g : Code Globals α}
    (h1 : x.undefinedStage = 1 → frame.spsr &&& 0x1f = 0x13 → Midway s t x b g Q)
    (h2 : x.undefinedStage = 2 → frame.spsr &&& 0x1f = 0x10 → Midway s t x b g Q) :
    Midway s t x b (requireMode frame >>= fun _ => g) Q := by
  unfold requireMode
  simp only [bind_assoc]
  refine Exactly.get_then stable_alone ?_
  by_cases hstage1 : x.undefinedStage = 1
  · rw [if_pos (beq_iff_eq.mpr hstage1)]
    exact require_then (by decide) fun hmode => h1 hstage1 (eq_of_beq hmode)
  rw [if_neg (mt eq_of_beq hstage1)]
  simp only [bind_assoc]
  refine Exactly.get_then stable_alone ?_
  by_cases hstage2 : x.undefinedStage = 2
  · rw [if_pos (beq_iff_eq.mpr hstage2)]
    exact require_then (by decide) fun hmode => h2 hstage2 (eq_of_beq hmode)
  · rw [if_neg (mt eq_of_beq hstage2)]
    exact fail_then (by decide)

theorem minemuUndefinedDispatch_spec {taken : Taken} (hvector : taken.vector = .undefined) :
    Midway s t x b (minemuUndefinedDispatch s taken.address taken.frame) fun left =>
      Quiet monitor fun t' g' b' => Post s taken t x left t' g' ∧ b' = b := by
  refine requireExactStack_then (by decide) fun hstack => ?_
  refine require_then (by decide) fun hid => require_then (by decide) fun hlink => ?_
  rw [Bool.and_eq_true] at hlink
  have hundefined : ∀ mode, taken.frame.spsr &&& 0x1f = mode →
      Undefined s mode ⟨taken.address, taken.frame, taken.frame⟩ := fun mode hmode =>
    ⟨hstack, eq_of_beq hid, eq_of_beq hlink.1, hmode, rfl⟩
  have hserved : ∀ {k : Nat} {mode : Word}, (undefinedDue s)[k]? = some (Undefined s mode) →
      x.undefinedStage = BitVec.ofNat 32 (k + 1) → taken.frame.spsr &&& 0x1f = mode →
      Served s x taken.vector ⟨taken.address, taken.frame, taken.frame⟩
        { x with undefinedStage := 0 } := by
    rw [hvector]
    exact fun hp hstage hmode => .undefined hp hstage (hundefined _ hmode)
  refine requireMode_then (fun hstage hmode => ?_) fun hstage hmode => ?_
  · exact Exactly.set_then stable_alone (served_spec (hserved (k := 0) rfl hstage hmode))
  · exact Exactly.set_then stable_alone (served_spec (hserved (k := 1) rfl hstage hmode))

theorem requireAbortLink_then {g : Code Globals α}
    (hg : (frame.exceptionId = exceptionDataAbort → frame.returnLr = frame.faultPc + 8) →
      (frame.exceptionId = exceptionPrefetchAbort → frame.returnLr = frame.faultPc + 4) →
      Midway s t x b g Q) :
    Midway s t x b (requireAbortLink frame >>= fun _ => g) Q := by
  have hne : exceptionDataAbort ≠ exceptionPrefetchAbort := by decide
  unfold requireAbortLink
  by_cases hdata : frame.exceptionId = exceptionDataAbort
  · rw [if_pos (beq_iff_eq.mpr hdata)]
    exact require_then (by decide) fun hlink =>
      hg (fun _ => eq_of_beq hlink) fun h => absurd (hdata.symm.trans h) hne
  rw [if_neg (mt eq_of_beq hdata)]
  by_cases hprefetch : frame.exceptionId = exceptionPrefetchAbort
  · rw [if_pos (beq_iff_eq.mpr hprefetch)]
    exact require_then (by decide) fun hlink =>
      hg (fun h => absurd h hdata) fun _ => eq_of_beq hlink
  · rw [if_neg (mt eq_of_beq hprefetch)]
    exact hg (fun h => absurd h hdata) fun h => absurd h hprefetch

theorem repair_then {g : Code Globals α}
    (hg : ∀ stage cause dfar dfsr,
      (stage, cause, dfar, dfsr) ∈ [(1, exceptionDataAbort, dataVaddr, 1),
        (2, exceptionPrefetchAbort, s.prefetchProbe, 0x404),
        (3, exceptionPrefetchAbort, s.userProbe, 0x504)] →
      x.abortStage = stage → frame.exceptionId = cause → frame.dfar = dfar → frame.dfsr = dfsr →
      Midway s t x b g Q) :
    Midway s t x b (repair s frame >>= fun _ => g) Q := by
  unfold repair
  simp only [bind_assoc]
  refine Exactly.get_then stable_alone ?_
  by_cases hstage1 : x.abortStage = 1
  · rw [if_pos (beq_iff_eq.mpr hstage1)]
    simp only [bind_assoc]
    refine require_then (by decide) fun hid => require_then (by decide) fun hfault => ?_
    rw [Bool.and_eq_true] at hfault
    refine Exactly.write_then stable_alone (StaticPage.word_ne (by decide)) ?_
    exact hg _ _ _ _ (by simp) hstage1 (eq_of_beq hid) (eq_of_beq hfault.1) (eq_of_beq hfault.2)
  rw [if_neg (mt eq_of_beq hstage1)]
  simp only [bind_assoc]
  refine Exactly.get_then stable_alone ?_
  by_cases hstage2 : x.abortStage = 2
  · rw [if_pos (beq_iff_eq.mpr hstage2)]
    simp only [bind_assoc]
    refine require_then (by decide) fun hid => require_then (by decide) fun hdfar => ?_
    refine require_then (by decide) fun hdfsr => grant_then ?_
    exact hg _ _ _ _ (by simp) hstage2 (eq_of_beq hid) (eq_of_beq hdfar) (eq_of_beq hdfsr)
  rw [if_neg (mt eq_of_beq hstage2)]
  simp only [bind_assoc]
  refine Exactly.get_then stable_alone ?_
  by_cases hstage3 : x.abortStage = 3
  · rw [if_pos (beq_iff_eq.mpr hstage3)]
    simp only [bind_assoc]
    refine require_then (by decide) fun hid => require_then (by decide) fun hdfar => ?_
    refine require_then (by decide) fun hdfsr => grant_then ?_
    exact hg _ _ _ _ (by simp) hstage3 (eq_of_beq hid) (eq_of_beq hdfar) (eq_of_beq hdfsr)
  · rw [if_neg (mt eq_of_beq hstage3)]
    simp only [bind_assoc]
    refine Triple.alarm_then stable_alone
      (Or.inl ⟨0xe0070000, by simp [program], _, BitVec.or_assoc _ _ _⟩) ?_
    have hfailing : Stable (alone : Handlers (Command Globals) Word (World Globals) Empty)
        ((program s).Invariant (Passed s)) fun w => (program s).Failing w.events :=
      Stable.without fun w hw => hw.invariant (program_expects s)
    refine Triple.failing_then hfailing (Triple.failing_then hfailing ?_)
    exact Triple.stop fun w hw => hw.invariant (program_expects s)

theorem skipDevice_spec {taken : Taken} {dfar dfsr stage code : Word} {k : Nat}
    (hcode : code ∈ codes) (hp : (devicesDue s)[k]? = some (Skipped s dfar dfsr))
    (hstage : x.userDeviceStage = BitVec.ofNat 32 (k + 1)) (hnext : stage = BitVec.ofNat 32 (k + 2))
    (habort : taken.frame.dfsr = dfsr →
      ∀ left, Abort s exceptionDataAbort dfar dfsr ⟨taken.address, taken.frame, left⟩) :
    Midway s t x b (skipDevice taken.frame dfsr code stage) fun left =>
      Quiet monitor fun t' g' b' => Post s taken t x left t' g' ∧ b' = b := by
  refine require_then hcode fun hdfsr => Exactly.set_then stable_alone (served_spec ?_)
  rw [hnext]
  exact .device hp hstage ⟨habort (eq_of_beq hdfsr) _, rfl⟩

theorem minemuAbortDispatch_spec (taken : Taken) :
    Midway s t x b (minemuAbortDispatch s taken.address taken.frame) fun left =>
      Quiet monitor fun t' g' b' => Post s taken t x left t' g' ∧ b' = b := by
  have hne : exceptionPrefetchAbort ≠ exceptionDataAbort := by decide
  refine requireExactStack_then (by decide) fun hstack => ?_
  refine requireAbortLink_then fun hdata hprefetch => require_then (by decide) fun _ => ?_
  have hlink : ∀ cause, cause = exceptionDataAbort ∨ cause = exceptionPrefetchAbort →
      taken.frame.exceptionId = cause → ∀ dfar dfsr left, taken.frame.dfar = dfar →
        taken.frame.dfsr = dfsr → Abort s cause dfar dfsr ⟨taken.address, taken.frame, left⟩ := by
    intro cause hcause hid dfar dfsr left hdfar hdfsr
    refine ⟨hstack, hid, ?_, hdfar, hdfsr⟩
    rcases hcause with rfl | rfl
    · rw [if_pos rfl]
      exact hdata hid
    · rw [if_neg hne]
      exact hprefetch hid
  refine Exactly.get_then stable_alone ?_
  split
  next hrng =>
    simp only [Bool.and_eq_true, beq_iff_eq] at hrng
    obtain ⟨⟨hstage, hid⟩, hdfar⟩ := hrng
    exact skipDevice_spec (k := 0) (by decide) rfl hstage rfl fun hdfsr left =>
      hlink _ (Or.inl rfl) hid _ _ left hdfar hdfsr
  refine Exactly.get_then stable_alone ?_
  split
  next htrace =>
    simp only [Bool.and_eq_true, beq_iff_eq] at htrace
    obtain ⟨⟨hstage, hid⟩, hdfar⟩ := htrace
    exact skipDevice_spec (k := 1) (by decide) rfl hstage rfl fun hdfsr left =>
      hlink _ (Or.inl rfl) hid _ _ left hdfar hdfsr
  refine repair_then fun stage cause dfar dfsr hmem hstage hid hdfar hdfsr => ?_
  refine Exactly.mcr_then stable_alone (Exactly.set_then stable_alone (served_spec ?_))
  simp only [List.mem_cons, Prod.mk.injEq, List.not_mem_nil, or_false] at hmem
  rcases hmem with ⟨rfl, rfl, rfl, rfl⟩ | ⟨rfl, rfl, rfl, rfl⟩ | ⟨rfl, rfl, rfl, rfl⟩
  · exact .abort (k := 0) rfl hstage ⟨hlink _ (Or.inl rfl) hid _ _ _ hdfar hdfsr, rfl⟩
  · exact .abort (k := 1) rfl hstage ⟨hlink _ (Or.inr rfl) hid _ _ _ hdfar hdfsr, rfl⟩
  · exact .abort (k := 2) rfl hstage ⟨hlink _ (Or.inr rfl) hid _ _ _ hdfar hdfsr, rfl⟩

end Dispatch

theorem dispatch_spec (taken : Taken) (t : List Entry) (x : Globals) (b : Bool) :
    Triple alone ((program s).Invariant (Passed s)) (Quiet monitor (Exactly t x b))
      ((program s).dispatch taken)
      fun left => Quiet monitor fun t' g' b' => Post s taken t x left t' g' ∧ b' = b := by
  show Triple _ _ _ (dispatch s taken) _
  unfold dispatch
  split
  next hvector => exact minemuUndefinedDispatch_spec hvector
  next hvector => exact minemuSvcTrampoline_spec hvector
  next => exact minemuAbortDispatch_spec taken
  next => exact minemuAbortDispatch_spec taken
  next hvector => exact minemuIrqTrampoline_spec hvector

end Minemu.Headless.Exceptions
