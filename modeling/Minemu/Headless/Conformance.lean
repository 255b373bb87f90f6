import Minemu.Lib.Guest
import Minemu.Platform.Devices
import Minemu.Platform.Mmu
import Minemu.Trap.Frame
import Mathlib.Data.List.Induction

/-!
# `conformance.h`: guests that check the platform

The platform is hardware outside the repository, so every load is answered with an
arbitrary word, and between two accesses of a kernel any exceptions come, with any
frames, except that a masked IRQ does not come.  Schedules with an exception inside a
dispatcher are left out, and an instruction that a dispatcher skips is one that the
kernel says may be skipped.  A case is a kernel, its dispatchers, and the trace that the
host expects.  The host sees the trace register only: the oracle is that a trace which
is not the expected one says so in its first unexpected event.
-/

namespace Minemu.Headless

open Minemu.Lib.Memory Minemu.Lib.Arm Minemu.Lib.Guest Minemu.Platform Minemu.Trap

/-! ## Guest code -/

/-- What the surroundings of a guest see of it. -/
inductive Access where
  | read (address value : Word)
  | write (address value : Word)
  /-- A store of user code. -/
  | userWrite (address value : Word)
  /-- A store to a system control register. -/
  | mcr (register : Cp15) (value : Word)
  /-- An exception, with the frame its dispatcher was given and the one it left. -/
  | exception (address : Word) (frame left : TrapFrame)

/-- Globals of a case, the IRQ mask of its kernel, and its accesses so far. -/
structure World (γ : Type) where
  globals : γ
  irqMasked : Bool
  log : List Access

inductive Command (γ : Type) where
  /-- A load of a word. -/
  | read (address : Word)
  /-- A load of a byte. -/
  | readByte (address : Word)
  | write (address value : Word)
  | userWrite (address value : Word)
  | mcr (register : Cp15) (value : Word)
  /-- A value of the processor: CPSR, SP. -/
  | sense
  | get (field : γ → Word)
  | set (update : γ → γ)
  /-- `cpsid i`, `cpsie i`, and a return that restores the mask -/
  | mask (masked : Bool)
  | leave (address : Word) (frame left : TrapFrame)

variable {γ α : Type}

def World.record (w : World γ) (x : Access) : World γ := { w with log := w.log ++ [x] }

def Command.exec : Command γ → Word → World γ → Word × World γ
  | .read a, v, w => (v, w.record (.read a v))
  | .readByte a, v, w => (v &&& 0xff, w.record (.read a (v &&& 0xff)))
  | .write a x, v, w => (v, w.record (.write a x))
  | .userWrite a x, v, w => (v, w.record (.userWrite a x))
  | .mcr register x, v, w => (v, w.record (.mcr register x))
  | .sense, v, w => (v, w)
  | .get field, _, w => (field w.globals, w)
  | .set update, v, w => (v, { w with globals := update w.globals })
  | .mask masked, v, w => (v, { w with irqMasked := masked })
  | .leave address frame left, v, w => (v, w.record (.exception address frame left))

instance : Commands (Command γ) Word (World γ) := ⟨Command.exec⟩

abbrev Code (γ α : Type) : Type := Prog (Command γ) Word α

abbrev read (a : Word) : Code γ Word := Prog.perform (.read a)

abbrev readByte (a : Word) : Code γ Word := Prog.perform (.readByte a)

abbrev write (a x : Word) : Code γ Unit := Prog.issue (.write a x)

abbrev mcr (register : Cp15) (x : Word) : Code γ Unit := Prog.issue (.mcr register x)

abbrev sense : Code γ Word := Prog.perform .sense

abbrev get (field : γ → Word) : Code γ Word := Prog.perform (.get field)

abbrev set (update : γ → γ) : Code γ Unit := Prog.issue (.set update)

abbrev cpsidI : Code γ Unit := Prog.issue (.mask true)

abbrev cpsieI : Code γ Unit := Prog.issue (.mask false)

/-- A store that a dispatcher may have skipped, as the abort was taken at it. -/
def writeOrSkip (a x : Word) : Code γ Unit := do
  let skipped ← sense
  if skipped == 0 then write a x else pure ()

def minemuMmuTlbiall : Code γ Unit := mcr .tlbiall 0

def minemuMmuSetTtbr0 (address : Word) : Code γ Unit := mcr .ttbr0 address

def minemuTraceEvent (value : Word) : Code γ Unit := write traceBase value

def minemuFailStop : Code γ α := .stop

def failEvent (code : Word) : Word := 0xf0000000 ||| (code &&& 0x0fffffff)

def minemuConformanceFail (code : Word) : Code γ Unit := do
  minemuTraceEvent (failEvent code)
  minemuFailStop

def minemuRequire (condition : Bool) (code : Word) : Code γ Unit :=
  if !condition then minemuConformanceFail code else pure ()

/-! ## Static data -/

/-- A page of a case, where the linker put it in the direct map. -/
structure StaticPage where
  base : Word
  low : 0xc0000000 ≤ base.toNat
  high : base.toNat + 4096 ≤ 0xc4000000

instance : Inhabited StaticPage := ⟨⟨0xc0100000, by decide, by decide⟩⟩

def StaticPage.word (page : StaticPage) (i : Nat) : Word := page.base + BitVec.ofNat 32 (4 * i)

theorem StaticPage.word_ne {page : StaticPage} {i : Nat} (hi : i < 1024) :
    page.word i ≠ traceBase := by
  have hlow := page.low
  have hhigh := page.high
  have htrace : traceBase.toNat = 0x1000f000 := by decide
  intro heq
  have hval := congrArg BitVec.toNat heq
  rw [StaticPage.word, BitVec.toNat_add, BitVec.toNat_ofNat, Nat.mod_eq_of_lt (by omega),
    Nat.mod_eq_of_lt (by omega)] at hval
  omega

/-! ## Cases -/

structure Taken where
  vector : Exception
  /-- Where the frame is. -/
  address : Word
  frame : TrapFrame

/-- A case of `headless/`, with `trace_values` of its manifest, the codes of its checks and
the prefixes of its contextual diagnostics. -/
structure Case (γ : Type) where
  globals : γ
  minemuKernelMain : Code γ Unit
  /-- The code behind each vector, from the saved frame to the frame to restore. -/
  dispatch : Taken → Code γ TrapFrame
  traceValues : List Word
  codes : List Word
  diagnostics : List Word

/-- The frame of a trampoline of a case: it has no fault. -/
def trampolineFrame (exceptionId : Word) (frame : TrapFrame) : TrapFrame :=
  { frame with
    exceptionId := exceptionId
    faultPc := frame.returnLr - 4
    dfsr := 0
    dfar := 0
    reserved := 0 }

def minemuIrqTrampoline (minemuIrqDispatch : TrapFrame → Code γ TrapFrame) (frame : TrapFrame) :
    Code γ TrapFrame := do
  let source ← read interruptClaimRegister
  minemuIrqDispatch (trampolineFrame source frame)

def weakDispatch : Taken → Code γ TrapFrame := fun _ => minemuFailStop

namespace Case

variable (c : Case γ)

def handlers : Handlers (Command γ) Word (World γ) Taken where
  enabled t w := !(t.vector == .irq && w.irqMasked)
  handler t := do
    let left ← c.dispatch t
    Prog.issue (.leave t.address t.frame left)

/-- The kernel is called with IRQs masked. -/
def start : World γ := ⟨c.globals, true, []⟩

def run (cs : List (Choice Word Taken)) : Config (Command γ) Word (World γ) Unit :=
  Lib.Guest.run c.handlers cs (c.minemuKernelMain, c.start)

end Case

/-! ## The trace -/

/-- A store to the trace register, by the kernel or by user code. -/
def Access.event? : Access → Option Word
  | .write a x | .userWrite a x => if a = traceBase then some x else none
  | _ => none

def World.events (w : World γ) : List Word := w.log.filterMap Access.event?

@[simp] theorem events_record (w : World γ) (x : Access) :
    (w.record x).events = w.events ++ x.event?.toList := by
  rw [World.events, World.record, List.filterMap_append]
  cases hx : x.event? with
  | none => simp [World.events, hx]
  | some v => simp [World.events, hx]

namespace Case

variable (c : Case γ)

/-- An event that the manifest does not expect: a contextual diagnostic, or the code of a
check of this case. -/
def Alarm (d : Word) : Prop :=
  (∃ diagnostic ∈ c.diagnostics, ∃ context, d = diagnostic ||| context) ∨
    ∃ code ∈ c.codes, d = failEvent code

def Failing (es : List Word) : Prop :=
  ∃ before d after, before <+: c.traceValues ∧ c.Alarm d ∧ es = before ++ d :: after

def Verdict (es : List Word) : Prop := es <+: c.traceValues ∨ c.Failing es

/-- The ranges of the oracle convention: the top bit tells success from failure. -/
structure Expects : Prop where
  success : ∀ v ∈ c.traceValues, v < 0x80000000
  failure : ∀ d ∈ c.diagnostics, 0x80000000 ≤ d

/-- Whenever the case is paused: the trace is a verdict, and it is the expected one only
if what the case is about has been `Passed`. -/
def Invariant (Passed : World γ → Prop) (w : World γ) : Prop :=
  c.Verdict w.events ∧ (w.events = c.traceValues → Passed w)

def Sound (Passed : World γ → Prop) : Prop := ∀ cs, c.Invariant Passed (c.run cs).2

end Case

theorem le_or_of_le {d : Word} (h : 0x80000000 ≤ d) (context : Word) :
    0x80000000 ≤ d ||| context := by
  rw [BitVec.le_def] at h ⊢
  rw [BitVec.toNat_or]
  exact Nat.le_trans h Nat.left_le_or

theorem le_failEvent (code : Word) : 0x80000000 ≤ failEvent code :=
  le_or_of_le (by decide) _

variable {c : Case γ} {es es' : List Word}

theorem Case.Failing.append (h : c.Failing es) (es' : List Word) : c.Failing (es ++ es') := by
  obtain ⟨before, d, after, hbefore, hd, rfl⟩ := h
  exact ⟨before, d, after ++ es', hbefore, hd, by simp⟩

theorem Case.Failing.of_alarm {d : Word} (hes : c.Verdict es) (hd : c.Alarm d) :
    c.Failing (es ++ [d]) := by
  rcases hes with hes | hes
  · exact ⟨es, d, [], hes, hd, rfl⟩
  · exact hes.append [d]

theorem Case.Alarm.le (hc : c.Expects) {d : Word} (h : c.Alarm d) : 0x80000000 ≤ d := by
  rcases h with ⟨diagnostic, hmem, context, rfl⟩ | ⟨code, -, rfl⟩
  · exact le_or_of_le (hc.failure diagnostic hmem) context
  · exact le_failEvent code

/-- A failing trace is not even the beginning of the expected one. -/
theorem Case.Failing.unexpected (hc : c.Expects) (h : c.Failing es) : ¬ es <+: c.traceValues := by
  obtain ⟨before, d, after, -, hd, rfl⟩ := h
  intro hbegins
  have hsuccess := hc.success d (hbegins.subset (by simp))
  exact BitVec.not_le.mpr hsuccess (hd.le hc)

theorem Case.Failing.invariant (hc : c.Expects) {Passed : World γ → Prop} {w : World γ}
    (h : c.Failing w.events) : c.Invariant Passed w :=
  ⟨Or.inr h, fun heq => absurd (heq ▸ List.prefix_refl _) (h.unexpected hc)⟩

/-! ## Rules -/

section Rules

variable {ι : Type} {H : Handlers (Command γ) Word (World γ) ι} {Passed P : World γ → Prop}
  {Q : α → World γ → Prop} {g : Code γ α} {code : Word}

theorem Triple.alarm_then {d : Word} (hP : Stable H (c.Invariant Passed) P) (hd : c.Alarm d)
    (hg : Triple H (c.Invariant Passed) (fun w => c.Failing w.events) g Q) :
    Triple H (c.Invariant Passed) P (minemuTraceEvent d >>= fun _ => g) Q := by
  refine Triple.issue_then hP (fun v w hw => ?_) hg
  have hevents := events_record w (.write traceBase d)
  exact hevents ▸ Case.Failing.of_alarm (hP.safe w hw).1 hd

theorem Triple.failing_then {d : Word}
    (hfailing : Stable H (c.Invariant Passed) fun w => c.Failing w.events)
    (hg : Triple H (c.Invariant Passed) (fun w => c.Failing w.events) g Q) :
    Triple H (c.Invariant Passed) (fun w => c.Failing w.events)
      (minemuTraceEvent d >>= fun _ => g) Q := by
  refine Triple.issue_then hfailing (fun v w hw => ?_) hg
  have hevents := events_record w (.write traceBase d)
  exact hevents ▸ hw.append _

theorem Triple.fail {Q : Unit → World γ → Prop} (hc : c.Expects)
    (hP : Stable H (c.Invariant Passed) P) (hcode : code ∈ c.codes) :
    Triple H (c.Invariant Passed) P (minemuConformanceFail code) Q :=
  Triple.alarm_then hP (Or.inr ⟨code, hcode, rfl⟩) (Triple.stop fun _ hw => hw.invariant hc)

theorem Triple.check_then {I : World γ → Prop} {b : Bool}
    (hfail : Triple H I P (minemuConformanceFail code) fun _ _ => False)
    (hg : b = true → Triple H I P g Q) :
    Triple H I P (minemuRequire b code >>= fun _ => g) Q := by
  cases b with
  | true => exact hg rfl
  | false => exact Triple.bind hfail fun _ w hw => hw.elim

theorem Triple.require_then {b : Bool} (hc : c.Expects) (hP : Stable H (c.Invariant Passed) P)
    (hcode : code ∈ c.codes) (hg : b = true → Triple H (c.Invariant Passed) P g Q) :
    Triple H (c.Invariant Passed) P (minemuRequire b code >>= fun _ => g) Q :=
  Triple.check_then (Triple.fail hc hP hcode) hg

end Rules

/-! ## Monitors -/

/-- An automaton that watches the accesses. -/
structure Monitor (τ : Type) where
  init : τ
  step : τ → Access → τ

namespace Monitor

variable {τ : Type}

def watch (m : Monitor τ) (log : List Access) : τ := log.foldl m.step m.init

theorem watch_append (m : Monitor τ) (log : List Access) (x : Access) :
    m.watch (log ++ [x]) = m.step (m.watch log) x := by
  rw [watch, List.foldl_append]
  rfl

def all : Monitor (List Access) where
  init := []
  step L x := L ++ [x]

theorem all_step (L : List Access) (x : Access) : all.step L x = L ++ [x] := rfl

theorem watch_all (log : List Access) : all.watch log = log := by
  induction log using List.reverseRecOn with
  | nil => rfl
  | append_singleton log x ih => rw [watch_append, ih]; rfl

def collecting {β : Type} (f : Access → Option β) : Monitor (List β) where
  init := []
  step L x := match f x with
    | some e => L ++ [e]
    | none => L

theorem watch_collecting {β : Type} (f : Access → Option β) (log : List Access) :
    (collecting f).watch log = log.filterMap f := by
  induction log using List.reverseRecOn with
  | nil => rfl
  | append_singleton log x ih =>
      rw [watch_append, ih, List.filterMap_append]
      cases hx : f x <;> simp [collecting, hx]

def selecting (f : Access → Bool) : Monitor (List Access) where
  init := []
  step L x := if f x then L ++ [x] else L

theorem watch_selecting (f : Access → Bool) (log : List Access) :
    (selecting f).watch log = log.filter f := by
  induction log using List.reverseRecOn with
  | nil => rfl
  | append_singleton log x ih =>
      rw [watch_append, ih, List.filter_append]
      cases hx : f x <;> simp [selecting, hx]

end Monitor

/-- The trace so far, and what a monitor has made of the accesses so far. -/
structure Saw {τ : Type} (m : Monitor τ) (es : List Word) (t : τ) (w : World γ) : Prop where
  events : w.events = es
  watched : m.watch w.log = t

theorem Saw.record {τ : Type} {m : Monitor τ} {t : τ} {w : World γ} (h : Saw m es t w)
    (x : Access) : Saw m (es ++ x.event?.toList) (m.step t x) (w.record x) where
  events := by rw [events_record, h.events]
  watched := by rw [World.record, m.watch_append, h.watched]

theorem Saw.record_quiet {τ : Type} {m : Monitor τ} {t : τ} {w : World γ} (h : Saw m es t w)
    {x : Access} (hx : x.event? = none) : Saw m es (m.step t x) (w.record x) := by
  have hrecord := h.record x
  rwa [hx, Option.toList_none, List.append_nil] at hrecord

theorem event?_write {a x : Word} (ha : a ≠ traceBase) : (Access.write a x).event? = none :=
  if_neg ha

namespace Case

def Pending (c : Case γ) (es : List Word) : Prop := es <+: c.traceValues ∧ es ≠ c.traceValues

instance (c : Case γ) (es : List Word) : Decidable (c.Pending es) :=
  inferInstanceAs (Decidable (_ ∧ _))

variable {τ : Type} {m : Monitor τ} {t : τ} {Passed P : World γ → Prop}

theorem Pending.invariant {w : World γ} (hes : c.Pending es) (h : w.events = es) :
    c.Invariant Passed w := by
  rw [Invariant, h]
  exact ⟨Or.inl hes.1, fun heq => absurd heq hes.2⟩

/-! ## Cases with the weak dispatchers

Every exception stops such a case, so an assertion about its log is stable. -/

structure Weak (c : Case γ) : Prop where
  expects : c.Expects
  dispatch : c.dispatch = weakDispatch

theorem Weak.handler_stop (hc : c.Weak) (t : Taken) : c.handlers.handler t = .stop := by
  show (c.dispatch t >>= fun left => Prog.issue (.leave t.address t.frame left)) = .stop
  rw [hc.dispatch]
  rfl

theorem Weak.stable (hc : c.Weak) (hP : ∀ w, P w → c.Invariant Passed w) :
    Stable c.handlers (c.Invariant Passed) P :=
  Stable.of_stop hc.handler_stop hP

section

variable (hc : c.Weak) (hes : c.Pending es) {Q : α → World γ → Prop} {k : Word → Code γ α}
  {g : Code γ α}

include hc hes

theorem Weak.saw : Stable c.handlers (c.Invariant Passed) (Saw m es t) :=
  hc.stable fun _ hw => hes.invariant hw.events

theorem Weak.read_then {a : Word}
    (hk : ∀ v, Triple c.handlers (c.Invariant Passed) (Saw m es (m.step t (.read a v))) (k v) Q) :
    Triple c.handlers (c.Invariant Passed) (Saw m es t) (read a >>= k) Q :=
  Triple.perform_then (hc.saw hes) (fun _ _ hw => hw.record_quiet rfl) hk

theorem Weak.readByte_then {a : Word}
    (hk : ∀ v, Triple c.handlers (c.Invariant Passed) (Saw m es (m.step t (.read a v))) (k v) Q) :
    Triple c.handlers (c.Invariant Passed) (Saw m es t) (readByte a >>= k) Q :=
  Triple.perform_then (hc.saw hes) (fun _ _ hw => hw.record_quiet rfl) hk

theorem Weak.write_then {a x : Word} (ha : a ≠ traceBase)
    (hg : Triple c.handlers (c.Invariant Passed) (Saw m es (m.step t (.write a x))) g Q) :
    Triple c.handlers (c.Invariant Passed) (Saw m es t) (write a x >>= fun _ => g) Q :=
  Triple.issue_then (hc.saw hes) (fun _ _ hw => hw.record_quiet (event?_write ha)) hg

/-- Polling of a register that the monitor does not look at. -/
theorem Weak.await_then {a : Word} {again : Word → Bool} (ht : ∀ v, m.step t (.read a v) = t)
    (hk : ∀ v, again v = false → Triple c.handlers (c.Invariant Passed) (Saw m es t) (k v) Q) :
    Triple c.handlers (c.Invariant Passed) (Saw m es t) (Prog.await (.read a) again >>= k) Q := by
  have hkept : ∀ v (w : World γ), Saw m es t w → Saw m es t (w.record (.read a v)) := by
    intro v w hw
    have hrecord := hw.record_quiet (x := .read a v) rfl
    rwa [ht v] at hrecord
  refine Triple.await_then (M := fun v w => again v = false ∧ Saw m es t w) (hc.saw hes)
    (fun v w hw _ => hkept v w hw) (fun v w hw hv => ⟨hv, hkept v w hw⟩) fun v => ?_
  exact .of_pre (fun _ hw => hw.1) fun hv => (hk v hv).pre fun _ hw => hw.2

theorem Weak.require_then {b : Bool} {code : Word} (hcode : code ∈ c.codes)
    (hg : b = true → Triple c.handlers (c.Invariant Passed) (Saw m es t) g Q) :
    Triple c.handlers (c.Invariant Passed) (Saw m es t) (minemuRequire b code >>= fun _ => g) Q :=
  Triple.require_then hc.expects (hc.saw hes) hcode hg

theorem Weak.event_then {x : Word}
    (hg : Triple c.handlers (c.Invariant Passed)
      (Saw m (es ++ [x]) (m.step t (.write traceBase x))) g Q) :
    Triple c.handlers (c.Invariant Passed) (Saw m es t) (minemuTraceEvent x >>= fun _ => g) Q :=
  Triple.issue_then (hc.saw hes) (fun _ _ hw => hw.record _) hg

theorem Weak.pass {x : Word} {Q : Unit → World γ → Prop} (hlast : es ++ [x] = c.traceValues)
    (hpassed : ∀ w, Saw m (es ++ [x]) (m.step t (.write traceBase x)) w → Passed w) :
    Triple c.handlers (c.Invariant Passed) (Saw m es t)
      (minemuTraceEvent x >>= fun _ => minemuFailStop) Q := by
  refine Triple.issue_then (hc.saw hes) (fun _ _ hw => hw.record _) (Triple.stop fun w hw => ?_)
  have hevents : w.events = c.traceValues := hw.events.trans hlast
  exact ⟨Or.inl (hevents ▸ List.prefix_refl _), fun _ => hpassed w hw⟩

end

theorem invariant_of_triple {I : World γ → Prop} {Q : Unit → World γ → Prop}
    (h : Triple c.handlers I P c.minemuKernelMain Q) (hstart : P c.start)
    (cs : List (Choice Word Taken)) : I (c.run cs).2 :=
  (h c.start hstart cs).1

theorem sound_of_triple {Q : Unit → World γ → Prop}
    (h : Triple c.handlers (c.Invariant Passed) P c.minemuKernelMain Q) (hstart : P c.start) :
    c.Sound Passed :=
  invariant_of_triple h hstart

end Case

end Minemu.Headless
