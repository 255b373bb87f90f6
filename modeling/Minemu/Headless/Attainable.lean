import Minemu.Headless.Conformance
import Minemu.Lib.Attain

/-!
# Traces that a platform can bring about

A case is of use only if it can pass: some answers of the platform, and some exceptions
at its vectors, lead to its end with the expected trace.
-/

namespace Minemu.Headless

open Minemu.Lib.Memory Minemu.Lib.Arm Minemu.Lib.Guest Minemu.Platform Minemu.Trap

variable {γ ι α : Type}

def Case.Attainable (c : Case γ) : Prop :=
  ∃ cs, (c.run cs).1 = .stop ∧ (c.run cs).2.events = c.traceValues

/-- The frame of an exception, where nothing is said about a field. -/
def plainFrame : TrapFrame where
  r _ := 0
  returnLr := 0
  spsr := 0
  exceptionId := 0
  faultPc := 0
  dfsr := 0
  dfar := 0
  userSp := 0
  userLr := 0
  reserved := 0

/-- The events so far, the globals and the mask. -/
structure Stands (es : List Word) (s : γ) (b : Bool) (w : World γ) : Prop where
  events : w.events = es
  globals : w.globals = s
  irqMasked : w.irqMasked = b

variable {es : List Word} {s : γ} {b : Bool}

theorem Stands.record {w : World γ} (h : Stands es s b w) {x : Access} (hx : x.event? = none) :
    Stands es s b (w.record x) :=
  ⟨by rw [events_record, hx, h.events]; exact List.append_nil es, h.globals, h.irqMasked⟩

namespace Stands

variable {H : Handlers (Command γ) Word (World γ) ι} {Q : α → World γ → Prop}
  {T : World γ → Prop} {k : Word → Code γ α} {g : Code γ α}

theorem read_then {a : Word} (v : Word) (hk : Attains H (Stands es s b) (k v) Q T) :
    Attains H (Stands es s b) (read a >>= k) Q T :=
  Attains.perform_then v (fun _ hw => ⟨v, rfl, hw.record rfl⟩) hk

theorem readByte_then {a : Word} (v : Word) (hv : v &&& 0xff = v)
    (hk : Attains H (Stands es s b) (k v) Q T) :
    Attains H (Stands es s b) (readByte a >>= k) Q T :=
  Attains.perform_then v (fun _ hw => ⟨v, hv, hw.record rfl⟩) hk

theorem write_then {a x : Word} (ha : a ≠ traceBase) (hg : Attains H (Stands es s b) g Q T) :
    Attains H (Stands es s b) (write a x >>= fun _ => g) Q T :=
  Attains.issue_then (fun _ hw => ⟨0, hw.record (event?_write ha)⟩) hg

theorem ret {a : α} : Attains H (Stands es s b) (pure a) (fun _ => Stands es s b) T :=
  Attains.ret fun _ hw => hw

theorem loop_then {body : Nat → Code γ Unit} {n : Nat}
    (hbody : ∀ i < n, Attains H (Stands es s b) (body i) (fun _ => Stands es s b) T)
    (hg : Attains H (Stands es s b) g Q T) :
    Attains H (Stands es s b) (Prog.forUpTo body n >>= fun _ => g) Q T :=
  Attains.bind (Attains.forUpTo (J := fun _ => Stands es s b) hbody) fun _ => hg

theorem mcr_then {register : Cp15} {x : Word} (hg : Attains H (Stands es s b) g Q T) :
    Attains H (Stands es s b) (mcr register x >>= fun _ => g) Q T :=
  Attains.issue_then (fun _ hw => ⟨0, hw.record rfl⟩) hg

theorem sense_then (v : Word) (hk : Attains H (Stands es s b) (k v) Q T) :
    Attains H (Stands es s b) (sense >>= k) Q T :=
  Attains.perform_then v (fun _ hw => ⟨v, rfl, hw⟩) hk

theorem get_then {field : γ → Word} (hk : Attains H (Stands es s b) (k (field s)) Q T) :
    Attains H (Stands es s b) (get field >>= k) Q T :=
  Attains.perform_then (field s) (fun _ hw => ⟨0, congrArg field hw.globals, hw⟩) hk

theorem set_then {update : γ → γ} (hg : Attains H (Stands es (update s) b) g Q T) :
    Attains H (Stands es s b) (set update >>= fun _ => g) Q T :=
  Attains.issue_then
    (fun _ hw => ⟨0, hw.events, congrArg update hw.globals, hw.irqMasked⟩) hg

theorem mask_then {masked : Bool} (hg : Attains H (Stands es s masked) g Q T) :
    Attains H (Stands es s b) (Prog.issue (.mask masked) >>= fun _ => g) Q T :=
  Attains.issue_then (fun _ hw => ⟨0, hw.events, hw.globals, rfl⟩) hg

theorem await_then {a : Word} {again : Word → Bool} (v : Word) (hv : again v = false)
    (hk : Attains H (Stands es s b) (k v) Q T) :
    Attains H (Stands es s b) (Prog.await (.read a) again >>= k) Q T :=
  Attains.await_then v hv (fun _ hw => ⟨v, rfl, hw.record rfl⟩) hk

theorem awaitGet_then {field : γ → Word} {again : Word → Bool} (hs : again (field s) = false)
    (hk : Attains H (Stands es s b) (k (field s)) Q T) :
    Attains H (Stands es s b) (Prog.await (.get field) again >>= k) Q T :=
  Attains.await_then (field s) hs (fun _ hw => ⟨0, congrArg field hw.globals, hw⟩) hk

theorem require_then {condition : Bool} {code : Word} (hcondition : condition = true)
    (hg : Attains H (Stands es s b) g Q T) :
    Attains H (Stands es s b) (minemuRequire condition code >>= fun _ => g) Q T := by
  subst hcondition
  exact hg

theorem event_then {x : Word} (hg : Attains H (Stands (es ++ [x]) s b) g Q T) :
    Attains H (Stands es s b) (minemuTraceEvent x >>= fun _ => g) Q T := by
  refine Attains.issue_then (fun w hw => ⟨0, ?_, hw.globals, hw.irqMasked⟩) hg
  have hevents := events_record w (.write traceBase x)
  rw [hw.events] at hevents
  exact hevents

theorem interrupt {c : Case γ} {s' : γ} {Q : α → World γ → Prop} (hrunning : g.Running)
    (taken : Taken) (hpasses : !(taken.vector == .irq && b)) (left : TrapFrame)
    (hdispatch : Attains alone (Stands es s b) (c.dispatch taken)
      (fun left' w => left' = left ∧ Stands es s' b w) fun _ => False)
    (hg : Attains c.handlers (Stands es s' b) g Q T) :
    Attains c.handlers (Stands es s b) g Q T := by
  refine Attains.interrupt hrunning taken (fun w hw => ?_) ?_ hg
  · show (!(taken.vector == .irq && w.irqMasked)) = true
    rw [hw.irqMasked]
    exact hpasses
  · refine Attains.bind hdispatch fun left' => ?_
    exact Attains.act (M := fun _ => Stands es s' b) (fun _ hw => ⟨0, hw.2.record rfl⟩)
      fun _ => Attains.ret fun _ hw => hw

end Stands

theorem Case.attainable {c : Case γ}
    (h : Attains c.handlers (Stands [] c.globals true) c.minemuKernelMain (fun _ _ => False)
      fun w => w.events = c.traceValues) : c.Attainable := by
  obtain ⟨cs, hcs⟩ := (h c.start ⟨rfl, rfl, rfl⟩).run
  exact ⟨cs, hcs.stopped⟩

theorem Stands.stop {H : Handlers (Command γ) Word (World γ) ι} {Q : α → World γ → Prop} :
    Attains H (Stands es s b) minemuFailStop Q fun w => w.events = es :=
  Attains.stop fun _ hw => hw.events

end Minemu.Headless
