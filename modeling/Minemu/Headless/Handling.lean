import Minemu.Headless.Attainable
import Mathlib.Data.List.Forall2

/-!
# Cases with dispatchers of their own

Between two events such a case is described by what a monitor has seen, the globals
and the IRQ mask.  The rules hold for the kernel under interruption, where the
assertions have to be stable, and for a dispatcher, which runs alone.
-/

namespace Minemu.Headless

open Minemu.Lib.Memory Minemu.Lib.Arm Minemu.Lib.Guest Minemu.Platform Minemu.Trap

variable {γ τ ι α : Type}

/-- No event so far, and `R` of what the monitor has seen, the globals and the mask. -/
structure Quiet (m : Monitor τ) (R : τ → γ → Bool → Prop) (w : World γ) : Prop where
  events : w.events = []
  holds : R (m.watch w.log) w.globals w.irqMasked

variable {m : Monitor τ} {R R' : τ → γ → Bool → Prop}

theorem Quiet.mono {w : World γ} (h : Quiet m R w) (hR : ∀ t g b, R t g b → R' t g b) :
    Quiet m R' w :=
  ⟨h.events, hR _ _ _ h.holds⟩

theorem Quiet.record {w : World γ} (h : Quiet m R w) {x : Access} (hx : x.event? = none)
    (hR : ∀ t g b, R t g b → R' (m.step t x) g b) : Quiet m R' (w.record x) where
  events := by rw [events_record, hx, h.events]; rfl
  holds := by
    rw [World.record, m.watch_append]
    exact hR _ _ _ h.holds

section Rules

variable {H : Handlers (Command γ) Word (World γ) ι} {I : World γ → Prop} {c : Case γ}
  {Passed : World γ → Prop} {Q : α → World γ → Prop} {k : Word → Code γ α} {g : Code γ α}

theorem Quiet.invariant (hc : c.Pending []) {w : World γ} (h : Quiet m R w) :
    c.Invariant Passed w :=
  hc.invariant h.events

/-- In a dispatcher every assertion is stable. -/
theorem Quiet.stable_alone (hc : c.Pending []) :
    Stable (alone : Handlers (Command γ) Word (World γ) Empty) (c.Invariant Passed)
      (Quiet m R) :=
  Stable.without fun _ h => h.invariant hc

theorem Quiet.ret_alone (hc : c.Pending []) {a : α} {R' : α → τ → γ → Bool → Prop}
    (h : ∀ t g b, R t g b → R' a t g b) :
    Triple (alone : Handlers (Command γ) Word (World γ) Empty) (c.Invariant Passed) (Quiet m R)
      (pure a) fun a => Quiet m (R' a) :=
  (Triple.ret (Q := fun a => Quiet m (R' a)) (Quiet.stable_alone hc)).pre fun _ hw => hw.mono h

section

variable (hR : Stable H I (Quiet m R))

include hR

theorem Quiet.read_then {R' : Word → τ → γ → Bool → Prop} {a : Word}
    (h : ∀ v t g b, R t g b → R' v (m.step t (.read a v)) g b)
    (hk : ∀ v, Triple H I (Quiet m (R' v)) (k v) Q) :
    Triple H I (Quiet m R) (read a >>= k) Q :=
  Triple.perform_then hR (fun v _ hw => hw.record rfl (h v)) hk

theorem Quiet.read_ignored {a : Word} (ha : ∀ t v, m.step t (.read a v) = t)
    (hk : ∀ v, Triple H I (Quiet m R) (k v) Q) :
    Triple H I (Quiet m R) (read a >>= k) Q := by
  refine Quiet.read_then hR (fun v t g b ht => ?_) hk
  rwa [ha t v]

theorem Quiet.write_then {a x : Word} (hne : a ≠ traceBase)
    (h : ∀ t g b, R t g b → R' (m.step t (.write a x)) g b)
    (hg : Triple H I (Quiet m R') g Q) :
    Triple H I (Quiet m R) (write a x >>= fun _ => g) Q :=
  Triple.issue_then hR (fun _ _ hw => hw.record (event?_write hne) h) hg

theorem Quiet.write_ignored {a x : Word} (hne : a ≠ traceBase)
    (ha : ∀ t, m.step t (.write a x) = t)
    (hg : Triple H I (Quiet m R) g Q) :
    Triple H I (Quiet m R) (write a x >>= fun _ => g) Q := by
  refine Quiet.write_then hR hne (fun t g b ht => ?_) hg
  rwa [ha t]

theorem Quiet.mcr_then {register : Cp15} {x : Word}
    (h : ∀ t g b, R t g b → R' (m.step t (.mcr register x)) g b)
    (hg : Triple H I (Quiet m R') g Q) :
    Triple H I (Quiet m R) (mcr register x >>= fun _ => g) Q :=
  Triple.issue_then hR (fun _ _ hw => hw.record rfl h) hg

theorem Quiet.mcr_ignored {register : Cp15} {x : Word}
    (ha : ∀ t, m.step t (.mcr register x) = t)
    (hg : Triple H I (Quiet m R) g Q) :
    Triple H I (Quiet m R) (mcr register x >>= fun _ => g) Q := by
  refine Quiet.mcr_then hR (fun t g b ht => ?_) hg
  rwa [ha t]

theorem Quiet.sense_then (hk : ∀ v, Triple H I (Quiet m R) (k v) Q) :
    Triple H I (Quiet m R) (sense >>= k) Q :=
  Triple.perform_then hR (fun _ _ hw => hw) hk

theorem Quiet.set_then {update : γ → γ} (h : ∀ t g b, R t g b → R' t (update g) b)
    (hg : Triple H I (Quiet m R') g Q) :
    Triple H I (Quiet m R) (set update >>= fun _ => g) Q :=
  Triple.issue_then hR (fun _ _ hw => ⟨hw.events, h _ _ _ hw.holds⟩) hg

theorem Quiet.mask_then {masked : Bool} (h : ∀ t g b, R t g b → R' t g masked)
    (hg : Triple H I (Quiet m R') g Q) :
    Triple H I (Quiet m R) (Prog.issue (.mask masked) >>= fun _ => g) Q :=
  Triple.issue_then hR (fun _ _ hw => ⟨hw.events, h _ _ _ hw.holds⟩) hg

theorem Quiet.get_then {field : γ → Word}
    (hk : ∀ v, Triple H I (Quiet m fun t g b => R t g b ∧ field g = v) (k v) Q) :
    Triple H I (Quiet m R) (get field >>= k) Q :=
  Triple.perform_then hR (fun _ _ hw => ⟨hw.events, hw.holds, rfl⟩) hk

theorem Quiet.await_ignored {a : Word} {again : Word → Bool}
    (ha : ∀ t v, m.step t (.read a v) = t)
    (hk : ∀ v, Triple H I (Quiet m R) (k v) Q) :
    Triple H I (Quiet m R) (Prog.await (.read a) again >>= k) Q := by
  have hkept : ∀ v (w : World γ), Quiet m R w → Quiet m R (w.record (.read a v)) := by
    intro v w hw
    exact hw.record rfl fun t g b ht => by rwa [ha t v]
  exact Triple.await_then (M := fun _ => Quiet m R) hR (fun v w hw _ => hkept v w hw)
    (fun v w hw _ => hkept v w hw) hk

/-- Polling of a global that a dispatcher changes. -/
theorem Quiet.awaitGet_then {field : γ → Word} {again : Word → Bool}
    (h : ∀ t g b, R t g b → again (field g) = false → R' t g b)
    (hk : ∀ v, Triple H I (Quiet m R') (k v) Q) :
    Triple H I (Quiet m R) (Prog.await (.get field) again >>= k) Q :=
  Triple.await_then (M := fun _ => Quiet m R') hR (fun _ _ hw _ => hw)
    (fun _ _ hw hdone => ⟨hw.events, h _ _ _ hw.holds hdone⟩) hk

end

/-! ## The kernel's checks -/

/-- No event is sent yet, and a run that fails is within the invariant. -/
structure Case.FailsWithin (c : Case γ) (I : World γ → Prop) : Prop where
  pending : c.Pending []
  safe : ∀ w, c.Failing w.events → I w

theorem Case.Expects.failsWithin (hc : c.Expects) (hpending : c.Pending []) :
    c.FailsWithin (c.Invariant Passed) :=
  ⟨hpending, fun _ hw => hw.invariant hc⟩

section

variable (hR : Stable H I (Quiet m R))

include hR

variable {code : Word}

theorem Quiet.fail {Q : Unit → World γ → Prop} (hI : c.FailsWithin I) (hcode : code ∈ c.codes) :
    Triple H I (Quiet m R) (minemuConformanceFail code) Q := by
  refine Triple.issue_then (M := fun w => c.Failing w.events) hR (fun v w hw => ?_)
    (Triple.stop hI.safe)
  have hevents := events_record w (.write traceBase (failEvent code))
  rw [hw.events] at hevents
  exact hevents ▸ Case.Failing.of_alarm (Or.inl hI.pending.1) (Or.inr ⟨code, hcode, rfl⟩)

theorem Quiet.require_then (hI : c.FailsWithin I) {b : Bool} (hcode : code ∈ c.codes)
    (hg : b = true → Triple H I (Quiet m R) g Q) :
    Triple H I (Quiet m R) (minemuRequire b code >>= fun _ => g) Q :=
  Triple.check_then (Quiet.fail hR hI hcode) hg

/-- A check of a global.  What it tells holds when the global is loaded. -/
theorem Quiet.requireGet_then (hI : c.FailsWithin I) {field : γ → Word}
    {condition : Word → Bool} (hcode : code ∈ c.codes)
    (h : ∀ t g b, R t g b → condition (field g) = true → R' t g b)
    (hR' : Stable H I (Quiet m R')) (hg : Triple H I (Quiet m R') g Q) :
    Triple H I (Quiet m R)
      (get field >>= fun v => minemuRequire (condition v) code >>= fun _ => g) Q := by
  refine Triple.perform_then
    (M := fun v w => (condition v = true → Quiet m R' w) ∧ Quiet m R w) hR
    (fun v w hw => ⟨fun hv => ⟨hw.events, h _ _ _ hw.holds hv⟩, hw⟩) fun v => ?_
  cases hv : condition v with
  | true => exact (Quiet.require_then hR' hI hcode fun _ => hg).pre fun _ hw => hw.1 rfl
  | false => exact (Quiet.require_then hR hI hcode Bool.noConfusion).pre fun _ hw => hw.2

theorem Quiet.pass {x : Word} {Q : Unit → World γ → Prop}
    (hI : ∀ w, c.Invariant Passed w → I w) (hlast : [x] = c.traceValues)
    (hpassed : ∀ t g b, R t g b → ∀ w : World γ,
      m.watch w.log = m.step t (.write traceBase x) → Passed w) :
    Triple H I (Quiet m R) (minemuTraceEvent x >>= fun _ => minemuFailStop) Q := by
  refine Triple.issue_then
    (M := fun w => w.events = [x] ∧ ∃ t g b, R t g b ∧
      m.watch w.log = m.step t (.write traceBase x)) hR
    (fun v w hw => ?_) (Triple.stop fun w ⟨hevents, t, g, b, ht, hlog⟩ => ?_)
  · refine ⟨?_, _, _, _, hw.holds, m.watch_append _ _⟩
    have hrecord := events_record w (.write traceBase x)
    rw [hw.events] at hrecord
    exact hrecord
  · have hexpected : w.events = c.traceValues := hevents.trans hlast
    exact hI w ⟨Or.inl (hexpected ▸ List.prefix_refl _), fun _ => hpassed t g b ht w hlog⟩

end

end Rules

/-! ## Known states -/

def Exactly (t : τ) (g : γ) (b : Bool) : τ → γ → Bool → Prop :=
  fun t' g' b' => t' = t ∧ g' = g ∧ b' = b

namespace Exactly

variable {H : Handlers (Command γ) Word (World γ) ι} {I : World γ → Prop} {t : τ} {s : γ}
  {b : Bool} {Q : α → World γ → Prop} {k : Word → Code γ α} {g : Code γ α}
  (hR : Stable H I (Quiet m (Exactly t s b)))

include hR

theorem read_then {a : Word}
    (hk : ∀ v, Triple H I
      (Quiet m (Exactly (m.step t (.read a v)) s b)) (k v) Q) :
    Triple H I (Quiet m (Exactly t s b)) (read a >>= k) Q := by
  refine Quiet.read_then hR (fun v t' s' b' h => ?_) hk
  obtain ⟨rfl, rfl, rfl⟩ := h
  exact ⟨rfl, rfl, rfl⟩

theorem write_then {a x : Word} (hne : a ≠ traceBase)
    (hg : Triple H I (Quiet m (Exactly (m.step t (.write a x)) s b)) g Q) :
    Triple H I (Quiet m (Exactly t s b)) (write a x >>= fun _ => g) Q := by
  refine Quiet.write_then hR hne (fun t' s' b' h => ?_) hg
  obtain ⟨rfl, rfl, rfl⟩ := h
  exact ⟨rfl, rfl, rfl⟩

theorem mcr_then {register : Cp15} {x : Word}
    (hg : Triple H I (Quiet m (Exactly (m.step t (.mcr register x)) s b)) g Q) :
    Triple H I (Quiet m (Exactly t s b)) (mcr register x >>= fun _ => g) Q := by
  refine Quiet.mcr_then hR (fun t' s' b' h => ?_) hg
  obtain ⟨rfl, rfl, rfl⟩ := h
  exact ⟨rfl, rfl, rfl⟩

theorem set_then {update : γ → γ}
    (hg : Triple H I (Quiet m (Exactly t (update s) b)) g Q) :
    Triple H I (Quiet m (Exactly t s b)) (set update >>= fun _ => g) Q := by
  refine Quiet.set_then hR (fun t' s' b' h => ?_) hg
  obtain ⟨rfl, rfl, rfl⟩ := h
  exact ⟨rfl, rfl, rfl⟩

theorem mask_then {masked : Bool}
    (hg : Triple H I (Quiet m (Exactly t s masked)) g Q) :
    Triple H I (Quiet m (Exactly t s b))
      (Prog.issue (.mask masked) >>= fun _ => g) Q := by
  refine Quiet.mask_then hR (fun t' s' b' h => ?_) hg
  obtain ⟨rfl, rfl, rfl⟩ := h
  exact ⟨rfl, rfl, rfl⟩

theorem get_then {field : γ → Word}
    (hk : Triple H I (Quiet m (Exactly t s b)) (k (field s)) Q) :
    Triple H I (Quiet m (Exactly t s b)) (get field >>= k) Q := by
  refine Quiet.get_then hR fun v => Triple.of_pre (φ := v = field s) ?_ fun hv => ?_
  · rintro w ⟨-, ⟨-, rfl, -⟩, hv⟩
    exact hv.symm
  · rw [hv]
    exact hk.pre fun w hw => hw.mono fun _ _ _ h => h.1

end Exactly

/-! ## Stability, from what a dispatcher does -/

/-- An exception that the mask lets through. -/
def Taken.Passes (taken : Taken) (masked : Bool) : Prop := taken.vector = .irq → masked = false

theorem Case.enabled_iff {c : Case γ} {taken : Taken} {w : World γ} :
    c.handlers.enabled taken w = true ↔ taken.Passes w.irqMasked := by
  show (!(taken.vector == .irq && w.irqMasked)) = true ↔ _
  rw [Taken.Passes]
  cases w.irqMasked <;> simp

/-- An assertion is stable if it survives what the dispatchers do, seen as one step that
the monitor sees as an exception. -/
theorem Quiet.stable {c : Case γ} {Passed : World γ → Prop} (hc : c.Pending [])
    {Post : Taken → τ → γ → TrapFrame → τ → γ → Prop}
    (hspec : ∀ taken t g b, taken.Passes b →
      Triple alone (c.Invariant Passed) (Quiet m (Exactly t g b)) (c.dispatch taken)
        fun left => Quiet m fun t' g' b' => Post taken t g left t' g' ∧ b' = b)
    (hR : ∀ taken t g b, R t g b → taken.Passes b → ∀ left t' g', Post taken t g left t' g' →
      R (m.step t' (.exception taken.address taken.frame left)) g' b) :
    Stable c.handlers (c.Invariant Passed) (Quiet m R) := by
  refine ⟨fun w hw => hw.invariant hc, fun taken w hw => ?_⟩
  obtain ⟨hw, henabled⟩ := hw
  have hpasses := Case.enabled_iff.mp henabled
  have hexact : Quiet m (Exactly (m.watch w.log) w.globals w.irqMasked) w :=
    ⟨hw.events, rfl, rfl, rfl⟩
  refine Triple.bind (hspec taken _ _ _ hpasses) (fun left => ?_) w hexact
  refine Triple.issue (Quiet.stable_alone hc) (Quiet.stable_alone hc)
    fun v w' hw' => hw'.record rfl ?_
  rintro t' g' b' ⟨hpost, rfl⟩
  exact hR taken _ _ _ hw.holds hpasses left t' g' hpost

/-! ## Stages

A stage variable says which exception is due: stage `n + 1` the one numbered `n`, and
0 none.
-/

variable {β : Type}

def Matches (ps : List (β → Prop)) (xs : List β) : Prop :=
  List.Forall₂ (fun p x => p x) ps xs

inductive Phase where
  /-- The first `n` have come. -/
  | idle (n : Nat)
  /-- The one numbered `n` is due, or has come. -/
  | armed (n : Nat)

def Staged (ps : List (β → Prop)) : Phase → Word → List β → Prop
  | .idle n, stage, xs => stage = 0 ∧ Matches (ps.take n) xs
  | .armed n, stage, xs => n < ps.length ∧
      ((stage = BitVec.ofNat 32 (n + 1) ∧ Matches (ps.take n) xs) ∨
        (stage = 0 ∧ Matches (ps.take (n + 1)) xs))

theorem ofNat_stage_inj {n k : Nat} (hn : n < 31) (hk : k < 31)
    (h : BitVec.ofNat 32 (n + 1) = BitVec.ofNat 32 (k + 1)) : n = k := by
  have hval := congrArg BitVec.toNat h
  rw [BitVec.toNat_ofNat, BitVec.toNat_ofNat, Nat.mod_eq_of_lt (by omega),
    Nat.mod_eq_of_lt (by omega)] at hval
  omega

theorem ofNat_stage_ne_zero {k : Nat} (hk : k < 31) : BitVec.ofNat 32 (k + 1) ≠ 0 := by
  intro h
  have hval := congrArg BitVec.toNat h
  rw [BitVec.toNat_ofNat, Nat.mod_eq_of_lt (by omega)] at hval
  exact absurd hval (Nat.succ_ne_zero k)

theorem Matches.take_snoc {ps : List (β → Prop)} {xs : List β} {n : Nat} {p : β → Prop} {x : β}
    (h : Matches (ps.take n) xs) (hp : ps[n]? = some p) (hx : p x) :
    Matches (ps.take (n + 1)) (xs ++ [x]) := by
  rw [List.take_add_one, hp]
  exact List.rel_append h (List.Forall₂.cons hx List.Forall₂.nil)

section Staged

variable {ps : List (β → Prop)} {n k : Nat} {stage : Word} {xs : List β}

theorem Staged.arm (h : Staged ps (.idle n) stage xs) (hn : n < ps.length) :
    Staged ps (.armed n) (BitVec.ofNat 32 (n + 1)) xs :=
  ⟨hn, Or.inl ⟨rfl, h.2⟩⟩

theorem Staged.disarm (h : Staged ps (.armed n) stage xs) (hlength : ps.length ≤ 31)
    (hstage : stage = 0) : Staged ps (.idle (n + 1)) stage xs := by
  obtain ⟨hn, ⟨hdue, -⟩ | hdone⟩ := h
  · exact absurd (hdue.symm.trans hstage) (ofNat_stage_ne_zero (by omega))
  · exact hdone

/-- The exception that is due takes the stage back. -/
theorem Staged.take {phase : Phase} {p : β → Prop} {x : β} (h : Staged ps phase stage xs)
    (hlength : ps.length ≤ 31) (hp : ps[k]? = some p)
    (hstage : stage = BitVec.ofNat 32 (k + 1)) (hx : p x) :
    Staged ps phase 0 (xs ++ [x]) := by
  obtain ⟨hk, -⟩ := List.getElem?_eq_some_iff.mp hp
  have hne : stage ≠ 0 := hstage ▸ ofNat_stage_ne_zero (by omega)
  cases phase with
  | idle n => exact absurd h.1 hne
  | armed n =>
      obtain ⟨hn, ⟨hdue, hmatches⟩ | ⟨hdone, -⟩⟩ := h
      · obtain rfl := ofNat_stage_inj (by omega) (by omega) (hdue.symm.trans hstage)
        exact ⟨hn, Or.inr ⟨rfl, hmatches.take_snoc hp hx⟩⟩
      · exact absurd hdone hne

end Staged

end Minemu.Headless
