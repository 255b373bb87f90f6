import Mathlib.Data.Nat.Notation

/-!
# Programs under interruption

A program is a tree of commands.  The surroundings answer each command, and between
two commands an interruption may run a handler, which is not interrupted itself: what a
handler does in the middle of another one is not covered.  A schedule fixes the answers
and the interruptions.  A triple speaks of every schedule: its invariant
holds whenever the run is paused, its postcondition when the program has returned.
An assertion inside a program has to be stable, that is, kept by the handlers.
-/

namespace Minemu.Lib.Guest

inductive Prog (κ ν α : Type) where
  | ret (a : α)
  /-- The program stops for good. -/
  | stop
  | act (c : κ) (next : ν → Prog κ ν α)
  /-- A command that is repeated as long as `again` holds of its result. -/
  | poll (c : κ) (again : ν → Bool) (next : ν → Prog κ ν α)

variable {κ ν σ ι α β : Type}

namespace Prog

def bind : Prog κ ν α → (α → Prog κ ν β) → Prog κ ν β
  | ret a, k => k a
  | stop, _ => stop
  | act c next, k => act c fun v => (next v).bind k
  | poll c again next, k => poll c again fun v => (next v).bind k

instance : Monad (Prog κ ν) where
  pure := ret
  bind := bind

theorem bind_assoc (g : Prog κ ν α) (h : α → Prog κ ν β) {δ : Type} (k : β → Prog κ ν δ) :
    (g.bind h).bind k = g.bind fun a => (h a).bind k := by
  induction g with
  | ret a => rfl
  | stop => rfl
  | act c next ih => exact congrArg (act c) (funext ih)
  | poll c again next ih => exact congrArg (poll c again) (funext ih)

theorem bind_ret (g : Prog κ ν α) : g.bind ret = g := by
  induction g with
  | ret a => rfl
  | stop => rfl
  | act c next ih => exact congrArg (act c) (funext ih)
  | poll c again next ih => exact congrArg (poll c again) (funext ih)

instance : LawfulMonad (Prog κ ν) :=
  LawfulMonad.mk' _ bind_ret (fun _ _ => rfl) fun g h k => g.bind_assoc h k

def perform (c : κ) : Prog κ ν ν := act c ret

def issue (c : κ) : Prog κ ν Unit := act c fun _ => ret ()

/-- The first result that is not refused. -/
def await (c : κ) (again : ν → Bool) : Prog κ ν ν := poll c again ret

/-- `for (i = 0; i < n; ++i) body(i)` -/
def forUpTo (body : Nat → Prog κ ν Unit) : Nat → Prog κ ν Unit
  | 0 => ret ()
  | n + 1 => (forUpTo body n).bind fun _ => body n

end Prog

/-! ## Schedules -/

abbrev Config (κ ν σ α : Type) : Type := Prog κ ν α × σ

/-- What commands do, from the answer of the surroundings. -/
class Commands (κ : Type) (ν σ : outParam Type) where
  exec : κ → ν → σ → ν × σ

export Commands (exec)

/-- What interrupts a program: when, and the code that runs then. -/
structure Handlers (κ ν σ ι : Type) where
  enabled : ι → σ → Bool
  handler : ι → Prog κ ν Unit

def alone : Handlers κ ν σ Empty where
  enabled i := i.elim
  handler i := i.elim

inductive Choice (ν ι : Type) where
  | answer (v : ν)
  /-- The answers are for the commands of the handler. -/
  | interrupt (i : ι) (vs : List ν)

variable [Commands κ ν σ] (H : Handlers κ ν σ ι)

def answer (v : ν) : Config κ ν σ α → Config κ ν σ α
  | (.act c next, s) => (next (exec c v s).1, (exec c v s).2)
  | (.poll c again next, s) =>
      (if again (exec c v s).1 then .poll c again next else next (exec c v s).1,
        (exec c v s).2)
  | (.ret a, s) => (.ret a, s)
  | (.stop, s) => (.stop, s)

def feed (vs : List ν) (c : Config κ ν σ α) : Config κ ν σ α :=
  vs.foldl (fun c v => answer v c) c

/-- What is left of an interrupted program: it goes on only if the handler returned. -/
def resume (g : Prog κ ν α) : Config κ ν σ Unit → Config κ ν σ α
  | (.ret _, s) => (g, s)
  | (_, s) => (.stop, s)

def interrupt (i : ι) (vs : List ν) : Config κ ν σ α → Config κ ν σ α
  | (.stop, s) => (.stop, s)
  | (g, s) => if H.enabled i s then resume g (feed vs (H.handler i, s)) else (g, s)

def step : Choice ν ι → Config κ ν σ α → Config κ ν σ α
  | .answer v, c => answer v c
  | .interrupt i vs, c => interrupt H i vs c

def run (cs : List (Choice ν ι)) (c : Config κ ν σ α) : Config κ ν σ α :=
  cs.foldl (fun c x => step H x c) c

variable {H} {I : σ → Prop}

@[simp] theorem run_nil (c : Config κ ν σ α) : run H [] c = c := rfl

@[simp] theorem run_cons (x : Choice ν ι) (cs : List (Choice ν ι)) (c : Config κ ν σ α) :
    run H (x :: cs) c = run H cs (step H x c) := rfl

theorem feed_eq_run (vs : List ν) (c : Config κ ν σ α) :
    feed vs c = run alone (vs.map .answer) c := by
  induction vs generalizing c with
  | nil => rfl
  | cons v vs ih => exact (ih (answer v c)).trans (by cases c with | mk g s => cases g <;> rfl)

theorem step_stop (x : Choice ν ι) (s : σ) :
    step H x ((.stop, s) : Config κ ν σ α) = (.stop, s) := by
  cases x <;> rfl

theorem run_stop (cs : List (Choice ν ι)) (s : σ) :
    run H cs ((.stop, s) : Config κ ν σ α) = (.stop, s) := by
  induction cs with
  | nil => rfl
  | cons x cs ih => rw [run_cons, step_stop, ih]

/-! ## Triples -/

def Holds (H : Handlers κ ν σ ι) (I : σ → Prop) (Q : α → σ → Prop) (c : Config κ ν σ α) : Prop :=
  ∀ cs, I (run H cs c).2 ∧ ∀ a, (run H cs c).1 = .ret a → Q a (run H cs c).2

def Triple (H : Handlers κ ν σ ι) (I P : σ → Prop) (g : Prog κ ν α) (Q : α → σ → Prop) : Prop :=
  ∀ s, P s → Holds H I Q (g, s)

/-- An assertion that the handlers keep, and that lies within the invariant. -/
structure Stable (H : Handlers κ ν σ ι) (I P : σ → Prop) : Prop where
  safe : ∀ s, P s → I s
  kept : ∀ i, Triple alone I (fun s => P s ∧ H.enabled i s = true) (H.handler i) fun _ => P

theorem Stable.without {P : σ → Prop} (h : ∀ s, P s → I s) :
    Stable (alone : Handlers κ ν σ Empty) I P :=
  ⟨h, fun i => i.elim⟩

theorem Holds.step {Q : α → σ → Prop} {c : Config κ ν σ α} (h : Holds H I Q c)
    (x : Choice ν ι) : Holds H I Q (step H x c) :=
  fun cs => h (x :: cs)

theorem Holds.now {Q : α → σ → Prop} {c : Config κ ν σ α} (h : Holds H I Q c) : I c.2 := (h []).1

theorem Holds.stop {Q : α → σ → Prop} {s : σ} (h : I s) : Holds H I Q (.stop, s) := by
  intro cs
  rw [run_stop]
  exact ⟨h, nofun⟩

/-- An interruption in an assertion comes back to it, or the run has stopped in the
invariant. -/
theorem Stable.interrupt {P : σ → Prop} {g : Prog κ ν α} {s : σ} (h : Stable H I P) (hs : P s)
    (i : ι) (vs : List ν) :
    (∃ s', interrupt H i vs (g, s) = (g, s') ∧ P s') ∨
      ∃ s', interrupt H i vs (g, s) = (.stop, s') ∧ I s' := by
  by_cases hstop : g = .stop
  · rw [hstop]
    exact Or.inl ⟨s, rfl, hs⟩
  have hrun : Guest.interrupt H i vs (g, s) =
      if H.enabled i s then resume g (feed vs (H.handler i, s)) else (g, s) := by
    cases g with
    | stop => exact absurd rfl hstop
    | ret a => rfl
    | act c next => rfl
    | poll c again next => rfl
  rw [hrun]
  by_cases henabled : H.enabled i s = true
  · rw [if_pos henabled]
    have hkept := h.kept i s ⟨hs, henabled⟩ (vs.map .answer)
    rw [← feed_eq_run] at hkept
    obtain ⟨hI, hret⟩ := hkept
    cases hc : feed vs (H.handler i, s) with
    | mk g' s' =>
        rw [hc] at hI hret
        cases g' with
        | ret u => exact Or.inl ⟨s', rfl, hret u rfl⟩
        | stop => exact Or.inr ⟨s', rfl, hI⟩
        | act c next => exact Or.inr ⟨s', rfl, hI⟩
        | poll c again next => exact Or.inr ⟨s', rfl, hI⟩
  · rw [if_neg henabled]
    exact Or.inl ⟨s, rfl, hs⟩

namespace Triple

variable {P P' : σ → Prop} {Q Q' : α → σ → Prop} {g : Prog κ ν α}

theorem conseq (h : Triple H I P g Q) (hP : ∀ s, P' s → P s) (hQ : ∀ a s, Q a s → Q' a s) :
    Triple H I P' g Q' := by
  intro s hs cs
  obtain ⟨hI, hret⟩ := h s (hP s hs) cs
  exact ⟨hI, fun a ha => hQ a _ (hret a ha)⟩

theorem pre (h : Triple H I P g Q) (hP : ∀ s, P' s → P s) : Triple H I P' g Q :=
  h.conseq hP fun _ _ hQ => hQ

theorem post (h : Triple H I P g Q) (hQ : ∀ a s, Q a s → Q' a s) : Triple H I P g Q' :=
  h.conseq (fun _ hs => hs) hQ

theorem of_pre {φ : Prop} (hφ : ∀ s, P s → φ) (h : φ → Triple H I P g Q) : Triple H I P g Q :=
  fun s hs => h (hφ s hs) s hs

theorem weaken {I' : σ → Prop} (h : Triple H I P g Q) (hI : ∀ s, I s → I' s) :
    Triple H I' P g Q := by
  intro s hs cs
  obtain ⟨hnow, hret⟩ := h s hs cs
  exact ⟨hI _ hnow, hret⟩

theorem of_exists {δ : Type} {P : δ → σ → Prop} (h : ∀ x, Triple H I (P x) g Q) :
    Triple H I (fun s => ∃ x, P x s) g Q :=
  fun s ⟨x, hs⟩ => h x s hs

theorem stop (h : ∀ s, P s → I s) : Triple H I P (.stop : Prog κ ν α) Q :=
  fun s hs => Holds.stop (h s hs)

/-- Over every schedule it is enough to look at what the program does next. -/
theorem of_stable (hP : Stable H I P) (hret : ∀ a, g = .ret a → ∀ s, P s → Q a s)
    (hnext : ∀ v s, P s → (∀ a, g ≠ .ret a) → Holds H I Q (answer v (g, s))) :
    Triple H I P g Q := by
  intro s hs cs
  induction cs generalizing s with
  | nil => exact ⟨hP.safe s hs, fun a ha => hret a ha s hs⟩
  | cons x cs ih =>
      rw [run_cons]
      cases x with
      | answer v =>
          cases g with
          | ret a => exact ih s hs
          | stop => exact hnext v s hs nofun cs
          | act c next => exact hnext v s hs nofun cs
          | poll c again next => exact hnext v s hs nofun cs
      | interrupt i vs =>
          rcases hP.interrupt (g := g) hs i vs with ⟨s', hstep, hs'⟩ | ⟨s', hstep, hI⟩
          · rw [step, hstep]
            exact ih s' hs'
          · rw [step, hstep]
            exact Holds.stop hI cs

theorem ret {a : α} (hQ : Stable H I (Q a)) : Triple H I (Q a) (.ret a) Q :=
  of_stable hQ (fun b hb s hs => by cases hb; exact hs) fun _ _ _ hne => absurd rfl (hne a)

theorem act {c : κ} {next : ν → Prog κ ν α} {M : ν → σ → Prop} (hP : Stable H I P)
    (hf : ∀ v s, P s → M (exec c v s).1 (exec c v s).2)
    (hnext : ∀ w, Triple H I (M w) (next w) Q) : Triple H I P (.act c next) Q :=
  of_stable hP nofun fun v s hs _ => hnext _ _ (hf v s hs)

theorem poll {c : κ} {again : ν → Bool} {next : ν → Prog κ ν α} {M : ν → σ → Prop}
    (hP : Stable H I P)
    (hagain : ∀ v s, P s → again (exec c v s).1 = true → P (exec c v s).2)
    (hdone : ∀ v s, P s → again (exec c v s).1 = false → M (exec c v s).1 (exec c v s).2)
    (hnext : ∀ w, Triple H I (M w) (next w) Q) : Triple H I P (.poll c again next) Q := by
  intro s hs cs
  induction cs generalizing s with
  | nil => exact ⟨hP.safe s hs, nofun⟩
  | cons x cs ih =>
      rw [run_cons]
      cases x with
      | answer v =>
          simp only [step, answer]
          cases hw : again (exec c v s).1 with
          | true => exact ih _ (hagain v s hs hw)
          | false => exact hnext _ _ (hdone v s hs hw) cs
      | interrupt i vs =>
          rcases hP.interrupt (g := .poll c again next) hs i vs with
            ⟨s', hstep, hs'⟩ | ⟨s', hstep, hI⟩
          · rw [step, hstep]
            exact ih s' hs'
          · rw [step, hstep]
            exact Holds.stop hI cs

theorem issue {c : κ} {M : σ → Prop} (hP : Stable H I P) (hM : Stable H I M)
    (hf : ∀ v s, P s → M (exec c v s).2) :
    Triple H I P (Prog.issue c : Prog κ ν Unit) fun _ => M :=
  act (M := fun _ => M) hP hf fun _ => ret (Q := fun _ => M) hM

end Triple

theorem Stable.weaken {P I' : σ → Prop} (h : Stable H I P) (hI : ∀ s, I s → I' s) :
    Stable H I' P :=
  ⟨fun s hs => hI s (h.safe s hs), fun i => (h.kept i).weaken hI⟩

/-! ## Sequencing -/

section Sequencing

variable {P : σ → Prop} {M : α → σ → Prop} {Q : β → σ → Prop}

/-- A step of a sequence is a step of its first part. -/
theorem step_bind {g : Prog κ ν α} {k : α → Prog κ ν β} {s : σ} (hg : ∀ a, g ≠ .ret a)
    (x : Choice ν ι) :
    step H x (g.bind k, s) = ((step H x (g, s)).1.bind k, (step H x (g, s)).2) := by
  have hresume : ∀ (g : Prog κ ν α) (c : Config κ ν σ Unit),
      resume (g.bind k) c = ((resume g c).1.bind k, (resume g c).2) := by
    rintro g ⟨g', s'⟩
    cases g' <;> rfl
  cases x with
  | answer v =>
      cases g with
      | ret a => exact absurd rfl (hg a)
      | stop => rfl
      | act c next => rfl
      | poll c again next =>
          simp only [step, Prog.bind, answer]
          split <;> rfl
  | interrupt i vs =>
      cases g with
      | ret a => exact absurd rfl (hg a)
      | stop => rfl
      | act c next =>
          simp only [step, Prog.bind, interrupt]
          split
          · exact hresume (.act c next) _
          · rfl
      | poll c again next =>
          simp only [step, Prog.bind, interrupt]
          split
          · exact hresume (.poll c again next) _
          · rfl

theorem Holds.bind {g : Prog κ ν α} {k : α → Prog κ ν β} {s : σ} (hg : Holds H I M (g, s))
    (hk : ∀ a, Triple H I (M a) (k a) Q) : Holds H I Q (g.bind k, s) := by
  intro cs
  induction cs generalizing g s with
  | nil =>
      cases g with
      | ret a => exact hk a s ((hg []).2 a rfl) []
      | stop => exact ⟨hg.now, nofun⟩
      | act c next => exact ⟨hg.now, nofun⟩
      | poll c again next => exact ⟨hg.now, nofun⟩
  | cons x cs ih =>
      by_cases hret : ∃ a, g = .ret a
      · obtain ⟨a, rfl⟩ := hret
        exact hk a s ((hg []).2 a rfl) (x :: cs)
      · rw [run_cons, step_bind fun a ha => hret ⟨a, ha⟩]
        exact ih (hg.step x)

theorem Triple.bind {g : Prog κ ν α} {k : α → Prog κ ν β} (hg : Triple H I P g M)
    (hk : ∀ a, Triple H I (M a) (k a) Q) : Triple H I P (g >>= k) Q :=
  fun s hs => Holds.bind (hg s hs) hk

theorem Triple.perform_then {P : σ → Prop} {M : ν → σ → Prop} {c : κ} {k : ν → Prog κ ν β}
    (hP : Stable H I P) (hf : ∀ v s, P s → M (exec c v s).1 (exec c v s).2)
    (hk : ∀ v, Triple H I (M v) (k v) Q) : Triple H I P (Prog.perform c >>= k) Q :=
  Triple.act hP hf hk

theorem Triple.issue_then {P M : σ → Prop} {c : κ} {g : Prog κ ν β} (hP : Stable H I P)
    (hf : ∀ v s, P s → M (exec c v s).2) (hg : Triple H I M g Q) :
    Triple H I P (Prog.issue c >>= fun _ => g) Q :=
  Triple.act (M := fun _ => M) hP hf fun _ => hg

theorem Triple.await_then {P : σ → Prop} {M : ν → σ → Prop} {c : κ} {again : ν → Bool}
    {k : ν → Prog κ ν β} (hP : Stable H I P)
    (hagain : ∀ v s, P s → again (exec c v s).1 = true → P (exec c v s).2)
    (hdone : ∀ v s, P s → again (exec c v s).1 = false → M (exec c v s).1 (exec c v s).2)
    (hk : ∀ v, Triple H I (M v) (k v) Q) : Triple H I P (Prog.await c again >>= k) Q :=
  Triple.poll hP hagain hdone hk

theorem Triple.forUpTo {body : Nat → Prog κ ν Unit} {J : Nat → σ → Prop}
    (hJ : Stable H I (J 0)) {n : Nat}
    (hbody : ∀ i < n, Triple H I (J i) (body i) fun _ => J (i + 1)) :
    Triple H I (J 0) (Prog.forUpTo body n) fun _ => J n := by
  induction n with
  | zero => exact Triple.ret (Q := fun _ => J 0) hJ
  | succ n ih =>
      exact Triple.bind (ih fun i hi => hbody i (Nat.lt_succ_of_lt hi)) fun _ =>
        hbody n (Nat.lt_succ_self n)

end Sequencing

/-! ## What no command disturbs -/

section Kept

variable {P : σ → Prop} (h : ∀ (c : κ) v s, P s → P (exec c v s).2)

include h

/-- What every command keeps, every program keeps. -/
theorem Triple.of_kept_alone (hI : ∀ s, P s → I s) (g : Prog κ ν α) :
    Triple alone I P g fun _ => P := by
  have hstable : Stable (alone : Handlers κ ν σ Empty) I P := Stable.without hI
  induction g with
  | ret a => exact Triple.ret (Q := fun _ => P) hstable
  | stop => exact Triple.stop hI
  | act c next ih => exact Triple.act (M := fun _ => P) hstable (fun v s => h c v s) ih
  | poll c again next ih =>
      exact Triple.poll (M := fun _ => P) hstable (fun v s hs _ => h c v s hs)
        (fun v s hs _ => h c v s hs) ih

theorem Stable.of_kept (hI : ∀ s, P s → I s) : Stable H I P :=
  ⟨hI, fun i => (Triple.of_kept_alone h hI (H.handler i)).pre fun _ hs => hs.1⟩

theorem Triple.of_kept (hI : ∀ s, P s → I s) (g : Prog κ ν α) : Triple H I P g fun _ => P := by
  have hstable : Stable H I P := Stable.of_kept h hI
  induction g with
  | ret a => exact Triple.ret (Q := fun _ => P) hstable
  | stop => exact Triple.stop hI
  | act c next ih => exact Triple.act (M := fun _ => P) hstable (fun v s => h c v s) ih
  | poll c again next ih =>
      exact Triple.poll (M := fun _ => P) hstable (fun v s hs _ => h c v s hs)
        (fun v s hs _ => h c v s hs) ih

end Kept

theorem Stable.of_stop {P : σ → Prop} (hstop : ∀ i, H.handler i = .stop)
    (hI : ∀ s, P s → I s) : Stable H I P := by
  refine ⟨hI, fun i s hs => ?_⟩
  rw [hstop i]
  exact Holds.stop (hI s hs.1)

end Minemu.Lib.Guest
