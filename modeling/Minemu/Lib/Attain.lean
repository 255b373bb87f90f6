import Minemu.Lib.Guest

/-!
# What a program can come to

The dual of a triple: some schedule brings the program to its end, with the
postcondition.  Where a triple says what passes, this says that something does.
-/

namespace Minemu.Lib.Guest

variable {κ ν σ ι α β : Type}

/-- An end: a value with `Q`, or a stop with `T`. -/
def Ended (Q : α → σ → Prop) (T : σ → Prop) : Config κ ν σ α → Prop
  | (.ret a, s) => Q a s
  | (.stop, s) => T s
  | _ => False

theorem Ended.stopped {T : σ → Prop} {c : Config κ ν σ α} (h : Ended (fun _ _ => False) T c) :
    c.1 = .stop ∧ T c.2 := by
  obtain ⟨g, s⟩ := c
  cases g with
  | ret a => exact h.elim
  | stop => exact ⟨rfl, h⟩
  | act c next => exact h.elim
  | poll c again next => exact h.elim

def Prog.Running : Prog κ ν α → Prop
  | .act _ _ => True
  | .poll _ _ _ => True
  | _ => False

variable [Commands κ ν σ]

/-- A schedule that leads to an end, and not beyond. -/
inductive Reaches (H : Handlers κ ν σ ι) (Q : α → σ → Prop) (T : σ → Prop) :
    Config κ ν σ α → Prop where
  | here {c : Config κ ν σ α} (h : Ended Q T c) : Reaches H Q T c
  | there {c : Config κ ν σ α} (x : Choice ν ι) (hrunning : c.1.Running)
      (h : Reaches H Q T (step H x c)) : Reaches H Q T c

def Attains (H : Handlers κ ν σ ι) (P : σ → Prop) (g : Prog κ ν α) (Q : α → σ → Prop)
    (T : σ → Prop) : Prop :=
  ∀ s, P s → Reaches H Q T (g, s)

variable {H : Handlers κ ν σ ι} {Q : α → σ → Prop} {T : σ → Prop}

theorem Reaches.run {c : Config κ ν σ α} (h : Reaches H Q T c) : ∃ cs, Ended Q T (run H cs c) := by
  induction h with
  | here h => exact ⟨[], h⟩
  | there x _ _ ih =>
      obtain ⟨cs, hcs⟩ := ih
      exact ⟨x :: cs, hcs⟩

theorem Reaches.feed {c : Config κ ν σ α}
    (h : Reaches (alone : Handlers κ ν σ Empty) Q (fun _ => False) c) :
    ∃ vs a, (feed vs c).1 = .ret a ∧ Q a (feed vs c).2 := by
  induction h with
  | @here c h =>
      obtain ⟨g, s⟩ := c
      cases g with
      | ret a => exact ⟨[], a, rfl, h⟩
      | stop => exact h.elim
      | act c next => exact h.elim
      | poll c again next => exact h.elim
  | there x _ _ ih =>
      obtain ⟨vs, hvs⟩ := ih
      cases x with
      | answer v => exact ⟨v :: vs, hvs⟩
      | interrupt i => exact i.elim

namespace Attains

variable {P P' : σ → Prop} {Q' : α → σ → Prop} {g : Prog κ ν α}

theorem pre (h : Attains H P g Q T) (hP : ∀ s, P' s → P s) : Attains H P' g Q T :=
  fun s hs => h s (hP s hs)

theorem ret {a : α} (h : ∀ s, P s → Q a s) : Attains H P (.ret a) Q T :=
  fun s hs => .here (h s hs)

theorem stop (h : ∀ s, P s → T s) : Attains H P (.stop : Prog κ ν α) Q T :=
  fun s hs => .here (h s hs)

theorem act {c : κ} {next : ν → Prog κ ν α} {M : ν → σ → Prop}
    (hf : ∀ s, P s → ∃ v, M (exec c v s).1 (exec c v s).2)
    (hnext : ∀ w, Attains H (M w) (next w) Q T) : Attains H P (.act c next) Q T := by
  intro s hs
  obtain ⟨v, hv⟩ := hf s hs
  exact .there (.answer v) trivial (hnext _ _ hv)

theorem poll {c : κ} {again : ν → Bool} {next : ν → Prog κ ν α} {M : ν → σ → Prop}
    (hf : ∀ s, P s → ∃ v, again (exec c v s).1 = false ∧ M (exec c v s).1 (exec c v s).2)
    (hnext : ∀ w, Attains H (M w) (next w) Q T) : Attains H P (.poll c again next) Q T := by
  intro s hs
  obtain ⟨v, hdone, hv⟩ := hf s hs
  refine .there (.answer v) trivial ?_
  simp only [step, answer, hdone, Bool.false_eq_true, if_false]
  exact hnext _ _ hv

theorem step_interrupt (hrunning : g.Running) {i : ι} {vs : List ν} {s : σ}
    (henabled : H.enabled i s = true) :
    step H (.interrupt i vs) (g, s) = resume g (Guest.feed vs (H.handler i, s)) := by
  cases g with
  | ret a => exact hrunning.elim
  | stop => exact hrunning.elim
  | act c next => exact if_pos henabled
  | poll c again next => exact if_pos henabled

theorem interrupt {M : σ → Prop} (hrunning : g.Running) (i : ι)
    (henabled : ∀ s, P s → H.enabled i s = true)
    (hi : Attains alone P (H.handler i) (fun _ => M) fun _ => False)
    (hg : Attains H M g Q T) : Attains H P g Q T := by
  intro s hs
  obtain ⟨vs, u, hret, hM⟩ := (hi s hs).feed
  refine .there (.interrupt i vs) hrunning ?_
  rw [step_interrupt hrunning (henabled s hs)]
  generalize Guest.feed vs (H.handler i, s) = c at hret hM ⊢
  obtain ⟨g', s'⟩ := c
  obtain rfl : g' = .ret u := hret
  exact hg s' hM

end Attains

/-! ## Sequencing -/

section Sequencing

variable {P : σ → Prop} {M : α → σ → Prop} {Q : β → σ → Prop} {k : α → Prog κ ν β}

theorem Reaches.bind {c : Config κ ν σ α} (hc : Reaches H M T c)
    (hk : ∀ a, Attains H (M a) (k a) Q T) : Reaches H Q T (c.1.bind k, c.2) := by
  induction hc with
  | @here c h =>
      obtain ⟨g, s⟩ := c
      cases g with
      | ret a => exact hk a s h
      | stop => exact .here h
      | act c next => exact h.elim
      | poll c again next => exact h.elim
  | @there c x hrunning _ ih =>
      obtain ⟨g, s⟩ := c
      have hne : ∀ a, g ≠ .ret a := by
        rintro a rfl
        exact hrunning
      refine .there x ?_ ?_
      · cases g with
        | ret a => exact hrunning.elim
        | stop => exact hrunning.elim
        | act c next => trivial
        | poll c again next => trivial
      · rw [step_bind hne]
        exact ih

theorem Attains.bind {g : Prog κ ν α} (hg : Attains H P g M T)
    (hk : ∀ a, Attains H (M a) (k a) Q T) : Attains H P (g >>= k) Q T :=
  fun s hs => (hg s hs).bind hk

theorem Attains.perform_then {M : σ → Prop} {c : κ} {k : ν → Prog κ ν β} (w : ν)
    (hf : ∀ s, P s → ∃ v, (exec c v s).1 = w ∧ M (exec c v s).2)
    (hk : Attains H M (k w) Q T) : Attains H P (Prog.perform c >>= k) Q T :=
  Attains.act (M := fun u s => u = w ∧ M s) hf fun _ s hs => hs.1 ▸ hk s hs.2

theorem Attains.issue_then {M : σ → Prop} {c : κ} {g : Prog κ ν β}
    (hf : ∀ s, P s → ∃ v, M (exec c v s).2) (hg : Attains H M g Q T) :
    Attains H P (Prog.issue c >>= fun _ => g) Q T :=
  Attains.act (M := fun _ => M) hf fun _ => hg

theorem Attains.await_then {M : σ → Prop} {c : κ} {again : ν → Bool} {k : ν → Prog κ ν β} (w : ν)
    (hw : again w = false) (hf : ∀ s, P s → ∃ v, (exec c v s).1 = w ∧ M (exec c v s).2)
    (hk : Attains H M (k w) Q T) : Attains H P (Prog.await c again >>= k) Q T := by
  refine Attains.poll (M := fun u s => u = w ∧ M s) (fun s hs => ?_) fun _ s hs => hs.1 ▸ hk s hs.2
  obtain ⟨v, hv, hM⟩ := hf s hs
  exact ⟨v, hv ▸ hw, hv, hM⟩

theorem Attains.forUpTo {body : Nat → Prog κ ν Unit} {J : Nat → σ → Prop} {n : Nat}
    (hbody : ∀ i < n, Attains H (J i) (body i) (fun _ => J (i + 1)) T) :
    Attains H (J 0) (Prog.forUpTo body n) (fun _ => J n) T := by
  induction n with
  | zero => exact Attains.ret fun _ hs => hs
  | succ n ih =>
      exact Attains.bind (ih fun i hi => hbody i (Nat.lt_succ_of_lt hi)) fun _ =>
        hbody n (Nat.lt_succ_self n)

end Sequencing

end Minemu.Lib.Guest
