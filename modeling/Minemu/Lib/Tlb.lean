import Mathlib.Logic.Function.Basic

/-!
# Remembered translations

A translation is looked up among those remembered, and walked only when it is not
there.  What is remembered may be forgotten before any lookup, and a walk need not be
remembered, but what a walk no longer finds is not forgotten by itself.  So a bound on
remembered translations holds from a flush on, as long as it bounds every walk.
-/

namespace Minemu.Lib.Tlb

abbrev Remembered (V P : Type) : Type := V → Option P

/-- The hardware's choice at a lookup. -/
structure Policy (V : Type) where
  /-- What is not forgotten before it. -/
  keep : V → Bool
  /-- A walk is remembered. -/
  fill : Bool

variable {V P : Type}

def evict (keep : V → Bool) (tlb : Remembered V P) : Remembered V P :=
  fun v => if keep v then tlb v else none

def flush : Remembered V P := fun _ => none

def Bounded (R : V → P → Prop) (tlb : Remembered V P) : Prop := ∀ v p, tlb v = some p → R v p

section Bounded

variable {R R' : V → P → Prop} {tlb : Remembered V P}

theorem Bounded.mono (h : Bounded R tlb) (hR : ∀ v p, R v p → R' v p) : Bounded R' tlb :=
  fun v p hp => hR v p (h v p hp)

theorem bounded_flush : Bounded R (flush : Remembered V P) := nofun

theorem Bounded.evict (h : Bounded R tlb) (keep : V → Bool) : Bounded R (evict keep tlb) := by
  intro v p hp
  rw [Tlb.evict] at hp
  split at hp
  · exact h v p hp
  · cases hp

end Bounded

variable [DecidableEq V]

/-- The translation of `v`, and what is remembered after it. -/
def lookup (policy : Policy V) (walk : V → Option P) (tlb : Remembered V P) (v : V) :
    Option P × Remembered V P :=
  let kept := evict policy.keep tlb
  match kept v with
  | some p => (some p, kept)
  | none => (walk v, if policy.fill then Function.update kept v (walk v) else kept)

section Lookup

variable {R : V → P → Prop} {policy : Policy V} {walk : V → Option P} {tlb : Remembered V P} {v : V}

theorem Bounded.found (h : Bounded R tlb) (hwalk : ∀ p, walk v = some p → R v p) {p : P}
    (hp : (lookup policy walk tlb v).1 = some p) : R v p := by
  rw [lookup] at hp
  cases hv : Tlb.evict policy.keep tlb v with
  | some q =>
      rw [hv] at hp
      exact h.evict policy.keep v p (hv.trans hp)
  | none =>
      rw [hv] at hp
      exact hwalk p hp

theorem Bounded.lookup (h : Bounded R tlb) (hwalk : ∀ p, walk v = some p → R v p) :
    Bounded R (lookup policy walk tlb v).2 := by
  have hkept := h.evict policy.keep
  rw [Tlb.lookup]
  cases hv : Tlb.evict policy.keep tlb v with
  | some p => exact hkept
  | none =>
      dsimp only
      split
      · intro u q hq
        by_cases hu : u = v
        · subst hu
          rw [Function.update_self] at hq
          exact hwalk q hq
        · rw [Function.update_of_ne hu] at hq
          exact hkept u q hq
      · exact hkept

theorem lookup_isSome (hwalk : (walk v).isSome) : (lookup policy walk tlb v).1.isSome := by
  rw [lookup]
  cases evict policy.keep tlb v with
  | some p => rfl
  | none => exact hwalk

/-- Where the bound leaves one translation, the lookup finds it. -/
theorem Bounded.lookup_eq {p : P} (h : Bounded R tlb) (hwalk : walk v = some p)
    (hR : R v p) (hunique : ∀ q, R v q → q = p) : (Tlb.lookup policy walk tlb v).1 = some p := by
  have hone : ∀ q, walk v = some q → R v q := by
    intro q hq
    rwa [← Option.some.inj (hwalk.symm.trans hq)]
  obtain ⟨q, hq⟩ := Option.isSome_iff_exists.mp
    (lookup_isSome (Option.isSome_of_mem hwalk))
  rw [hq, hunique q (h.found hone hq)]

theorem lookup_fst :
    (lookup policy walk tlb v).1 = (evict policy.keep tlb v).or (walk v) := by
  rw [lookup]
  cases evict policy.keep tlb v with
  | some p => rfl
  | none => rfl

theorem lookup_snd_self :
    (lookup policy walk tlb v).2 v =
      (evict policy.keep tlb v).or (if policy.fill then walk v else none) := by
  rw [lookup]
  cases hv : evict policy.keep tlb v with
  | some p => exact hv
  | none =>
      dsimp only
      split
      · rw [Function.update_self]
        rfl
      · exact hv

end Lookup

end Minemu.Lib.Tlb
