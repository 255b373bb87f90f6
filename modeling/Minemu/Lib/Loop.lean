import Mathlib.Data.Nat.Notation

/-!
# Post-tested loops

`doWhile` is the shape of a backward conditional branch: the body runs, then the
branch decides.  `fuel` bounds the number of passes; `counted` shows that a loop
with a known pass count ends within it and keeps an invariant indexed by the
passes done.
-/

namespace Minemu.Lib.Loop

/-- Repeat `body` until `again` fails, or `none` after `fuel` passes. -/
def doWhile {σ : Type} (body : σ → Option σ) (again : σ → Bool) : Nat → σ → Option σ
  | 0, _ => none
  | fuel + 1, s => do
    let s' ← body s
    if again s' then doWhile body again fuel s' else some s'

theorem doWhile_counted {σ : Type} {body : σ → Option σ} {again : σ → Bool}
    (I : Nat → σ → Prop) {n : Nat} (hpos : 0 < n)
    (step : ∀ i < n, ∀ s, I i s →
      ∃ s', body s = some s' ∧ I (i + 1) s' ∧ again s' = decide (i + 1 < n))
    {fuel : Nat} (hfuel : n ≤ fuel) {s : σ} (start : I 0 s) :
    ∃ s', doWhile body again fuel s = some s' ∧ I n s' := by
  -- `i` passes are done and `k` remain
  suffices h : ∀ k i s, i + (k + 1) = n → I i s → ∀ fuel, k + 1 ≤ fuel →
      ∃ s', doWhile body again fuel s = some s' ∧ I n s' from
    h (n - 1) 0 s (by omega) start fuel (by omega)
  intro k
  induction k with
  | zero =>
      intro i s hi hs fuel hfuel
      obtain ⟨s', hbody, hs', hagain⟩ := step i (by omega) s hs
      obtain ⟨fuel, rfl⟩ : ∃ f, fuel = f + 1 := ⟨fuel - 1, by omega⟩
      have hstop : again s' = false := by
        rw [hagain, decide_eq_false (by omega)]
      refine ⟨s', ?_, by rwa [← hi]⟩
      simp [doWhile, hbody, hstop]
  | succ k ih =>
      intro i s hi hs fuel hfuel
      obtain ⟨s', hbody, hs', hagain⟩ := step i (by omega) s hs
      obtain ⟨fuel, rfl⟩ : ∃ f, fuel = f + 1 := ⟨fuel - 1, by omega⟩
      have hgo : again s' = true := by
        rw [hagain, decide_eq_true (by omega)]
      obtain ⟨t, ht, hIt⟩ := ih (i + 1) s' (by omega) hs' fuel (by omega)
      exact ⟨t, by simp [doWhile, hbody, hgo, ht], hIt⟩

end Minemu.Lib.Loop
