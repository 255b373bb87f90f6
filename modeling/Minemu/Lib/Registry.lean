import Mathlib.Data.Finset.Card
import Mathlib.Data.List.Nodup

/-!
# Bounded registries

A registry is a list of keyed entries, in order of first use and without repeated
keys.  Entering an entry again is allowed if its value is the same; a new key needs
room below a capacity.  Whether a whole list of entries can be entered does not
depend on their order.
-/

namespace Minemu.Lib.Registry

variable {κ φ : Type}

def Consistent (es : List (κ × φ)) : Prop :=
  ∀ e ∈ es, ∀ e' ∈ es, e.1 = e'.1 → e.2 = e'.2

/-- `ps` holds the entries of `es`, each key once, within the capacity. -/
structure Entered (cap : Nat) (es ps : List (κ × φ)) : Prop where
  nodup : (ps.map Prod.fst).Nodup
  mem : ∀ e, e ∈ ps ↔ e ∈ es
  bound : ps.length ≤ cap

theorem eq_of_key_eq {ps : List (κ × φ)} (h : (ps.map Prod.fst).Nodup) {e e' : κ × φ}
    (he : e ∈ ps) (he' : e' ∈ ps) (hkey : e.1 = e'.1) : e = e' :=
  List.inj_on_of_nodup_map h he he' hkey

theorem nodup_append_new {ps : List (κ × φ)} (h : (ps.map Prod.fst).Nodup) {e : κ × φ}
    (hnew : ∀ e' ∈ ps, e'.1 ≠ e.1) : ((ps ++ [e]).map Prod.fst).Nodup := by
  rw [List.map_append, List.nodup_append]
  refine ⟨h, by simp, ?_⟩
  intro k hk k' hk'
  obtain ⟨e', he', rfl⟩ := List.mem_map.mp hk
  simp only [List.map_cons, List.map_nil, List.mem_singleton] at hk'
  rw [hk']
  exact hnew e' he'

theorem Entered.nil (cap : Nat) : Entered cap ([] : List (κ × φ)) [] :=
  ⟨List.nodup_nil, fun _ => Iff.rfl, Nat.zero_le cap⟩

theorem Entered.consistent {cap : Nat} {es ps : List (κ × φ)} (h : Entered cap es ps) :
    Consistent es := by
  intro e he e' he' hkey
  rw [eq_of_key_eq h.nodup ((h.mem e).mpr he) ((h.mem e').mpr he') hkey]

/-! ## Positions -/

variable [DecidableEq κ]

def indexOf (ps : List (κ × φ)) (k : κ) : Option Nat :=
  ps.findIdx? (fun e => decide (e.1 = k))

theorem indexOf_eq_none_iff {ps : List (κ × φ)} {k : κ} :
    indexOf ps k = none ↔ ∀ e ∈ ps, e.1 ≠ k := by
  simp [indexOf, List.findIdx?_eq_none_iff]

theorem indexOf_eq_some_iff {ps : List (κ × φ)} (h : (ps.map Prod.fst).Nodup) {k : κ} {i : Nat} :
    indexOf ps k = some i ↔ (ps[i]?).map Prod.fst = some k := by
  rw [indexOf, List.findIdx?_eq_some_iff_getElem]
  constructor
  · rintro ⟨hi, hkey, -⟩
    rw [List.getElem?_eq_getElem hi]
    simpa using hkey
  · intro hget
    obtain ⟨e, he, hkey⟩ := Option.map_eq_some_iff.mp hget
    obtain ⟨hi, rfl⟩ := List.getElem?_eq_some_iff.mp he
    refine ⟨hi, by simpa using hkey, fun j hj => ?_⟩
    simp only [decide_eq_true_eq, ← hkey]
    intro hsame
    have hlen : (ps.map Prod.fst).length = ps.length := List.length_map ..
    have hinj := h.get_inj_iff (i := ⟨j, by omega⟩) (j := ⟨i, by omega⟩)
    have hji := congrArg Fin.val (hinj.mp (by simpa using hsame))
    exact absurd hji (by simp; omega)

/-- A linear search over the keys kept elsewhere by position finds the key's position. -/
theorem find?_range_eq_indexOf (ps : List (κ × φ)) (k : κ) {key : Nat → κ}
    (h : ∀ i, (hi : i < ps.length) → key i = (ps.get ⟨i, hi⟩).1) :
    (List.range ps.length).find? (fun i => decide (key i = k)) = indexOf ps k := by
  cases hidx : indexOf ps k with
  | none =>
      rw [indexOf_eq_none_iff] at hidx
      rw [List.find?_eq_none]
      intro i hi
      rw [List.mem_range] at hi
      simpa [h i hi] using hidx _ (List.get_mem ps ⟨i, hi⟩)
  | some i =>
      rw [indexOf, List.findIdx?_eq_some_iff_getElem] at hidx
      obtain ⟨hi, hkey, hfirst⟩ := hidx
      rw [List.find?_range_eq_some]
      refine ⟨by simpa [h i hi] using hkey, List.mem_range.mpr hi, fun j hj => ?_⟩
      simpa [h j (by omega)] using hfirst j hj

theorem indexOf_inj {ps : List (κ × φ)} {k k' : κ} {i : Nat} (h : indexOf ps k = some i)
    (h' : indexOf ps k' = some i) : k = k' := by
  rw [indexOf, List.findIdx?_eq_some_iff_getElem] at h h'
  obtain ⟨_, hk, -⟩ := h
  obtain ⟨_, hk', -⟩ := h'
  simp only [decide_eq_true_eq] at hk hk'
  rw [← hk, ← hk']

theorem exists_indexOf_of_mem {ps : List (κ × φ)} (h : (ps.map Prod.fst).Nodup) {e : κ × φ}
    (he : e ∈ ps) : ∃ i, ∃ hi : i < ps.length, indexOf ps e.1 = some i ∧ ps.get ⟨i, hi⟩ = e := by
  obtain ⟨i, hi, hget⟩ := List.getElem_of_mem he
  refine ⟨i, hi, ?_, hget⟩
  rw [indexOf_eq_some_iff h, List.getElem?_eq_getElem hi, hget]
  rfl

theorem indexOf_lt {ps : List (κ × φ)} {k : κ} {i : Nat} (h : indexOf ps k = some i) :
    i < ps.length := by
  rw [indexOf, List.findIdx?_eq_some_iff_getElem] at h
  exact h.1

/-- A key's position survives appending. -/
theorem indexOf_append_of_some {ps : List (κ × φ)} {k : κ} {i : Nat} (h : indexOf ps k = some i)
    (es : List (κ × φ)) : indexOf (ps ++ es) k = some i := by
  rw [indexOf] at h ⊢
  rw [List.findIdx?_append, h]
  rfl

theorem indexOf_append_of_none {ps : List (κ × φ)} {k : κ} (h : indexOf ps k = none) (e : κ × φ) :
    indexOf (ps ++ [e]) k = if e.1 = k then some ps.length else none := by
  rw [indexOf] at h ⊢
  rw [List.findIdx?_append, h]
  by_cases hk : e.1 = k
  · simp [hk]
  · simp [hk]

/-- The registry's length counts the distinct keys entered. -/
theorem Entered.length_eq {cap : Nat} {es ps : List (κ × φ)} (h : Entered cap es ps) :
    ps.length = (es.map Prod.fst).toFinset.card := by
  have hkeys : (es.map Prod.fst).toFinset = (ps.map Prod.fst).toFinset := by
    ext k
    simp only [List.mem_toFinset, List.mem_map, h.mem]
  rw [hkeys, List.toFinset_card_of_nodup h.nodup, List.length_map]

/-! ## Entering -/

variable [DecidableEq φ]

def enter (cap : Nat) (ps : List (κ × φ)) (e : κ × φ) : Option (List (κ × φ)) :=
  match indexOf ps e.1 with
  | some i => if (ps[i]?).map Prod.snd = some e.2 then some ps else none
  | none => if ps.length = cap then none else some (ps ++ [e])

theorem enter_of_mem {cap : Nat} {ps : List (κ × φ)} (h : (ps.map Prod.fst).Nodup) {e : κ × φ}
    (he : e ∈ ps) : enter cap ps e = some ps := by
  obtain ⟨i, hi, hget⟩ := List.getElem_of_mem he
  have hidx : indexOf ps e.1 = some i := by
    rw [indexOf_eq_some_iff h, List.getElem?_eq_getElem hi, hget]
    rfl
  simp [enter, hidx, hi, hget]

theorem enter_of_conflict {cap : Nat} {ps : List (κ × φ)} (h : (ps.map Prod.fst).Nodup)
    {e e' : κ × φ} (he' : e' ∈ ps) (hkey : e'.1 = e.1) (hne : e'.2 ≠ e.2) :
    enter cap ps e = none := by
  obtain ⟨i, hi, hget⟩ := List.getElem_of_mem he'
  have hidx : indexOf ps e.1 = some i := by
    rw [indexOf_eq_some_iff h, List.getElem?_eq_getElem hi, hget, ← hkey]
    rfl
  simp [enter, hidx, hi, hget, hne]

theorem enter_of_new {cap : Nat} {ps : List (κ × φ)} {e : κ × φ} (hnew : ∀ e' ∈ ps, e'.1 ≠ e.1) :
    enter cap ps e = if ps.length = cap then none else some (ps ++ [e]) := by
  rw [enter, indexOf_eq_none_iff.mpr hnew]

theorem Entered.step {cap : Nat} {es ps ps' : List (κ × φ)} {e : κ × φ} (h : Entered cap es ps)
    (hstep : enter cap ps e = some ps') : Entered cap (es ++ [e]) ps' := by
  by_cases hnew : ∀ e' ∈ ps, e'.1 ≠ e.1
  · rw [enter_of_new hnew] at hstep
    split at hstep
    · cases hstep
    · rename_i hroom
      obtain rfl := Option.some.inj hstep
      refine ⟨nodup_append_new h.nodup hnew, fun x => ?_, ?_⟩
      · rw [List.mem_append, List.mem_append, h.mem]
      · have hle := h.bound
        simp only [List.length_append, List.length_cons, List.length_nil]
        omega
  · push Not at hnew
    obtain ⟨e', he', hkey⟩ := hnew
    by_cases hval : e'.2 = e.2
    · obtain rfl : e' = e := Prod.ext hkey hval
      rw [enter_of_mem h.nodup he'] at hstep
      obtain rfl := Option.some.inj hstep
      refine ⟨h.nodup, fun x => ?_, h.bound⟩
      rw [List.mem_append, List.mem_singleton, h.mem]
      constructor
      · exact Or.inl
      · rintro (hx | rfl)
        · exact hx
        · exact (h.mem x).mp he'
    · rw [enter_of_conflict h.nodup he' hkey hval] at hstep
      cases hstep

theorem Entered.enterAll {cap : Nat} {es es' ps ps' : List (κ × φ)} (h : Entered cap es ps)
    (hrun : es'.foldlM (enter cap) ps = some ps') : Entered cap (es ++ es') ps' := by
  induction es' generalizing es ps with
  | nil =>
      obtain rfl := Option.some.inj hrun
      rwa [List.append_nil]
  | cons e es' ih =>
      rw [List.foldlM_cons] at hrun
      obtain ⟨ps1, hstep, hrest⟩ := Option.bind_eq_some_iff.mp hrun
      have hnext := ih (h.step hstep) hrest
      rwa [List.append_assoc, List.singleton_append] at hnext

/-- A list of entries can be entered exactly when it is consistent and has few
enough keys, in whatever order they come. -/
theorem enterAll_isSome_iff (cap : Nat) (es : List (κ × φ)) :
    (es.foldlM (enter cap) []).isSome ↔
      Consistent es ∧ (es.map Prod.fst).toFinset.card ≤ cap := by
  constructor
  · intro hrun
    obtain ⟨ps, hps⟩ := Option.isSome_iff_exists.mp hrun
    have h := (Entered.nil cap).enterAll hps
    rw [List.nil_append] at h
    exact ⟨h.consistent, h.length_eq ▸ h.bound⟩
  · rintro ⟨hcons, hcard⟩
    -- the entries before the last are entered already
    induction es using List.reverseRecOn with
    | nil => rfl
    | append_singleton es e ih =>
        have hsub : (es.map Prod.fst).toFinset ⊆ ((es ++ [e]).map Prod.fst).toFinset := by
          intro k
          simp only [List.mem_toFinset, List.map_append, List.mem_append]
          exact Or.inl
        have hsome := ih
          (fun x hx x' hx' => hcons x (List.mem_append_left _ hx) x' (List.mem_append_left _ hx'))
          ((Finset.card_le_card hsub).trans hcard)
        obtain ⟨ps, hps⟩ := Option.isSome_iff_exists.mp hsome
        have h := (Entered.nil cap).enterAll hps
        rw [List.nil_append] at h
        rw [List.foldlM_append, hps, Option.isSome_iff_exists]
        suffices hlast : ∃ ps', enter cap ps e = some ps' by
          obtain ⟨ps', hps'⟩ := hlast
          exact ⟨ps', by simp [hps']⟩
        by_cases hnew : ∀ e' ∈ ps, e'.1 ≠ e.1
        · rw [enter_of_new hnew]
          by_cases hfull : ps.length = cap
          · have hout : e.1 ∉ (es.map Prod.fst).toFinset := by
              rw [List.mem_toFinset, List.mem_map]
              rintro ⟨e', he', hkey⟩
              exact hnew e' ((h.mem e').mpr he') hkey
            have hins : ((es ++ [e]).map Prod.fst).toFinset =
                insert e.1 (es.map Prod.fst).toFinset := by
              ext k
              simp
            rw [hins, Finset.card_insert_of_notMem hout, ← h.length_eq] at hcard
            omega
          · exact ⟨_, if_neg hfull⟩
        · push Not at hnew
          obtain ⟨e', he', hkey⟩ := hnew
          have hval : e'.2 = e.2 := hcons e' (List.mem_append_left _ ((h.mem e').mp he'))
            e (by simp) hkey
          obtain rfl : e' = e := Prod.ext hkey hval
          exact ⟨ps, enter_of_mem h.nodup he'⟩

end Minemu.Lib.Registry
