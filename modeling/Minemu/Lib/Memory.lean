import Mathlib.Algebra.Group.Nat.Defs
import Mathlib.Data.Set.Basic
import Mathlib.Logic.Function.Basic

/-!
# Byte-addressed 32-bit memory

A memory is a total function from 32-bit addresses to bytes.  Words are
little-endian, addresses wrap, and a region is the set of addresses at a bounded
distance above its base, so no statement needs a no-overflow side condition.
-/

namespace Minemu.Lib.Memory

abbrev Byte := BitVec 8

abbrev Word := BitVec 32

abbrev Mem := Word → Byte

/-! ## Regions and frames -/

/-- The `n` addresses from `base` upwards. -/
def region (base : Word) (n : Nat) : Set Word := {a | (a - base).toNat < n}

@[simp] theorem mem_region {base a : Word} {n : Nat} :
    a ∈ region base n ↔ (a - base).toNat < n := Iff.rfl

instance (base : Word) (n : Nat) (a : Word) : Decidable (a ∈ region base n) :=
  inferInstanceAs (Decidable ((a - base).toNat < n))

theorem add_ofNat_mem_region (base : Word) {i n : Nat} (hi : i < n) :
    base + BitVec.ofNat 32 i ∈ region base n := by
  rw [mem_region, show base + BitVec.ofNat 32 i - base = BitVec.ofNat 32 i by bv_omega]
  rw [BitVec.toNat_ofNat]
  exact Nat.lt_of_le_of_lt (Nat.mod_le _ _) hi

theorem mem_region_of_le {base a : Word} {n : Nat} (h : base.toNat + n ≤ 2 ^ 32) :
    a ∈ region base n ↔ base.toNat ≤ a.toNat ∧ a.toNat < base.toNat + n := by
  rw [mem_region]
  by_cases hle : base.toNat ≤ a.toNat
  · bv_omega
  · bv_omega

theorem region_add_subset (base k : Word) {i n : Nat} (h : k.toNat + i ≤ n) :
    region (base + k) i ⊆ region base n := by
  intro a ha
  rw [mem_region] at ha ⊢
  bv_omega

/-- `m'` differs from `m` inside `S` only. -/
def ChangedOnly (S : Set Word) (m m' : Mem) : Prop := ∀ a, a ∉ S → m' a = m a

namespace ChangedOnly

theorem refl (S : Set Word) (m : Mem) : ChangedOnly S m m := fun _ _ => rfl

theorem mono {S T : Set Word} {m m' : Mem} (h : ChangedOnly S m m') (hst : S ⊆ T) :
    ChangedOnly T m m' := fun a ha => h a (fun hs => ha (hst hs))

theorem trans {S : Set Word} {m m' m'' : Mem} (h : ChangedOnly S m m')
    (h' : ChangedOnly S m' m'') : ChangedOnly S m m'' :=
  fun a ha => (h' a ha).trans (h a ha)

end ChangedOnly

/-! ## Bytes -/

def storeByte (m : Mem) (a : Word) (b : Byte) : Mem := Function.update m a b

theorem storeByte_apply (m : Mem) (a x : Word) (b : Byte) :
    storeByte m a b x = if x = a then b else m x := by
  simp [storeByte, Function.update_apply]

/-- `f 0, …, f (n - 1)` written upwards from `base`. -/
def fillBytes (m : Mem) (base : Word) (f : Nat → Byte) : Nat → Mem
  | 0 => m
  | n + 1 => storeByte (fillBytes m base f n) (base + BitVec.ofNat 32 n) (f n)

theorem fillBytes_apply (m : Mem) (base a : Word) (f : Nat → Byte) (n : Nat)
    (hn : n ≤ 2 ^ 32) :
    fillBytes m base f n a =
      if a ∈ region base n then f (a - base).toNat else m a := by
  induction n with
  | zero => simp [fillBytes]
  | succ n ih =>
      rw [fillBytes, storeByte_apply, ih (by omega)]
      by_cases ha : a = base + BitVec.ofNat 32 n
      · have hoff : (a - base).toNat = n := by
          subst ha
          rw [show base + BitVec.ofNat 32 n - base = BitVec.ofNat 32 n by bv_omega]
          simpa using (by omega : n < 2 ^ 32)
        rw [if_pos ha, if_pos (by rw [mem_region]; omega), hoff]
      · have hoff : (a - base).toNat ≠ n := by
          intro h
          apply ha
          rw [← h]
          bv_omega
        rw [if_neg ha]
        by_cases hin : a ∈ region base n
        · have hlt := mem_region.mp hin
          rw [if_pos hin, if_pos (mem_region.mpr (by omega))]
        · have hge := mt mem_region.mpr hin
          rw [if_neg hin, if_neg (mt mem_region.mp (by omega))]

theorem fillBytes_changedOnly (m : Mem) (base : Word) (f : Nat → Byte) (n : Nat)
    (hn : n ≤ 2 ^ 32) : ChangedOnly (region base n) m (fillBytes m base f n) := by
  intro a ha
  rw [fillBytes_apply m base a f n hn, if_neg ha]

theorem fillBytes_congr (m : Mem) (base : Word) {f g : Nat → Byte} {n : Nat}
    (h : ∀ i < n, f i = g i) : fillBytes m base f n = fillBytes m base g n := by
  induction n with
  | zero => rfl
  | succ n ih =>
      rw [fillBytes, fillBytes, ih (fun i hi => h i (by omega)), h n (by omega)]

/-- A byte-wise copy upwards, reading the memory it writes. -/
def copyUp (m : Mem) (dst src : Word) : Nat → Mem
  | 0 => m
  | n + 1 =>
    storeByte (copyUp m dst src n) (dst + BitVec.ofNat 32 n)
      (copyUp m dst src n (src + BitVec.ofNat 32 n))

/-- A copy upwards that reads every byte before it reaches it. -/
theorem copyUp_eq_fillBytes_of_ahead (m : Mem) (dst src : Word) {n : Nat} (hn : n ≤ 2 ^ 32)
    (hahead : ∀ i < n, src + BitVec.ofNat 32 i ∉ region dst i) :
    copyUp m dst src n = fillBytes m dst (fun i => m (src + BitVec.ofNat 32 i)) n := by
  induction n with
  | zero => rfl
  | succ n ih =>
      rw [copyUp, fillBytes, ih (by omega) (fun i hi => hahead i (by omega)),
        fillBytes_apply _ _ (src + BitVec.ofNat 32 n) _ _ (by omega),
        if_neg (hahead n (by omega))]

/-- A copy whose source lies off its destination reads the original bytes. -/
theorem copyUp_eq_fillBytes (m : Mem) (dst src : Word) {n : Nat} (hn : n ≤ 2 ^ 32)
    (hoff : ∀ i < n, src + BitVec.ofNat 32 i ∉ region dst n) :
    copyUp m dst src n = fillBytes m dst (fun i => m (src + BitVec.ofNat 32 i)) n := by
  apply copyUp_eq_fillBytes_of_ahead m dst src hn
  intro i hi hmem
  rw [mem_region] at hmem
  exact hoff i hi (mem_region.mpr (by omega))

def copyDown (m : Mem) (dst src : Word) : Nat → Mem
  | 0 => m
  | n + 1 =>
    copyDown (storeByte m (dst + BitVec.ofNat 32 n) (m (src + BitVec.ofNat 32 n))) dst src n

theorem fillBytes_storeByte (m : Mem) (base : Word) (f : Nat → Byte) (b : Byte) {n : Nat}
    (hn : n < 2 ^ 32) :
    fillBytes (storeByte m (base + BitVec.ofNat 32 n) b) base f n =
      storeByte (fillBytes m base f n) (base + BitVec.ofNat 32 n) b := by
  funext a
  rw [fillBytes_apply _ _ _ _ _ (by omega), storeByte_apply, storeByte_apply,
    fillBytes_apply _ _ _ _ _ (by omega)]
  by_cases ha : a = base + BitVec.ofNat 32 n
  · have hout : a ∉ region base n := by
      rw [mem_region]
      bv_omega
    rw [if_neg hout, if_pos ha, if_pos ha]
  · rw [if_neg ha, if_neg ha]

/-- A copy downwards that reads every byte before it reaches it. -/
theorem copyDown_eq_fillBytes_of_ahead (m : Mem) (dst src : Word) {n : Nat} (hn : n ≤ 2 ^ 32)
    (hahead : ∀ i < n, ∀ j < i, src + BitVec.ofNat 32 j ≠ dst + BitVec.ofNat 32 i) :
    copyDown m dst src n = fillBytes m dst (fun i => m (src + BitVec.ofNat 32 i)) n := by
  induction n generalizing m with
  | zero => rfl
  | succ n ih =>
      have hkept : ∀ j < n, storeByte m (dst + BitVec.ofNat 32 n) (m (src + BitVec.ofNat 32 n))
          (src + BitVec.ofNat 32 j) = m (src + BitVec.ofNat 32 j) := by
        intro j hj
        rw [storeByte_apply, if_neg (hahead n (by omega) j hj)]
      rw [copyDown, ih _ (by omega) (fun i hi => hahead i (by omega)),
        fillBytes_congr _ _ hkept, fillBytes_storeByte _ _ _ _ (by omega), fillBytes]

/-! ## Little-endian words -/

def byteOf (w : Word) (k : Nat) : Byte := w.extractLsb' (8 * k) 8

def ofBytes (b0 b1 b2 b3 : Byte) : Word := b3 ++ b2 ++ b1 ++ b0

theorem ofBytes_byteOf (w : Word) :
    ofBytes (byteOf w 0) (byteOf w 1) (byteOf w 2) (byteOf w 3) = w := by
  apply BitVec.eq_of_getLsbD_eq
  intro i hi
  simp only [ofBytes, byteOf, BitVec.getLsbD_append, BitVec.getLsbD_extractLsb']
  split
  · simp [*]
  split
  · have : 8 + (i - 8) = i := by omega
    simp [*]
  split
  · have : 16 + (i - 8 - 8) = i := by omega
    simp [*]
  · have : 24 + (i - 8 - 8 - 8) = i := by omega
    have : i - 8 - 8 - 8 < 8 := by omega
    simp [*]

def loadWord (m : Mem) (a : Word) : Word :=
  ofBytes (m a) (m (a + 1)) (m (a + 2)) (m (a + 3))

def storeWord (m : Mem) (a w : Word) : Mem :=
  fillBytes m a (byteOf w) 4

def tryLoadWord (read : Word → Option Byte) (a : Word) : Option Word := do
  let b0 ← read a
  let b1 ← read (a + 1)
  let b2 ← read (a + 2)
  let b3 ← read (a + 3)
  some (ofBytes b0 b1 b2 b3)

def tryLoadHalf (read : Word → Option Byte) (a : Word) : Option (BitVec 16) := do
  let b0 ← read a
  let b1 ← read (a + 1)
  some (b1 ++ b0)

theorem tryLoadWord_eq_some {read : Word → Option Byte} {m : Mem} {a a' : Word}
    (h : ∀ i < 4, read (a + BitVec.ofNat 32 i) = some (m (a' + BitVec.ofNat 32 i))) :
    tryLoadWord read a = some (loadWord m a') := by
  have h0 := h 0 (by omega)
  have h1 := h 1 (by omega)
  have h2 := h 2 (by omega)
  have h3 := h 3 (by omega)
  simp only [BitVec.add_zero] at h0 h1 h2 h3
  simp only [tryLoadWord, loadWord, BitVec.ofNat_eq_ofNat, h0, h1, h2, h3, Option.bind_eq_bind,
    Option.bind_some]

theorem tryLoadWord_isSome {read : Word → Option Byte} {a : Word}
    (h : ∀ i < 4, (read (a + BitVec.ofNat 32 i)).isSome) : (tryLoadWord read a).isSome := by
  have hword : tryLoadWord read a = some (loadWord (fun v => (read v).getD 0) a) := by
    apply tryLoadWord_eq_some
    intro i hi
    obtain ⟨b, hb⟩ := Option.isSome_iff_exists.mp (h i hi)
    rw [hb, Option.getD_some]
  rw [hword]
  rfl

theorem tryLoadWord_congr {read read' : Word → Option Byte} {a : Word}
    (h : ∀ i < 4, read' (a + BitVec.ofNat 32 i) = read (a + BitVec.ofNat 32 i)) :
    tryLoadWord read' a = tryLoadWord read a := by
  have h0 := h 0 (by omega)
  have h1 := h 1 (by omega)
  have h2 := h 2 (by omega)
  have h3 := h 3 (by omega)
  simp only [BitVec.add_zero] at h0 h1 h2 h3
  simp only [tryLoadWord, BitVec.ofNat_eq_ofNat, h0, h1, h2, h3]

theorem tryLoadWord_mono {read read' : Word → Option Byte} (h : ∀ v b, read v = some b →
    read' v = some b) {a w : Word} (ha : tryLoadWord read a = some w) :
    tryLoadWord read' a = some w := by
  simp only [tryLoadWord, Option.bind_eq_bind, Option.bind_eq_some_iff] at ha ⊢
  obtain ⟨b0, h0, b1, h1, b2, h2, b3, h3, hw⟩ := ha
  exact ⟨b0, h _ _ h0, b1, h _ _ h1, b2, h _ _ h2, b3, h _ _ h3, hw⟩

theorem tryLoadHalf_eq_some {read : Word → Option Byte} {m : Mem} {a a' : Word}
    (h : ∀ i < 4, read (a + BitVec.ofNat 32 i) = some (m (a' + BitVec.ofNat 32 i))) :
    tryLoadHalf read a = some ((loadWord m a').extractLsb' 0 16) ∧
      tryLoadHalf read (a + 2) = some ((loadWord m a').extractLsb' 16 16) := by
  have h0 := h 0 (by omega)
  have h1 := h 1 (by omega)
  have h2 := h 2 (by omega)
  have h3 := h 3 (by omega)
  simp only [BitVec.add_zero] at h0 h1 h2 h3
  have hlow : ∀ b0 b1 b2 b3, (ofBytes b0 b1 b2 b3).extractLsb' 0 16 = b1 ++ b0 := by
    intro b0 b1 b2 b3
    apply BitVec.eq_of_getLsbD_eq
    intro i hi
    simp only [ofBytes, BitVec.getLsbD_extractLsb', BitVec.getLsbD_append, hi, decide_true,
      Bool.true_and, Nat.zero_add]
    by_cases h8 : i < 8
    · simp only [h8, if_true]
    · simp only [h8, show i - 8 < 8 by omega, if_true, if_false]
  have hhigh : ∀ b0 b1 b2 b3, (ofBytes b0 b1 b2 b3).extractLsb' 16 16 = b3 ++ b2 := by
    intro b0 b1 b2 b3
    apply BitVec.eq_of_getLsbD_eq
    intro i hi
    simp only [ofBytes, BitVec.getLsbD_extractLsb', BitVec.getLsbD_append, hi, decide_true,
      Bool.true_and, show ¬ 16 + i < 8 by omega, show ¬ 16 + i - 8 < 8 by omega,
      show 16 + i - 8 - 8 = i by omega, if_false]
  have h23 : a + 2 + 1 = a + 3#32 := by bv_omega
  simp only [tryLoadHalf, loadWord, hlow, hhigh]
  constructor
  · simp only [BitVec.ofNat_eq_ofNat, h0, h1, Option.bind_eq_bind, Option.bind_some]
  · rw [h23]
    simp only [BitVec.ofNat_eq_ofNat, h2, h3, Option.bind_eq_bind, Option.bind_some]

theorem loadWord_congr {m m' : Mem} {a a' : Word}
    (h : ∀ i < 4, m' (a' + BitVec.ofNat 32 i) = m (a + BitVec.ofNat 32 i)) :
    loadWord m' a' = loadWord m a := by
  have h0 := h 0 (by omega)
  have h1 := h 1 (by omega)
  have h2 := h 2 (by omega)
  have h3 := h 3 (by omega)
  simp only [BitVec.add_zero] at h0 h1 h2 h3
  simp only [loadWord, BitVec.ofNat_eq_ofNat, h0, h1, h2, h3]

theorem loadWord_of_changedOnly {S : Set Word} {m m' : Mem} {a : Word}
    (h : ChangedOnly S m m') (ha : ∀ i < 4, a + BitVec.ofNat 32 i ∉ S) :
    loadWord m' a = loadWord m a :=
  loadWord_congr fun i hi => h _ (ha i hi)

/-- A word above a changed region, and not reaching round to its base, is kept. -/
theorem loadWord_outside {base a : Word} {n : Nat} {m m' : Mem}
    (h : ChangedOnly (region base n) m m') (hlow : n ≤ (a - base).toNat)
    (hhigh : (a - base).toNat + 3 < 2 ^ 32) : loadWord m' a = loadWord m a := by
  apply loadWord_of_changedOnly h
  intro i hi
  rw [mem_region]
  bv_omega

theorem loadWord_of_zero {m : Mem} {a : Word} (h : ∀ i < 4, m (a + BitVec.ofNat 32 i) = 0) :
    loadWord m a = 0 := by
  have hzero : loadWord (fun _ => 0) a = 0 := (by decide : ofBytes 0 0 0 0 = 0)
  rw [← hzero]
  exact loadWord_congr h

theorem storeWord_apply (m : Mem) (a x w : Word) :
    storeWord m a w x = if x ∈ region a 4 then byteOf w (x - a).toNat else m x :=
  fillBytes_apply m a x (byteOf w) 4 (by omega)

theorem storeWord_changedOnly (m : Mem) (a w : Word) :
    ChangedOnly (region a 4) m (storeWord m a w) :=
  fillBytes_changedOnly m a (byteOf w) 4 (by omega)

theorem ChangedOnly.storeWord {S : Set Word} {m m' : Mem} {a : Word} (h : ChangedOnly S m m')
    (ha : region a 4 ⊆ S) (w : Word) : ChangedOnly S m (storeWord m' a w) :=
  h.trans ((storeWord_changedOnly m' a w).mono ha)

@[simp] theorem loadWord_storeWord_self (m : Mem) (a w : Word) :
    loadWord (storeWord m a w) a = w := by
  have hbyte : ∀ i < 4, storeWord m a w (a + BitVec.ofNat 32 i) = byteOf w i := by
    intro i hi
    rw [storeWord_apply, if_pos (add_ofNat_mem_region a hi)]
    rw [show (a + BitVec.ofNat 32 i - a).toNat = i by bv_omega]
  have h0 := hbyte 0 (by omega)
  have h1 := hbyte 1 (by omega)
  have h2 := hbyte 2 (by omega)
  have h3 := hbyte 3 (by omega)
  simp only [BitVec.add_zero] at h0 h1 h2 h3
  simp only [loadWord, BitVec.ofNat_eq_ofNat, h0, h1, h2, h3, ofBytes_byteOf]

/-- Words four or more bytes apart, whichever is above, do not overlap. -/
theorem loadWord_storeWord_of_apart (m : Mem) {a b : Word} (w : Word)
    (h : 4 ≤ (b - a).toNat) (h' : 4 ≤ (a - b).toNat) :
    loadWord (storeWord m a w) b = loadWord m b := by
  apply loadWord_of_changedOnly (storeWord_changedOnly m a w)
  intro i hi
  rw [mem_region]
  bv_omega

/-! ## Word alignment -/

theorem and_three_eq_zero_iff (x : Word) : x &&& 3 = 0 ↔ x.toNat % 4 = 0 := by
  have hmask : (x &&& 3).toNat = x.toNat % 4 := by
    rw [BitVec.toNat_and, show (3 : Word).toNat = 2 ^ 2 - 1 by decide,
      Nat.and_two_pow_sub_one_eq_mod]
  rw [← hmask]
  constructor
  · intro h
    rw [h]
    rfl
  · intro h
    exact BitVec.eq_of_toNat_eq h

theorem and_not_eq_self {x mask : Word} (h : x &&& mask = 0#32) : x &&& ~~~mask = x := by
  calc
    x &&& ~~~mask = (x &&& mask) ||| (x &&& ~~~mask) := by rw [h, BitVec.zero_or]
    _ = x &&& (mask ||| ~~~mask) := (BitVec.and_or_distrib_left).symm
    _ = x := by rw [BitVec.or_not_self, BitVec.and_allOnes]

theorem and_not_three_eq_self {x : Word} (h : x.toNat % 4 = 0) : x &&& ~~~3 = x :=
  and_not_eq_self ((and_three_eq_zero_iff x).mpr h)

theorem and_not_one_eq_self {x : Word} (h : x.toNat % 2 = 0) : x &&& ~~~1 = x := by
  apply and_not_eq_self
  apply BitVec.eq_of_toNat_eq
  rw [BitVec.toNat_and, show (1 : Word).toNat = 2 ^ 1 - 1 by decide,
    Nat.and_two_pow_sub_one_eq_mod, h]
  rfl

/-! ## Runs of words -/

def fillWords (m : Mem) (base : Word) (f : Nat → Word) : Nat → Mem
  | 0 => m
  | n + 1 => storeWord (fillWords m base f n) (base + BitVec.ofNat 32 (4 * n)) (f n)

theorem fillWords_changedOnly (m : Mem) (base : Word) (f : Nat → Word) (n : Nat)
    (hn : 4 * n ≤ 2 ^ 32) : ChangedOnly (region base (4 * n)) m (fillWords m base f n) := by
  induction n with
  | zero => exact ChangedOnly.refl _ m
  | succ n ih =>
      apply ((ih (by omega)).mono _).trans
      · apply (storeWord_changedOnly _ _ _).mono
        intro a ha
        rw [mem_region] at ha ⊢
        bv_omega
      · intro a ha
        rw [mem_region] at ha ⊢
        omega

theorem loadWord_fillWords (m : Mem) (base : Word) (f : Nat → Word) {i n : Nat}
    (hn : 4 * n ≤ 2 ^ 32) (hi : i < n) :
    loadWord (fillWords m base f n) (base + BitVec.ofNat 32 (4 * i)) = f i := by
  induction n with
  | zero => omega
  | succ n ih =>
      rw [fillWords]
      by_cases hlast : i = n
      · rw [hlast, loadWord_storeWord_self]
      · rw [loadWord_storeWord_of_apart, ih (by omega) (by omega)]
        · bv_omega
        · bv_omega

theorem fillWords_congr (m : Mem) (base : Word) {f g : Nat → Word} {n : Nat}
    (h : ∀ i < n, f i = g i) : fillWords m base f n = fillWords m base g n := by
  induction n with
  | zero => rfl
  | succ n ih =>
      rw [fillWords, fillWords, ih (fun i hi => h i (by omega)), h n (by omega)]

end Minemu.Lib.Memory
