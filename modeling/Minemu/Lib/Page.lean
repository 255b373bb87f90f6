import Minemu.Lib.Memory

/-!
# 4 KiB pages

An address splits into the base of its page and an offset below 4096.  A table
entry is a page base with flags in the low twelve bits, so masking recovers
either half whether the flags were OR-ed or added.
-/

namespace Minemu.Lib.Page

open Minemu.Lib.Memory

def PageAligned (x : Word) : Prop := x &&& 0xfff = 0#32

instance (x : Word) : Decidable (PageAligned x) :=
  inferInstanceAs (Decidable (x &&& 0xfff = 0#32))

def pageBase (x : Word) : Word := x &&& 0xfffff000

theorem and_offset_toNat (x : Word) : (x &&& 0xfff).toNat = x.toNat % 4096 := by
  rw [BitVec.toNat_and, show (0xfff : Word).toNat = 2 ^ 12 - 1 by decide,
    Nat.and_two_pow_sub_one_eq_mod]

theorem pageBase_add_offset (x : Word) : pageBase x + (x &&& 0xfff) = x := by
  have hdisj : (x &&& 0xfffff000) &&& (x &&& 0xfff) = 0#32 := by
    rw [BitVec.and_assoc, BitVec.and_comm 0xfffff000, BitVec.and_assoc,
      show (0xfff : Word) &&& 0xfffff000 = 0#32 by decide, BitVec.and_zero, BitVec.and_zero]
  rw [pageBase, BitVec.add_eq_or_of_and_eq_zero _ _ hdisj, ← BitVec.and_or_distrib_left,
    show (0xfffff000 : Word) ||| 0xfff = BitVec.allOnes 32 by decide, BitVec.and_allOnes]

theorem pageBase_toNat (x : Word) : (pageBase x).toNat = x.toNat / 4096 * 4096 := by
  have hsum := pageBase_add_offset x
  have hoff := and_offset_toNat x
  have hle : (pageBase x).toNat ≤ x.toNat := by
    rw [pageBase, BitVec.toNat_and]
    exact Nat.and_le_left
  have hdm := Nat.div_add_mod' x.toNat 4096
  generalize pageBase x = b at *
  generalize x &&& 0xfff = o at *
  bv_omega

theorem pageAligned_iff {x : Word} : PageAligned x ↔ x.toNat % 4096 = 0 := by
  rw [PageAligned, ← and_offset_toNat]
  constructor
  · intro h
    rw [h]
    rfl
  · intro h
    exact BitVec.eq_of_toNat_eq (by simpa using h)

theorem pageBase_eq_self {x : Word} (h : PageAligned x) : pageBase x = x := by
  have hsum := pageBase_add_offset x
  rwa [h, BitVec.add_zero] at hsum

theorem pageAligned_pageBase (x : Word) : PageAligned (pageBase x) := by
  rw [pageAligned_iff, pageBase_toNat]
  omega

theorem pageBase_eq_iff {x y : Word} :
    pageBase x = pageBase y ↔ x.toNat / 4096 = y.toNat / 4096 := by
  have hx := pageBase_toNat x
  have hy := pageBase_toNat y
  constructor
  · intro h
    rw [h] at hx
    omega
  · intro h
    apply BitVec.eq_of_toNat_eq
    omega

theorem sub_pageBase_toNat (x : Word) : (x - pageBase x).toNat = x.toNat % 4096 := by
  have hx := pageBase_toNat x
  rw [BitVec.toNat_sub_of_le (by rw [BitVec.le_def]; omega)]
  omega

theorem sub_lt_iff_same_page {a v : Word} {n : Nat} (h : a.toNat % 4096 + n ≤ 4096) :
    (v - a).toNat < n ↔ pageBase v = pageBase a ∧ a.toNat % 4096 ≤ v.toNat % 4096 ∧
      v.toNat % 4096 < a.toNat % 4096 + n := by
  rw [pageBase_eq_iff]
  by_cases hle : a.toNat ≤ v.toNat
  · rw [BitVec.toNat_sub_of_le (BitVec.le_def.mpr hle)]
    omega
  · constructor
    · intro hlt
      exfalso
      bv_omega
    · omega

/-! ## Page bases with flags -/

theorem and_eq_zero_of_aligned {x f : Word} (hx : PageAligned x) (hf : pageBase f = 0#32) :
    x &&& f = 0#32 := by
  have hlow : f &&& 0xfff = f := by
    have hsum := pageBase_add_offset f
    rwa [hf, BitVec.zero_add] at hsum
  rw [← hlow, BitVec.and_comm f, ← BitVec.and_assoc, hx, BitVec.zero_and]

theorem add_flags_eq_or {x f : Word} (hx : PageAligned x) (hf : pageBase f = 0#32) :
    x + f = x ||| f :=
  BitVec.add_eq_or_of_and_eq_zero x f (and_eq_zero_of_aligned hx hf)

theorem pageBase_or {x f : Word} (hx : PageAligned x) (hf : pageBase f = 0#32) :
    pageBase (x ||| f) = x := by
  rw [pageBase, BitVec.and_or_distrib_right, ← pageBase, ← pageBase, hf, BitVec.or_zero,
    pageBase_eq_self hx]

theorem or_and_flag {x f c : Word} (hx : PageAligned x) (hc : pageBase c = 0#32) :
    (x ||| f) &&& c = f &&& c := by
  rw [BitVec.and_or_distrib_right, and_eq_zero_of_aligned hx hc, BitVec.zero_or]

theorem pageBase_add {x f : Word} (hx : PageAligned x) (hf : pageBase f = 0#32) :
    pageBase (x + f) = x := by
  rw [add_flags_eq_or hx hf, pageBase_or hx hf]

theorem add_and_flag {x f c : Word} (hx : PageAligned x) (hf : pageBase f = 0#32)
    (hc : pageBase c = 0#32) : (x + f) &&& c = f &&& c := by
  rw [add_flags_eq_or hx hf, or_and_flag hx hc]

end Minemu.Lib.Page
