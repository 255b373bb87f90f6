import Minemu.Lib.Memory

/-!
# `memory.c`: `memcpy` and `memmove`

The kernel and the user library each have the same two copies.  The loops run on
32-bit unsigned indices, one of them downwards.
-/

namespace Minemu.Runtime

open Minemu.Lib.Memory

/-- `for (; index < length; ++index) out[index] = in[index]` -/
def copyAscending (out input length index : Word) (m : Mem) : Mem :=
  if index < length then
    copyAscending out input length (index + 1) (storeByte m (out + index) (m (input + index)))
  else m
termination_by length.toNat - index.toNat
decreasing_by
  bv_omega

/-- `for (; index != 0; --index) out[index - 1] = in[index - 1]` -/
def copyDescending (out input index : Word) (m : Mem) : Mem :=
  if index = 0 then m
  else
    copyDescending out input (index - 1) (storeByte m (out + (index - 1)) (m (input + (index - 1))))
termination_by index.toNat
decreasing_by
  bv_omega

/-! ## The kernel's copies -/

namespace Kernel

/-- The value returned, and memory. -/
def memcpy (destination source length : Word) (m : Mem) : Word × Mem :=
  (destination, copyAscending destination source length 0 m)

def memmove (destination source length : Word) (m : Mem) : Word × Mem :=
  if destination < source then (destination, copyAscending destination source length 0 m)
  else (destination, copyDescending destination source length m)

end Kernel

/-! ## The user library's copies -/

namespace User

def memcpy (destination source length : Word) (m : Mem) : Word × Mem :=
  (destination, copyAscending destination source length 0 m)

def memmove (destination source length : Word) (m : Mem) : Word × Mem :=
  if destination < source then (destination, copyAscending destination source length 0 m)
  else (destination, copyDescending destination source length m)

end User

/-! ## The loops -/

/-- The ascending loop after `n` passes. -/
theorem copyAscending_eq (out input length : Word) (m : Mem) {n : Nat} (hn : n ≤ length.toNat) :
    copyAscending out input length (BitVec.ofNat 32 n) (copyUp m out input n) =
      copyUp m out input length.toNat := by
  -- `k` passes remain
  suffices h : ∀ k n, n + k = length.toNat →
      copyAscending out input length (BitVec.ofNat 32 n) (copyUp m out input n) =
        copyUp m out input length.toNat from h (length.toNat - n) n (by omega)
  intro k
  induction k with
  | zero =>
      intro n hn
      rw [copyAscending, if_neg (by bv_omega), show n = length.toNat by omega]
  | succ k ih =>
      intro n hn
      have hnext : BitVec.ofNat 32 n + 1 = BitVec.ofNat 32 (n + 1) := by
        rw [BitVec.ofNat_add]
        rfl
      rw [copyAscending, if_pos (by bv_omega), hnext, ← ih (n + 1) (by omega)]
      rfl

theorem copyDescending_eq (out input : Word) (m : Mem) {n : Nat} (hn : n < 2 ^ 32) :
    copyDescending out input (BitVec.ofNat 32 n) m = copyDown m out input n := by
  induction n generalizing m with
  | zero =>
      rw [copyDescending]
      exact if_pos rfl
  | succ n ih =>
      have hprev : BitVec.ofNat 32 (n + 1) - 1 = BitVec.ofNat 32 n := by bv_omega
      rw [copyDescending, if_neg (by bv_omega), hprev, ih _ (by omega), copyDown]

/-! ## Simultaneous copies -/

/-- `length` bytes from `source` appear at `destination`, as if read before any write. -/
structure Copied (destination source length : Word) (m : Mem) (result : Word × Mem) : Prop where
  returned : result.1 = destination
  bytes : ∀ i < length.toNat,
    result.2 (destination + BitVec.ofNat 32 i) = m (source + BitVec.ofNat 32 i)
  others : ∀ a : Word,
    ¬ (destination.toNat ≤ a.toNat ∧ a.toNat < destination.toNat + length.toNat) →
      result.2 a = m a

section

variable {destination source length : Word} (m : Mem)

theorem copied_fillBytes (hend : destination.toNat + length.toNat ≤ 2 ^ 32) :
    Copied destination source length m
      (destination, fillBytes m destination (fun i => m (source + BitVec.ofNat 32 i))
        length.toNat) := by
  refine ⟨rfl, fun i hi => ?_, fun a ha => ?_⟩
  · have hoff : (destination + BitVec.ofNat 32 i - destination).toNat = i := by bv_omega
    dsimp only
    rw [fillBytes_apply _ _ _ _ _ (by omega), if_pos (add_ofNat_mem_region destination hi), hoff]
  · dsimp only
    rw [fillBytes_apply _ _ _ _ _ (by omega), if_neg (mt (mem_region_of_le hend).mp ha)]

/-- Upwards every byte is read before it is written unless the destination starts inside
the source, above its first byte. -/
theorem copyAscending_fills (hend : destination.toNat + length.toNat ≤ 2 ^ 32)
    (hsource : source.toNat + length.toNat ≤ 2 ^ 32)
    (horder : destination ≤ source ∨ source.toNat + length.toNat ≤ destination.toNat) :
    copyAscending destination source length 0 m =
      fillBytes m destination (fun i => m (source + BitVec.ofNat 32 i)) length.toNat := by
  have hloop := copyAscending_eq destination source length m (Nat.zero_le length.toNat)
  rw [copyUp] at hloop
  refine hloop.trans (copyUp_eq_fillBytes_of_ahead m destination source (by omega) ?_)
  intro i hi
  rw [mem_region_of_le (by omega)]
  rcases horder with hle | hafter
  · rw [BitVec.le_def] at hle
    bv_omega
  · bv_omega

/-- Downwards every byte is read before it is written if the source does not start above
the destination. -/
theorem copyDescending_fills (hend : destination.toNat + length.toNat ≤ 2 ^ 32)
    (horder : ¬ destination < source) :
    copyDescending destination source length m =
      fillBytes m destination (fun i => m (source + BitVec.ofNat 32 i)) length.toNat := by
  have hloop := copyDescending_eq destination source m length.isLt
  rw [BitVec.ofNat_toNat, BitVec.setWidth_eq] at hloop
  rw [hloop]
  apply copyDown_eq_fillBytes_of_ahead m destination source (by omega)
  intro i hi j hj
  bv_omega

end

/-- `memmove` copies as if all bytes were read first, and `memcpy` agrees with it unless
the destination starts inside the source above its first byte. -/
theorem memmove_simultaneous (destination source length : Word) (m : Mem)
    (hend : destination.toNat + length.toNat ≤ 2 ^ 32)
    (hsource : source.toNat + length.toNat ≤ 2 ^ 32) :
    Copied destination source length m (Kernel.memmove destination source length m) ∧
      Copied destination source length m (User.memmove destination source length m) ∧
      ((destination ≤ source ∨ source.toNat + length.toNat ≤ destination.toNat) →
        (Kernel.memcpy destination source length m).2 =
            (Kernel.memmove destination source length m).2 ∧
          (User.memcpy destination source length m).2 =
            (User.memmove destination source length m).2) := by
  have hmove : Kernel.memmove destination source length m =
      (destination, fillBytes m destination (fun i => m (source + BitVec.ofNat 32 i))
        length.toNat) := by
    rw [Kernel.memmove]
    by_cases hbelow : destination < source
    · rw [if_pos hbelow, copyAscending_fills m hend hsource (Or.inl (BitVec.le_of_lt hbelow))]
    · rw [if_neg hbelow, copyDescending_fills m hend hbelow]
  have huser : User.memmove destination source length m =
      Kernel.memmove destination source length m := rfl
  have hcopied : Copied destination source length m _ := copied_fillBytes m hend
  rw [huser, hmove]
  refine ⟨hcopied, hcopied, fun horder => ?_⟩
  exact ⟨copyAscending_fills m hend hsource horder, copyAscending_fills m hend hsource horder⟩

/-- Bytes moved up by one inside themselves, in the middle and at the top of memory. -/
theorem memmove_simultaneous_overlapping :
    (Kernel.memmove 0x101 0x100 3 (fun a => a.setWidth 8)).2 0x103 = 2 ∧
      (Kernel.memmove 0xfffffffe 0xfffffffd 2 (fun a => a.setWidth 8)).2 0xffffffff = 0xfe := by
  have hcopied := (memmove_simultaneous 0x101 0x100 3 (fun a => a.setWidth 8) (by decide)
    (by decide)).1
  have hlast := (memmove_simultaneous 0xfffffffe 0xfffffffd 2 (fun a => a.setWidth 8) (by decide)
    (by decide)).1
  exact ⟨hcopied.bytes 2 (by decide), hlast.bytes 1 (by decide)⟩

end Minemu.Runtime
