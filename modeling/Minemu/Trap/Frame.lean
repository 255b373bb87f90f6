import Minemu.Lib.Arm

/-!
# `minemu/trap.h`: the trap frame

The frame is 22 words.  `load` reads each field at its declared offset; `store`
writes the words upwards, as the entry code does.
-/

namespace Minemu.Trap

open Minemu.Lib.Memory Minemu.Lib.Arm

def exceptionUndefined : Word := -4

def exceptionSvc : Word := -3

def exceptionPrefetchAbort : Word := -2

def exceptionDataAbort : Word := -1

@[ext] structure TrapFrame where
  r : Fin 13 → Word
  returnLr : Word
  spsr : Word
  exceptionId : Word
  faultPc : Word
  dfsr : Word
  dfar : Word
  userSp : Word
  userLr : Word
  reserved : Word

def sizeofTrapFrame : Nat := 88

namespace TrapFrame

def load (m : Mem) (p : Word) : TrapFrame where
  r n := loadWord m (p + BitVec.ofNat 32 (4 * n.val))
  returnLr := loadWord m (p + 52)
  spsr := loadWord m (p + 56)
  exceptionId := loadWord m (p + 60)
  faultPc := loadWord m (p + 64)
  dfsr := loadWord m (p + 68)
  dfar := loadWord m (p + 72)
  userSp := loadWord m (p + 76)
  userLr := loadWord m (p + 80)
  reserved := loadWord m (p + 84)

def words (f : TrapFrame) (i : Nat) : Word :=
  if i < 13 then gprWords f.r i
  else match i - 13 with
    | 0 => f.returnLr
    | 1 => f.spsr
    | 2 => f.exceptionId
    | 3 => f.faultPc
    | 4 => f.dfsr
    | 5 => f.dfar
    | 6 => f.userSp
    | 7 => f.userLr
    | _ => f.reserved

def store (m : Mem) (p : Word) (f : TrapFrame) : Mem := fillWords m p f.words 22

theorem store_changedOnly (m : Mem) (p : Word) (f : TrapFrame) :
    ChangedOnly (region p sizeofTrapFrame) m (f.store m p) :=
  fillWords_changedOnly m p f.words 22 (by decide)

theorem store_eq (m : Mem) (p : Word) (f : TrapFrame) :
    f.store m p =
      (let m := fillWords m p (gprWords f.r) 13
       let m := storeWord m (p + 52) f.returnLr
       let m := storeWord m (p + 56) f.spsr
       let m := storeWord m (p + 60) f.exceptionId
       let m := storeWord m (p + 64) f.faultPc
       let m := storeWord m (p + 68) f.dfsr
       let m := storeWord m (p + 72) f.dfar
       let m := storeWord m (p + 76) f.userSp
       let m := storeWord m (p + 80) f.userLr
       storeWord m (p + 84) f.reserved) := by
  have hr : ∀ i < 13, gprWords f.r i = f.words i := fun i hi => (if_pos hi).symm
  rw [fillWords_congr m p hr]
  rfl

@[simp] theorem load_store (m : Mem) (p : Word) (f : TrapFrame) : load (f.store m p) p = f := by
  have hword : ∀ i < 22,
      loadWord (f.store m p) (p + BitVec.ofNat 32 (4 * i)) = f.words i :=
    fun i hi => loadWord_fillWords m p f.words (by decide) hi
  apply TrapFrame.ext
  case r =>
    funext n
    have hn := hword n.val (by omega)
    rwa [words, if_pos n.isLt, gprWords, dif_pos n.isLt] at hn
  case returnLr => exact hword 13 (by decide)
  case spsr => exact hword 14 (by decide)
  case exceptionId => exact hword 15 (by decide)
  case faultPc => exact hword 16 (by decide)
  case dfsr => exact hword 17 (by decide)
  case dfar => exact hword 18 (by decide)
  case userSp => exact hword 19 (by decide)
  case userLr => exact hword 20 (by decide)
  case reserved => exact hword 21 (by decide)

theorem load_congr {m m' : Mem} {p : Word} (h : ∀ a ∈ region p sizeofTrapFrame, m' a = m a) :
    load m' p = load m p := by
  have hword : ∀ k, k ≤ 84 →
      loadWord m' (p + BitVec.ofNat 32 k) = loadWord m (p + BitVec.ofNat 32 k) := by
    intro k hk
    apply loadWord_congr
    intro i hi
    apply h
    rw [mem_region, sizeofTrapFrame]
    bv_omega
  apply TrapFrame.ext
  case r => exact funext fun n => hword (4 * n.val) (by omega)
  all_goals exact hword _ (by decide)

def setR0 (f : TrapFrame) (w : Word) : TrapFrame := { f with r := Function.update f.r 0 w }

theorem load_storeWord (m : Mem) (p w : Word) :
    load (storeWord m p w) p = (load m p).setR0 w := by
  have hkept : ∀ k, 4 ≤ k → k ≤ 84 →
      loadWord (storeWord m p w) (p + BitVec.ofNat 32 k) = loadWord m (p + BitVec.ofNat 32 k) :=
    fun k hk hk' => loadWord_storeWord_of_apart m w (by bv_omega) (by bv_omega)
  apply TrapFrame.ext
  case r =>
    funext n
    show loadWord (storeWord m p w) (p + BitVec.ofNat 32 (4 * n.val)) =
      Function.update (load m p).r 0 w n
    by_cases hn : n = 0
    · subst hn
      rw [Function.update_self, show p + BitVec.ofNat 32 (4 * (0 : Fin 13).val) = p by simp,
        loadWord_storeWord_self]
    · have hval : n.val ≠ 0 := fun h => hn (Fin.ext h)
      rw [Function.update_of_ne hn]
      exact hkept (4 * n.val) (by omega) (by omega)
  all_goals exact hkept _ (by decide) (by decide)

end TrapFrame

end Minemu.Trap
