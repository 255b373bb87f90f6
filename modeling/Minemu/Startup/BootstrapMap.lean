import Minemu.Lib.Arm
import Minemu.Platform.Mmu

/-!
# `boot.S`: the bootstrap page tables

`minemuBootstrapMap` is the listing of `minemu_bootstrap_map`, loop by loop.  Its
result is described word by word in `BootstrapTables`.
-/

namespace Minemu.Startup.BootstrapMap

open Minemu.Lib.Memory Minemu.Lib.Arm

/-- `str r1, [r0], #4; subs r2, r2, #1` -/
def storeLoop (m : Machine) : Option Machine :=
  loopNe (fun m => some (block [
    .strPost (.r 1) (.r 0) 4,
    .subs (.r 2) (.r 2) 1] m)) m

/-- `str r1, [r0], #4; add r1, r1, #4096; subs r2, r2, #1` -/
def storePagesLoop (m : Machine) : Option Machine :=
  loopNe (fun m => some (block [
    .strPost (.r 1) (.r 0) 4,
    .add (.r 1) (.r 1) 4096,
    .subs (.r 2) (.r 2) 1] m)) m

/-- Label 1: an empty directory. -/
def clearDirectory (m : Machine) : Option Machine :=
  storeLoop (block [
    .ldrLit (.r 0) 0x40010000,
    .mov (.r 1) 0,
    .mov (.r 2) 1024] m)

/-- Label 2: the identity table of the first 4 MiB of RAM. -/
def fillIdentity (m : Machine) : Option Machine :=
  storePagesLoop (block [
    .ldrLit (.r 0) 0x40011000,
    .ldrLit (.r 1) 0x4000001b,
    .mov (.r 2) 1024] m)

def linkIdentity (m : Machine) : Machine :=
  block [
    .ldrLit (.r 0) 0x40010400,
    .ldrLit (.r 1) 0x40011001,
    .str (.r 1) (.r 0) 0] m

/-- The body of label 3, with label 4 inside: one directory entry and its table. -/
def directTable (m : Machine) : Option Machine := do
  let m ← storePagesLoop (block [
    .orr (.r 5) (.r 0) 1,
    .strPost (.r 5) (.r 3) 4,
    .mov (.r 2) 1024] m)
  some (block [.subs (.r 4) (.r 4) 1] m)

/-- Label 3: sixteen tables of the direct map. -/
def fillDirect (m : Machine) : Option Machine :=
  loopNe directTable (block [
    .ldrLit (.r 3) 0x40010c00,
    .ldrLit (.r 0) 0x40012000,
    .ldrLit (.r 1) 0x4000001b,
    .mov (.r 4) 16] m)

/-- Label 5: an empty table for the MMIO window. -/
def clearMmio (m : Machine) : Option Machine :=
  storeLoop (block [
    .ldrLit (.r 0) 0x40022000,
    .mov (.r 1) 0,
    .mov (.r 2) 1024] m)

/-- Label 6: the implemented MMIO pages. -/
def fillMmio (m : Machine) : Option Machine :=
  storePagesLoop (block [
    .ldrLit (.r 0) 0x40022000,
    .ldrLit (.r 1) 0x10000013,
    .mov (.r 2) 16] m)

def linkMmio (m : Machine) : Machine :=
  block [
    .ldrLit (.r 0) 0x40010100,
    .ldrLit (.r 1) 0x40022001,
    .str (.r 1) (.r 0) 0] m

def minemuBootstrapMap (m : Machine) : Option Machine := do
  let m ← clearDirectory m
  let m ← fillIdentity m
  let m ← fillDirect (linkIdentity m)
  let m ← clearMmio m
  let m ← fillMmio m
  some (linkMmio m)

/-! ## Store loops -/

/-- The registers and memory after `i` passes of a loop that stores `r1` through
`r0`, adds `step` to `r1` and counts `r2` down. -/
structure Stored (m0 : Machine) (step : Word) (i : Nat) (m : Machine) : Prop where
  mem : m.mem =
    fillWords m0.mem (m0.r 0) (fun k => m0.r 1 + BitVec.ofNat 32 k * step) i
  r0 : m.r 0 = m0.r 0 + BitVec.ofNat 32 (4 * i)
  r1 : m.r 1 = m0.r 1 + BitVec.ofNat 32 i * step
  r2 : m.r 2 = m0.r 2 - BitVec.ofNat 32 i
  rest : ∀ n, n ≠ 0 → n ≠ 1 → n ≠ 2 → m.r n = m0.r n

theorem Stored.start (m : Machine) (step : Word) : Stored m step 0 m := by
  constructor <;> simp [fillWords]

structure StorePass (step : Word) (m m' : Machine) : Prop where
  mem : m'.mem = storeWord m.mem (m.r 0) (m.r 1)
  r0 : m'.r 0 = m.r 0 + 4
  r1 : m'.r 1 = m.r 1 + step
  r2 : m'.r 2 = m.r 2 - 1
  rest : ∀ n, n ≠ 0 → n ≠ 1 → n ≠ 2 → m'.r n = m.r n
  zero : zero m'.cpsr = (m.r 2 - 1 == 0)

theorem storePass_zero (m : Machine) : StorePass 0 m (block [
    .strPost (.r 1) (.r 0) 4,
    .subs (.r 2) (.r 2) 1] m) := by
  constructor <;>
    simp +contextual [block, exec, Machine.set, Machine.get, Machine.gpr]

theorem storePass_add (m : Machine) : StorePass 4096 m (block [
    .strPost (.r 1) (.r 0) 4,
    .add (.r 1) (.r 1) 4096,
    .subs (.r 2) (.r 2) 1] m) := by
  constructor <;>
    simp +contextual [block, exec, Machine.set, Machine.get, Machine.gpr]

theorem Stored.next {m0 m m' : Machine} {step : Word} {i : Nat}
    (h : Stored m0 step i m) (p : StorePass step m m') : Stored m0 step (i + 1) m' where
  mem := by rw [p.mem, h.mem, h.r0, h.r1, fillWords]
  r0 := by
    rw [p.r0, h.r0]
    bv_omega
  r1 := by
    rw [p.r1, h.r1, BitVec.add_assoc, BitVec.ofNat_add, BitVec.add_mul]
    simp
  r2 := by
    rw [p.r2, h.r2]
    bv_omega
  rest n h0 h1 h2 := (p.rest n h0 h1 h2).trans (h.rest n h0 h1 h2)

/-- A store loop counted by `r2` ends after `r2` passes. -/
theorem loopNe_stored {body : Machine → Option Machine} {step : Word}
    (hbody : ∀ m, ∃ m', body m = some m' ∧ StorePass step m m')
    (m0 : Machine) (hpos : 0 < (m0.r 2).toNat) :
    ∃ m, loopNe body m0 = some m ∧ Stored m0 step (m0.r 2).toNat m := by
  apply Lib.Loop.doWhile_counted (Stored m0 step) hpos _ (by omega) (Stored.start m0 step)
  intro i hi s hs
  obtain ⟨s', hs', pass⟩ := hbody s
  refine ⟨s', hs', hs.next pass, ?_⟩
  rw [pass.zero, hs.r2]
  by_cases hlast : i + 1 = (m0.r 2).toNat
  · have : m0.r 2 - BitVec.ofNat 32 i - 1#32 = 0#32 := by bv_omega
    simp [this, hlast]
  · have : m0.r 2 - BitVec.ofNat 32 i - 1#32 ≠ 0#32 := by bv_omega
    have hlt : i + 1 < (m0.r 2).toNat := by omega
    simp [this, hlt]

structure Filled (base v step : Word) (n : Nat) (m m' : Machine) : Prop where
  word : ∀ k < n, loadWord m'.mem (base + BitVec.ofNat 32 (4 * k)) =
    v + BitVec.ofNat 32 k * step
  frame : ChangedOnly (region base (4 * n)) m.mem m'.mem
  r0 : m'.r 0 = base + BitVec.ofNat 32 (4 * n)
  r1 : m'.r 1 = v + BitVec.ofNat 32 n * step
  rest : ∀ i, i ≠ 0 → i ≠ 1 → i ≠ 2 → m'.r i = m.r i

theorem loopNe_filled {body : Machine → Option Machine} {step base v : Word} {n : Nat}
    (hbody : ∀ m, ∃ m', body m = some m' ∧ StorePass step m m') {m : Machine}
    (h0 : m.r 0 = base) (h1 : m.r 1 = v) (h2 : m.r 2 = BitVec.ofNat 32 n)
    (hpos : 0 < n) (hn : 4 * n ≤ 2 ^ 32) :
    ∃ m', loopNe body m = some m' ∧ Filled base v step n m m' := by
  have hcount : (m.r 2).toNat = n := by
    rw [h2]
    bv_omega
  obtain ⟨m', hloop, h⟩ := loopNe_stored hbody m (by omega)
  rw [hcount] at h
  refine ⟨m', hloop, ?_, ?_, ?_, ?_, h.rest⟩
  · intro k hk
    rw [h.mem, h0, h1, loadWord_fillWords _ _ _ hn hk]
  · rw [h.mem, h0]
    exact fillWords_changedOnly _ _ _ _ hn
  · rw [h.r0, h0]
  · rw [h.r1, h1]

theorem storeLoop_filled {m : Machine} {base v : Word} {n : Nat}
    (h0 : m.r 0 = base) (h1 : m.r 1 = v) (h2 : m.r 2 = BitVec.ofNat 32 n)
    (hpos : 0 < n) (hn : 4 * n ≤ 2 ^ 32) :
    ∃ m', storeLoop m = some m' ∧ Filled base v 0 n m m' :=
  loopNe_filled (fun m => ⟨_, rfl, storePass_zero m⟩) h0 h1 h2 hpos hn

theorem storePagesLoop_filled {m : Machine} {base v : Word} {n : Nat}
    (h0 : m.r 0 = base) (h1 : m.r 1 = v) (h2 : m.r 2 = BitVec.ofNat 32 n)
    (hpos : 0 < n) (hn : 4 * n ≤ 2 ^ 32) :
    ∃ m', storePagesLoop m = some m' ∧ Filled base v 4096 n m m' :=
  loopNe_filled (fun m => ⟨_, rfl, storePass_add m⟩) h0 h1 h2 hpos hn

/-! ## The direct map -/

/-- After `t` passes of label 3: the first `t` directory entries and tables. -/
structure DirectFilled (m0 : Machine) (t : Nat) (m : Machine) : Prop where
  r0 : m.r 0 = 0x40012000 + BitVec.ofNat 32 (4096 * t)
  r1 : m.r 1 = 0x4000001b + BitVec.ofNat 32 (1024 * t) * 4096
  r3 : m.r 3 = 0x40010c00 + BitVec.ofNat 32 (4 * t)
  r4 : m.r 4 = 16 - BitVec.ofNat 32 t
  directory : ∀ i < t, loadWord m.mem (0x40010c00 + BitVec.ofNat 32 (4 * i)) =
    (0x40012000 + BitVec.ofNat 32 (4096 * i)) ||| 1
  table : ∀ j < 1024 * t, loadWord m.mem (0x40012000 + BitVec.ofNat 32 (4 * j)) =
    0x4000001b + BitVec.ofNat 32 j * 4096
  frame : ChangedOnly (region 0x40010c00 64 ∪ region 0x40012000 0x10000) m0.mem m.mem
  rest : ∀ i : Fin 13, 6 ≤ i.val → m.r i = m0.r i

theorem ne_of_val_lt {i k : Fin 13} {n : Nat} (hi : n ≤ i.val) (hk : k.val < n) : i ≠ k := by
  rintro rfl
  omega

theorem directHead_spec (m : Machine) :
    let m' := block [
      .orr (.r 5) (.r 0) 1,
      .strPost (.r 5) (.r 3) 4,
      .mov (.r 2) 1024] m
    m'.r 0 = m.r 0 ∧ m'.r 1 = m.r 1 ∧ m'.r 2 = BitVec.ofNat 32 1024 ∧
      m'.r 3 = m.r 3 + 4 ∧ m'.r 4 = m.r 4 ∧
      m'.mem = storeWord m.mem (m.r 3) (m.r 0 ||| 1) ∧
      ∀ i : Fin 13, 6 ≤ i.val → m'.r i = m.r i := by
  simp only [block, exec, Machine.set, Machine.get, Machine.gpr]
  refine ⟨by simp, by simp, by simp, by simp, by simp, by simp, fun i hi => ?_⟩
  simp [Function.update_of_ne (ne_of_val_lt hi (by decide : (5 : Fin 13).val < 6)),
    Function.update_of_ne (ne_of_val_lt hi (by decide : (3 : Fin 13).val < 6)),
    Function.update_of_ne (ne_of_val_lt hi (by decide : (2 : Fin 13).val < 6))]

theorem directTail_spec (m : Machine) :
    let m' := block [.subs (.r 4) (.r 4) 1] m
    m'.mem = m.mem ∧ m'.r 4 = m.r 4 - 1 ∧ zero m'.cpsr = (m.r 4 - 1 == 0) ∧
      ∀ i, i ≠ 4 → m'.r i = m.r i := by
  simp +contextual [block, exec, Machine.set, Machine.get, Machine.gpr]

/-- One pass of label 3: a directory word, then the table it designates. -/
structure DirectPass (m m' : Machine) : Prop where
  r0 : m'.r 0 = m.r 0 + BitVec.ofNat 32 (4 * 1024)
  r1 : m'.r 1 = m.r 1 + BitVec.ofNat 32 1024 * 4096
  r3 : m'.r 3 = m.r 3 + 4
  r4 : m'.r 4 = m.r 4 - 1
  word : ∀ k < 1024, loadWord m'.mem (m.r 0 + BitVec.ofNat 32 (4 * k)) =
    m.r 1 + BitVec.ofNat 32 k * 4096
  frame : ChangedOnly (region (m.r 0) (4 * 1024)) (storeWord m.mem (m.r 3) (m.r 0 ||| 1)) m'.mem
  rest : ∀ i : Fin 13, 6 ≤ i.val → m'.r i = m.r i
  zero : zero m'.cpsr = (m.r 4 - 1 == 0)

theorem directTable_pass (m : Machine) : ∃ m', directTable m = some m' ∧ DirectPass m m' := by
  obtain ⟨hr0, hr1, hr2, hr3, hr4, hmem, hrest⟩ := directHead_spec m
  generalize hhead : block [
      .orr (.r 5) (.r 0) 1,
      .strPost (.r 5) (.r 3) 4,
      .mov (.r 2) 1024] m = a at *
  obtain ⟨b, hb, fill⟩ := storePagesLoop_filled hr0 hr1 hr2 (by omega) (by omega)
  obtain ⟨tmem, tr4, tz, trest⟩ := directTail_spec b
  have hb3 : b.r 3 = m.r 3 + 4 := (fill.rest 3 (by decide) (by decide) (by decide)).trans hr3
  have hb4 : b.r 4 = m.r 4 := (fill.rest 4 (by decide) (by decide) (by decide)).trans hr4
  refine ⟨block [.subs (.r 4) (.r 4) 1] b, ?_, ?_⟩
  · simp only [directTable, hhead, hb, Option.bind_eq_bind, Option.bind_some]
  constructor
  case r0 => rw [trest 0 (by decide), fill.r0]
  case r1 => rw [trest 1 (by decide), fill.r1]
  case r3 => rw [trest 3 (by decide), hb3]
  case r4 => rw [tr4, hb4]
  case word =>
    intro k hk
    rw [tmem, fill.word k hk]
  case frame =>
    rw [tmem, ← hmem]
    exact fill.frame
  case rest =>
    intro i hi
    rw [trest i (ne_of_val_lt hi (by decide)), fill.rest i (ne_of_val_lt hi (by decide))
      (ne_of_val_lt hi (by decide)) (ne_of_val_lt hi (by decide)), hrest i hi]
  case zero => rw [tz, hb4]

theorem DirectFilled.next {m0 m m' : Machine} {t : Nat} (ht : t < 16) (h : DirectFilled m0 t m)
    (p : DirectPass m m') : DirectFilled m0 (t + 1) m' := by
  have hdirFrame := storeWord_changedOnly m.mem (m.r 3) (m.r 0 ||| 1)
  have hentry := loadWord_storeWord_self m.mem (m.r 3) (m.r 0 ||| 1)
  have hframe := p.frame
  have hword := p.word
  rw [h.r0] at hframe hword hdirFrame hentry
  rw [h.r1] at hword
  rw [h.r3] at hframe hdirFrame hentry
  constructor
  case r0 =>
    rw [p.r0, h.r0]
    bv_omega
  case r1 =>
    rw [p.r1, h.r1, show 1024 * (t + 1) = 1024 * t + 1024 by omega, BitVec.ofNat_add,
      BitVec.add_mul, BitVec.add_assoc]
  case r3 =>
    rw [p.r3, h.r3]
    bv_omega
  case r4 =>
    rw [p.r4, h.r4]
    bv_omega
  case directory =>
    intro i hi
    rw [loadWord_outside hframe (by bv_omega) (by bv_omega)]
    by_cases hlast : i = t
    · rw [hlast, hentry]
    · rw [loadWord_outside hdirFrame (by bv_omega) (by bv_omega), h.directory i (by omega)]
  case table =>
    intro j hj
    by_cases hlast : 1024 * t ≤ j
    · have hk := hword (j - 1024 * t) (by omega)
      rw [show (0x40012000 + BitVec.ofNat 32 (4096 * t) +
          BitVec.ofNat 32 (4 * (j - 1024 * t)) : Word) =
        0x40012000 + BitVec.ofNat 32 (4 * j) by bv_omega] at hk
      rw [hk, BitVec.add_assoc, ← BitVec.add_mul, ← BitVec.ofNat_add,
        show 1024 * t + (j - 1024 * t) = j by omega]
    · rw [loadWord_outside hframe (by bv_omega) (by bv_omega),
        loadWord_outside hdirFrame (by bv_omega) (by bv_omega), h.table j (by omega)]
  case frame =>
    refine h.frame.trans ((hdirFrame.mono ?_).trans (hframe.mono ?_))
    · intro x hx
      rw [mem_region] at hx
      left
      rw [mem_region]
      bv_omega
    · intro x hx
      rw [mem_region] at hx
      right
      rw [mem_region]
      bv_omega
  case rest => exact fun i hi => (p.rest i hi).trans (h.rest i hi)

theorem directTable_next {m0 m : Machine} {t : Nat} (ht : t < 16)
    (h : DirectFilled m0 t m) :
    ∃ m', directTable m = some m' ∧ DirectFilled m0 (t + 1) m' ∧
      (!zero m'.cpsr) = decide (t + 1 < 16) := by
  obtain ⟨m', hrun, pass⟩ := directTable_pass m
  refine ⟨m', hrun, h.next ht pass, ?_⟩
  rw [pass.zero, h.r4]
  by_cases hlast : t = 15
  · subst hlast
    decide
  · have : (16 - BitVec.ofNat 32 t - 1 : Word) ≠ 0#32 := by bv_omega
    have hlt : t + 1 < 16 := by omega
    simpa [hlt] using this

/-! ## Pieces of the listing -/

structure Wrote (base v step : Word) (n : Nat) (m m' : Machine) : Prop where
  word : ∀ k < n, loadWord m'.mem (base + BitVec.ofNat 32 (4 * k)) =
    v + BitVec.ofNat 32 k * step
  frame : ChangedOnly (region base (4 * n)) m.mem m'.mem
  rest : ∀ i : Fin 13, 6 ≤ i.val → m'.r i = m.r i

theorem Filled.wrote {base v step : Word} {n : Nat} {m a m' : Machine}
    (h : Filled base v step n a m') (hmem : a.mem = m.mem)
    (hrest : ∀ i : Fin 13, 6 ≤ i.val → a.r i = m.r i) : Wrote base v step n m m' where
  word := h.word
  frame := hmem ▸ h.frame
  rest i hi := by
    rw [h.rest i (ne_of_val_lt hi (by decide)) (ne_of_val_lt hi (by decide))
      (ne_of_val_lt hi (by decide)), hrest i hi]

def loadArgs (base v n : Word) (m : Machine) : Machine :=
  ((m.set (.r 0) base).set (.r 1) v).set (.r 2) n

theorem loadArgs_spec (base v n : Word) (m : Machine) :
    (loadArgs base v n m).r 0 = base ∧ (loadArgs base v n m).r 1 = v ∧
      (loadArgs base v n m).r 2 = n ∧ (loadArgs base v n m).mem = m.mem ∧
      ∀ i : Fin 13, 3 ≤ i.val → (loadArgs base v n m).r i = m.r i := by
  simp only [loadArgs, Machine.set]
  refine ⟨by simp, by simp, by simp, by simp, fun i hi => ?_⟩
  have h0 : i ≠ 0 := ne_of_val_lt hi (by decide)
  have h1 : i ≠ 1 := ne_of_val_lt hi (by decide)
  have h2 : i ≠ 2 := ne_of_val_lt hi (by decide)
  simp [Function.update_of_ne h0, Function.update_of_ne h1, Function.update_of_ne h2]

theorem storeLoop_wrote (m : Machine) (base v : Word) (n : Nat) (hpos : 0 < n)
    (hn : 4 * n ≤ 2 ^ 32) :
    ∃ m', storeLoop (loadArgs base v (BitVec.ofNat 32 n) m) = some m' ∧
      Wrote base v 0 n m m' := by
  obtain ⟨h0, h1, h2, hmem, hrest⟩ := loadArgs_spec base v (BitVec.ofNat 32 n) m
  obtain ⟨m', hm', fill⟩ := storeLoop_filled h0 h1 h2 hpos hn
  exact ⟨m', hm', fill.wrote hmem (fun i hi => hrest i (by omega))⟩

theorem storePagesLoop_wrote (m : Machine) (base v : Word) (n : Nat) (hpos : 0 < n)
    (hn : 4 * n ≤ 2 ^ 32) :
    ∃ m', storePagesLoop (loadArgs base v (BitVec.ofNat 32 n) m) = some m' ∧
      Wrote base v 4096 n m m' := by
  obtain ⟨h0, h1, h2, hmem, hrest⟩ := loadArgs_spec base v (BitVec.ofNat 32 n) m
  obtain ⟨m', hm', fill⟩ := storePagesLoop_filled h0 h1 h2 hpos hn
  exact ⟨m', hm', fill.wrote hmem (fun i hi => hrest i (by omega))⟩

theorem linkIdentity_spec (m : Machine) :
    (linkIdentity m).mem = storeWord m.mem 0x40010400 0x40011001 ∧
      ∀ i : Fin 13, 3 ≤ i.val → (linkIdentity m).r i = m.r i := by
  refine ⟨by simp [linkIdentity, block, exec, Machine.set, Machine.get, Machine.gpr],
    fun i hi => ?_⟩
  have h0 : i ≠ 0 := ne_of_val_lt hi (by decide)
  have h1 : i ≠ 1 := ne_of_val_lt hi (by decide)
  simp [linkIdentity, block, exec, Machine.set, Machine.get, Machine.gpr,
    Function.update_of_ne h0, Function.update_of_ne h1]

theorem linkMmio_spec (m : Machine) :
    (linkMmio m).mem = storeWord m.mem 0x40010100 0x40022001 ∧
      ∀ i : Fin 13, 3 ≤ i.val → (linkMmio m).r i = m.r i := by
  refine ⟨by simp [linkMmio, block, exec, Machine.set, Machine.get, Machine.gpr],
    fun i hi => ?_⟩
  have h0 : i ≠ 0 := ne_of_val_lt hi (by decide)
  have h1 : i ≠ 1 := ne_of_val_lt hi (by decide)
  simp [linkMmio, block, exec, Machine.set, Machine.get, Machine.gpr,
    Function.update_of_ne h0, Function.update_of_ne h1]

theorem fillDirect_spec (m : Machine) :
    ∃ m', fillDirect m = some m' ∧ DirectFilled m 16 m' := by
  have hstart : DirectFilled m 0 (block [
      .ldrLit (.r 3) 0x40010c00,
      .ldrLit (.r 0) 0x40012000,
      .ldrLit (.r 1) 0x4000001b,
      .mov (.r 4) 16] m) := by
    constructor
    · simp [block, exec, Machine.set]
    · simp [block, exec, Machine.set]
    · simp [block, exec, Machine.set]
    · simp [block, exec, Machine.set]
    · intro i hi
      omega
    · intro j hj
      omega
    · intro a _
      simp [block, exec, Machine.set]
    · intro i hi
      have hne : ∀ k : Fin 13, k.val < 6 → i ≠ k := fun k hk => ne_of_val_lt hi hk
      simp [block, exec, Machine.set, Function.update_of_ne (hne 0 (by decide)),
        Function.update_of_ne (hne 1 (by decide)), Function.update_of_ne (hne 3 (by decide)),
        Function.update_of_ne (hne 4 (by decide))]
  exact Lib.Loop.doWhile_counted (DirectFilled m) (by omega)
    (fun t ht s hs => directTable_next ht hs) (by omega) hstart

/-! ## The tables -/

def directoryEntry (i : Nat) : Word :=
  if i = 64 then 0x40022000 ||| 1
  else if i = 256 then 0x40011000 ||| 1
  else if 768 ≤ i ∧ i < 784 then (0x40012000 + BitVec.ofNat 32 (4096 * (i - 768))) ||| 1
  else 0

/-- The eighteen tables below the directory, word by word. -/
structure BootstrapLeaves (m : Mem) : Prop where
  identity : ∀ j < 1024, loadWord m (0x40011000 + BitVec.ofNat 32 (4 * j)) =
    0x4000001b + BitVec.ofNat 32 j * 4096
  direct : ∀ j < 16384, loadWord m (0x40012000 + BitVec.ofNat 32 (4 * j)) =
    0x4000001b + BitVec.ofNat 32 j * 4096
  mmio : ∀ j < 1024, loadWord m (0x40022000 + BitVec.ofNat 32 (4 * j)) =
    if j < 16 then 0x10000013 + BitVec.ofNat 32 j * 4096 else 0

structure BootstrapTables (m : Mem) : Prop extends BootstrapLeaves m where
  directory : ∀ i < 1024, loadWord m (0x40010000 + BitVec.ofNat 32 (4 * i)) =
    directoryEntry i

/-- The addresses the listing may write: the directory and its tables. -/
def tableRegion : Set Word := region 0x40010000 0x13000

theorem region_subset_tableRegion {base : Word} {n : Nat}
    (hlow : 0x40010000 ≤ base.toNat) (hhigh : base.toNat + n ≤ 0x40023000) :
    region base n ⊆ tableRegion := by
  intro a ha
  rw [tableRegion, mem_region]
  rw [mem_region] at ha
  bv_omega

structure Pieces (m m1 m2 m4 m5 m6 : Machine) : Prop where
  clearDirectory : Wrote 0x40010000 0 0 1024 m m1
  fillIdentity : Wrote 0x40011000 0x4000001b 4096 1024 m1 m2
  fillDirect : DirectFilled (linkIdentity m2) 16 m4
  clearMmio : Wrote 0x40022000 0 0 1024 m4 m5
  fillMmio : Wrote 0x40022000 0x10000013 4096 16 m5 m6

theorem minemuBootstrapMap_pieces (m : Machine) :
    ∃ m1 m2 m4 m5 m6, minemuBootstrapMap m = some (linkMmio m6) ∧ Pieces m m1 m2 m4 m5 m6 := by
  obtain ⟨m1, h1, w1⟩ := storeLoop_wrote m 0x40010000 0 1024 (by omega) (by omega)
  obtain ⟨m2, h2, w2⟩ := storePagesLoop_wrote m1 0x40011000 0x4000001b 1024 (by omega) (by omega)
  obtain ⟨m4, h4, w4⟩ := fillDirect_spec (linkIdentity m2)
  obtain ⟨m5, h5, w5⟩ := storeLoop_wrote m4 0x40022000 0 1024 (by omega) (by omega)
  obtain ⟨m6, h6, w6⟩ := storePagesLoop_wrote m5 0x40022000 0x10000013 16 (by omega) (by omega)
  have c1 : clearDirectory m = some m1 := h1
  have c2 : fillIdentity m1 = some m2 := h2
  have c5 : clearMmio m4 = some m5 := h5
  have c6 : fillMmio m5 = some m6 := h6
  exact ⟨m1, m2, m4, m5, m6, by simp [minemuBootstrapMap, c1, c2, h4, c5, c6],
    ⟨w1, w2, w4, w5, w6⟩⟩

theorem linkIdentity_frame (m : Machine) :
    ChangedOnly (region 0x40010400 4) m.mem (linkIdentity m).mem := by
  rw [(linkIdentity_spec m).1]
  exact storeWord_changedOnly _ _ _

theorem linkMmio_frame (m : Machine) :
    ChangedOnly (region 0x40010100 4) m.mem (linkMmio m).mem := by
  rw [(linkMmio_spec m).1]
  exact storeWord_changedOnly _ _ _

namespace Pieces

variable {m m1 m2 m4 m5 m6 : Machine}

/-- Below the MMIO table only its directory entry is younger than the direct map. -/
theorem word_after_direct (h : Pieces m m1 m2 m4 m5 m6) {a : Word}
    (hentry : a.toNat + 4 ≤ 0x40010100 ∨ 0x40010104 ≤ a.toNat) (hbelow : a.toNat + 4 ≤ 0x40022000) :
    loadWord (linkMmio m6).mem a = loadWord m4.mem a := by
  rw [loadWord_of_changedOnly (linkMmio_frame m6) (by
      intro k hk
      rw [mem_region]
      bv_omega),
    loadWord_of_changedOnly h.fillMmio.frame (by
      intro k hk
      rw [mem_region]
      bv_omega),
    loadWord_of_changedOnly h.clearMmio.frame (by
      intro k hk
      rw [mem_region]
      bv_omega)]

theorem word_before_direct (h : Pieces m m1 m2 m4 m5 m6) {a : Word}
    (hentries : a.toNat + 4 ≤ 0x40010c00 ∨ 0x40010c40 ≤ a.toNat)
    (hbelow : a.toNat + 4 ≤ 0x40012000) :
    loadWord m4.mem a = loadWord (linkIdentity m2).mem a := by
  apply loadWord_of_changedOnly h.fillDirect.frame
  intro k hk
  simp only [Set.mem_union, mem_region, not_or]
  constructor <;> bv_omega

theorem leaves (h : Pieces m m1 m2 m4 m5 m6) : BootstrapLeaves (linkMmio m6).mem := by
  constructor
  case identity =>
    intro j hj
    rw [h.word_after_direct (by bv_omega) (by bv_omega),
      h.word_before_direct (by bv_omega) (by bv_omega),
      loadWord_outside (linkIdentity_frame m2) (by bv_omega) (by bv_omega),
      h.fillIdentity.word j hj]
  case direct =>
    intro j hj
    rw [h.word_after_direct (by bv_omega) (by bv_omega), h.fillDirect.table j (by omega)]
  case mmio =>
    intro j hj
    rw [loadWord_outside (linkMmio_frame m6) (by bv_omega) (by bv_omega)]
    by_cases h16 : j < 16
    · rw [h.fillMmio.word j h16, if_pos h16]
    · rw [loadWord_outside h.fillMmio.frame (by bv_omega) (by bv_omega), h.clearMmio.word j hj,
        if_neg h16]
      simp

theorem directory (h : Pieces m m1 m2 m4 m5 m6) {i : Nat} (hi : i < 1024) :
    loadWord (linkMmio m6).mem (0x40010000 + BitVec.ofNat 32 (4 * i)) = directoryEntry i := by
  by_cases h64 : i = 64
  · subst h64
    rw [(linkMmio_spec m6).1]
    exact loadWord_storeWord_self _ _ _
  rw [h.word_after_direct (by bv_omega) (by bv_omega), directoryEntry, if_neg h64]
  by_cases hdirect : 768 ≤ i ∧ i < 784
  · have hword := h.fillDirect.directory (i - 768) (by omega)
    rw [show (0x40010c00 + BitVec.ofNat 32 (4 * (i - 768)) : Word) =
      0x40010000 + BitVec.ofNat 32 (4 * i) by bv_omega] at hword
    rw [hword, if_neg (by omega), if_pos hdirect]
  rw [h.word_before_direct (by bv_omega) (by bv_omega)]
  by_cases h256 : i = 256
  · subst h256
    rw [(linkIdentity_spec m2).1]
    exact loadWord_storeWord_self _ _ _
  · rw [loadWord_outside (linkIdentity_frame m2) (by bv_omega) (by bv_omega),
      loadWord_outside h.fillIdentity.frame (by bv_omega) (by bv_omega), h.clearDirectory.word i hi,
      if_neg h256, if_neg hdirect]
    simp

theorem frame (h : Pieces m m1 m2 m4 m5 m6) : ChangedOnly tableRegion m.mem (linkMmio m6).mem := by
  have sub1 := h.clearDirectory.frame.mono (region_subset_tableRegion (by decide) (by decide))
  have sub2 := h.fillIdentity.frame.mono (region_subset_tableRegion (by decide) (by decide))
  have sub3 := (linkIdentity_frame m2).mono (region_subset_tableRegion (by decide) (by decide))
  have sub4 := h.fillDirect.frame.mono (Set.union_subset
    (region_subset_tableRegion (by decide) (by decide))
    (region_subset_tableRegion (by decide) (by decide)))
  have sub5 := h.clearMmio.frame.mono (region_subset_tableRegion (by decide) (by decide))
  have sub6 := h.fillMmio.frame.mono (region_subset_tableRegion (by decide) (by decide))
  have sub7 := (linkMmio_frame m6).mono (region_subset_tableRegion (by decide) (by decide))
  exact sub1.trans (sub2.trans (sub3.trans (sub4.trans (sub5.trans (sub6.trans sub7)))))

theorem r8 (h : Pieces m m1 m2 m4 m5 m6) : (linkMmio m6).r 8 = m.r 8 := by
  rw [(linkMmio_spec m6).2 8 (by decide), h.fillMmio.rest 8 (by decide),
    h.clearMmio.rest 8 (by decide), h.fillDirect.rest 8 (by decide),
    (linkIdentity_spec m2).2 8 (by decide), h.fillIdentity.rest 8 (by decide),
    h.clearDirectory.rest 8 (by decide)]

end Pieces

/-- Termination, the finished tables, the frame, and the boot-info pointer that
`minemu_bootstrap` keeps in `r8`. -/
theorem minemuBootstrapMap_spec (m : Machine) :
    ∃ m', minemuBootstrapMap m = some m' ∧ BootstrapTables m'.mem ∧
      ChangedOnly tableRegion m.mem m'.mem ∧ m'.r 8 = m.r 8 := by
  obtain ⟨m1, m2, m4, m5, m6, hrun, h⟩ := minemuBootstrapMap_pieces m
  exact ⟨linkMmio m6, hrun, ⟨h.leaves, fun i hi => h.directory hi⟩, h.frame, h.r8⟩

end Minemu.Startup.BootstrapMap
