import Minemu.Headless.TtbrSwitch.Case
import Minemu.Startup.Bootstrap

/-!
# `headless/ttbr-switch` on a conforming platform

The accesses of a run are replayed on a memory management unit that starts from the
bootstrap tables.  As long as the platform answers every load as this unit would, no
access of the kernel faults, every address outside the entry under test keeps its
translation, and no check fails but the one between the switch and the flush.
-/

namespace Minemu.Headless.TtbrSwitch

open Minemu.Lib.Memory Minemu.Lib.Page Minemu.Lib.Arm Minemu.Lib.Guest Minemu.Lib.Tlb
open Minemu.Platform Minemu.Startup.BootstrapMap Minemu.Startup.BootstrapWalk

/-! ## The unit -/

/-- Device registers are cells of the memory like any other. -/
structure Mmu where
  mem : Mem
  ttbr0 : Word
  remembered : Remembered Word Platform.Access
  lookups : Nat
  /-- Every load so far was answered as here. -/
  agrees : Bool
  /-- An access found no translation, or one without the right. -/
  faulted : Bool

variable (policy : Nat → Policy Word)

def Mmu.find (m : Mmu) (v : Word) : Option Platform.Access × Mmu :=
  let found := lookup (policy m.lookups) (translateVa m.mem m.ttbr0) m.remembered v
  (found.1, { m with remembered := found.2, lookups := m.lookups + 1 })

def Mmu.fault (m : Mmu) : Mmu := { m with faulted := true }

def Mmu.load (m : Mmu) (t : Option Platform.Access) (value : Word) : Mmu :=
  match t with
  | some t =>
      if t.readable then { m with agrees := m.agrees && loadWord m.mem t.paddr == value }
      else m.fault
  | none => m.fault

def Mmu.store (m : Mmu) (t : Option Platform.Access) (value : Word) : Mmu :=
  match t with
  | some t => if t.writable then { m with mem := storeWord m.mem t.paddr value } else m.fault
  | none => m.fault

def Mmu.step (m : Mmu) : Access → Mmu
  | .read a v => (m.find policy a).2.load (m.find policy a).1 v
  | .write a x => (m.find policy a).2.store (m.find policy a).1 x
  | .mcr .ttbr0 x => { m with ttbr0 := x }
  | .mcr .tlbiall _ => { m with remembered := flush }
  | _ => m

structure Booted where
  mem : Mem
  remembered : Remembered Word Platform.Access
  tables : BootstrapTables mem
  bounded : Bounded (fun v t => bootstrapMapping v = some t) remembered

theorem exists_booted (y : Startup.Bootstrap.Symbols) {m : Machine} (h : m.bank ≠ .fiq) :
    ∃ m', Startup.Bootstrap.minemuBootstrap y m = some m' ∧ ∃ booted : Booted,
      booted.mem = m'.mem := by
  obtain ⟨m', hrun, -, htables, -⟩ := Startup.Bootstrap.minemuBootstrap_spec y h
  exact ⟨m', hrun, ⟨m'.mem, flush, htables, bounded_flush⟩, rfl⟩

def replay (booted : Booted) : Monitor Mmu where
  init := ⟨booted.mem, bootstrapRoot, booted.remembered, 0, true, false⟩
  step := Mmu.step policy

/-- The lookups before the first test: four in each pass of the copy, and six stores. -/
def testLookup : Nat := 4 * 1024 + 6

/-- The first test's walk is remembered, and not forgotten before the second test, which is
the next lookup and the last one before the second flush. -/
def Retains : Prop :=
  (policy testLookup).fill = true ∧ (policy (testLookup + 1)).keep testVaddr = true

/-- What holds of a run on a platform that agrees with the unit. -/
structure Conforming (m : Mmu) (es : List Word) : Prop where
  faulted : m.faulted = false
  /-- The rest of the address space is the same under either root. -/
  kept : ∀ v : Word, v.toNat / 2 ^ 22 ≠ testDirectoryIndex →
    translateVa m.mem m.ttbr0 v = bootstrapMapping v
  events : es = [] ∨ (es = [0x20040001] ∧ Retains policy) ∨ (es = [failEvent 2] ∧ ¬ Retains policy)

def Fine (booted : Booted) (w : World Unit) : Prop :=
  ((replay policy booted).watch w.log).agrees = true →
    Conforming policy ((replay policy booted).watch w.log) w.events

variable {policy}

theorem Mmu.agrees_of_step {m : Mmu} {x : Access} (h : (m.step policy x).agrees = true) :
    m.agrees = true := by
  cases x with
  | read a v =>
      simp only [Mmu.step, Mmu.load] at h
      split at h
      · split at h
        · exact (Bool.and_eq_true_iff.mp h).1
        · exact h
      · exact h
  | write a x =>
      simp only [Mmu.step, Mmu.store] at h
      split at h
      · split at h
        · exact h
        · exact h
      · exact h
  | mcr register x => cases register <;> exact h
  | userWrite a x => exact h
  | exception address frame left => exact h

/-! ## Addresses -/

section Addresses

variable {s : Symbols} {p q : Page} {i j : Nat}

theorem word_toNat (hi : i < 1024) : (s.word p i).toNat = (s.page p).base.toNat + 4 * i := by
  have hhigh := (s.page p).high
  rw [Symbols.word, StaticPage.word, BitVec.toNat_add, BitVec.toNat_ofNat,
    Nat.mod_eq_of_lt (by omega), Nat.mod_eq_of_lt (by omega)]

theorem paddr_toNat : (s.paddr p).toNat + 0x80000000 = (s.page p).base.toNat := by
  have hlow := (s.page p).low
  rw [Symbols.paddr, minemuTestPaddr]
  bv_omega

theorem paddr_aligned : PageAligned (s.paddr p) := by
  have haligned := pageAligned_iff.mp (s.aligned p)
  have hpaddr := paddr_toNat (s := s) (p := p)
  rw [pageAligned_iff]
  omega

def Symbols.pword (s : Symbols) (p : Page) (i : Nat) : Word := s.paddr p + BitVec.ofNat 32 (4 * i)

theorem pword_eq : s.word p i - 0x80000000 = s.pword p i := by
  rw [Symbols.word, StaticPage.word, Symbols.pword, Symbols.paddr, minemuTestPaddr]
  bv_omega

theorem pword_toNat (hi : i < 1024) : (s.pword p i).toNat + 0x80000000 = (s.word p i).toNat := by
  have hhigh := (s.page p).high
  have hpaddr := paddr_toNat (s := s) (p := p)
  rw [word_toNat hi, Symbols.pword, BitVec.toNat_add, BitVec.toNat_ofNat,
    Nat.mod_eq_of_lt (by omega), Nat.mod_eq_of_lt (by omega)]
  omega

theorem pword_zero : s.pword p 0 = s.paddr p := by
  rw [Symbols.pword]
  bv_omega

theorem pword_apart (hi : i < 1024) (hj : j < 1024) (hne : ¬ (q = p ∧ j = i)) :
    4 ≤ (s.pword q j - s.pword p i).toNat ∧ 4 ≤ (s.pword p i - s.pword q j).toNat := by
  have hp := pageAligned_iff.mp (s.aligned p)
  have hq := pageAligned_iff.mp (s.aligned q)
  have hpword := pword_toNat (s := s) (p := p) hi
  have hqword := pword_toNat (s := s) (p := q) hj
  rw [word_toNat hi] at hpword
  rw [word_toNat hj] at hqword
  by_cases hpq : q = p
  · subst hpq
    have hij : j ≠ i := fun hij => hne ⟨rfl, hij⟩
    have hhigh := (s.page q).high
    bv_omega
  · have hbase : (s.page q).base.toNat ≠ (s.page p).base.toNat := fun h =>
      hpq (s.apart q p (BitVec.eq_of_toNat_eq h))
    have hphigh := (s.page p).high
    have hqhigh := (s.page q).high
    bv_omega

end Addresses

/-! ## What the pages hold -/

abbrev Contents : Type := Page → Nat → Option Word

def Contents.set (f : Contents) (p : Page) (i : Nat) (x : Word) : Contents :=
  fun q j => if q = p ∧ j = i then some x else f q j

def Stored (s : Symbols) (m : Mem) (f : Contents) : Prop :=
  ∀ p i x, i < 1024 → f p i = some x → loadWord m (s.pword p i) = x

section Stored

variable {s : Symbols} {m : Mem} {f : Contents} {p : Page} {i : Nat}

theorem Stored.write (h : Stored s m f) (hi : i < 1024) (x : Word) :
    Stored s (storeWord m (s.pword p i) x) (f.set p i x) := by
  intro q j y hj hy
  by_cases hsame : q = p ∧ j = i
  · obtain ⟨rfl, rfl⟩ := hsame
    rw [Contents.set, if_pos ⟨rfl, rfl⟩] at hy
    cases hy
    exact loadWord_storeWord_self m _ _
  · rw [Contents.set, if_neg hsame] at hy
    obtain ⟨h1, h2⟩ := pword_apart (s := s) hi hj hsame
    rw [loadWord_storeWord_of_apart m x h1 h2]
    exact h q j y hj hy

theorem Stored.write_device (h : Stored s m f) (x : Word) :
    Stored s (storeWord m traceBase x) f := by
  intro q j y hj hy
  have htrace : traceBase.toNat = 0x1000f000 := by decide
  have hpword := pword_toNat (s := s) (p := q) hj
  have hlow := (s.page q).low
  have hhigh := (s.page q).high
  rw [word_toNat hj] at hpword
  rw [loadWord_storeWord_of_apart m x (by bv_omega) (by bv_omega)]
  exact h q j y hj hy

/-- The tables of the bootstrap are not written. -/
theorem leaves_of_changedOnly {m' : Mem} {a : Word} (h : BootstrapLeaves m)
    (hm' : ChangedOnly (region a 4) m m')
    (ha : a.toNat + 4 ≤ 0x40011000 ∨ 0x40023000 ≤ a.toNat ∧ a.toNat + 4 ≤ 2 ^ 32) :
    BootstrapLeaves m' := by
  have hword : ∀ j < 18 * 1024, loadWord m' (0x40011000 + BitVec.ofNat 32 (4 * j)) =
      loadWord m (0x40011000 + BitVec.ofNat 32 (4 * j)) := by
    intro j hj
    apply loadWord_of_changedOnly hm'
    intro k hk
    rw [mem_region]
    bv_omega
  refine ⟨fun j hj => ?_, fun j hj => ?_, fun j hj => ?_⟩
  · rw [hword j (by omega)]
    exact h.identity j hj
  · rw [show (0x40012000 + BitVec.ofNat 32 (4 * j) : Word) =
      0x40011000 + BitVec.ofNat 32 (4 * (j + 1024)) by bv_omega, hword _ (by omega),
      show (0x40011000 + BitVec.ofNat 32 (4 * (j + 1024)) : Word) =
        0x40012000 + BitVec.ofNat 32 (4 * j) by bv_omega]
    exact h.direct j hj
  · rw [show (0x40022000 + BitVec.ofNat 32 (4 * j) : Word) =
      0x40011000 + BitVec.ofNat 32 (4 * (j + 17 * 1024)) by bv_omega, hword _ (by omega),
      show (0x40011000 + BitVec.ofNat 32 (4 * (j + 17 * 1024)) : Word) =
        0x40022000 + BitVec.ofNat 32 (4 * j) by bv_omega]
    exact h.mmio j hj

theorem leaves_write (h : BootstrapLeaves m) (hi : i < 1024) (x : Word) :
    BootstrapLeaves (storeWord m (s.pword p i) x) := by
  refine leaves_of_changedOnly h (storeWord_changedOnly m _ x) ?_
  have hpword := pword_toNat (s := s) (p := p) hi
  have hhigh := (s.page p).high
  rw [word_toNat hi] at hpword
  by_cases hp : p = .rootA
  · subst hp
    have hroot : (s.page .rootA).base.toNat = 0xc0010000 := by rw [s.rootA]; decide
    omega
  · have habove := s.above p hp
    omega

theorem leaves_write_device (h : BootstrapLeaves m) (x : Word) :
    BootstrapLeaves (storeWord m traceBase x) :=
  leaves_of_changedOnly h (storeWord_changedOnly m _ x) (Or.inl (by decide))

end Stored

/-! ## The unit during a run -/

/-- Outside the entry under test only the bootstrap map may be remembered. -/
def Allowed (v : Word) (t : Platform.Access) : Prop :=
  v.toNat / 2 ^ 22 ≠ testDirectoryIndex → bootstrapMapping v = some t

def Linked (f : Contents) (root : Page) : Prop :=
  ∀ i < 1024, i ≠ testDirectoryIndex → f root i = some (directoryEntry i)

structure Known (s : Symbols) (f : Contents) (root : Page) (n : Nat) (m : Mmu) : Prop where
  lookups : m.lookups = n
  agrees : m.agrees = true
  faulted : m.faulted = false
  ttbr0 : m.ttbr0 = s.paddr root
  leaves : BootstrapLeaves m.mem
  stored : Stored s m.mem f
  linkedA : Linked f .rootA
  linked : Linked f root
  remembered : Bounded Allowed m.remembered

section Known

variable {s : Symbols} {f : Contents} {root : Page} {n : Nat} {m : Mmu} {p : Page} {i : Nat}

theorem paddr_rootA : s.paddr .rootA = bootstrapRoot := by
  rw [Symbols.paddr, s.rootA]
  rfl

theorem pword_eq_entry (p : Page) (i : Nat) : s.pword p i = s.paddr p + BitVec.ofNat 32 (4 * i) :=
  rfl

theorem translateVa_congr_root {mem : Mem} {root root' v : Word}
    (h : loadWord mem (root' + BitVec.ofNat 32 (4 * (v.toNat / 2 ^ 22))) =
      loadWord mem (root + BitVec.ofNat 32 (4 * (v.toNat / 2 ^ 22)))) :
    translateVa mem root' v = translateVa mem root v := by
  simp only [translateVa, walk, directoryOffset_eq, h]

theorem Known.kept (h : Known s f root n m) {v : Word}
    (hv : v.toNat / 2 ^ 22 ≠ testDirectoryIndex) :
    translateVa m.mem m.ttbr0 v = bootstrapMapping v := by
  have hslot : v.toNat / 2 ^ 22 < 1024 := by omega
  have hA := h.stored .rootA _ _ hslot (h.linkedA _ hslot hv)
  have hroot := h.stored root _ _ hslot (h.linked _ hslot hv)
  rw [pword_eq_entry] at hA hroot
  rw [h.ttbr0, translateVa_congr_root (hroot.trans hA.symm), paddr_rootA]
  rw [paddr_rootA] at hA
  exact translate_of_directoryEntry h.leaves hA

theorem Known.conforming {policy : Nat → Policy Word} {es : List Word} (h : Known s f root n m)
    (hes : es = [] ∨ (es = [0x20040001] ∧ Retains policy) ∨
      (es = [failEvent 2] ∧ ¬ Retains policy)) : Conforming policy m es :=
  ⟨h.faulted, fun _ hv => h.kept hv, hes⟩

theorem Known.weaken {f' : Contents} (h : Known s f root n m)
    (hf : ∀ p i x, i < 1024 → f' p i = some x → f p i = some x) (hA : Linked f' .rootA)
    (hroot : Linked f' root) : Known s f' root n m :=
  { h with
    stored := fun p i x hi hx => h.stored p i x hi (hf p i x hi hx)
    linkedA := hA
    linked := hroot }

variable (policy : Nat → Policy Word)

theorem Known.find (h : Known s f root n m) (v : Word) :
    Known s f root (n + 1) (m.find policy v).2 :=
  { h with
    lookups := congrArg (· + 1) h.lookups
    remembered := h.remembered.lookup fun _ ht hv => (h.kept hv).symm.trans ht }

theorem Known.find_kept {v : Word} {t : Platform.Access} (h : Known s f root n m)
    (hv : v.toNat / 2 ^ 22 ≠ testDirectoryIndex) (ht : bootstrapMapping v = some t) :
    (m.find policy v).1 = some t ∧ Known s f root (n + 1) (m.find policy v).2 := by
  refine ⟨?_, h.find policy v⟩
  refine h.remembered.lookup_eq ((h.kept hv).trans ht) (fun _ => ht) ?_
  exact fun q hq => Option.some.inj ((hq hv).symm.trans ht)

theorem bootstrapMapping_word (hi : i < 1024) :
    (s.word p i).toNat / 2 ^ 22 ≠ testDirectoryIndex ∧
      bootstrapMapping (s.word p i) = some ⟨s.pword p i, true, true, true, false⟩ := by
  have hlow := (s.page p).low
  have hhigh := (s.page p).high
  have hword := word_toNat (s := s) (p := p) hi
  refine ⟨by rw [testDirectoryIndex]; omega, ?_⟩
  rw [bootstrapMapping, if_neg (by bv_omega), if_pos (by bv_omega), pword_eq]

theorem Known.find_word (h : Known s f root n m) (hi : i < 1024) :
    (m.find policy (s.word p i)).1 = some ⟨s.pword p i, true, true, true, false⟩ ∧
      Known s f root (n + 1) (m.find policy (s.word p i)).2 :=
  h.find_kept policy (bootstrapMapping_word hi).1 (bootstrapMapping_word hi).2

theorem Linked.set (h : Linked f root) (hne : ¬ (root = p ∧ i ≠ testDirectoryIndex)) (x : Word) :
    Linked (f.set p i x) root := by
  intro j hj hne'
  rw [Contents.set, if_neg]
  · exact h j hj hne'
  · rintro ⟨rfl, rfl⟩
    exact hne ⟨rfl, hne'⟩

theorem Known.write_word (h : Known s f root n m) (hi : i < 1024) (x : Word)
    (hA : ¬ (.rootA = p ∧ i ≠ testDirectoryIndex)) (hroot : ¬ (root = p ∧ i ≠ testDirectoryIndex)) :
    Known s (f.set p i x) root (n + 1) (m.step policy (.write (s.word p i) x)) := by
  obtain ⟨hfound, hknown⟩ := h.find_word policy hi
  have hstep : m.step policy (.write (s.word p i) x) = { (m.find policy (s.word p i)).2 with
      mem := storeWord m.mem (s.pword p i) x } := by
    rw [Mmu.step, hfound]
    rfl
  rw [hstep]
  exact { hknown with
    leaves := leaves_write h.leaves hi x
    stored := h.stored.write hi x
    linkedA := h.linkedA.set hA x
    linked := h.linked.set hroot x }

/-- A load that agrees only looks up. -/
theorem Mmu.step_read_of_load {a v : Word} {t : Platform.Access}
    (hfound : (m.find policy a).1 = some t) (hreadable : t.readable = true)
    (hv : loadWord (m.find policy a).2.mem t.paddr = v) :
    m.step policy (.read a v) = (m.find policy a).2 := by
  have hstep : m.step policy (.read a v) = { (m.find policy a).2 with
      agrees := (m.find policy a).2.agrees && loadWord (m.find policy a).2.mem t.paddr == v } := by
    rw [Mmu.step, hfound, Mmu.load]
    exact if_pos hreadable
  rw [hstep, hv, beq_self_eq_true, Bool.and_true]

theorem Mmu.step_read {a v : Word} {t : Platform.Access} (hfound : (m.find policy a).1 = some t)
    (hreadable : t.readable = true) :
    (m.step policy (.read a v)).agrees = false ∨
      (v = loadWord (m.find policy a).2.mem t.paddr ∧
        m.step policy (.read a v) = (m.find policy a).2) := by
  by_cases hv : loadWord (m.find policy a).2.mem t.paddr = v
  · exact Or.inr ⟨hv.symm, Mmu.step_read_of_load policy hfound hreadable hv⟩
  · refine Or.inl ?_
    rw [Mmu.step, hfound, Mmu.load]
    simp [hreadable, hv]

theorem Known.read_word (h : Known s f root n m) (hi : i < 1024) {x : Word} (hx : f p i = some x)
    (v : Word) : (m.step policy (.read (s.word p i) v)).agrees = false ∨
      (v = x ∧ Known s f root (n + 1) (m.step policy (.read (s.word p i) v))) := by
  obtain ⟨hfound, hknown⟩ := h.find_word policy hi
  rcases Mmu.step_read policy (v := v) hfound rfl with hlost | ⟨hv, hstep⟩
  · exact Or.inl hlost
  · rw [hstep]
    exact Or.inr ⟨hv.trans (hknown.stored p i x hi hx), hknown⟩

def onPage (s : Symbols) (p : Page) : Platform.Access := ⟨s.paddr p, true, true, false, false⟩

theorem Known.walk_test {table page : Page} (h : Known s f root n m)
    (hdir : f root testDirectoryIndex = some (s.paddr table ||| pteValid))
    (htable : f table 0 = some (s.paddr page ||| pageFlags)) :
    translateVa m.mem m.ttbr0 testVaddr = some (onPage s page) := by
  have hslot : testVaddr.toNat / 2 ^ 22 = testDirectoryIndex := by decide
  have hindex : testVaddr.toNat / 4096 % 1024 = 0 := by decide
  have hpde : loadWord m.mem (s.paddr root + BitVec.ofNat 32 (4 * (testVaddr.toNat / 2 ^ 22))) =
      s.paddr table ||| pdeValid := by
    rw [hslot]
    exact h.stored root _ _ (by decide) hdir
  have hpte : loadWord m.mem (s.paddr table +
      BitVec.ofNat 32 (4 * (testVaddr.toNat / 4096 % 1024))) = s.paddr page ||| pageFlags := by
    rw [hindex]
    exact h.stored table _ _ (by decide) htable
  rw [h.ttbr0, translate_of_entry paddr_aligned paddr_aligned (by decide) hpde hpte,
    access_frame_flags paddr_aligned (by decide), show testVaddr &&& 0xfff = 0#32 by decide,
    BitVec.add_zero]
  rfl

/-- What is left of `r` after the unit's choice at lookup `n`. -/
def recalled (n : Nat) (r : Option Platform.Access) : Option Platform.Access :=
  if (policy n).keep testVaddr then r else none

def filled (n : Nat) (t : Platform.Access) : Option Platform.Access :=
  if (policy n).fill then some t else none

theorem Known.find_test {table page : Page} {r : Option Platform.Access}
    (h : Known s f root n m) (hdir : f root testDirectoryIndex = some (s.paddr table ||| pteValid))
    (htable : f table 0 = some (s.paddr page ||| pageFlags)) (hr : m.remembered testVaddr = r) :
    (m.find policy testVaddr).1 = (recalled policy n r).or (some (onPage s page)) ∧
      (m.find policy testVaddr).2.remembered testVaddr =
        (recalled policy n r).or (filled policy n (onPage s page)) := by
  have hwalk := h.walk_test hdir htable
  have hkept : evict (policy m.lookups).keep m.remembered testVaddr = recalled policy n r := by
    rw [evict, recalled, h.lookups, hr]
  refine ⟨?_, ?_⟩
  · calc (m.find policy testVaddr).1
        = (evict (policy m.lookups).keep m.remembered testVaddr).or
            (translateVa m.mem m.ttbr0 testVaddr) := lookup_fst
      _ = (recalled policy n r).or (some (onPage s page)) := by rw [hkept, hwalk]
  · calc (m.find policy testVaddr).2.remembered testVaddr
        = (evict (policy m.lookups).keep m.remembered testVaddr).or
            (if (policy m.lookups).fill then translateVa m.mem m.ttbr0 testVaddr else none) :=
          lookup_snd_self
      _ = (recalled policy n r).or (filled policy n (onPage s page)) := by
          rw [hkept, hwalk, h.lookups, filled]

theorem recalled_none : recalled policy n none = none := ite_self none

/-- At the second test the first page is still there, or nothing is. -/
theorem recalled_filled (t : Platform.Access) :
    (Retains policy → recalled policy (testLookup + 1) (filled policy testLookup t) = some t) ∧
      (¬ Retains policy → recalled policy (testLookup + 1) (filled policy testLookup t) = none) := by
  rw [Retains, recalled, filled]
  cases (policy testLookup).fill <;> cases (policy (testLookup + 1)).keep testVaddr <;> simp

theorem Known.load_test {x : Word} (h : Known s f root n m) (hx : f p 0 = some x) :
    loadWord m.mem (onPage s p).paddr = x := by
  have hword := h.stored p 0 x (by decide) hx
  rwa [pword_zero] at hword

theorem Known.read_test {x : Word} (h : Known s f root n m)
    (hfound : (m.find policy testVaddr).1 = some (onPage s p)) (hx : f p 0 = some x) (v : Word) :
    (m.step policy (.read testVaddr v)).agrees = false ∨
      (v = x ∧ m.step policy (.read testVaddr v) = (m.find policy testVaddr).2) := by
  rcases Mmu.step_read policy (v := v) hfound rfl with hlost | ⟨hv, hstep⟩
  · exact Or.inl hlost
  · exact Or.inr ⟨hv.trans ((h.find policy testVaddr).load_test hx), hstep⟩

theorem Known.answer_test {x : Word} (h : Known s f root n m)
    (hfound : (m.find policy testVaddr).1 = some (onPage s p)) (hx : f p 0 = some x) :
    m.step policy (.read testVaddr x) = (m.find policy testVaddr).2 :=
  Mmu.step_read_of_load policy hfound rfl ((h.find policy testVaddr).load_test hx)

theorem Known.answer_word (h : Known s f root n m) (hi : i < 1024) {x : Word}
    (hx : f p i = some x) : Known s f root (n + 1) (m.step policy (.read (s.word p i) x)) := by
  obtain ⟨hfound, hknown⟩ := h.find_word policy hi
  rw [Mmu.step_read_of_load policy hfound rfl (hknown.stored p i x hi hx)]
  exact hknown

/-- An event. -/
theorem Known.write_trace (h : Known s f root n m) (x : Word) :
    Known s f root (n + 1) (m.step policy (.write traceBase x)) := by
  have hmap : bootstrapMapping traceBase = some ⟨traceBase, true, true, false, false⟩ := by decide
  obtain ⟨hfound, hknown⟩ := h.find_kept policy (by decide) hmap
  have hstep : m.step policy (.write traceBase x) = { (m.find policy traceBase).2 with
      mem := storeWord m.mem traceBase x } := by
    rw [Mmu.step, hfound]
    rfl
  rw [hstep]
  exact { hknown with
    leaves := leaves_write_device h.leaves x
    stored := h.stored.write_device x }

theorem Known.flush (h : Known s f root n m) :
    Known s f root n (m.step policy (.mcr .tlbiall 0)) :=
  { h with remembered := bounded_flush }

theorem Known.setTtbr0 {root' : Page} (h : Known s f root n m) (hroot : Linked f root') :
    Known s f root' n (m.step policy (.mcr .ttbr0 (s.paddr root'))) :=
  { h with ttbr0 := rfl, linked := hroot }

end Known

end Minemu.Headless.TtbrSwitch
