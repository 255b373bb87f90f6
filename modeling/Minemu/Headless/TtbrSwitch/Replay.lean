import Minemu.Headless.TtbrSwitch.Translation

/-!
# Every run of `headless/ttbr-switch` on a conforming platform

Each command of the kernel takes what is known of the unit on, unless the platform has
disagreed.
-/

namespace Minemu.Headless.TtbrSwitch

open Minemu.Lib.Memory Minemu.Lib.Page Minemu.Lib.Arm Minemu.Lib.Guest Minemu.Lib.Tlb
open Minemu.Platform Minemu.Startup.BootstrapMap Minemu.Startup.BootstrapWalk

section Run

variable {s : Symbols} {policy : Nat → Policy Word} {booted : Booted} {f : Contents}
  {root p : Page} {i n : Nat} {P J : Mmu → Prop}
  {k : Word → Code Unit Unit} {g : Code Unit Unit} {Q : Unit → World Unit → Prop}

/-- No event, and `P` unless the platform has disagreed. -/
abbrev Agreeing (policy : Nat → Policy Word) (booted : Booted) (P : Mmu → Prop) :
    World Unit → Prop :=
  Quiet (replay policy booted) fun m _ _ => m.agrees = true → P m

abbrev Replayed (s : Symbols) (policy : Nat → Policy Word) (booted : Booted) (P : Mmu → Prop)
    (g : Code Unit Unit) (Q : Unit → World Unit → Prop) : Prop :=
  Triple (program s).handlers (Fine policy booted) (Agreeing policy booted P) g Q

theorem agreeing_stable (hP : ∀ m, P m → ∃ f root n, Known s f root n m) :
    Stable (program s).handlers (Fine policy booted) (Agreeing policy booted P) := by
  refine Stable.of_stop (program_weak s).handler_stop fun w hw hagrees => ?_
  obtain ⟨f, root, n, hknown⟩ := hP _ (hw.holds hagrees)
  exact hknown.conforming (Or.inl hw.events)

theorem known_stable :
    Stable (program s).handlers (Fine policy booted) (Agreeing policy booted (Known s f root n)) :=
  agreeing_stable fun _ h => ⟨_, _, _, h⟩

theorem replayed_read (J : Word → Mmu → Prop) {a : Word}
    (hP : ∀ m, P m → ∃ f root n, Known s f root n m)
    (hstep : ∀ m v, P m →
      (m.step policy (.read a v)).agrees = false ∨ J v (m.step policy (.read a v)))
    (hk : ∀ v, Replayed s policy booted (J v) (k v) Q) :
    Replayed s policy booted P (read a >>= k) Q := by
  refine Quiet.read_then (agreeing_stable hP) (fun v m _ _ hm hagrees => ?_) hk
  have hbefore := hm (Mmu.agrees_of_step hagrees)
  exact (hstep m v hbefore).resolve_left (Bool.eq_false_iff.not.mpr (not_not_intro hagrees))

theorem replayed_write {a x : Word} (hne : a ≠ traceBase)
    (hP : ∀ m, P m → ∃ f root n, Known s f root n m)
    (hstep : ∀ m, P m → J (m.step policy (.write a x)))
    (hg : Replayed s policy booted J g Q) :
    Replayed s policy booted P (write a x >>= fun _ => g) Q :=
  Quiet.write_then (agreeing_stable hP) hne
    (fun m _ _ hm hagrees => hstep m (hm (Mmu.agrees_of_step hagrees))) hg

theorem replayed_mcr {register : Cp15} {x : Word}
    (hP : ∀ m, P m → ∃ f root n, Known s f root n m)
    (hstep : ∀ m, P m → J (m.step policy (.mcr register x)))
    (hg : Replayed s policy booted J g Q) :
    Replayed s policy booted P (mcr register x >>= fun _ => g) Q :=
  Quiet.mcr_then (agreeing_stable hP)
    (fun m _ _ hm hagrees => hstep m (hm (Mmu.agrees_of_step hagrees))) hg

theorem replayed_fail (hP : ∀ m, P m → ∃ f root n, Known s f root n m)
    (hforgets : ¬ Retains policy) :
    Replayed s policy booted P (minemuConformanceFail 2) Q := by
  refine Triple.issue_then (M := Fine policy booted) (agreeing_stable hP)
    (fun v w hw hagrees => ?_) (Triple.stop fun _ hw => hw)
  have hlog : (replay policy booted).watch (w.record (.write traceBase (failEvent 2))).log =
      ((replay policy booted).watch w.log).step policy (.write traceBase (failEvent 2)) :=
    Monitor.watch_append _ _ _
  have hevents := events_record w (.write traceBase (failEvent 2))
  rw [hw.events] at hevents
  obtain ⟨f, root, n, hknown⟩ := hP _ (hw.holds (Mmu.agrees_of_step (hlog ▸ hagrees)))
  have hafter : Conforming policy _ [failEvent 2] :=
    (hknown.write_trace policy (failEvent 2)).conforming (Or.inr (Or.inr ⟨rfl, hforgets⟩))
  rw [← hlog] at hafter
  exact hevents ▸ hafter

/-- Nothing is said of a run once the platform has disagreed. -/
theorem replayed_lost (g : Code Unit Unit) :
    Triple (program s).handlers (Fine policy booted)
      (fun w => ((replay policy booted).watch w.log).agrees = false) g fun _ _ => True := by
  have hrecord : ∀ (w : World Unit) x, ((replay policy booted).watch w.log).agrees = false →
      ((replay policy booted).watch (w.record x).log).agrees = false := by
    intro w x hw
    rw [World.record, Monitor.watch_append]
    refine Bool.eq_false_iff.mpr fun hagrees => ?_
    exact Bool.eq_false_iff.mp hw (Mmu.agrees_of_step hagrees)
  have hkept : ∀ (command : Command Unit) v (w : World Unit),
      ((replay policy booted).watch w.log).agrees = false →
        ((replay policy booted).watch (exec command v w).2.log).agrees = false := by
    intro command v w hw
    cases command <;> first | exact hw | exact hrecord w _ hw
  have hfine : ∀ w : World Unit, ((replay policy booted).watch w.log).agrees = false →
      Fine policy booted w := fun w hw hagrees => absurd hagrees (Bool.eq_false_iff.mp hw)
  exact (Triple.of_kept hkept hfine g).post fun _ _ _ => trivial

theorem replayed_of_pre {φ : Prop} (hφ : ∀ m, P m → φ)
    (hg : φ → Replayed s policy booted P g fun _ _ => True) :
    Replayed s policy booted P g fun _ _ => True := by
  by_cases h : φ
  · exact hg h
  · refine (replayed_lost g).pre fun w hw => Bool.eq_false_iff.mpr fun hagrees => ?_
    exact h (hφ _ (hw.holds hagrees))

theorem replayed_word {x : Word} (hi : i < 1024)
    (hroot : root ≠ p ∨ i = testDirectoryIndex) (hA : .rootA ≠ p ∨ i = testDirectoryIndex)
    (hg : Replayed s policy booted (Known s (f.set p i x) root (n + 1)) g Q) :
    Replayed s policy booted (Known s f root n) (write (s.word p i) x >>= fun _ => g) Q :=
  replayed_write (word_ne hi) (fun _ h => ⟨_, _, _, h⟩)
    (fun _ h => h.write_word policy hi x (by tauto) (by tauto)) hg

def copied (n : Nat) : Contents
  | .rootA, i => some (directoryEntry i)
  | .rootB, i => if i < n then some (directoryEntry i) else none
  | _, _ => none

theorem linked_rootA (n : Nat) : Linked (copied n) .rootA := fun _ _ _ => rfl

theorem copied_succ {n : Nat} {x y : Word} {q : Page} {j : Nat} {z : Word}
    (hz : copied (n + 1) q j = some z) :
    ((((copied n).set .rootB n (directoryEntry n)).set .tableA n x).set .tableB n y) q j =
      some z := by
  cases q with
  | rootA => exact hz
  | rootB =>
      simp only [Contents.set, copied] at hz ⊢
      by_cases hj : j = n
      · subst hj
        simpa using hz
      · have hiff : j < n + 1 ↔ j < n := by omega
        simpa [hj, hiff] using hz
  | tableA => cases hz
  | tableB => cases hz
  | pageA => cases hz
  | pageB => cases hz

theorem copyEntry_spec {n : Nat} (hn : n < 1024) :
    Replayed s policy booted (Known s (copied n) .rootA (4 * n)) (copyEntry s n)
      fun _ => Agreeing policy booted (Known s (copied (n + 1)) .rootA (4 * (n + 1))) := by
  rw [← bind_pure_unit (x := copyEntry s n)]
  unfold copyEntry
  simp only [bind_assoc]
  refine replayed_read
    (fun v m => v = directoryEntry n ∧ Known s (copied n) .rootA (4 * n + 1) m)
    (fun _ h => ⟨_, _, _, h⟩) (fun m v h => h.read_word policy hn rfl v) fun v => ?_
  have hcopy : ∀ m, v = directoryEntry n ∧ Known s (copied n) .rootA (4 * n + 1) m →
      Known s ((copied n).set .rootB n (directoryEntry n)) .rootA (4 * n + 2)
        (m.step policy (.write (s.word .rootB n) v)) := by
    rintro m ⟨rfl, h⟩
    exact h.write_word policy hn _ (by simp) (by simp)
  refine replayed_write (word_ne hn) (fun _ h => ⟨_, _, _, h.2⟩) hcopy ?_
  refine replayed_word hn (Or.inl nofun) (Or.inl nofun) ?_
  refine replayed_word hn (Or.inl nofun) (Or.inl nofun) ?_
  refine (Triple.ret
    (Q := fun _ => Agreeing policy booted (Known s (copied (n + 1)) .rootA (4 * (n + 1))))
    known_stable).pre fun w hw => hw.mono fun m _ _ hm hagrees => ?_
  exact (hm hagrees).weaken (fun _ _ _ _ => copied_succ) (linked_rootA _) (linked_rootA _)

theorem copy_spec :
    Replayed s policy booted (Known s (copied 0) .rootA 0) (Prog.forUpTo (copyEntry s) 1024)
      fun _ => Agreeing policy booted (Known s (copied 1024) .rootA (4 * 1024)) :=
  Triple.forUpTo (J := fun n => Agreeing policy booted (Known s (copied n) .rootA (4 * n)))
    known_stable fun _ hn => copyEntry_spec hn

def prepared (s : Symbols) : Contents :=
  ((((((copied 1024).set .pageA 0 0xaaaaaaaa).set .pageB 0 0xbbbbbbbb).set
    .tableA 0 (s.paddr .pageA ||| pageFlags)).set .tableB 0 (s.paddr .pageB ||| pageFlags)).set
    .rootA testDirectoryIndex (s.paddr .tableA ||| pteValid)).set
    .rootB testDirectoryIndex (s.paddr .tableB ||| pteValid)

theorem linked_prepared (hroot : root = .rootA ∨ root = .rootB) : Linked (prepared s) root := by
  intro i hi hne
  rcases hroot with rfl | rfl
  · simp [prepared, Contents.set, copied, hne]
  · simp [prepared, Contents.set, copied, hne, hi]

/-- `r` is remembered of the test page. -/
abbrev Recalling (s : Symbols) (f : Contents) (root : Page) (n : Nat)
    (r : Option Platform.Access) (m : Mmu) : Prop :=
  Known s f root n m ∧ m.remembered testVaddr = r

theorem test_then {r : Option Platform.Access} {table page : Page} {x : Word}
    (hdir : f root testDirectoryIndex = some (s.paddr table ||| pteValid))
    (htable : f table 0 = some (s.paddr page ||| pageFlags))
    (hfound : (recalled policy n r).or (some (onPage s page)) = some (onPage s p))
    (hx : f p 0 = some x)
    (hk : Replayed s policy booted
      (Recalling s f root (n + 1) ((recalled policy n r).or (filled policy n (onPage s page))))
      (k x) fun _ _ => True) :
    Replayed s policy booted (Recalling s f root n r) (read testVaddr >>= k) fun _ _ => True := by
  refine replayed_read (fun v m => v = x ∧ Recalling s f root (n + 1)
    ((recalled policy n r).or (filled policy n (onPage s page))) m)
    (fun _ h => ⟨_, _, _, h.1⟩) (fun m v h => ?_) fun v => ?_
  · obtain ⟨hknown, hr⟩ := h
    obtain ⟨hfind, hremembered⟩ := hknown.find_test policy hdir htable hr
    rcases hknown.read_test policy (hfind.trans hfound) hx v with hlost | ⟨hv, hstep⟩
    · exact Or.inl hlost
    · rw [hstep]
      exact Or.inr ⟨hv, hknown.find policy testVaddr, hremembered⟩
  · refine replayed_of_pre (fun _ h => h.1) fun hv => ?_
    subst hv
    exact hk.pre fun w hw => hw.mono fun _ _ _ h hagrees => (h hagrees).2

/-- A test after a flush finds the page of the root. -/
theorem fresh_then (table page : Page) {value code : Word}
    (hdir : f root testDirectoryIndex = some (s.paddr table ||| pteValid))
    (htable : f table 0 = some (s.paddr page ||| pageFlags)) (hvalue : f page 0 = some value)
    (hg : Replayed s policy booted
      (Recalling s f root (n + 1) (filled policy n (onPage s page))) g fun _ _ => True) :
    Replayed s policy booted (Recalling s f root n none) (requireTest value code >>= fun _ => g)
      fun _ _ => True := by
  refine test_then (k := fun v => minemuRequire (v == value) code >>= fun _ => g) (p := page)
    hdir htable (by rw [recalled_none]; rfl) hvalue ?_
  rw [recalled_none, beq_self_eq_true]
  exact hg

/-- The test between the switch and the flush finds the page of the first root if that is still
remembered, and fails otherwise. -/
theorem stale_then
    (hg : Retains policy → Replayed s policy booted
      (Known s (prepared s) .rootB (testLookup + 2)) g fun _ _ => True) :
    Replayed s policy booted
      (Recalling s (prepared s) .rootB (testLookup + 1)
        (filled policy testLookup (onPage s .pageA)))
      (requireTest 0xaaaaaaaa 2 >>= fun _ => g) fun _ _ => True := by
  have hdir : prepared s .rootB testDirectoryIndex = some (s.paddr .tableB ||| pteValid) := rfl
  have htable : prepared s .tableB 0 = some (s.paddr .pageB ||| pageFlags) := rfl
  obtain ⟨hkept, hlost⟩ := recalled_filled policy (onPage s .pageA)
  by_cases hretains : Retains policy
  · refine test_then (k := fun v => minemuRequire (v == 0xaaaaaaaa) 2 >>= fun _ => g)
      (p := .pageA) hdir htable (by rw [hkept hretains]; rfl) rfl ?_
    exact (hg hretains).pre fun w hw => hw.mono fun _ _ _ h hagrees => (h hagrees).1
  · refine test_then (k := fun v => minemuRequire (v == 0xaaaaaaaa) 2 >>= fun _ => g)
      (p := .pageB) hdir htable (by rw [hlost hretains]; rfl) rfl ?_
    exact Triple.bind (M := fun _ _ => False)
      (replayed_fail (fun _ h => ⟨_, _, _, h.1⟩) hretains) fun _ w hw => hw.elim

theorem flush_then (hg : Replayed s policy booted (Recalling s f root n none) g Q) :
    Replayed s policy booted (Known s f root n) (minemuMmuTlbiall >>= fun _ => g) Q :=
  replayed_mcr (fun _ h => ⟨_, _, _, h⟩) (fun _ h => ⟨h.flush policy, rfl⟩) hg

theorem switch_then {r : Option Platform.Access}
    (hg : Replayed s policy booted (Recalling s (prepared s) .rootB n r) g Q) :
    Replayed s policy booted (Recalling s (prepared s) .rootA n r)
      (minemuMmuSetTtbr0 (s.paddr .rootB) >>= fun _ => g) Q :=
  replayed_mcr (fun _ h => ⟨_, _, _, h.1⟩)
    (fun _ h => ⟨h.1.setTtbr0 policy (linked_prepared (Or.inr rfl)), h.2⟩) hg

theorem switch_back_then
    (hg : Replayed s policy booted (Known s (prepared s) .rootA n) g Q) :
    Replayed s policy booted (Known s (prepared s) .rootB n)
      (minemuMmuSetTtbr0 0x40010000 >>= fun _ => g) Q := by
  refine replayed_mcr (fun _ h => ⟨_, _, _, h⟩) (fun m h => ?_) hg
  have hroot : (0x40010000 : Word) = s.paddr .rootA := paddr_rootA.symm
  rw [hroot]
  exact h.setTtbr0 policy (linked_prepared (Or.inl rfl))

theorem pass_spec (hretains : Retains policy) :
    Replayed s policy booted (Known s f root n)
      (minemuTraceEvent 0x20040001 >>= fun _ => minemuFailStop) fun _ _ => True := by
  refine Triple.issue_then (M := Fine policy booted) known_stable (fun v w hw hagrees => ?_)
    (Triple.stop fun _ hw => hw)
  have hlog : (replay policy booted).watch (w.record (.write traceBase 0x20040001)).log =
      ((replay policy booted).watch w.log).step policy (.write traceBase 0x20040001) :=
    Monitor.watch_append _ _ _
  have hevents := events_record w (.write traceBase 0x20040001)
  rw [hw.events] at hevents
  have hknown := hw.holds (Mmu.agrees_of_step (hlog ▸ hagrees))
  have hafter : Conforming policy _ [0x20040001] :=
    (hknown.write_trace policy 0x20040001).conforming (Or.inr (Or.inl ⟨rfl, hretains⟩))
  rw [← hlog] at hafter
  exact hevents ▸ hafter

theorem minemuKernelMain_replayed :
    Replayed s policy booted (Known s (copied 0) .rootA 0) (minemuKernelMain s)
      fun _ _ => True := by
  unfold minemuKernelMain
  refine Triple.bind copy_spec fun _ => ?_
  refine replayed_word (by decide) (Or.inl nofun) (Or.inl nofun) ?_
  refine replayed_word (by decide) (Or.inl nofun) (Or.inl nofun) ?_
  refine replayed_word (by decide) (Or.inl nofun) (Or.inl nofun) ?_
  refine replayed_word (by decide) (Or.inl nofun) (Or.inl nofun) ?_
  refine replayed_word (by decide) (Or.inr rfl) (Or.inr rfl) ?_
  refine replayed_word (by decide) (Or.inl nofun) (Or.inl nofun) ?_
  refine flush_then (f := prepared s) ?_
  refine fresh_then .tableA .pageA rfl rfl rfl ?_
  refine switch_then (stale_then fun hretains => ?_)
  refine flush_then (fresh_then .tableB .pageB rfl rfl rfl ?_)
  refine Triple.pre ?_ fun w hw => hw.mono fun m _ _ h hagrees => (h hagrees).1
  refine switch_back_then (flush_then (fresh_then .tableA .pageA rfl rfl rfl ?_))
  exact (pass_spec hretains).pre fun w hw => hw.mono fun m _ _ h hagrees => (h hagrees).1

theorem known_booted (booted : Booted) :
    Known s (copied 0) .rootA 0 ((replay policy booted).watch []) where
  lookups := rfl
  agrees := rfl
  faulted := rfl
  ttbr0 := paddr_rootA.symm
  leaves := booted.tables.toBootstrapLeaves
  stored := by
    intro p i x hi hx
    cases p with
    | rootA =>
        cases hx
        rw [Symbols.pword, paddr_rootA]
        exact booted.tables.directory i hi
    | rootB => cases hx
    | tableA => cases hx
    | tableB => cases hx
    | pageA => cases hx
    | pageB => cases hx
  linkedA := linked_rootA 0
  linked := linked_rootA 0
  remembered := booted.bounded.mono fun _ _ ht _ => ht

theorem run_fine (cs : List (Choice Word Taken)) : Fine policy booted ((program s).run cs).2 :=
  (minemuKernelMain_replayed (program s).start ⟨rfl, fun _ => known_booted booted⟩ cs).1

end Run

end Minemu.Headless.TtbrSwitch
