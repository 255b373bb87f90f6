import Minemu.Headless.TtbrSwitch.Replay

/-!
# `headless/ttbr-switch` passes where the first page is retained

The answers of a unit that keeps its translation until the second flush lead to the end,
and those of another unit do not.
-/

namespace Minemu.Headless.TtbrSwitch

open Minemu.Lib.Memory Minemu.Lib.Page Minemu.Lib.Arm Minemu.Lib.Guest Minemu.Lib.Tlb
open Minemu.Platform Minemu.Startup.BootstrapMap Minemu.Startup.BootstrapWalk

section Answers

variable {s : Symbols} {policy : Nat → Policy Word} {booted : Booted} {f : Contents}
  {root p : Page} {i n : Nat} {P J : Mmu → Prop}
  {k : Word → Code Unit Unit} {g : Code Unit Unit} {Q : Unit → World Unit → Prop}

abbrev Answering (policy : Nat → Policy Word) (booted : Booted) (P : Mmu → Prop) :
    World Unit → Prop :=
  Quiet (replay policy booted) fun m _ _ => P m

/-- The end of a passing run, with every answer the unit's. -/
def Passing (policy : Nat → Policy Word) (booted : Booted) (w : World Unit) : Prop :=
  w.events = [0x20040001] ∧ ((replay policy booted).watch w.log).agrees = true

abbrev Answered (s : Symbols) (policy : Nat → Policy Word) (booted : Booted) (P : Mmu → Prop)
    (g : Code Unit Unit) (Q : Unit → World Unit → Prop) : Prop :=
  Attains (program s).handlers (Answering policy booted P) g Q (Passing policy booted)

theorem answer_then {a : Word} (v : Word) (h : ∀ m, P m → J (m.step policy (.read a v)))
    (hk : Answered s policy booted J (k v) Q) : Answered s policy booted P (read a >>= k) Q :=
  Attains.perform_then v (fun _ hw => ⟨v, rfl, hw.record rfl fun m _ _ hm => h m hm⟩) hk

theorem store_then {a x : Word} (hne : a ≠ traceBase)
    (h : ∀ m, P m → J (m.step policy (.write a x))) (hg : Answered s policy booted J g Q) :
    Answered s policy booted P (write a x >>= fun _ => g) Q :=
  Attains.issue_then
    (fun _ hw => ⟨0, hw.record (event?_write hne) fun m _ _ hm => h m hm⟩) hg

theorem control_then {register : Cp15} {x : Word}
    (h : ∀ m, P m → J (m.step policy (.mcr register x))) (hg : Answered s policy booted J g Q) :
    Answered s policy booted P (mcr register x >>= fun _ => g) Q :=
  Attains.issue_then (fun _ hw => ⟨0, hw.record rfl fun m _ _ hm => h m hm⟩) hg

theorem word_then {x : Word} (hi : i < 1024) (hroot : root ≠ p ∨ i = testDirectoryIndex)
    (hA : .rootA ≠ p ∨ i = testDirectoryIndex)
    (hg : Answered s policy booted (Known s (f.set p i x) root (n + 1)) g Q) :
    Answered s policy booted (Known s f root n) (write (s.word p i) x >>= fun _ => g) Q :=
  store_then (word_ne hi) (fun _ h => h.write_word policy hi x (by tauto) (by tauto)) hg

theorem copyEntry_answered {n : Nat} (hn : n < 1024) :
    Answered s policy booted (Known s (copied n) .rootA (4 * n)) (copyEntry s n)
      fun _ => Answering policy booted (Known s (copied (n + 1)) .rootA (4 * (n + 1))) := by
  rw [← bind_pure_unit (x := copyEntry s n)]
  unfold copyEntry
  simp only [bind_assoc]
  refine answer_then (directoryEntry n) (fun _ h => h.answer_word policy hn rfl) ?_
  iterate 3 refine word_then hn (Or.inl nofun) (Or.inl nofun) ?_
  refine Attains.ret fun w hw => hw.mono fun m _ _ hm => ?_
  exact hm.weaken (fun _ _ _ _ => copied_succ) (linked_rootA _) (linked_rootA _)

theorem clear_then (hg : Answered s policy booted (Recalling s f root n none) g Q) :
    Answered s policy booted (Known s f root n) (minemuMmuTlbiall >>= fun _ => g) Q :=
  control_then (fun _ h => ⟨h.flush policy, rfl⟩) hg

theorem tested_then {r : Option Platform.Access} {table page : Page} {value code : Word}
    (hdir : f root testDirectoryIndex = some (s.paddr table ||| pteValid))
    (htable : f table 0 = some (s.paddr page ||| pageFlags))
    (hfound : (recalled policy n r).or (some (onPage s page)) = some (onPage s p))
    (hvalue : f p 0 = some value)
    (hg : Answered s policy booted
      (Recalling s f root (n + 1) ((recalled policy n r).or (filled policy n (onPage s page)))) g Q) :
    Answered s policy booted (Recalling s f root n r) (requireTest value code >>= fun _ => g) Q := by
  refine answer_then (k := fun v => minemuRequire (v == value) code >>= fun _ => g)
    (J := Recalling s f root (n + 1) ((recalled policy n r).or (filled policy n (onPage s page))))
    value (fun m h => ?_) ?_
  · obtain ⟨hfind, hremembered⟩ := h.1.find_test policy hdir htable h.2
    rw [h.1.answer_test policy (hfind.trans hfound) hvalue]
    exact ⟨h.1.find policy testVaddr, hremembered⟩
  · rw [beq_self_eq_true]
    exact hg

theorem fresh_answered (table page : Page) {value code : Word}
    (hdir : f root testDirectoryIndex = some (s.paddr table ||| pteValid))
    (htable : f table 0 = some (s.paddr page ||| pageFlags)) (hvalue : f page 0 = some value)
    (hg : Answered s policy booted
      (Recalling s f root (n + 1) (filled policy n (onPage s page))) g Q) :
    Answered s policy booted (Recalling s f root n none)
      (requireTest value code >>= fun _ => g) Q := by
  refine tested_then (p := page) hdir htable (by rw [recalled_none]; rfl) hvalue ?_
  rw [recalled_none]
  exact hg

theorem stale_answered (hretains : Retains policy)
    (hg : Answered s policy booted (Known s (prepared s) .rootB (testLookup + 2)) g Q) :
    Answered s policy booted
      (Recalling s (prepared s) .rootB (testLookup + 1)
        (filled policy testLookup (onPage s .pageA)))
      (requireTest 0xaaaaaaaa 2 >>= fun _ => g) Q := by
  have hkept := (recalled_filled policy (onPage s .pageA)).1 hretains
  have hdir : prepared s .rootB testDirectoryIndex = some (s.paddr .tableB ||| pteValid) := rfl
  have htable : prepared s .tableB 0 = some (s.paddr .pageB ||| pageFlags) := rfl
  refine tested_then (p := .pageA) hdir htable (by rw [hkept]; rfl) rfl ?_
  exact hg.pre fun w hw => hw.mono fun _ _ _ h => h.1

theorem minemuKernelMain_answered (hretains : Retains policy) :
    Answered s policy booted (Known s (copied 0) .rootA 0) (minemuKernelMain s)
      fun _ _ => False := by
  unfold minemuKernelMain
  refine Attains.bind (Attains.forUpTo (J := fun n =>
    Answering policy booted (Known s (copied n) .rootA (4 * n)))
    fun _ hn => copyEntry_answered hn) fun _ => ?_
  iterate 4 refine word_then (by decide) (Or.inl nofun) (Or.inl nofun) ?_
  refine word_then (by decide) (Or.inr rfl) (Or.inr rfl) ?_
  refine word_then (by decide) (Or.inl nofun) (Or.inl nofun) ?_
  refine clear_then (f := prepared s) (fresh_answered .tableA .pageA rfl rfl rfl ?_)
  refine control_then (J := Recalling s (prepared s) .rootB (testLookup + 1)
    (filled policy testLookup (onPage s .pageA)))
    (fun m h => ⟨h.1.setTtbr0 policy (linked_prepared (Or.inr rfl)), h.2⟩) ?_
  refine stale_answered hretains (clear_then (fresh_answered .tableB .pageB rfl rfl rfl ?_))
  have hroot : (0x40010000 : Word) = s.paddr .rootA := paddr_rootA.symm
  rw [hroot]
  refine control_then (fun m h => h.1.setTtbr0 policy (linked_prepared (Or.inl rfl))) ?_
  refine clear_then (fresh_answered .tableA .pageA rfl rfl rfl ?_)
  refine Attains.issue_then (M := Passing policy booted) (fun w hw => ⟨0, ?_, ?_⟩)
    (Attains.stop fun _ hw => hw)
  · have hevents := events_record w (.write traceBase 0x20040001)
    rw [hw.events] at hevents
    exact hevents
  · have hlog : (replay policy booted).watch (w.record (.write traceBase 0x20040001)).log =
        ((replay policy booted).watch w.log).step policy (.write traceBase 0x20040001) :=
      Monitor.watch_append _ _ _
    exact hlog ▸ (hw.holds.1.write_trace policy 0x20040001).agrees

end Answers

/-- Where the unit retains the first page, some run, answered as the unit answers, ends with the
expected trace. -/
theorem retained_passes (s : Symbols) {policy : Nat → Policy Word} (booted : Booted)
    (hretains : Retains policy) :
    ∃ cs, ((program s).run cs).1 = .stop ∧ Passing policy booted ((program s).run cs).2 := by
  obtain ⟨cs, hcs⟩ := (minemuKernelMain_answered hretains (program s).start
    ⟨rfl, known_booted booted⟩).run
  exact ⟨cs, hcs.stopped⟩

/-- No other unit lets the case pass. -/
theorem retains_of_passing {s : Symbols} {policy : Nat → Policy Word} {booted : Booted}
    {cs : List (Choice Word Taken)} (h : Passing policy booted ((program s).run cs).2) :
    Retains policy := by
  obtain ⟨hevents, hagrees⟩ := h
  rcases (run_fine (s := s) cs hagrees).events with hnone | ⟨-, hretains⟩ | ⟨hfailed, -⟩
  · exact absurd (hevents.symm.trans hnone) (by simp)
  · exact hretains
  · exact absurd (hevents.symm.trans hfailed) (by decide)

/-- On a conforming platform no access faults, the rest of the address space is kept, and only
the check before the second flush can fail: the case can pass if and only if the first page
is retained until then. -/
theorem ttbrSwitch_conforms (s : Symbols) (policy : Nat → Policy Word) (booted : Booted) :
    (∀ cs, Fine policy booted ((program s).run cs).2) ∧
      ((∃ cs, ((program s).run cs).1 = .stop ∧ Passing policy booted ((program s).run cs).2) ↔
        Retains policy) :=
  ⟨run_fine, fun ⟨_, _, hpassing⟩ => retains_of_passing hpassing, retained_passes s booted⟩

theorem program_attainable (s : Symbols) : (program s).Attainable := by
  let m : Machine := ⟨fun _ => 0, fun _ => 0, fun _ => 0, fun _ => 0, fun _ => 0, 0, 0xd3,
    fun _ => 0, fun _ => 0⟩
  obtain ⟨-, -, booted, -⟩ := exists_booted ⟨0, 0, 0, 0, 0, 0, 0, 0, 0, 0⟩ (m := m) (by decide)
  have hretains : Retains fun _ : Nat => (⟨fun _ => true, true⟩ : Policy Word) := ⟨rfl, rfl⟩
  obtain ⟨cs, hstop, hpassing⟩ := retained_passes s booted hretains
  exact ⟨cs, hstop, hpassing.1⟩

end Minemu.Headless.TtbrSwitch
