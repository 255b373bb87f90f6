import Minemu.Context.Switch

/-!
# The phases of a run

Whatever the trampoline, a run has three phases: task A before the first trap, task B
after it, and task A from the second trap on.  The first two traps switch tasks.  A
trap of the third phase resumes task A again, so there is no fourth.
-/

namespace Minemu.Context

open Minemu.Lib Minemu.Lib.Memory Minemu.Lib.Arm Minemu.Trap

/-- What the phases need of an example, where `OnStack t p` says that a frame at `p`
lies on task `t`'s stack. -/
structure Lawful (x : Example) (OnStack : Task → Word → Prop) : Prop where
  call : ∀ t m, OnStack t (m.sp x.bank - 88) →
    (x.entry.call m).bank = x.bank ∧ x.frame m = m.sp x.bank - 88 ∧
      ChangedOnly (region (m.sp x.bank - 88) sizeofTrapFrame) m.mem (x.entry.call m).mem
  restore : ∀ m, m.bank = x.bank →
    block x.entry.restore m = resumed (switchStack m) (TrapFrame.load m.mem (m.r 0)) x.back
  traps : ∀ t m m' q, OnStack t q → m.sp x.bank = q + 88 → x.runs t m m' →
    OnStack t (m'.sp x.bank - 88)
  apart : ∀ p q, OnStack .a p → OnStack .b q →
    ∀ a ∈ region p sizeofTrapFrame, a ∉ region q sizeofTrapFrame
  owner : ∀ t p, OnStack t p → x.owner p = t
  nonzero : ∀ t p, OnStack t p → p ≠ 0
  first : ∀ v mem p, x.taskBFrame v = 0 →
    x.taskAFrame (x.dispatch v mem p).vars = p ∧
      x.taskBFrame (x.dispatch v mem p).vars = (x.dispatch v mem p).returned ∧
      OnStack .b (x.dispatch v mem p).returned ∧
      ChangedOnly (region (x.dispatch v mem p).returned sizeofTrapFrame) mem
        (x.dispatch v mem p).mem
  later : ∀ v mem p, x.taskBFrame v ≠ 0 →
    x.taskAFrame (x.dispatch v mem p).vars = x.taskAFrame v ∧
      x.taskBFrame (x.dispatch v mem p).vars = p ∧
      (x.dispatch v mem p).returned = x.taskAFrame v ∧ (x.dispatch v mem p).mem = mem

section

variable {x : Example} {OnStack : Task → Word → Prop} {s s' : System x} {m m' : Machine}

/-! ## One trap -/

/-- The exception-mode SP lies just above the frame resumed last. -/
structure OnOwnStack (OnStack : Task → Word → Prop) (s : System x) : Prop where
  returned : OnStack s.current s.returned
  sp : s.machine.sp x.bank = s.returned + 88

theorem Step.fields (h : Step x s s' m m') :
    s'.vars = (Example.result s m).vars ∧
      s'.current = x.owner (Example.result s m).returned ∧
      s'.returned = (Example.result s m).returned ∧ s'.context = Example.contexts s m := by
  rw [h.next]
  exact ⟨rfl, rfl, rfl, rfl⟩

theorem Step.call (hx : Lawful x OnStack) (h : Step x s s' m m') (hs : OnOwnStack OnStack s) :
    OnStack s.current (x.frame m) ∧ (x.entry.call m).bank = x.bank ∧
      ChangedOnly (region (x.frame m) sizeofTrapFrame) m.mem (x.entry.call m).mem := by
  have hstack := hx.traps _ _ _ _ hs.returned hs.sp h.runs
  obtain ⟨hbank, hframe, hmem⟩ := hx.call _ _ hstack
  rw [hframe]
  exact ⟨hstack, hbank, hmem⟩

theorem Step.machine (hx : Lawful x OnStack) (h : Step x s s' m m') (hs : OnOwnStack OnStack s) :
    s'.machine = resumed (switchStack m')
      (TrapFrame.load m'.mem (Example.result s m).returned) x.back := by
  have hbank : m'.bank = x.bank := h.returned.bank.trans (h.call hx hs).2.1
  rw [h.next, ← h.returned.result]
  exact hx.restore m' hbank

theorem Step.onOwnStack (hx : Lawful x OnStack) (h : Step x s s' m m') (hs : OnOwnStack OnStack s)
    (hreturned : OnStack (x.owner (Example.result s m).returned) (Example.result s m).returned) :
    OnOwnStack OnStack s' := by
  have hbank : (switchStack m').bank = x.bank := h.returned.bank.trans (h.call hx hs).2.1
  have hsp : (switchStack m').sp x.bank = (Example.result s m).returned := by
    rw [← hbank, ← h.returned.result]
    exact Function.update_self ..
  obtain ⟨-, hcurrent, hret, -⟩ := h.fields
  refine ⟨by rw [hcurrent, hret]; exact hreturned, ?_⟩
  rw [h.machine hx hs, resumed_sp hbank, hsp, hret]

/-- A saved frame reads after the trap as the dispatcher left it. -/
theorem Step.load_frame (hx : Lawful x OnStack) (h : Step x s s' m m')
    (hs : OnOwnStack OnStack s) {t : Task} {c : Saved}
    (hc : Example.contexts s m t = some c) :
    TrapFrame.load s'.machine.mem c.frame = TrapFrame.load (Example.result s m).mem c.frame := by
  rw [h.machine hx hs, resumed_mem]
  exact TrapFrame.load_congr fun a ha => h.returned.mem a ⟨t, c, hc, ha⟩

/-- The frame of the task that does not run reads as it did when it was last resumed. -/
theorem Step.load_other (hx : Lawful x OnStack) (h : Step x s s' m m')
    (hs : OnOwnStack OnStack s) {c : Saved} (hc : s.context s.current.other = some c)
    (hstack : OnStack s.current.other c.frame) :
    TrapFrame.load (x.entry.call m).mem c.frame = TrapFrame.load s.machine.mem c.frame := by
  obtain ⟨hown, -, hcall⟩ := h.call hx hs
  apply TrapFrame.load_congr
  intro a ha
  rw [hcall a ?_, h.keeps c hc a ha]
  intro hin
  cases hcur : s.current with
  | a =>
      rw [hcur] at hown hstack
      exact hx.apart _ _ hown hstack a hin ha
  | b =>
      rw [hcur] at hown hstack
      exact hx.apart _ _ hstack hown a ha hin

/-! ## The phases -/

structure Fresh (OnStack : Task → Word → Prop) (s : System x) : Prop
    extends OnOwnStack OnStack s where
  current : s.current = .a
  taskBFrame : x.taskBFrame s.vars = 0
  contextB : s.context .b = none

structure BRuns (OnStack : Task → Word → Prop) (s : System x) : Prop
    extends OnOwnStack OnStack s where
  current : s.current = .b
  taskBFrame : x.taskBFrame s.vars ≠ 0
  stackA : OnStack .a (x.taskAFrame s.vars)
  taskAFrame : Designates s .a (x.taskAFrame s.vars)

structure ARuns (OnStack : Task → Word → Prop) (s : System x) : Prop
    extends OnOwnStack OnStack s where
  current : s.current = .a
  taskBFrame : x.taskBFrame s.vars ≠ 0
  stackA : OnStack .a (x.taskAFrame s.vars)

theorem context_current (s : System x) (m : Machine) :
    Example.contexts s m s.current =
      some ⟨x.frame m, TrapFrame.load (x.entry.call m).mem (x.frame m), some m⟩ := by
  have hinterrupt : Example.interrupt s m s.current =
      some ⟨x.frame m, TrapFrame.load (x.entry.call m).mem (x.frame m), some m⟩ := by
    rw [Example.interrupt, Function.update_self]
  rw [Example.contexts]
  split
  next hnone =>
    have hne : s.current ≠ x.owner (Example.result s m).returned := by
      intro heq
      rw [← heq, hinterrupt] at hnone
      cases hnone
    rw [Function.update_of_ne hne, hinterrupt]
  next => exact hinterrupt

theorem context_other {s : System x} {t : Task} {c : Saved} (m : Machine) (ht : t ≠ s.current)
    (hc : s.context t = some c) : Example.contexts s m t = some c := by
  have hinterrupt : Example.interrupt s m t = some c := by
    rw [Example.interrupt, Function.update_of_ne ht, hc]
  rw [Example.contexts]
  split
  next hnone =>
    have hne : t ≠ x.owner (Example.result s m).returned := by
      intro heq
      rw [← heq, hinterrupt] at hnone
      cases hnone
    rw [Function.update_of_ne hne, hinterrupt]
  next => exact hinterrupt

theorem designates_of_context {s : System x} {t : Task} {c : Saved} (hc : s.context t = some c)
    (hload : TrapFrame.load s.machine.mem c.frame = c.words) : Designates s t c.frame :=
  ⟨c, hc, rfl, hload⟩

theorem Step.of_fresh (hx : Lawful x OnStack) (h : Step x s s' m m') (hs : Fresh OnStack s) :
    BRuns OnStack s' ∧ Switches s s' := by
  obtain ⟨hown, -⟩ := h.call hx hs.toOnOwnStack
  rw [hs.current] at hown
  obtain ⟨hvars, hcurrent, hret, hcontext⟩ := h.fields
  obtain ⟨htaskA, htaskB, hstackB, hmem⟩ :=
    hx.first s.vars (x.entry.call m).mem (x.frame m) hs.taskBFrame
  rw [← Example.result] at htaskA htaskB hstackB hmem
  have howner := hx.owner _ _ hstackB
  have hcontextA : Example.contexts s m .a =
      some ⟨x.frame m, TrapFrame.load (x.entry.call m).mem (x.frame m), some m⟩ := by
    have hcur := context_current s m
    rwa [hs.current] at hcur
  have hcontextB : Example.contexts s m .b = some ⟨(Example.result s m).returned,
      TrapFrame.load (Example.result s m).mem (Example.result s m).returned, none⟩ := by
    have hnone : Example.interrupt s m .b = none := by
      rw [Example.interrupt, hs.current, Function.update_of_ne (by decide), hs.contextB]
    rw [Example.contexts, howner, if_pos hnone, Function.update_self]
  have hA : Designates s' .a (x.taskAFrame s'.vars) := by
    have hload := h.load_frame hx hs.toOnOwnStack hcontextA
    rw [TrapFrame.load_congr fun a ha => hmem a (hx.apart _ _ hown hstackB a ha)] at hload
    rw [← hcontext] at hcontextA
    rw [hvars, htaskA]
    exact designates_of_context hcontextA hload
  have hB : Designates s' .b (Example.result s m).returned := by
    have hload := h.load_frame hx hs.toOnOwnStack hcontextB
    rw [← hcontext] at hcontextB
    exact designates_of_context hcontextB hload
  have hstack : OnOwnStack OnStack s' := by
    apply h.onOwnStack hx hs.toOnOwnStack
    rw [howner]
    exact hstackB
  refine ⟨⟨hstack, ?_, ?_, ?_, hA⟩, ⟨?_, ?_, hA, ?_⟩⟩
  · rw [hcurrent, howner]
  · rw [hvars, htaskB]
    exact hx.nonzero _ _ hstackB
  · rw [hvars, htaskA]
    exact hown
  · rw [hcurrent, howner, hs.current]
    rfl
  · rw [hret, hs.current]
    exact hB
  · rw [hvars, htaskB]
    exact hB

theorem Step.of_bRuns (hx : Lawful x OnStack) (h : Step x s s' m m') (hs : BRuns OnStack s) :
    ARuns OnStack s' ∧ Switches s s' := by
  obtain ⟨hown, -⟩ := h.call hx hs.toOnOwnStack
  rw [hs.current] at hown
  obtain ⟨hvars, hcurrent, hret, hcontext⟩ := h.fields
  obtain ⟨htaskA, htaskB, hreturned, hmem⟩ :=
    hx.later s.vars (x.entry.call m).mem (x.frame m) hs.taskBFrame
  rw [← Example.result] at htaskA htaskB hreturned hmem
  have howner : x.owner (Example.result s m).returned = .a := by
    rw [hreturned]
    exact hx.owner _ _ hs.stackA
  obtain ⟨c, hc, hcframe, hcload⟩ := hs.taskAFrame
  have hcontextA : Example.contexts s m .a = some c :=
    context_other m (by rw [hs.current]; decide) hc
  have hcontextB : Example.contexts s m .b =
      some ⟨x.frame m, TrapFrame.load (x.entry.call m).mem (x.frame m), some m⟩ := by
    have hcur := context_current s m
    rwa [hs.current] at hcur
  have hA : Designates s' .a (x.taskAFrame s.vars) := by
    have hload := h.load_frame hx hs.toOnOwnStack hcontextA
    rw [hmem, h.load_other hx hs.toOnOwnStack (by rw [hs.current]; exact hc)
      (by rw [hs.current, hcframe]; exact hs.stackA), hcframe, hcload, ← hcframe] at hload
    rw [← hcontext] at hcontextA
    rw [← hcframe]
    exact designates_of_context hcontextA hload
  have hB : Designates s' .b (x.frame m) := by
    have hload := h.load_frame hx hs.toOnOwnStack hcontextB
    rw [hmem] at hload
    rw [← hcontext] at hcontextB
    exact designates_of_context hcontextB hload
  have hstack : OnOwnStack OnStack s' := by
    apply h.onOwnStack hx hs.toOnOwnStack
    rw [howner, hreturned]
    exact hs.stackA
  refine ⟨⟨hstack, ?_, ?_, ?_⟩, ⟨?_, ?_, ?_, ?_⟩⟩
  · rw [hcurrent, howner]
  · rw [hvars, htaskB]
    exact hx.nonzero _ _ hown
  · rw [hvars, htaskA]
    exact hs.stackA
  · rw [hcurrent, howner, hs.current]
    rfl
  · rw [hret, hs.current, hreturned]
    exact hA
  · rw [hvars, htaskA]
    exact hA
  · rw [hvars, htaskB]
    exact hB

/-- The branch of the dispatcher for a second trap also serves every later one. -/
theorem Step.of_aRuns (hx : Lawful x OnStack) (h : Step x s s' m m') (hs : ARuns OnStack s) :
    ARuns OnStack s' ∧ ¬ Switches s s' := by
  obtain ⟨hown, -⟩ := h.call hx hs.toOnOwnStack
  rw [hs.current] at hown
  obtain ⟨hvars, hcurrent, hret, -⟩ := h.fields
  obtain ⟨htaskA, htaskB, hreturned, -⟩ :=
    hx.later s.vars (x.entry.call m).mem (x.frame m) hs.taskBFrame
  rw [← Example.result] at htaskA htaskB hreturned
  have howner : x.owner (Example.result s m).returned = .a := by
    rw [hreturned]
    exact hx.owner _ _ hs.stackA
  have hstack : OnOwnStack OnStack s' := by
    apply h.onOwnStack hx hs.toOnOwnStack
    rw [howner, hreturned]
    exact hs.stackA
  refine ⟨⟨hstack, ?_, ?_, ?_⟩, fun hswitch => ?_⟩
  · rw [hcurrent, howner]
  · rw [hvars, htaskB]
    exact hx.nonzero _ _ hown
  · rw [hvars, htaskA]
    exact hs.stackA
  · have halternates := hswitch.alternates
    rw [hcurrent, howner, hs.current] at halternates
    cases halternates

/-! ## Runs -/

/-- From the third trap on no trap switches tasks. -/
theorem not_switches_of_aRuns (hx : Lawful x OnStack) {ts : List (System x × System x)}
    (h : Trace (step x) s ts s') (hs : ARuns OnStack s) :
    ARuns OnStack s' ∧ ∀ t ∈ ts, ¬ Switches t.1 t.2 :=
  h.invariant hs (fun _ _ hs ⟨_, _, hstep⟩ => (hstep.of_aRuns hx hs).1)
    fun _ _ hs ⟨_, _, hstep⟩ => (hstep.of_aRuns hx hs).2

/-- In a run from task A's start, exactly the first two traps switch tasks. -/
theorem switches_iff (hx : Lawful x OnStack) {ts : List (System x × System x)}
    (h : Trace (step x) s ts s') (hs : Fresh OnStack s) :
    (∀ t ∈ ts, Switches t.1 t.2) ↔ ts.length ≤ 2 := by
  cases h with
  | nil => simp
  | cons hfirst h =>
      obtain ⟨_, _, hfirst⟩ := hfirst
      obtain ⟨hs1, hswitch1⟩ := hfirst.of_fresh hx hs
      cases h with
      | nil => simpa using hswitch1
      | @cons _ _ _ rest hsecond h =>
          obtain ⟨_, _, hsecond⟩ := hsecond
          obtain ⟨hs2, hswitch2⟩ := hsecond.of_bRuns hx hs1
          obtain ⟨-, hnone⟩ := not_switches_of_aRuns hx h hs2
          cases rest with
          | nil =>
              refine ⟨fun _ => by simp, fun _ t ht => ?_⟩
              cases List.mem_pair.mp ht with
              | inl heq => exact heq ▸ hswitch1
              | inr heq => exact heq ▸ hswitch2
          | cons t rest =>
              refine ⟨fun hall => ?_, fun hlen => ?_⟩
              · exact absurd (hall t (by simp)) (hnone t (by simp))
              · simp only [List.length_cons] at hlen
                omega

end

end Minemu.Context
