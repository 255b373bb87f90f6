import Minemu.Hello.SvcTrap

/-!
# The UART system call over a sequence of traps

Between two traps everything may change except the flag of the dispatcher, so a run is
a list of traps that hand it on.
-/

namespace Minemu.Hello

open Minemu.Lib.Memory Minemu.Lib.Arm Minemu.Platform Minemu.Trap

structure Trap where
  before : Machine
  after : Machine
  writes : List DeviceWrite

/-- A trap that the stack has room for, taken at an instruction that is there. -/
structure Ready (L : Layout) (m : Machine) : Prop where
  room : SvcRoom L (m.sp .svc)
  aligned : m.pc.toNat % (if thumb m.cpsr then 2 else 4) = 0
  instruction : FromUser m → thumb m.cpsr = false → (faultWord m).isSome

inductive SvcRun (L : Layout) : Byte → List Trap → Prop where
  | nil (observed : Byte) : SvcRun L observed []
  | cons {t : Trap} {ts : List Trap} :
      Ready L t.before → SvcTrap L t.before t.after t.writes →
      SvcRun L (userSyscallObserved L t.after.mem) ts →
      SvcRun L (userSyscallObserved L t.before.mem) (t :: ts)

def acceptedBytes (ts : List Trap) : List Word :=
  (ts.filter fun t => Accepted t.before).map fun t => t.before.r 0

/-- User code goes on after its SVC with only `r0` changed. -/
structure ResumesUser (m m' : Machine) : Prop where
  pc : m'.pc = m.pc + if thumb m.cpsr then 2 else 4
  r : ∀ n, n ≠ 0 → m'.gpr n = m.gpr n
  spUsr : m'.sp .usr = m.sp .usr
  lrUsr : m'.lr .usr = m.lr .usr
  cpsr : m'.cpsr = m.cpsr
  spSvc : m'.sp .svc = m.sp .svc

variable {L : Layout} {m m' : Machine} {ts : List Trap} {observed : Byte}

/-! ## One trap -/

theorem FromUser.bank (h : FromUser m) : m.bank = .usr := by
  have hmode : m.cpsr &&& 0x1f = 0x10 := h
  rw [Machine.bank]
  simp only [bankOf, hmode]
  decide

theorem Resumes.pc_of_aligned {value : Word} (h : Resumes m m' value)
    (haligned : m.pc.toNat % (if thumb m.cpsr then 2 else 4) = 0) :
    m'.pc = m.pc + if thumb m.cpsr then 2 else 4 := by
  rw [h.pc]
  cases hthumb : thumb m.cpsr with
  | true =>
      have hhalf : m.pc.toNat % 2 = 0 := by
        rw [hthumb] at haligned
        exact haligned
      exact and_not_one_eq_self (by bv_omega)
  | false =>
      have hword : m.pc.toNat % 4 = 0 := by
        rw [hthumb] at haligned
        exact haligned
      exact and_not_three_eq_self (by bv_omega)

theorem Resumes.user {value : Word} (h : Resumes m m' value) (huser : FromUser m)
    (haligned : m.pc.toNat % (if thumb m.cpsr then 2 else 4) = 0) : ResumesUser m m' := by
  have huser' : FromUser m' := by
    rw [FromUser, h.cpsr]
    exact huser
  have hgpr : m.gpr = m.r := Machine.gpr_of_ne_fiq (by rw [huser.bank]; decide)
  have hgpr' : m'.gpr = m'.r := Machine.gpr_of_ne_fiq (by rw [huser'.bank]; decide)
  refine ⟨h.pc_of_aligned haligned, fun n hn => ?_, h.spUsr, h.lrUsr, h.cpsr, h.spSvc⟩
  rw [hgpr, hgpr', h.r, Function.update_of_ne hn]

/-! ## Runs -/

@[simp] theorem acceptedBytes_nil : acceptedBytes [] = [] := rfl

theorem acceptedBytes_cons (t : Trap) (ts : List Trap) :
    acceptedBytes (t :: ts) =
      if Accepted t.before then t.before.r 0 :: acceptedBytes ts else acceptedBytes ts := by
  unfold acceptedBytes
  by_cases hacc : Accepted t.before
  · rw [if_pos hacc, List.filter_cons_of_pos (by simpa using hacc), List.map_cons]
  · rw [if_neg hacc, List.filter_cons_of_neg (by simpa using hacc)]

/-- From any value of the flag, the event comes first, and only if it is still due. -/
theorem SvcRun.writes_eq (h : SvcRun L observed ts) :
    ts.flatMap Trap.writes =
      (if observed = 0 ∧ acceptedBytes ts ≠ [] then [.traceEvent traceUserSyscall] else []) ++
        (acceptedBytes ts).map .uart0TxData := by
  induction h with
  | nil observed => simp
  | @cons t ts hready htrap _ ih =>
      have hserved := htrap.served hready.room
      rw [List.flatMap_cons, ih, hserved.writes, acceptedBytes_cons]
      by_cases hacc : Accepted t.before
      · have hflag : ¬ userSyscallObserved L t.after.mem = 0 := fun hzero =>
          (hserved.flag.mp hzero).2 hacc
        have htail : (if userSyscallObserved L t.after.mem = 0 ∧ acceptedBytes ts ≠ [] then
            [DeviceWrite.traceEvent traceUserSyscall] else []) = [] :=
          if_neg fun hdue => hflag hdue.1
        rw [if_pos hacc, if_pos hacc, htail]
        by_cases hzero : userSyscallObserved L t.before.mem = 0
        · rw [if_pos hzero, if_pos ⟨hzero, List.cons_ne_nil _ _⟩]
          rfl
        · rw [if_neg hzero, if_neg (fun hdue => hzero hdue.1)]
          rfl
      · have hflag : userSyscallObserved L t.after.mem = 0 ↔
            userSyscallObserved L t.before.mem = 0 :=
          ⟨fun hzero => (hserved.flag.mp hzero).1, fun hzero => hserved.flag.mpr ⟨hzero, hacc⟩⟩
        rw [if_neg hacc, if_neg hacc]
        simp only [hflag, List.nil_append]

theorem SvcRun.served (h : SvcRun L observed ts) :
    ∀ t ∈ ts, Ready L t.before ∧ SvcServed L t.before t.after t.writes := by
  induction h with
  | nil observed => exact fun t ht => absurd ht List.not_mem_nil
  | @cons t ts hready htrap _ ih =>
      intro t' ht'
      cases List.mem_cons.mp ht' with
      | inl heq => exact heq ▸ ⟨hready, htrap.served hready.room⟩
      | inr hmem => exact ih t' hmem

/-- The UART path end to end: every ready trap gets through, and a run of traps from the
cleared flag answers each, resumes user code after its SVC, and writes the event and
then the accepted bytes. -/
theorem svcRun_uart (L : Layout) (ts : List Trap) (h : SvcRun L 0 ts) :
    (∀ m, Ready L m → ∃ m' writes, SvcTrap L m m' writes) ∧
    (∀ t ∈ ts, t.after.r 0 = (if Accepted t.before then 0 else 0xffffffff) ∧
      (FromUser t.before → ResumesUser t.before t.after)) ∧
    ts.flatMap Trap.writes =
      if acceptedBytes ts = [] then []
      else .traceEvent 0x48454c10 :: (acceptedBytes ts).map .uart0TxData := by
  refine ⟨fun m hready => exists_svcTrap_iff.mpr hready.instruction, fun t ht => ?_, ?_⟩
  · obtain ⟨hready, hserved⟩ := h.served t ht
    refine ⟨?_, fun huser => hserved.resumes.user huser hready.aligned⟩
    rw [hserved.resumes.r, Function.update_self]
    rfl
  · rw [h.writes_eq]
    by_cases hnone : acceptedBytes ts = []
    · rw [if_pos hnone, if_neg (fun hdue => hdue.2 hnone), hnone]
      rfl
    · rw [if_neg hnone, if_pos ⟨rfl, hnone⟩]
      rfl

def requestMachine : Machine where
  r := Function.update (Function.update (fun _ => 0) 0 0x68) 7 1
  rFiq _ := 0
  sp _ := 0xc0058000
  lr _ := 0
  spsr _ := 0
  pc := 0x00400000
  cpsr := 0x10
  cp15 _ := 0
  mem := storeWord (storeWord (storeWord (fun _ => 0) 0x40010004 0x40044001)
    0x40044000 0x4004501d) 0x40045000 0xef000000

theorem requestMachine_accepted : Accepted requestMachine := by
  decide +kernel

/-- The first character of the greeting. -/
theorem svcRun_uart_request :
    ∃ t, t.before = requestMachine ∧ SvcRun sampleLayout 0 [t] ∧ t.after.r 0 = 0 ∧
      t.after.pc = 0x00400004 ∧ t.writes = [.traceEvent 0x48454c10, .uart0TxData 0x68] := by
  have hready : Ready sampleLayout requestMachine :=
    ⟨⟨by decide, by decide⟩, by decide, fun _ _ => by rw [requestMachine_accepted.2.2.1]; rfl⟩
  obtain ⟨m', writes, htrap⟩ :=
    (svcRun_uart sampleLayout [] (.nil 0)).1 requestMachine hready
  have hrun : SvcRun sampleLayout 0 [⟨requestMachine, m', writes⟩] :=
    .cons (t := ⟨requestMachine, m', writes⟩) hready htrap (.nil _)
  obtain ⟨-, hall, hwrites⟩ := svcRun_uart sampleLayout _ hrun
  obtain ⟨hr0, huser⟩ := hall _ (List.mem_singleton_self _)
  have hbytes : acceptedBytes [⟨requestMachine, m', writes⟩] = [0x68] := by
    rw [acceptedBytes_cons, if_pos requestMachine_accepted]
    rfl
  refine ⟨_, rfl, hrun, ?_, ?_, ?_⟩
  · rw [hr0, if_pos requestMachine_accepted]
  · exact (huser requestMachine_accepted.1).pc.trans
      (by decide : requestMachine.pc + (if thumb requestMachine.cpsr then 2 else 4) = 0x00400004)
  · rw [hbytes, List.flatMap_singleton] at hwrites
    exact hwrites

end Minemu.Hello
