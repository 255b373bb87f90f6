import Minemu.Headless.Exceptions.Dispatch

/-!
# Every run of `headless/exceptions`

The exceptions so far agree with the globals, kind by kind, and the kernel looks at the
globals.
-/

namespace Minemu.Headless.Exceptions

open Minemu.Lib.Memory Minemu.Lib.Arm Minemu.Lib.Guest Minemu.Platform Minemu.Trap

variable {s : Symbols}

/-! ## The exceptions so far -/

inductive DevicePhase where
  | off
  | on
  /-- Both have come. -/
  | done

def Devices (s : Symbols) : DevicePhase → Word → List Entry → Prop
  | .off, stage, xs => stage = 0 ∧ xs = []
  | .on, stage, xs =>
      ∃ k ≤ 2, stage = BitVec.ofNat 32 (k + 1) ∧ Matches ((devicesDue s).take k) xs
  | .done, stage, xs => stage = 3 ∧ Matches (devicesDue s) xs

structure Progress where
  undefined : Phase
  abort : Phase
  device : DevicePhase
  /-- A lower bound for the calls. -/
  svcs : Nat

def Agrees (s : Symbols) (progress : Progress) (g : Globals) : Kind → List Entry → Prop
  | .undefined, xs => Staged (undefinedDue s) progress.undefined g.undefinedStage xs
  | .abort, xs => Staged (abortsDue s) progress.abort g.abortStage xs
  | .device, xs => Devices s progress.device g.userDeviceStage xs
  | .svc, xs => Called s xs ∧ g.svcCount = BitVec.ofNat 32 xs.length ∧ progress.svcs ≤ xs.length
  | .irq, xs => (∀ e ∈ xs, Irq s e) ∧ g.irqCount = BitVec.ofNat 32 xs.length

/-- The exceptions so far agree with the globals. -/
def Holding (s : Symbols) (progress : Progress) (t : List Entry) (g : Globals) (_ : Bool) : Prop :=
  ∀ kind, Agrees s progress g kind (ofKind kind t)

section Kinds

variable {t : List Entry} {e : Entry} {kind kind' : Kind} {k : Nat} {p : Entry → Prop}

theorem ofKind_own (h : e.kind? = some kind) : ofKind kind (t ++ [e]) = ofKind kind t ++ [e] := by
  simp [ofKind, h]

theorem ofKind_other (h : e.kind? = some kind) (hne : kind' ≠ kind) :
    ofKind kind' (t ++ [e]) = ofKind kind' t := by
  simp [ofKind, h, hne.symm]

theorem kind_undefined (hp : (undefinedDue s)[k]? = some p) (he : p e) :
    e.kind? = some .undefined := by
  have hleft : e.left.exceptionId = exceptionUndefined := by
    have hmem := List.mem_of_getElem? hp
    simp only [undefinedDue, List.mem_cons, List.not_mem_nil, or_false] at hmem
    rcases hmem with rfl | rfl
    · rw [he.left]
      exact he.exceptionId
    · rw [he.left]
      exact he.exceptionId
  exact if_pos hleft

theorem kind_svc {first : Bool} (he : Svc s first e) : e.kind? = some .svc := by
  have hleft : e.left.exceptionId = exceptionSvc := by
    rw [he.left]
    rfl
  rw [Entry.kind?, hleft]
  rfl

theorem kind_irq (he : Irq s e) : e.kind? = some .irq := by
  have hleft : e.left.exceptionId = irqSystick := by
    rw [he.left]
    rfl
  rw [Entry.kind?, hleft]
  rfl

theorem kind_device (hp : (devicesDue s)[k]? = some p) (he : p e) : e.kind? = some .device := by
  have hleft : e.left.exceptionId = exceptionDataAbort ∧
      (e.left.dfar = rngBase ∨ e.left.dfar = traceBase) := by
    have hmem := List.mem_of_getElem? hp
    simp only [devicesDue, List.mem_cons, List.not_mem_nil, or_false] at hmem
    rcases hmem with rfl | rfl
    · rw [he.left]
      exact ⟨he.abort.exceptionId, Or.inl he.abort.dfar⟩
    · rw [he.left]
      exact ⟨he.abort.exceptionId, Or.inr he.abort.dfar⟩
  obtain ⟨hid, hdfar⟩ := hleft
  rw [Entry.kind?, if_neg (by rw [hid]; decide), if_neg (by rw [hid]; decide),
    if_neg (by rw [hid]; decide), if_pos ⟨hid, hdfar⟩]

theorem kind_abort (hp : (abortsDue s)[k]? = some p) (he : p e) : e.kind? = some .abort := by
  have hmem := List.mem_of_getElem? hp
  simp only [abortsDue, List.mem_cons, List.not_mem_nil, or_false] at hmem
  have hprefetch : ∀ dfar dfsr, Restarted s exceptionPrefetchAbort dfar dfsr e →
      e.kind? = some .abort := by
    intro dfar dfsr h
    rw [Entry.kind?, h.left, h.abort.exceptionId]
    rfl
  rcases hmem with rfl | rfl | rfl
  · rw [Entry.kind?, he.left, he.abort.exceptionId, he.abort.dfar]
    rfl
  · exact hprefetch _ _ he
  · exact hprefetch _ _ he

end Kinds

theorem Devices.take {phase : DevicePhase} {stage : Word} {xs : List Entry} {k : Nat}
    {p : Entry → Prop} {e : Entry} (h : Devices s phase stage xs)
    (hp : (devicesDue s)[k]? = some p) (hstage : stage = BitVec.ofNat 32 (k + 1)) (he : p e) :
    Devices s phase (BitVec.ofNat 32 (k + 2)) (xs ++ [e]) := by
  have hk : k < 2 := (List.getElem?_eq_some_iff.mp hp).1
  cases phase with
  | off => exact absurd (hstage.symm.trans h.1) (ofNat_stage_ne_zero (by omega))
  | on =>
      obtain ⟨n, hn, hdue, hmatches⟩ := h
      obtain rfl := ofNat_stage_inj (by omega) (by omega) (hdue.symm.trans hstage)
      exact ⟨n + 1, by omega, rfl, hmatches.take_snoc hp he⟩
  | done =>
      have hthree : BitVec.ofNat 32 (2 + 1) = BitVec.ofNat 32 (k + 1) := h.1.symm.trans hstage
      exact absurd (ofNat_stage_inj (by omega) (by omega) hthree) (by omega)

theorem Called.snoc {xs : List Entry} {e : Entry} (h : Called s xs)
    (he : Svc s (BitVec.ofNat 32 xs.length == 0) e) : Called s (xs ++ [e]) := by
  intro i hi
  rw [List.length_append, List.length_singleton] at hi
  by_cases hlast : i = xs.length
  · subst hlast
    rwa [List.getElem_append_right (Nat.le_refl _), List.getElem_singleton]
  · rw [List.getElem_append_left (by omega)]
    exact h i (by omega)

theorem count_snoc {count : Word} {xs : List Entry} {e : Entry}
    (h : count = BitVec.ofNat 32 xs.length) : count + 1 = BitVec.ofNat 32 (xs ++ [e]).length := by
  rw [h, List.length_append, BitVec.ofNat_add]
  rfl

theorem Holding.append {progress : Progress} {t : List Entry} {x x' : Globals} {b : Bool}
    {e : Entry} {own : Kind} (h : Holding s progress t x b) (hkind : e.kind? = some own)
    (hother : ∀ kind, kind ≠ own → ∀ xs, Agrees s progress x kind xs → Agrees s progress x' kind xs)
    (hown : ∀ xs, Agrees s progress x own xs → Agrees s progress x' own (xs ++ [e])) :
    Holding s progress (t ++ [e]) x' b := by
  intro kind
  by_cases hne : kind = own
  · subst hne
    rw [ofKind_own hkind]
    exact hown _ (h kind)
  · rw [ofKind_other hkind hne]
    exact hother kind hne _ (h kind)

theorem Holding.serve {progress : Progress} {t : List Entry} {x x' : Globals} {b : Bool}
    {vector : Exception} {e : Entry} (h : Holding s progress t x b)
    (hserved : Served s x vector e x') : Holding s progress (t ++ [e]) x' b := by
  cases hserved with
  | undefined hp hstage he =>
      refine h.append (kind_undefined hp he) (fun kind hne xs hxs => ?_) fun xs hxs => ?_
      · cases kind <;> first | exact hxs | exact absurd rfl hne
      · exact Staged.take hxs (show 2 ≤ 31 by decide) hp hstage he
  | abort hp hstage he =>
      refine h.append (kind_abort hp he) (fun kind hne xs hxs => ?_) fun xs hxs => ?_
      · cases kind <;> first | exact hxs | exact absurd rfl hne
      · exact Staged.take hxs (show 3 ≤ 31 by decide) hp hstage he
  | device hp hstage he =>
      refine h.append (kind_device hp he) (fun kind hne xs hxs => ?_) fun xs hxs => ?_
      · cases kind <;> first | exact hxs | exact absurd rfl hne
      · exact Devices.take hxs hp hstage he
  | svc he =>
      refine h.append (kind_svc he) (fun kind hne xs hxs => ?_) fun xs hxs => ?_
      · cases kind <;> first | exact hxs | exact absurd rfl hne
      · obtain ⟨hcalled, hcount, hsvcs⟩ := hxs
        refine ⟨hcalled.snoc (hcount ▸ he), count_snoc hcount, ?_⟩
        rw [List.length_append]
        exact Nat.le_add_right_of_le hsvcs
  | irq he =>
      refine h.append (kind_irq he) (fun kind hne xs hxs => ?_) fun xs hxs => ?_
      · cases kind <;> first | exact hxs | exact absurd rfl hne
      · refine ⟨fun e' he' => ?_, count_snoc hxs.2⟩
        rcases List.mem_append.mp he' with he' | he'
        · exact hxs.1 e' he'
        · exact List.mem_singleton.mp he' ▸ he

/-- A store of the user program has reached the trace: the platform did not fault it. -/
def Exposed (w : World Globals) : Prop := ∃ x, Access.userWrite traceBase x ∈ w.log

def Observed (s : Symbols) (w : World Globals) : Prop :=
  Exposed w ∨ (program s).Invariant (Passed s) w

theorem program_failsWithin_observed : (program s).FailsWithin (Observed s) :=
  ⟨program_pending s, fun w hw => Or.inr ((program_failsWithin s).safe w hw)⟩

theorem holding_stable {progress : Progress} :
    Stable (program s).handlers (Observed s) (Quiet monitor (Holding s progress)) := by
  refine Stable.weaken ?_ fun w hw => Or.inr hw
  refine Quiet.stable (program_pending s) (fun taken t x b _ => dispatch_spec taken t x b) ?_
  rintro taken t x b h - left t' x' ⟨rfl, hserved⟩
  exact h.serve hserved

/-- The end: IRQs are masked again. -/
def Final (s : Symbols) (p : Word → Prop) (t : List Entry) (x : Globals) (b : Bool) : Prop :=
  Holding s ⟨.idle 2, .idle 3, .done, 2⟩ t x b ∧ p x.irqCount ∧ b = true

theorem final_stable {p : Word → Prop} :
    Stable (program s).handlers (Observed s) (Quiet monitor (Final s p)) := by
  refine Stable.weaken ?_ fun w hw => Or.inr hw
  refine Quiet.stable (program_pending s) (fun taken t x b _ => dispatch_spec taken t x b) ?_
  rintro taken t x b ⟨h, hcount, rfl⟩ hpasses left t' x' ⟨rfl, hserved⟩
  refine ⟨h.serve hserved, ?_, rfl⟩
  have hvector : taken.vector ≠ .irq := fun hirq => absurd (hpasses hirq) (by decide)
  cases hv : taken.vector with
  | irq => exact absurd hv hvector
  | _ =>
      rw [hv] at hserved
      cases hserved <;> exact hcount

theorem exposed_exec (command : Command Globals) (v : Word) (w : World Globals)
    (h : Exposed w) : Exposed (exec command v w).2 := by
  obtain ⟨x, hx⟩ := h
  refine ⟨x, ?_⟩
  cases command <;> first | exact hx | exact List.mem_append_left _ hx

theorem Final.complete {t : List Entry} {x : Globals} {b : Bool} (h : Final s (· = 1) t x b) :
    Complete s t := by
  obtain ⟨hholding, hcount, -⟩ := h
  obtain ⟨-, hundefined⟩ := hholding .undefined
  obtain ⟨-, habort⟩ := hholding .abort
  obtain ⟨-, hdevice⟩ := hholding .device
  obtain ⟨hcalled, -, hsvcs⟩ := hholding .svc
  obtain ⟨hirq, hlength⟩ := hholding .irq
  exact ⟨hundefined, habort, hdevice, hcalled, hsvcs, hirq, hlength.symm.trans hcount⟩

/-! ## The kernel -/

section Kernel

variable {progress : Progress} {R R' : List Entry → Globals → Bool → Prop}
  {k : Word → Code Globals Unit} {g : Code Globals Unit} {Q : Unit → World Globals → Prop}
  {n : Nat} {code : Word}

abbrev Spec (s : Symbols) (R : List Entry → Globals → Bool → Prop) (g : Code Globals Unit)
    (Q : Unit → World Globals → Prop) : Prop :=
  Triple (program s).handlers (Observed s) (Quiet monitor R) g Q

theorem set_then (own : Kind) {update : Globals → Globals} {progress' : Progress}
    (hother : ∀ x kind, kind ≠ own → ∀ xs, Agrees s progress x kind xs →
      Agrees s progress' (update x) kind xs)
    (hown : ∀ x xs, Agrees s progress x own xs → Agrees s progress' (update x) own xs)
    (hg : Spec s (Holding s progress') g Q) :
    Spec s (Holding s progress) (set update >>= fun _ => g) Q := by
  refine Quiet.set_then holding_stable (fun t x b h kind => ?_) hg
  by_cases hne : kind = own
  · subst hne
    exact hown x _ (h kind)
  · exact hother x kind hne _ (h kind)

variable {undefined abort : Phase} {device : DevicePhase} {svcs : Nat}

theorem armUndefined_then {stage : Word} (hstage : stage = BitVec.ofNat 32 (n + 1)) (hn : n < 2)
    (hg : Spec s (Holding s ⟨.armed n, abort, device, svcs⟩) g Q) :
    Spec s (Holding s ⟨.idle n, abort, device, svcs⟩)
      (set (fun x => { x with undefinedStage := stage }) >>= fun _ => g) Q := by
  refine set_then .undefined (fun x kind hne xs hxs => ?_) (fun x xs hxs => ?_) hg
  · cases kind <;> first | exact hxs | exact absurd rfl hne
  · exact hstage ▸ Staged.arm hxs hn

theorem armAbort_then {stage : Word} (hstage : stage = BitVec.ofNat 32 (n + 1)) (hn : n < 3)
    (hg : Spec s (Holding s ⟨undefined, .armed n, device, svcs⟩) g Q) :
    Spec s (Holding s ⟨undefined, .idle n, device, svcs⟩)
      (set (fun x => { x with abortStage := stage }) >>= fun _ => g) Q := by
  refine set_then .abort (fun x kind hne xs hxs => ?_) (fun x xs hxs => ?_) hg
  · cases kind <;> first | exact hxs | exact absurd rfl hne
  · exact hstage ▸ Staged.arm hxs hn

theorem armDevice_then (hg : Spec s (Holding s ⟨undefined, abort, .on, svcs⟩) g Q) :
    Spec s (Holding s ⟨undefined, abort, .off, svcs⟩)
      (set (fun x => { x with userDeviceStage := 1 }) >>= fun _ => g) Q := by
  refine set_then .device (fun x kind hne xs hxs => ?_) (fun x xs hxs => ?_) hg
  · cases kind <;> first | exact hxs | exact absurd rfl hne
  · obtain ⟨-, rfl⟩ := hxs
    exact ⟨0, Nat.zero_le _, rfl, List.Forall₂.nil⟩

/-- A check of the variable of one kind. -/
theorem check_then (own : Kind) {field : Globals → Word} {value : Word} {progress' : Progress}
    (hcode : code ∈ codes)
    (hother : ∀ x kind, kind ≠ own → ∀ xs, Agrees s progress x kind xs →
      Agrees s progress' x kind xs)
    (hown : ∀ x xs, field x = value → Agrees s progress x own xs → Agrees s progress' x own xs)
    (hg : Spec s (Holding s progress') g Q) :
    Spec s (Holding s progress)
      (get field >>= fun v => minemuRequire (v == value) code >>= fun _ => g) Q := by
  refine Quiet.requireGet_then holding_stable program_failsWithin_observed hcode (fun t x b h hv kind => ?_)
    holding_stable hg
  by_cases hne : kind = own
  · subst hne
    exact hown x _ (eq_of_beq hv) (h kind)
  · exact hother x kind hne _ (h kind)

theorem disarmUndefined_then (hcode : code ∈ codes)
    (hg : Spec s (Holding s ⟨.idle (n + 1), abort, device, svcs⟩) g Q) :
    Spec s (Holding s ⟨.armed n, abort, device, svcs⟩) (get Globals.undefinedStage >>= fun v =>
      minemuRequire (v == 0) code >>= fun _ => g) Q := by
  refine check_then .undefined hcode (fun x kind hne xs hxs => ?_) (fun x xs hstage hxs => ?_) hg
  · cases kind <;> first | exact hxs | exact absurd rfl hne
  · exact Staged.disarm hxs (show 2 ≤ 31 by decide) hstage

theorem disarmAbort_then (hcode : code ∈ codes)
    (hg : Spec s (Holding s ⟨undefined, .idle (n + 1), device, svcs⟩) g Q) :
    Spec s (Holding s ⟨undefined, .armed n, device, svcs⟩) (get Globals.abortStage >>= fun v =>
      minemuRequire (v == 0) code >>= fun _ => g) Q := by
  refine check_then .abort hcode (fun x kind hne xs hxs => ?_) (fun x xs hstage hxs => ?_) hg
  · cases kind <;> first | exact hxs | exact absurd rfl hne
  · exact Staged.disarm hxs (show 3 ≤ 31 by decide) hstage

theorem disarmDevice_then (hcode : code ∈ codes)
    (hg : Spec s (Holding s ⟨undefined, abort, .done, svcs⟩) g Q) :
    Spec s (Holding s ⟨undefined, abort, .on, svcs⟩) (get Globals.userDeviceStage >>= fun v =>
      minemuRequire (v == 3) code >>= fun _ => g) Q := by
  refine check_then .device hcode (fun x kind hne xs hxs => ?_) (fun x xs hstage hxs => ?_) hg
  · cases kind <;> first | exact hxs | exact absurd rfl hne
  · obtain ⟨k, hk, hdue, hmatches⟩ := hxs
    have hthree : BitVec.ofNat 32 (k + 1) = BitVec.ofNat 32 (2 + 1) := hdue.symm.trans hstage
    obtain rfl := ofNat_stage_inj (by omega) (by omega) hthree
    exact ⟨hstage, hmatches⟩

theorem svcs_then (hn : n < 2 ^ 32) (hcode : code ∈ codes)
    (hg : Spec s (Holding s ⟨undefined, abort, device, n⟩) g Q) :
    Spec s (Holding s ⟨undefined, abort, device, svcs⟩) (get Globals.svcCount >>= fun v =>
      minemuRequire (v == BitVec.ofNat 32 n) code >>= fun _ => g) Q := by
  refine check_then .svc hcode (fun x kind hne xs hxs => ?_) (fun x xs hvalue hxs => ?_) hg
  · cases kind <;> first | exact hxs | exact absurd rfl hne
  · obtain ⟨hcalled, hlength, -⟩ := hxs
    refine ⟨hcalled, hlength, ?_⟩
    have hval := congrArg BitVec.toNat (hlength.symm.trans hvalue)
    rw [BitVec.toNat_ofNat, BitVec.toNat_ofNat, Nat.mod_eq_of_lt hn] at hval
    exact hval ▸ Nat.mod_le _ _

theorem write_then {a v : Word} (hne : a ≠ traceBase) (hg : Spec s (Holding s progress) g Q) :
    Spec s (Holding s progress) (write a v >>= fun _ => g) Q :=
  Quiet.write_ignored holding_stable hne (fun _ => rfl) hg

theorem instruction_then (hg : Spec s (Holding s progress) g Q) :
    Spec s (Holding s progress) (instruction >>= fun _ => g) Q :=
  Quiet.sense_then (k := fun _ => g) holding_stable fun _ => hg

theorem revoke_then {address flag : Word} (hg : Spec s (Holding s progress) g Q) :
    Spec s (Holding s progress) (revoke (directPte address) flag >>= fun _ => g) Q :=
  Quiet.read_ignored holding_stable (fun _ _ => rfl) fun _ => write_then (directPte_ne address) hg

theorem expectSvcFrame_then (hg : Spec s (Holding s progress) g Q) :
    Spec s (Holding s progress) (expectSvcFrame >>= fun _ => g) Q := by
  have hkept : ∀ (f : Globals → Word) t x b, Holding s progress t x b →
      Holding s progress t { x with expectedSvcFrame := f x } b := by
    intro f t x b h kind
    have hkind := h kind
    cases kind <;> exact hkind
  refine Quiet.sense_then holding_stable fun sp => ?_
  refine Quiet.set_then holding_stable (hkept fun _ => sp) ?_
  refine Quiet.get_then holding_stable fun expected => ?_
  refine Triple.pre (Quiet.set_then holding_stable (hkept fun _ => _) hg) fun w hw => ?_
  exact hw.mono fun _ _ _ h => h.1

/-- Nothing more is said of a run that is exposed. -/
theorem userWriteOrSkip_then {x : Word} {g : Code Globals Unit}
    (hg : Spec s (Holding s progress) g fun _ _ => True) :
    Spec s (Holding s progress) (userWriteOrSkip traceBase x >>= fun _ => g) fun _ _ => True := by
  unfold userWriteOrSkip
  simp only [bind_assoc]
  refine Quiet.sense_then holding_stable fun skipped => ?_
  split
  · refine Triple.issue_then (M := Exposed) holding_stable (fun v w _ => ?_) ?_
    · exact ⟨x, List.mem_append_right _ (List.mem_singleton.mpr rfl)⟩
    · exact (Triple.of_kept exposed_exec (fun _ => Or.inl) g).post fun _ _ _ => trivial
  · exact hg

theorem minemuRunUserProbe_then (hg : Spec s (Holding s progress) g fun _ _ => True) :
    Spec s (Holding s progress) (minemuRunUserProbe >>= fun _ => g) fun _ _ => True := by
  unfold minemuRunUserProbe minemuUserProbe readOrSkip
  simp only [bind_assoc]
  have hmask : ∀ t x b, Holding s progress t x b → Holding s progress t x false :=
    fun _ _ _ h => h
  refine Quiet.mask_then holding_stable hmask ?_
  refine instruction_then (Quiet.sense_then holding_stable fun _ => ?_)
  have hrest : ∀ r1, Spec s (Holding s progress)
      (userWriteOrSkip traceBase r1 >>= fun _ => instruction >>= fun _ => instruction >>= fun _ => g)
      fun _ _ => True :=
    fun r1 => userWriteOrSkip_then (instruction_then (instruction_then hg))
  split
  · exact Quiet.read_ignored holding_stable (fun _ _ => rfl) hrest
  · exact Quiet.sense_then holding_stable hrest

def Progress.initial : Progress := ⟨.idle 0, .idle 0, .off, 0⟩

theorem clear_spec :
    Spec s (Holding s .initial) (Prog.forUpTo (fun i => write (s.dataTable.word i) 0) 1024)
      fun _ => Quiet monitor (Holding s .initial) := by
  refine Triple.forUpTo (J := fun _ => Quiet monitor (Holding s .initial)) holding_stable
    fun i hi => ?_
  refine Triple.issue holding_stable holding_stable fun v w hw => ?_
  exact hw.record (event?_write (StaticPage.word_ne hi)) fun _ _ _ h => h

/-- The timer interrupts, once. -/
theorem interrupted_spec :
    Spec s (Holding s ⟨.idle 2, .idle 3, .done, 2⟩) (do
      write interruptEnable 1
      write systickPeriod 64
      write systickControl (systickControlEnable ||| systickControlIrqEnable)
      cpsieI
      let _ ← Prog.await (.get Globals.irqCount) fun count => count == 0
      cpsidI
      let count ← get Globals.irqCount
      minemuRequire (count == 1) 9
      minemuTraceEvent 0x20070001
      minemuFailStop) fun _ _ => True := by
  have hmask : ∀ (masked : Bool) t x b, Holding s ⟨.idle 2, .idle 3, .done, 2⟩ t x b →
      Holding s ⟨.idle 2, .idle 3, .done, 2⟩ t x masked := fun _ _ _ _ h => h
  refine write_then (by decide) (write_then (by decide) (write_then (by decide) ?_))
  refine Quiet.mask_then holding_stable (hmask false) ?_
  refine Quiet.awaitGet_then holding_stable (fun _ _ _ h _ => h) fun _ => ?_
  have hfinal : ∀ t x b, Holding s ⟨.idle 2, .idle 3, .done, 2⟩ t x b →
      Final s (fun _ => True) t x true := fun _ _ _ h => ⟨h, trivial, rfl⟩
  refine Quiet.mask_then holding_stable hfinal ?_
  have hone : ∀ t x b, Final s (fun _ => True) t x b → (x.irqCount == 1) = true →
      Final s (· = 1) t x b := fun _ _ _ h hcount => ⟨h.1, eq_of_beq hcount, h.2.2⟩
  refine Quiet.requireGet_then final_stable program_failsWithin_observed
    (show 9 ∈ codes by decide) hone final_stable ?_
  refine Quiet.pass final_stable (fun w hw => Or.inr hw) rfl fun t x b h w hw => ?_
  have hentries : w.log.filterMap entry? = t :=
    (Monitor.watch_collecting entry? w.log).symm.trans hw
  rw [Passed, hentries]
  exact h.complete

theorem minemuKernelMain_spec :
    Spec s (Holding s .initial) (minemuKernelMain s) fun _ _ => True := by
  unfold minemuKernelMain
  refine Triple.bind clear_spec fun _ => write_then (by decide) ?_
  refine expectSvcFrame_then (instruction_then ?_)
  refine svcs_then (n := 1) (by decide) (by decide) ?_
  refine armUndefined_then rfl (by decide) (instruction_then ?_)
  refine disarmUndefined_then (by decide) (instruction_then ?_)
  refine armAbort_then rfl (by decide) ?_
  refine Quiet.read_ignored holding_stable (fun _ _ => rfl) fun data => ?_
  refine Quiet.require_then holding_stable program_failsWithin_observed
    (show 3 ∈ codes by decide) fun _ => ?_
  refine disarmAbort_then (by decide) (revoke_then ?_)
  refine Quiet.mcr_ignored holding_stable (fun _ => rfl) ?_
  refine armAbort_then rfl (by decide) (instruction_then ?_)
  refine disarmAbort_then (by decide) (revoke_then ?_)
  refine Quiet.mcr_ignored holding_stable (fun _ => rfl) ?_
  refine armAbort_then rfl (by decide) (armUndefined_then rfl (by decide) (armDevice_then ?_))
  refine expectSvcFrame_then (minemuRunUserProbe_then ?_)
  refine disarmAbort_then (by decide) (disarmUndefined_then (by decide) ?_)
  refine svcs_then (by decide) (by decide) (disarmDevice_then (by decide) ?_)
  exact interrupted_spec

end Kernel

theorem holding_start : Quiet monitor (Holding s .initial) (program s).start := by
  refine ⟨rfl, fun kind => ?_⟩
  cases kind with
  | undefined => exact ⟨rfl, List.Forall₂.nil⟩
  | abort => exact ⟨rfl, List.Forall₂.nil⟩
  | device => exact ⟨rfl, rfl⟩
  | svc => exact ⟨nofun, rfl, Nat.le_refl 0⟩
  | irq => exact ⟨nofun, rfl⟩

theorem program_observed (s : Symbols) (cs : List (Choice Word Taken)) :
    Observed s ((program s).run cs).2 :=
  Case.invariant_of_triple minemuKernelMain_spec holding_start cs

/-- Unless the platform lets the user program reach the trace, the trace is a verdict, and the
expected one only after every vector was taken as it was due. -/
theorem exceptions_sound (s : Symbols) (cs : List (Choice Word Taken)) :
    let w := ((program s).run cs).2
    Exposed w ∨ ((program s).Verdict w.events ∧
      (w.events = [0x20070001] → Complete s (w.log.filterMap entry?))) :=
  program_observed s cs

end Minemu.Headless.Exceptions
