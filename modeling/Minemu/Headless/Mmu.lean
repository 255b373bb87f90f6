import Minemu.Headless.Handling

/-!
# `headless/mmu`: protection faults on one page

The kernel maps a page, takes away a right, and accesses the page; the dispatcher
gives the right back, and skips the store to the ROM page.  The dispatcher may run at
any point of the kernel, so what a passing run shows is that it ran once around each
such access.  Two kinds of schedule are left out: a dispatcher that is interrupted
itself, where several aborts could share one stage, and a skip that is taken at another
instruction than the store to the ROM page.
-/

namespace Minemu.Headless.Mmu

open Minemu.Lib.Memory Minemu.Lib.Arm Minemu.Lib.Guest Minemu.Platform Minemu.Trap

def testVaddr : Word := 0x20000000

def metadata : Word := 0x15 <<< 7

structure Globals where
  faultStage : Word

structure Symbols where
  table : StaticPage
  page : StaticPage
  deriving Inhabited

variable (s : Symbols)

/-- `root[TEST_DIRECTORY_INDEX]` -/
def rootEntry : Word := 0xc0010000 + 4 * (testVaddr >>> 22)

/-! ## The dispatcher -/

def failUnlessDataAbort (frame : TrapFrame) : Code Globals Unit :=
  if frame.exceptionId != exceptionDataAbort then do
    minemuTraceEvent (0xe0060000 ||| (frame.exceptionId &&& 0xff) <<< 8 ||| (frame.dfsr &&& 0xff))
    minemuConformanceFail 20
  else pure ()

/-- `table[0] |= flag` -/
def grant (flag : Word) : Code Globals Unit := do
  let pte ← read (s.table.word 0)
  write (s.table.word 0) (pte ||| flag)

/-- The branches on `fault_stage`. -/
def repair (frame : TrapFrame) : Code Globals TrapFrame := do
  let stage ← get Globals.faultStage
  if stage == 1 then
    minemuRequire (frame.dfsr == 2) 23
    grant s pteReadable
    pure frame
  else
    let stage ← get Globals.faultStage
    if stage == 2 then
      minemuRequire (frame.dfsr == 0x203) 24
      grant s pteWritable
      pure frame
    else
      let stage ← get Globals.faultStage
      if stage == 3 then
        minemuRequire (frame.dfsr == 0x203) 25
        pure { frame with returnLr := frame.returnLr + 4 }
      else
        minemuConformanceFail 26
        pure frame

def minemuAbortDispatch (frame : TrapFrame) : Code Globals TrapFrame := do
  failUnlessDataAbort frame
  minemuRequire (frame.dfar == testVaddr) 21
  let pte ← read (s.table.word 0)
  minemuRequire (pte &&& (pteAccessed ||| pteDirty) == 0) 22
  let left ← repair s frame
  minemuMmuTlbiall
  set fun _ => ⟨0⟩
  pure left

def dispatch (taken : Taken) : Code Globals TrapFrame :=
  match taken.vector with
  | .prefetchAbort | .dataAbort => minemuAbortDispatch s taken.frame
  | _ => weakDispatch taken

/-! ## The kernel -/

def Symbols.mapping (flags : Word) : Word := minemuTestPaddr s.page.base ||| pteValid ||| flags

def romMapping : Word := 0x08000000 ||| pteValid ||| pteReadable ||| pteWritable

def remap (pte : Word) : Code Globals Unit := do
  write (s.table.word 0) pte
  minemuMmuTlbiall

def minemuKernelMain : Code Globals Unit := do
  Prog.forUpTo (fun i => write (s.table.word i) 0) 1024
  write rootEntry (minemuTestPaddr s.table.base ||| pteValid)
  remap s (s.mapping pteReadable ||| pteWritable ||| metadata)
  write testVaddr 0x12345678
  let stored ← read (s.page.word 0)
  minemuRequire (stored == 0x12345678) 1
  let pte ← read (s.table.word 0)
  minemuRequire (pte &&& (pteAccessed ||| pteDirty) == pteAccessed ||| pteDirty) 2
  let pte ← read (s.table.word 0)
  minemuRequire (pte &&& 0x1f <<< 7 == metadata) 3
  let pte ← read (s.table.word 0)
  remap s (pte &&& ~~~(pteAccessed ||| pteDirty))
  let loaded ← read testVaddr
  minemuRequire (loaded == 0x12345678) 4
  let pte ← read (s.table.word 0)
  minemuRequire (pte &&& pteAccessed != 0) 5
  let pte ← read (s.table.word 0)
  minemuRequire (pte &&& pteDirty == 0) 6
  remap s (s.mapping pteWritable ||| metadata)
  set fun _ => ⟨1⟩
  let loaded ← read testVaddr
  minemuRequire (loaded == 0x12345678) 7
  let stage ← get Globals.faultStage
  minemuRequire (stage == 0) 8
  remap s (s.mapping pteReadable ||| metadata)
  set fun _ => ⟨2⟩
  write testVaddr 0x87654321
  let stored ← read (s.page.word 0)
  minemuRequire (stored == 0x87654321) 9
  let stage ← get Globals.faultStage
  minemuRequire (stage == 0) 10
  remap s romMapping
  set fun _ => ⟨3⟩
  writeOrSkip testVaddr 0
  let stage ← get Globals.faultStage
  minemuRequire (stage == 0) 11
  minemuTraceEvent 0x20060001
  minemuFailStop

def program : Case Globals where
  globals := ⟨0⟩
  minemuKernelMain := minemuKernelMain s
  dispatch := dispatch s
  traceValues := [0x20060001]
  codes := [1, 2, 3, 4, 5, 6, 7, 8, 9, 10, 11, 20, 21, 22, 23, 24, 25, 26]
  diagnostics := [0xe0060000]

/-! ## What a passing run has seen -/

/-- A fault that the dispatcher repairs, for each stage: the frame, the frame that it
leaves, and its accesses.  The faulting access has touched neither bit of the entry. -/
inductive Repaired (frame : TrapFrame) : Word → TrapFrame → List Access → Prop where
  | read {seen pte : Word} (hdfsr : frame.dfsr = 2)
      (hseen : seen &&& (pteAccessed ||| pteDirty) = 0) :
      Repaired frame 1 frame [.read (s.table.word 0) seen, .read (s.table.word 0) pte,
        .write (s.table.word 0) (pte ||| pteReadable), .mcr .tlbiall 0]
  | write {seen pte : Word} (hdfsr : frame.dfsr = 0x203)
      (hseen : seen &&& (pteAccessed ||| pteDirty) = 0) :
      Repaired frame 2 frame [.read (s.table.word 0) seen, .read (s.table.word 0) pte,
        .write (s.table.word 0) (pte ||| pteWritable), .mcr .tlbiall 0]
  | skip {seen : Word} (hdfsr : frame.dfsr = 0x203)
      (hseen : seen &&& (pteAccessed ||| pteDirty) = 0) :
      Repaired frame 3 { frame with returnLr := frame.returnLr + 4 }
        [.read (s.table.word 0) seen, .mcr .tlbiall 0]

def Fault (stage : Word) (es : List Access) : Prop :=
  ∃ address frame left handled, frame.exceptionId = exceptionDataAbort ∧
    frame.dfar = testVaddr ∧ Repaired s frame stage left handled ∧
    es = handled ++ [.exception address frame left]

/-- The accesses `xs`, with those of one fault before, between or after them. -/
def Around (stage : Word) (xs es : List Access) : Prop :=
  ∃ before fault after, xs = before ++ after ∧ Fault s stage fault ∧
    es = before ++ fault ++ after

def cleared (n : Nat) : List Access := (List.range n).map fun i => .write (s.table.word i) 0

/-- What the kernel finds in the entry.  A store sets both bits and keeps the metadata, a
load sets one bit. -/
structure Seen where
  stored : Word
  kept : Word
  given : Word
  touched : Word
  loaded : Word
  stored_bits : stored &&& (pteAccessed ||| pteDirty) = pteAccessed ||| pteDirty
  kept_metadata : kept &&& 0x1f <<< 7 = metadata
  touched_accessed : touched &&& pteAccessed ≠ 0
  loaded_dirty : loaded &&& pteDirty = 0

def mapped (seen : Seen) : List Access :=
  cleared s 1024 ++ [
    .write rootEntry (minemuTestPaddr s.table.base ||| pteValid),
    .write (s.table.word 0) (s.mapping pteReadable ||| pteWritable ||| metadata),
    .mcr .tlbiall 0,
    .write testVaddr 0x12345678,
    .read (s.page.word 0) 0x12345678,
    .read (s.table.word 0) seen.stored,
    .read (s.table.word 0) seen.kept,
    .read (s.table.word 0) seen.given,
    .write (s.table.word 0) (seen.given &&& ~~~(pteAccessed ||| pteDirty)),
    .mcr .tlbiall 0,
    .read testVaddr 0x12345678,
    .read (s.table.word 0) seen.touched,
    .read (s.table.word 0) seen.loaded]

def remapped (pte : Word) : List Access := [.write (s.table.word 0) pte, .mcr .tlbiall 0]

/-- The whole run: the mapped page, and three faults, at a load without the right to, at a
store without, and at a store to ROM, which may have been skipped. -/
def Passed (w : World Globals) : Prop :=
  ∃ seen unreadable readonly stored rom, (stored = [] ∨ stored = [.write testVaddr 0]) ∧
    Around s 1 [.read testVaddr 0x12345678] unreadable ∧
    Around s 2 [.write testVaddr 0x87654321, .read (s.page.word 0) 0x87654321] readonly ∧
    Around s 3 stored rom ∧
    w.log = mapped s seen ++
      remapped s (s.mapping pteWritable ||| metadata) ++ unreadable ++
      remapped s (s.mapping pteReadable ||| metadata) ++ readonly ++
      remapped s romMapping ++ rom ++ [.write traceBase 0x20060001]

theorem program_expects : (program s).Expects := ⟨by simp [program], by simp [program]⟩

theorem program_pending : (program s).Pending [] := by
  show [] <+: [_] ∧ [] ≠ [_]
  simp

theorem program_failsWithin : (program s).FailsWithin ((program s).Invariant (Passed s)) :=
  (program_expects s).failsWithin (program_pending s)

variable {s}

section Dispatch

variable {α : Type} {frame : TrapFrame} {t : List Access} {stage : Word} {b : Bool}
  {k : TrapFrame → Code Globals α} {g : Code Globals α} {Q : α → World Globals → Prop}

abbrev Midway (s : Symbols) (t : List Access) (stage : Word) (b : Bool) (g : Code Globals α)
    (Q : α → World Globals → Prop) : Prop :=
  Triple alone ((program s).Invariant (Passed s)) (Quiet .all (Exactly t ⟨stage⟩ b)) g Q

theorem stable_alone : Stable (alone : Handlers (Command Globals) Word (World Globals) Empty)
    ((program s).Invariant (Passed s)) (Quiet .all (Exactly t ⟨stage⟩ b)) :=
  Quiet.stable_alone (program_pending s)

theorem failUnlessDataAbort_then
    (hg : frame.exceptionId = exceptionDataAbort → Midway s t stage b g Q) :
    Midway s t stage b (failUnlessDataAbort frame >>= fun _ => g) Q := by
  unfold failUnlessDataAbort
  by_cases hid : frame.exceptionId = exceptionDataAbort
  · rw [if_neg (by simp [hid])]
    exact hg hid
  · rw [if_pos (by simp [hid])]
    simp only [bind_assoc]
    refine Triple.alarm_then stable_alone
      (Or.inl ⟨0xe0060000, by simp [program], _, BitVec.or_assoc _ _ _⟩) ?_
    refine Triple.alarm_then (Stable.without fun w hw => hw.invariant (program_expects s))
      (Or.inr ⟨20, by simp [program], rfl⟩) ?_
    exact Triple.stop fun w hw => hw.invariant (program_expects s)

theorem grant_then {flag : Word}
    (hg : ∀ pte, Midway s
      (t ++ [.read (s.table.word 0) pte] ++ [.write (s.table.word 0) (pte ||| flag)])
      stage b g Q) :
    Midway s t stage b (grant s flag >>= fun _ => g) Q :=
  Exactly.read_then stable_alone fun pte =>
    Exactly.write_then stable_alone (StaticPage.word_ne (by decide)) (hg pte)

theorem repair_then {seen : Word} (hseen : seen &&& (pteAccessed ||| pteDirty) = 0)
    (hk : ∀ left es,
      Repaired s frame stage left ([.read (s.table.word 0) seen] ++ es ++ [.mcr .tlbiall 0]) →
      Midway s (t ++ es) stage b (k left) Q) :
    Midway s t stage b (repair s frame >>= k) Q := by
  have hrequire {code : Word} {dfsr : Word} {g : Code Globals α}
      (hcode : code ∈ (program s).codes) (hg : frame.dfsr = dfsr → Midway s t stage b g Q) :
      Midway s t stage b (minemuRequire (frame.dfsr == dfsr) code >>= fun _ => g) Q :=
    Quiet.require_then stable_alone (program_failsWithin s) hcode fun h => hg (eq_of_beq h)
  unfold repair
  simp only [bind_assoc]
  refine Exactly.get_then stable_alone ?_
  by_cases h1 : stage = 1
  · subst h1
    simp only [beq_self_eq_true, if_true, bind_assoc]
    refine hrequire (by simp [program]) fun hdfsr => grant_then fun pte => ?_
    have hrepaired := hk frame
      [.read (s.table.word 0) pte, .write (s.table.word 0) (pte ||| pteReadable)]
      (.read hdfsr hseen)
    simpa using hrepaired
  rw [if_neg (by simpa using h1)]
  simp only [bind_assoc]
  refine Exactly.get_then stable_alone ?_
  by_cases h2 : stage = 2
  · subst h2
    simp only [beq_self_eq_true, if_true, bind_assoc]
    refine hrequire (by simp [program]) fun hdfsr => grant_then fun pte => ?_
    have hrepaired := hk frame
      [.read (s.table.word 0) pte, .write (s.table.word 0) (pte ||| pteWritable)]
      (.write hdfsr hseen)
    simpa using hrepaired
  rw [if_neg (by simpa using h2)]
  simp only [bind_assoc]
  refine Exactly.get_then stable_alone ?_
  by_cases h3 : stage = 3
  · subst h3
    simp only [beq_self_eq_true, if_true, bind_assoc]
    refine hrequire (by simp [program]) fun hdfsr => ?_
    have hrepaired := hk _ [] (.skip hdfsr hseen)
    simpa using hrepaired
  · rw [if_neg (by simpa using h3)]
    simp only [bind_assoc]
    refine Triple.bind (M := fun _ _ => False)
      (Triple.fail (program_expects s) stable_alone (by simp [program])) fun _ w hw => hw.elim

end Dispatch

def Post (s : Symbols) (taken : Taken) (t : List Access) (g : Globals) (left : TrapFrame)
    (t' : List Access) (g' : Globals) : Prop :=
  ∃ handled, taken.frame.exceptionId = exceptionDataAbort ∧ taken.frame.dfar = testVaddr ∧
    Repaired s taken.frame g.faultStage left handled ∧ t' = t ++ handled ∧ g' = ⟨0⟩

theorem minemuAbortDispatch_spec (taken : Taken) (t : List Access) (g : Globals) (b : Bool) :
    Triple alone ((program s).Invariant (Passed s)) (Quiet .all (Exactly t g b))
      (minemuAbortDispatch s taken.frame)
      fun left => Quiet .all fun t' g' b' => Post s taken t g left t' g' ∧ b' = b := by
  unfold minemuAbortDispatch
  refine failUnlessDataAbort_then fun hid => ?_
  refine Quiet.require_then stable_alone (program_failsWithin s) (by simp [program]) fun hdfar => ?_
  refine Exactly.read_then stable_alone fun seen => ?_
  refine Quiet.require_then stable_alone (program_failsWithin s) (by simp [program]) fun hseen => ?_
  refine repair_then (eq_of_beq hseen) fun left es hes => ?_
  refine Exactly.mcr_then stable_alone (Exactly.set_then stable_alone ?_)
  refine Quiet.ret_alone (program_pending s) ?_
  rintro t' g' b' ⟨rfl, rfl, rfl⟩
  refine ⟨⟨_, hid, eq_of_beq hdfar, hes, ?_, rfl⟩, rfl⟩
  simp [Monitor.all]

theorem dispatch_spec (taken : Taken) (t : List Access) (g : Globals) (b : Bool) :
    Triple alone ((program s).Invariant (Passed s)) (Quiet .all (Exactly t g b))
      ((program s).dispatch taken)
      fun left => Quiet .all fun t' g' b' => Post s taken t g left t' g' ∧ b' = b := by
  have hweak : Triple alone ((program s).Invariant (Passed s)) (Quiet .all (Exactly t g b))
      (weakDispatch taken)
      fun left => Quiet .all fun t' g' b' => Post s taken t g left t' g' ∧ b' = b :=
    Triple.stop fun w hw => hw.invariant (program_pending s)
  show Triple _ _ _ (dispatch s taken) _
  unfold dispatch
  cases taken.vector with
  | prefetchAbort => exact minemuAbortDispatch_spec taken t g b
  | dataAbort => exact minemuAbortDispatch_spec taken t g b
  | undefined => exact hweak
  | svc => exact hweak
  | irq => exact hweak

/-! ## The kernel under interruption -/

/-- No fault is due: the dispatcher would not return. -/
def Idle (t : List Access) : List Access → Globals → Bool → Prop := Exactly t ⟨0⟩ true

/-- A fault is due among the accesses `xs`, or has been repaired. -/
def Armed (s : Symbols) (stage : Word) (t xs : List Access) :
    List Access → Globals → Bool → Prop :=
  fun t' g b => b = true ∧
    ((g = ⟨stage⟩ ∧ t' = t ++ xs) ∨ (g = ⟨0⟩ ∧ ∃ es, Around s stage xs es ∧ t' = t ++ es))

theorem idle_stable {t : List Access} :
    Stable (program s).handlers ((program s).Invariant (Passed s)) (Quiet .all (Idle t)) := by
  refine Quiet.stable (program_pending s) (fun taken t g b _ => dispatch_spec taken t g b) ?_
  rintro taken t' g b ⟨rfl, rfl, rfl⟩ - left t' g' ⟨handled, -, -, hrepaired, -⟩
  cases hrepaired

theorem armed_stable {stage : Word} {t xs : List Access} :
    Stable (program s).handlers ((program s).Invariant (Passed s))
      (Quiet .all (Armed s stage t xs)) := by
  refine Quiet.stable (program_pending s) (fun taken t g b _ => dispatch_spec taken t g b) ?_
  rintro taken t' g b ⟨rfl, ⟨rfl, rfl⟩ | ⟨rfl, -⟩⟩ - left t'' g'
    ⟨handled, hid, hdfar, hrepaired, rfl, rfl⟩
  · refine ⟨rfl, Or.inr ⟨rfl, _, ⟨xs, _, [], (List.append_nil xs).symm,
      ⟨taken.address, taken.frame, left, handled, hid, hdfar, hrepaired, rfl⟩, rfl⟩, ?_⟩⟩
    simp [Monitor.all]
  · cases hrepaired

section Kernel

variable {stage : Word} {t xs : List Access} {k : Word → Code Globals Unit}
  {g : Code Globals Unit} {Q : Unit → World Globals → Prop}

abbrev Spec (s : Symbols) (R : List Access → Globals → Bool → Prop) (g : Code Globals Unit)
    (Q : Unit → World Globals → Prop) : Prop :=
  Triple (program s).handlers ((program s).Invariant (Passed s)) (Quiet .all R) g Q

theorem Armed.append {t' : List Access} {g : Globals} {b : Bool} (h : Armed s stage t xs t' g b)
    (x : Access) : Armed s stage t (xs ++ [x]) (t' ++ [x]) g b := by
  obtain ⟨rfl, ⟨rfl, rfl⟩ | ⟨rfl, es, ⟨before, fault, after, rfl, hfault, rfl⟩, rfl⟩⟩ := h
  · exact ⟨rfl, Or.inl ⟨rfl, List.append_assoc _ _ _⟩⟩
  · refine ⟨rfl, Or.inr ⟨rfl, _, ⟨before, fault, after ++ [x], ?_, hfault, rfl⟩, ?_⟩⟩
    · exact List.append_assoc _ _ _
    · simp

theorem armed_read_then {a : Word}
    (hk : ∀ v, Spec s (Armed s stage t (xs ++ [.read a v])) (k v) Q) :
    Spec s (Armed s stage t xs) (read a >>= k) Q :=
  Quiet.read_then armed_stable (fun v _ _ _ h => h.append (.read a v)) hk

theorem armed_write_then {a x : Word} (hne : a ≠ traceBase)
    (hg : Spec s (Armed s stage t (xs ++ [.write a x])) g Q) :
    Spec s (Armed s stage t xs) (write a x >>= fun _ => g) Q :=
  Quiet.write_then armed_stable hne (fun _ _ _ h => h.append (.write a x)) hg

theorem armed_writeOrSkip_then {a x : Word} (hne : a ≠ traceBase)
    (hg : ∀ stored, stored = [] ∨ stored = [.write a x] →
      Spec s (Armed s stage t (xs ++ stored)) g Q) :
    Spec s (Armed s stage t xs) (writeOrSkip a x >>= fun _ => g) Q := by
  unfold writeOrSkip
  simp only [bind_assoc]
  refine Quiet.sense_then armed_stable fun skipped => ?_
  split
  · exact armed_write_then hne (hg _ (Or.inr rfl))
  · have hskip := hg [] (Or.inl rfl)
    rwa [List.append_nil] at hskip

theorem arm_then (hg : Spec s (Armed s stage t []) g Q) :
    Spec s (Idle t) (set (fun _ => ⟨stage⟩) >>= fun _ => g) Q := by
  refine Quiet.set_then idle_stable (fun t' g b h => ?_) hg
  obtain ⟨rfl, rfl, rfl⟩ := h
  exact ⟨rfl, Or.inl ⟨rfl, (List.append_nil _).symm⟩⟩

/-- The check that the fault has come. -/
theorem disarm_then {code : Word} (hstage : stage ≠ 0) (hcode : code ∈ (program s).codes)
    (hg : ∀ es, Around s stage xs es → Spec s (Idle (t ++ es)) g Q) :
    Spec s (Armed s stage t xs)
      (get Globals.faultStage >>= fun v => minemuRequire (v == 0) code >>= fun _ => g) Q := by
  have hquiet : Stable (program s).handlers ((program s).Invariant (Passed s))
      (Quiet .all fun t' g b => ∃ es, Around s stage xs es ∧ Idle (t ++ es) t' g b) := by
    refine Quiet.stable (program_pending s) (fun taken t g b _ => dispatch_spec taken t g b) ?_
    rintro taken t' g b ⟨es, -, rfl, rfl, rfl⟩ - left t'' g' ⟨handled, -, -, hrepaired, -⟩
    cases hrepaired
  refine Quiet.requireGet_then armed_stable (program_failsWithin s) hcode ?_ hquiet ?_
  · rintro t' g b ⟨rfl, ⟨rfl, rfl⟩ | ⟨rfl, es, hes, rfl⟩⟩ hdone
    · exact absurd (eq_of_beq hdone) hstage
    · exact ⟨es, hes, rfl, rfl, rfl⟩
  · intro w ⟨hevents, es, hes, hidle⟩
    exact hg es hes w ⟨hevents, hidle⟩

theorem remap_then {pte : Word}
    (hg : Spec s (Idle (t ++ remapped s pte)) g Q) :
    Spec s (Idle t) (remap s pte >>= fun _ => g) Q := by
  refine Exactly.write_then idle_stable (StaticPage.word_ne (by decide)) ?_
  refine Exactly.mcr_then idle_stable ?_
  rw [remapped, List.append_cons] at hg
  exact hg

theorem clear_spec :
    Triple (program s).handlers ((program s).Invariant (Passed s)) (Quiet .all (Idle (cleared s 0)))
      (Prog.forUpTo (fun i => write (s.table.word i) 0) 1024)
      fun _ => Quiet .all (Idle (cleared s 1024)) := by
  refine Triple.forUpTo (J := fun i => Quiet .all (Idle (cleared s i))) idle_stable fun i hi => ?_
  refine Triple.issue idle_stable idle_stable fun v w hw => ?_
  refine hw.record (event?_write (StaticPage.word_ne hi)) ?_
  rintro t g b ⟨rfl, rfl, rfl⟩
  refine ⟨?_, rfl, rfl⟩
  rw [cleared, cleared, List.range_succ, List.map_append]
  rfl

theorem check_then {condition : Word → Bool} {code : Word} {a : Word}
    (hcode : code ∈ (program s).codes)
    (hg : ∀ v, condition v = true → Spec s (Idle (t ++ [.read a v])) g Q) :
    Spec s (Idle t)
      (read a >>= fun v => minemuRequire (condition v) code >>= fun _ => g) Q :=
  Exactly.read_then idle_stable fun v =>
    Quiet.require_then idle_stable (program_failsWithin s) hcode (hg v)

end Kernel

/-- The three faults. -/
theorem faults_spec (seen : Seen) :
    Spec s (Idle (mapped s seen)) (do
      remap s (s.mapping pteWritable ||| metadata)
      set fun _ => ⟨1⟩
      let loaded ← read testVaddr
      minemuRequire (loaded == 0x12345678) 7
      let stage ← get Globals.faultStage
      minemuRequire (stage == 0) 8
      remap s (s.mapping pteReadable ||| metadata)
      set fun _ => ⟨2⟩
      write testVaddr 0x87654321
      let stored ← read (s.page.word 0)
      minemuRequire (stored == 0x87654321) 9
      let stage ← get Globals.faultStage
      minemuRequire (stage == 0) 10
      remap s romMapping
      set fun _ => ⟨3⟩
      writeOrSkip testVaddr 0
      let stage ← get Globals.faultStage
      minemuRequire (stage == 0) 11
      minemuTraceEvent 0x20060001
      minemuFailStop) fun _ _ => False := by
  refine remap_then (arm_then ?_)
  refine armed_read_then fun v => ?_
  refine Quiet.require_then armed_stable (program_failsWithin s) (by simp [program]) fun hv => ?_
  obtain rfl := eq_of_beq hv
  refine disarm_then (by decide) (by simp [program]) fun unreadable hunreadable => ?_
  refine remap_then (arm_then (armed_write_then (by decide) ?_))
  refine armed_read_then fun v => ?_
  refine Quiet.require_then armed_stable (program_failsWithin s) (by simp [program]) fun hv => ?_
  obtain rfl := eq_of_beq hv
  refine disarm_then (by decide) (by simp [program]) fun readonly hreadonly => ?_
  refine remap_then (arm_then (armed_writeOrSkip_then (by decide) fun stored hstored => ?_))
  refine disarm_then (by decide) (by simp [program]) fun rom hrom => ?_
  refine Quiet.pass idle_stable (fun _ h => h) rfl ?_
  intro t g b ⟨ht, _, _⟩ w hw
  rw [Monitor.watch_all, Monitor.all_step, ht] at hw
  exact ⟨seen, unreadable, readonly, stored, rom, hstored, hunreadable, hreadonly, hrom, hw⟩

theorem minemuKernelMain_spec :
    Spec s (Idle []) (minemuKernelMain s) fun _ _ => False := by
  unfold minemuKernelMain
  refine Triple.bind clear_spec fun _ => ?_
  refine Exactly.write_then idle_stable (by decide) (remap_then ?_)
  refine Exactly.write_then idle_stable (by decide) ?_
  refine check_then (by simp [program]) fun v hv => ?_
  obtain rfl := eq_of_beq hv
  refine check_then (by simp [program]) fun stored hstored => ?_
  refine check_then (by simp [program]) fun kept hkept => ?_
  refine Exactly.read_then idle_stable fun given => remap_then ?_
  refine check_then (by simp [program]) fun v hv => ?_
  obtain rfl := eq_of_beq hv
  refine check_then (by simp [program]) fun touched htouched => ?_
  refine check_then (by simp [program]) fun loaded hloaded => ?_
  refine (faults_spec ⟨stored, kept, given, touched, loaded, eq_of_beq hstored, eq_of_beq hkept,
    by simpa using htouched, eq_of_beq hloaded⟩).pre fun w hw => hw.mono ?_
  intro t g b ⟨ht, hg, hb⟩
  refine ⟨?_, hg, hb⟩
  simp [ht, mapped, remapped, Monitor.all_step]

theorem program_sound (s : Symbols) : (program s).Sound (Passed s) :=
  Case.sound_of_triple minemuKernelMain_spec ⟨rfl, rfl, rfl, rfl⟩

/-- As long as no dispatcher is interrupted, the case passes only on a unit that keeps both bits
and the metadata of the entry, and faults once at each of the three accesses, with the status
of the right that is missing. -/
theorem mmu_sound (s : Symbols) (cs : List (Choice Word Taken)) :
    let w := ((program s).run cs).2
    (program s).Verdict w.events ∧ (w.events = [0x20060001] → Passed s w) :=
  program_sound s cs

/-! ## A passing run exists -/

section Attaining

variable {α : Type} {g : Code Globals α} {Q : α → World Globals → Prop}
  {T : World Globals → Prop} {b : Bool}

def faultAt (dfsr : Word) : Taken :=
  ⟨.dataAbort, 0, { plainFrame with
    exceptionId := exceptionDataAbort
    dfsr := dfsr
    dfar := testVaddr }⟩

theorem repaired_attains {stage : Word} (dfsr : Word) (left : TrapFrame)
    (h : (stage, dfsr, left) ∈ [(1, 2, (faultAt 2).frame), (2, 0x203, (faultAt 0x203).frame),
      (3, 0x203, { (faultAt 0x203).frame with returnLr := 4 })]) (hrunning : g.Running)
    (hg : Attains (program s).handlers (Stands [] ⟨0⟩ b) g Q T) :
    Attains (program s).handlers (Stands [] ⟨stage⟩ b) g Q T := by
  refine Stands.interrupt (c := program s) hrunning (faultAt dfsr) rfl left ?_ hg
  show Attains alone _ (minemuAbortDispatch s (faultAt dfsr).frame) _ _
  unfold minemuAbortDispatch failUnlessDataAbort
  have hid : (faultAt dfsr).frame.exceptionId = exceptionDataAbort := rfl
  rw [hid, if_neg (by decide)]
  refine Stands.require_then rfl (Stands.read_then 0 (Stands.require_then (by decide) ?_))
  unfold repair grant
  simp only [bind_assoc]
  have hword : s.table.word 0 ≠ traceBase := StaticPage.word_ne (by decide)
  simp only [List.mem_cons, Prod.mk.injEq, List.not_mem_nil, or_false] at h
  rcases h with ⟨rfl, rfl, rfl⟩ | ⟨rfl, rfl, rfl⟩ | ⟨rfl, rfl, rfl⟩
  · refine Stands.get_then ?_
    rw [if_pos (by decide)]
    simp only [bind_assoc, pure_bind]
    refine Stands.require_then rfl (Stands.read_then 0 (Stands.write_then hword ?_))
    refine Stands.mcr_then (Stands.set_then ?_)
    exact Attains.ret fun _ hw => ⟨rfl, hw⟩
  · refine Stands.get_then ?_
    rw [if_neg (by decide)]
    simp only [bind_assoc]
    refine Stands.get_then ?_
    rw [if_pos (by decide)]
    simp only [bind_assoc, pure_bind]
    refine Stands.require_then rfl (Stands.read_then 0 (Stands.write_then hword ?_))
    refine Stands.mcr_then (Stands.set_then ?_)
    exact Attains.ret fun _ hw => ⟨rfl, hw⟩
  · refine Stands.get_then ?_
    rw [if_neg (by decide)]
    simp only [bind_assoc]
    refine Stands.get_then ?_
    rw [if_neg (by decide)]
    simp only [bind_assoc]
    refine Stands.get_then ?_
    rw [if_pos (by decide)]
    simp only [bind_assoc, pure_bind]
    refine Stands.require_then rfl (Stands.mcr_then (Stands.set_then ?_))
    exact Attains.ret fun _ hw => ⟨rfl, hw⟩

theorem remap_attains {pte : Word} {x : Globals}
    (hg : Attains (program s).handlers (Stands [] x b) g Q T) :
    Attains (program s).handlers (Stands [] x b) (remap s pte >>= fun _ => g) Q T :=
  Stands.write_then (StaticPage.word_ne (by decide)) (Stands.mcr_then hg)

end Attaining

theorem program_attainable : (program s).Attainable := by
  refine Case.attainable (c := program s) ?_
  show Attains (program s).handlers (Stands [] ⟨0⟩ true) (minemuKernelMain s) _ _
  unfold minemuKernelMain
  refine Stands.loop_then (fun i hi => ?_) ?_
  · exact Stands.write_then (g := pure ()) (StaticPage.word_ne hi) Stands.ret
  refine Stands.write_then (by decide) (remap_attains (Stands.write_then (by decide) ?_))
  refine Stands.read_then 0x12345678 (Stands.require_then (by decide) ?_)
  refine Stands.read_then (pteAccessed ||| pteDirty) (Stands.require_then (by decide) ?_)
  refine Stands.read_then metadata (Stands.require_then (by decide) ?_)
  refine Stands.read_then 0 (remap_attains ?_)
  refine Stands.read_then 0x12345678 (Stands.require_then (by decide) ?_)
  refine Stands.read_then pteAccessed (Stands.require_then (by decide) ?_)
  refine Stands.read_then 0 (Stands.require_then (by decide) ?_)
  refine remap_attains (Stands.set_then ?_)
  refine repaired_attains 2 (faultAt 2).frame (by simp) trivial ?_
  refine Stands.read_then 0x12345678 (Stands.require_then (by decide) ?_)
  refine Stands.get_then (Stands.require_then (by decide) ?_)
  refine remap_attains (Stands.set_then ?_)
  refine repaired_attains 0x203 (faultAt 0x203).frame (by simp) trivial ?_
  refine Stands.write_then (by decide) ?_
  refine Stands.read_then 0x87654321 (Stands.require_then (by decide) ?_)
  refine Stands.get_then (Stands.require_then (by decide) ?_)
  refine remap_attains (Stands.set_then ?_)
  unfold writeOrSkip
  simp only [bind_assoc]
  refine repaired_attains 0x203 { (faultAt 0x203).frame with returnLr := 4 } (by simp) trivial ?_
  refine Stands.sense_then 1 ?_
  rw [if_neg (by decide)]
  refine Stands.get_then (Stands.require_then (by decide) ?_)
  exact Stands.event_then Stands.stop

end Minemu.Headless.Mmu
