import Minemu.Lib.Trace
import Minemu.Trap.Trampoline

/-!
# Two tasks behind one trampoline

Both context-switch examples take a trap in the running task, hand its frame to a C
dispatcher and resume the frame the dispatcher returns.  The dispatcher knows two
frame pointers and nothing else; which task runs and what each task saved last is
bookkeeping of this model.
-/

namespace Minemu.Context

open Minemu.Lib Minemu.Lib.Memory Minemu.Lib.Arm Minemu.Trap

/-! ## Tasks and their contexts -/

inductive Task where
  | a | b
  deriving DecidableEq, Repr

def Task.other : Task → Task
  | .a => .b
  | .b => .a

/-- What a task is resumed from: the address of the frame, its words, and the machine
that was interrupted.  A context prepared for a task that has not run has none. -/
structure Saved where
  frame : Word
  words : TrapFrame
  interrupted : Option Machine

structure Dispatch (V : Type) where
  vars : V
  mem : Mem
  returned : Word

/-- An example kernel: its static variables, its trampoline, its dispatcher, whose
stack a frame lies on, and what a task may do between traps. -/
structure Example where
  Variables : Type
  entry : Entry
  back : Word
  taskAFrame : Variables → Word
  taskBFrame : Variables → Word
  dispatch : Variables → Mem → Word → Dispatch Variables
  owner : Word → Task
  runs : Task → Machine → Machine → Prop

structure System (x : Example) where
  machine : Machine
  vars : x.Variables
  current : Task
  /-- The frame resumed last. -/
  returned : Word
  context : Task → Option Saved

namespace Example

variable (x : Example)

/-! ## A trap -/

def bank : Bank := x.entry.exception.bank

def frame (m : Machine) : Word := (x.entry.call m).r 0

variable {x}

def result (s : System x) (m : Machine) : Dispatch x.Variables :=
  x.dispatch s.vars (x.entry.call m).mem (x.frame m)

def interrupt (s : System x) (m : Machine) : Task → Option Saved :=
  Function.update s.context s.current
    (some ⟨x.frame m, TrapFrame.load (x.entry.call m).mem (x.frame m), some m⟩)

/-- The contexts after the dispatcher: a task resumed without ever having trapped has
the context made for it. -/
def contexts (s : System x) (m : Machine) : Task → Option Saved :=
  let returned := (result s m).returned
  if interrupt s m (x.owner returned) = none then
    Function.update (interrupt s m) (x.owner returned)
      (some ⟨returned, TrapFrame.load (result s m).mem returned, none⟩)
  else interrupt s m

end Example

def frameBytes (context : Task → Option Saved) : Set Word :=
  {a | ∃ t c, context t = some c ∧ a ∈ region c.frame sizeofTrapFrame}

/-- The dispatcher returns `d` to its caller.  Its C stack may leave anything in the
bytes outside the saved frames. -/
structure Returned {V : Type} (d : Dispatch V) (context : Task → Option Saved) (m m' : Machine) :
    Prop extends ProcedureCall m m' where
  result : m'.r 0 = d.returned
  otherSp : ∀ b, b ≠ m.bank → m'.sp b = m.sp b
  otherLr : ∀ b, b ≠ m.bank → m'.lr b = m.lr b
  mem : ∀ a ∈ frameBytes context, m'.mem a = d.mem a

/-- A task's activity keeps the frame the other task will be resumed from. -/
def KeepsOther {x : Example} (s : System x) (m : Machine) : Prop :=
  ∀ c, s.context s.current.other = some c →
    ∀ a ∈ region c.frame sizeofTrapFrame, m.mem a = s.machine.mem a

structure Step (x : Example) (s s' : System x) (m m' : Machine) : Prop where
  runs : x.runs s.current s.machine m
  keeps : KeepsOther s m
  returned : Returned (Example.result s m) (Example.contexts s m) (x.entry.call m) m'
  next : s' = {
    machine := block x.entry.restore m'
    vars := (Example.result s m).vars
    current := x.owner (Example.result s m).returned
    returned := (Example.result s m).returned
    context := Example.contexts s m }

def step (x : Example) (s s' : System x) : Prop := ∃ m m', Step x s s' m m'

/-! ## What a context switch promises -/

/-- `p` designates the latest context of task `t`. -/
def Designates {x : Example} (s : System x) (t : Task) (p : Word) : Prop :=
  ∃ c, s.context t = some c ∧ c.frame = p ∧ TrapFrame.load s.machine.mem p = c.words

/-- A trap that went from `s` to `s'` switched to the other task and lost none. -/
structure Switches {x : Example} (s s' : System x) : Prop where
  alternates : s'.current = s.current.other
  resumes : Designates s' s.current.other s'.returned
  taskA : Designates s' .a (x.taskAFrame s'.vars)
  taskB : Designates s' .b (x.taskBFrame s'.vars)

end Minemu.Context
