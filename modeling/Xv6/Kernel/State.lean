import Xv6.Library.Ring

/-!
# The process table and the processors

The data that `proc.c`, `proc.h`, `trap.c` and `main.c` share: `ptable` with its five rings, the
global counters and one record for each processor. A processor executes either the thread of its
`scheduler()` or the kernel thread of one process; `Cpu.stack` says whose stack it is on, `Cpu.mode`
where in the code it is, and `Cpu.proc` is the variable `c->proc` that `myproc()` reads.
-/

namespace Xv6.Kernel
open Xv6.Library

abbrev NPROC : Nat := 64

abbrev Slot := Fin NPROC

abbrev Level := Fin 5

@[irreducible] def int32 (x : Int) : Int := x.bmod (2 ^ 32)

def uint32 (x : Int) : Nat := (x % 2 ^ 32).toNat

def slice : List Nat := [1, 2, 4, 8, 16]

def ageingConst : Int := 1000

inductive ProcState where
  | unused | embryo | sleeping | runnable | running | zombie
  deriving DecidableEq, Repr

inductive Chan where
  | proc (p : Slot)
  | ticks
  | other (address : Nat)
  deriving DecidableEq

inductive WaitKind where
  | wait | waitx
  deriving DecidableEq

/-- Where a saved `p->context` returns to: `forkret`, or the caller of `sched`. -/
inductive Context where
  | forkret | yield | sleep | exit
  | wait (kind : WaitKind)
  deriving DecidableEq

/-- What the thread of a process is in the middle of, on its own kernel stack. -/
inductive Work where
  | run
  | allocated (np : Slot)
  | filled (np : Slot)
  | copied (np : Slot)
  -- `masked` when `exit` was called from an interrupt, with interrupts off
  | exiting (masked : Bool)
  deriving DecidableEq

structure Proc where
  state : ProcState
  pid : Int
  parent : Option Slot
  context : Context
  work : Work
  chan : Option Chan
  killed : Bool
  priority : Int
  ctime : Int
  etime : Int
  wtime : Int
  rtime : Int
  queue : Int
  modtime : Int
  retime : Int
  numRun : Int
  ticks : Level → Int
  lastExecuted : Int
  -- `tf->eax`, and the two integers `waitx` leaves in user memory
  eax : Int
  out : Int × Int

inductive Halt where
  | panic (message : String)
  -- a null or wild pointer was followed
  | fault
  deriving DecidableEq

/-- Where the loop of `wakeup1` continues: in `wakeup` for an ordinary caller or for the timer trap,
or in the loop of `exit` over the children. -/
inductive Ret where
  | caller
  | account
  | reparent (i : Nat)
  deriving DecidableEq

inductive Mode where
  -- main() and mpmain()
  | off
  | mpenter
  | startothers (c : Nat)
  | started (c : Nat)
  | userinit
  | userAllocated (p : Slot)
  | userFilled (p : Slot)
  | userCopied (p : Slot)
  | mpmain
  -- scheduler()
  | enter
  | resetHead (i : Nat)
  | resetTail (i : Level)
  | loop
  | back
  | ageing (q : Level) (i : Fin NPROC)
  -- trap()
  | tick
  | account
  | trapEnd
  -- the thread of a process
  | thread
  | resumed
  | waiting (kind : WaitKind)
  | wakeup1 (chan : Option Chan) (i : Nat) (ret : Ret)
  | reparent (i : Nat)
  | sched (context : Context)
  | halted (why : Halt)
  deriving DecidableEq

structure Cpu where
  proc : Option Slot
  stack : Option Slot
  mode : Mode
  started : Bool
  -- the local variables of scheduler() that survive a swtch
  p : Option Slot
  a : Nat
  ageingUpdate : Int
  deriving DecidableEq

structure State (n : Nat) where
  lock : Option (Fin n)
  proc : Slot → Proc
  queue : Level → Ring NPROC (Option Slot)
  nextpid : Int
  flag : Int
  initproc : Option Slot
  ticks : Nat
  cpu : Fin n → Cpu

inductive Policy where
  | default | pbs | fcfs | mlfq
  deriving DecidableEq

/-- A process slot and a ring as the loader leaves them: every byte is zero. -/
def Proc.zero : Proc where
  state := .unused
  pid := 0
  parent := none
  context := .forkret
  work := .run
  chan := none
  killed := false
  priority := 0
  ctime := 0
  etime := 0
  wtime := 0
  rtime := 0
  queue := 0
  modtime := 0
  retime := 0
  numRun := 0
  ticks := fun _ => 0
  lastExecuted := 0
  eax := 0
  out := (0, 0)

def emptyRing : Ring NPROC (Option Slot) := ⟨0, 0, fun _ => none⟩

def Cpu.zero (mode : Mode) : Cpu where
  proc := none
  stack := none
  mode := mode
  started := false
  p := none
  a := 0
  ageingUpdate := 0

variable {n : Nat}

/-- The machine as `main()` of the boot processor reaches `startothers()`. -/
def boot (bsp : Fin n) : State n where
  lock := none
  proc := fun _ => Proc.zero
  queue := fun _ => emptyRing
  nextpid := 1
  flag := 0
  initproc := none
  ticks := 0
  cpu := fun c => Cpu.zero (if c = bsp then .startothers 0 else .off)

namespace State

@[simps -fullyApplied]
def acquire (s : State n) (c : Fin n) : State n := { s with lock := some c }

@[simps -fullyApplied]
def release (s : State n) : State n := { s with lock := none }

@[simps -fullyApplied lock proc queue ticks flag nextpid initproc]
def setCpu (s : State n) (c : Fin n) (f : Cpu → Cpu) : State n :=
  { s with cpu := Function.update s.cpu c (f (s.cpu c)) }

@[simps -fullyApplied lock queue cpu ticks flag nextpid initproc]
def setProc (s : State n) (p : Slot) (f : Proc → Proc) : State n :=
  { s with proc := Function.update s.proc p (f (s.proc p)) }

def goto (s : State n) (c : Fin n) (m : Mode) : State n := s.setCpu c fun k => { k with mode := m }

@[simp] def halt (s : State n) (c : Fin n) (why : Halt) : State n := s.goto c (.halted why)

@[simp] def panic (s : State n) (c : Fin n) (message : String) : State n := s.halt c (.panic message)

@[simp] def myproc (s : State n) (c : Fin n) : Option Slot := (s.cpu c).proc

def resume (s : State n) (c : Fin n) : State n :=
  s.goto c (if (s.cpu c).stack.isSome then .thread else .loop)

def setCur (s : State n) (c : Fin n) (f : Proc → Proc) : State n :=
  match (s.cpu c).stack with
  | some p => s.setProc p f
  | none => s

section Fields
variable (s : State n) (c d : Fin n) (p r : Slot) (f : Proc → Proc) (g : Cpu → Cpu) (m : Mode)

@[simp] theorem setCpu_cpu_self : (s.setCpu c g).cpu c = g (s.cpu c) := by simp [setCpu]
@[simp] theorem setCpu_cpu_ne {d : Fin n} (other : d ≠ c) : (s.setCpu c g).cpu d = s.cpu d := by
  simp [setCpu, other]
@[simp] theorem goto_lock : (s.goto c m).lock = s.lock := rfl
@[simp] theorem goto_proc : (s.goto c m).proc = s.proc := rfl
@[simp] theorem goto_queue : (s.goto c m).queue = s.queue := rfl
@[simp] theorem goto_ticks : (s.goto c m).ticks = s.ticks := rfl
@[simp] theorem goto_flag : (s.goto c m).flag = s.flag := rfl
@[simp] theorem goto_nextpid : (s.goto c m).nextpid = s.nextpid := rfl
@[simp] theorem goto_initproc : (s.goto c m).initproc = s.initproc := rfl
@[simp] theorem goto_cpu_self : (s.goto c m).cpu c = { s.cpu c with mode := m } := by simp [goto]
@[simp] theorem goto_cpu_ne {d : Fin n} (other : d ≠ c) : (s.goto c m).cpu d = s.cpu d := by
  simp [goto, other]
@[simp] theorem setProc_proc_self : (s.setProc p f).proc p = f (s.proc p) := by simp [setProc]
@[simp] theorem setProc_proc_ne {r : Slot} (other : r ≠ p) : (s.setProc p f).proc r = s.proc r := by
  simp [setProc, other]
theorem setProc_proc : (s.setProc p f).proc r = if r = p then f (s.proc p) else s.proc r := by
  simp [setProc, Function.update_apply]
@[simp] theorem setCur_lock : (s.setCur c f).lock = s.lock := by unfold setCur; split <;> rfl
@[simp] theorem setCur_cpu : (s.setCur c f).cpu = s.cpu := by unfold setCur; split <;> rfl
@[simp] theorem setCur_queue : (s.setCur c f).queue = s.queue := by unfold setCur; split <;> rfl
@[simp] theorem setCur_ticks : (s.setCur c f).ticks = s.ticks := by unfold setCur; split <;> rfl
@[simp] theorem setCur_flag : (s.setCur c f).flag = s.flag := by unfold setCur; split <;> rfl
@[simp] theorem setCur_nextpid : (s.setCur c f).nextpid = s.nextpid := by unfold setCur; split <;> rfl
@[simp] theorem setCur_initproc : (s.setCur c f).initproc = s.initproc := by
  unfold setCur; split <;> rfl
theorem setCur_proc :
    (s.setCur c f).proc r = if (s.cpu c).stack = some r then f (s.proc r) else s.proc r := by
  unfold setCur
  cases stack : (s.cpu c).stack with
  | none => simp
  | some p =>
    by_cases same : r = p
    · simp [same]
    · simp [same, Ne.symm same]

end Fields

end State

end Xv6.Kernel
