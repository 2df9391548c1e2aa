import Xv6.Kernel.State

/-!
# Spinlocks and the interrupt flag

`pushcli` and `popcli` count per processor, and the calls they count belong to a thread. Here a step is one
instruction of spinlock.c or of `sched`, or an interrupt between two of them. A process may call these functions in
any order, as long as it gives back only what it has taken; the scheduler of a processor takes `ptable.lock`, runs
one process, once or for several slices, and releases the lock.

A panic, or the `xchg` of a lock that is held, is a step that cannot be taken.
-/

namespace Xv6.Spinlock
open Xv6.Kernel (Slot ProcState)
open Function (update)

inductive Lock where
  | ptable
  | other (i : Nat)
  deriving DecidableEq

inductive Instr where
  | readeflags
  | cli
  | count
  | uncount
  | restore
  | test (l : Lock)
  | panicIf
  | panicUnless
  | xchg (l : Lock)
  | unlock (l : Lock)
  | setState (x : ProcState)
  | check
  | save
  | swtch
  | load
  | sti
  deriving DecidableEq

def pushcli : List Instr := [.readeflags, .cli, .count]

def popcli : List Instr := [.uncount, .restore]

def holding (l : Lock) : List Instr := pushcli ++ .test l :: popcli

def acquire (l : Lock) : List Instr := pushcli ++ (holding l ++ [.panicIf, .xchg l])

def release (l : Lock) : List Instr := holding l ++ .panicUnless :: .unlock l :: popcli

def myproc : List Instr := pushcli ++ popcli

def sched : List Instr := myproc ++ (holding .ptable ++ [.panicUnless, .check, .save, .swtch, .load])

/-- The rest of the function that is executed, and the local variables of `pushcli`, `holding` and `sched`. -/
structure Local where
  todo : List Instr := []
  eflags : Bool := false
  r : Bool := false
  intena : Bool := false

/-- A kernel stack. `pushes` and `locks` are the calls of `pushcli` and `acquire` that it still has to undo; an
interrupt saves the flag and what was executed in `frames`. -/
structure Ctx extends Local where
  frames : List (Bool × Local) := []
  pushes : Nat := 0
  locks : List Lock := []

structure Cpu where
  enabled : Bool
  ncli : Int
  intena : Bool
  proc : Option Slot
  -- what the scheduler has run since it took `ptable.lock`
  chosen : Option Slot

inductive Who (n : Nat) where
  | scheduler (c : Fin n)
  | thread (p : Slot)
  deriving DecidableEq

structure State (n : Nat) where
  cpu : Fin n → Cpu
  ctx : Who n → Ctx
  lock : Lock → Option (Fin n)
  state : Slot → ProcState

inductive Action where
  | go
  | pushcli
  | popcli
  | acquire (l : Lock)
  | release (l : Lock)
  | sched (x : ProcState)
  | interrupt
  | syscall
  | iret
  | dispatch (p : Slot)
  | finish
  | rouse (q : Slot)
  | spawn (q : Slot)
  | reap (q : Slot)
  deriving DecidableEq

variable {n : Nat}

namespace State

def who (s : State n) (c : Fin n) : Who n :=
  match (s.cpu c).proc with
  | some p => .thread p
  | none => .scheduler c

def now (s : State n) (c : Fin n) : Ctx := s.ctx (s.who c)

def put (s : State n) (c : Fin n) (cpu : Cpu) (k : Ctx) : State n :=
  { s with
    cpu := update s.cpu c cpu
    ctx := match (s.cpu c).proc with
      | some p => update s.ctx (.thread p) k
      | none => update s.ctx (.scheduler c) k }

def instr (s : State n) (c : Fin n) (i : Instr) (rest : List Instr) : Option (State n) :=
  let cpu := s.cpu c
  let k := { s.now c with todo := rest }
  match i with
  | .readeflags => some (s.put c cpu { k with eflags := cpu.enabled })
  | .cli => some (s.put c { cpu with enabled := false } k)
  | .count =>
    if cpu.enabled then none
    else some (s.put c
      { cpu with intena := if cpu.ncli = 0 then k.eflags else cpu.intena, ncli := cpu.ncli + 1 }
      { k with pushes := k.pushes + 1 })
  | .uncount =>
    if cpu.enabled ∨ cpu.ncli - 1 < 0 then none
    else some (s.put c { cpu with ncli := cpu.ncli - 1 } { k with pushes := k.pushes - 1 })
  | .restore => some (s.put c { cpu with enabled := cpu.enabled || decide (cpu.ncli = 0) && cpu.intena } k)
  | .test l => some (s.put c cpu { k with r := s.lock l = some c })
  | .panicIf => if k.r then none else some (s.put c cpu k)
  | .panicUnless => if k.r then some (s.put c cpu k) else none
  | .xchg l =>
    if s.lock l = none then
      some { s.put c cpu { k with pushes := k.pushes - 1, locks := l :: k.locks } with
        lock := update s.lock l (some c) }
    else none
  | .unlock l =>
    some { s.put c cpu { k with pushes := k.pushes + 1, locks := k.locks.erase l } with
      lock := update s.lock l none }
  | .setState x => cpu.proc.map fun p => { s.put c cpu k with state := update s.state p x }
  | .check =>
    if cpu.ncli = 1 ∧ (∀ p ∈ cpu.proc, s.state p ≠ .running) ∧ cpu.enabled = false then some (s.put c cpu k) else none
  | .save => some (s.put c cpu { k with intena := cpu.intena })
  | .swtch => cpu.proc.map fun _ => s.put c { cpu with proc := none } k
  | .load => some (s.put c { cpu with intena := k.intena } k)
  | .sti => some (s.put c { cpu with enabled := true } k)

end State

def Ctx.free (k : Ctx) : Who n → Bool
  | .thread _ => true
  | .scheduler _ => !k.frames.isEmpty

def Ctx.resting (k : Ctx) : Prop := k.todo = [] ∧ k.frames = [] ∧ k.pushes = 0 ∧ k.locks = [.ptable]

instance (k : Ctx) : Decidable k.resting := inferInstanceAs (Decidable (_ ∧ _))

/-- A new process: `forkret` releases `ptable.lock` and returns to user mode, where interrupts are on. -/
def Ctx.forkret : Ctx where
  todo := release .ptable
  frames := [(true, {})]
  locks := [.ptable]

def Ctx.loop : Ctx where
  todo := .sti :: acquire .ptable

open State

def call (s : State n) (c : Fin n) (code : List Instr) : State n :=
  s.put c (s.cpu c) { s.now c with todo := code }

/-- What can be begun when no function of spinlock.c is executed. -/
def begin (s : State n) (c : Fin n) (x : Who n) (k : Ctx) : Action → Option (State n)
  | .pushcli => some (call s c Spinlock.pushcli)
  | .popcli => if 0 < k.pushes then some (call s c Spinlock.popcli) else none
  | .acquire l => if k.free x then some (call s c (Spinlock.acquire l)) else none
  | .release l => if k.free x ∧ l ∈ k.locks then some (call s c (Spinlock.release l)) else none
  | .sched state =>
    match x with
    | .thread _ => if .ptable ∈ k.locks then some (call s c (.setState state :: Spinlock.sched)) else none
    | .scheduler _ => none
  | .syscall =>
    match x with
    | .thread _ =>
      if k.pushes = 0 ∧ k.locks = [] then
        some (s.put c (s.cpu c) { k with toLocal := {}, frames := ((s.cpu c).enabled, k.toLocal) :: k.frames })
      else none
    | .scheduler _ => none
  | .iret =>
    match k.frames with
    | (enabled, before) :: frames =>
      if k.pushes = 0 ∧ k.locks = [] then
        some (s.put c { s.cpu c with enabled := enabled } { k with toLocal := before, frames := frames })
      else none
    | [] => none
  | .dispatch p =>
    match x with
    | .scheduler _ =>
      if k.resting ∧ s.state p = .runnable ∧ ((s.cpu c).chosen = none ∨ (s.cpu c).chosen = some p) then
        some { s with
          cpu := update s.cpu c { s.cpu c with proc := some p, chosen := some p }
          state := update s.state p .running }
      else none
    | .thread _ => none
  | .finish =>
    match x with
    | .scheduler _ =>
      if k.resting then
        some (s.put c { s.cpu c with chosen := none } { k with todo := Spinlock.release .ptable ++ Ctx.loop.todo })
      else none
    | .thread _ => none
  | .rouse q =>
    if k.free x ∧ .ptable ∈ k.locks ∧ s.state q = .sleeping then
      some { s with state := update s.state q .runnable }
    else none
  | .spawn q =>
    if k.free x ∧ .ptable ∈ k.locks ∧ s.state q = .unused then
      some { s with
        ctx := update s.ctx (.thread q) .forkret
        state := update s.state q .runnable }
    else none
  | .reap q =>
    if k.free x ∧ .ptable ∈ k.locks ∧ s.state q = .zombie then
      some { s with state := update s.state q .unused }
    else none
  | .go | .interrupt => none

def step (s : State n) : Fin n × Action → Option (State n)
  | (c, .go) =>
    match (s.now c).todo with
    | i :: rest => s.instr c i rest
    | [] => none
  | (c, .interrupt) =>
    let k := s.now c
    if (s.cpu c).enabled then
      some (s.put c { s.cpu c with enabled := false } { k with toLocal := {}, frames := (true, k.toLocal) :: k.frames })
    else none
  | (c, a) => if (s.now c).todo = [] then begin s c (s.who c) (s.now c) a else none

/-- The processors enter their schedulers with interrupts off; the processes in `live` have still to run. -/
def start (live : Slot → Bool) : State n where
  cpu _ := ⟨false, 0, false, none, none⟩
  ctx
    | .scheduler _ => .loop
    | .thread _ => .forkret
  lock _ := none
  state p := if live p then .runnable else .unused

end Xv6.Spinlock
