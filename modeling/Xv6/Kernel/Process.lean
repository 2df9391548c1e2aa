import Xv6.Kernel.Scheduler

/-!
# System calls, traps and booting

The rest of `proc.c` that touches the process table, the timer trap of `trap.c` and the start-up code
of `main.c`, cut at the same points as the scheduler: a definition is one stretch of code in which no
other thread can interfere with what it reads and writes. The functions between an `acquire` and a
`release` of `ptable.lock` take and return states in which the lock is held.
-/

namespace Xv6.Kernel
open Xv6.Library

variable {n : Nat}

namespace State

section Create

/-- The critical section of `allocproc`. -/
def allocproc (s : State n) : Option (Slot × State n) :=
  ((List.finRange NPROC).find? fun p => (s.proc p).state = .unused).map fun p =>
    (p, { s with
      nextpid := int32 (s.nextpid + 1)
      proc := Function.update s.proc p
        { s.proc p with state := .embryo, pid := s.nextpid, priority := 60, queue := 0 } })

/-- The fields `allocproc` writes after it has released the lock. -/
def resetTimes (s : State n) (p : Slot) : State n :=
  s.setProc p fun k =>
    { k with
      ctime := int32 s.ticks, etime := int32 s.ticks, retime := int32 s.ticks
      rtime := 0, wtime := 0, lastExecuted := 0, numRun := 0, ticks := fun _ => 0 }

/-- The end of `allocproc`: with a kernel stack, or without one and the slot given up. -/
def allocEnd (s : State n) (p : Slot) (kalloc : Bool) : State n :=
  (s.resetTimes p).setProc p fun k =>
    if kalloc then { k with context := .forkret, work := .run } else { k with state := .unused }

/-- The critical section that makes a new process RUNNABLE. -/
def publish (s : State n) (c : Fin n) (np : Slot) (next : State n → State n) : State n :=
  let t := s.setProc np fun k => { k with state := .runnable, modtime := 0 }
  t.orPanic c (t.enqueue 0 np) next

def ret (s : State n) (c : Fin n) (value : Int) : State n := s.setCur c fun k => { k with eax := value }

def forkRet (s : State n) (c : Fin n) (value : Int) : State n :=
  s.setCur c fun k => { k with eax := value, work := .run }

/-- `fork` up to the return from the critical section of `allocproc`. -/
def fork (s : State n) (c : Fin n) : State n :=
  match s.allocproc with
  | some (np, t) => t.setCur c fun k => { k with work := .allocated np }
  | none => s.ret c (-1)

def forkFill (s : State n) (c : Fin n) (np : Slot) (kalloc : Bool) : State n :=
  if kalloc then (s.allocEnd np true).setCur c fun k => { k with work := .filled np }
  else (s.allocEnd np false).forkRet c (-1)

/-- `copyuvm` and the copying of the parent's fields. -/
def forkCopy (s : State n) (c : Fin n) (np : Slot) (copyuvm : Bool) : State n :=
  if copyuvm then
    (s.setProc np fun k => { k with parent := (s.cpu c).stack, eax := 0 }).setCur c fun k =>
      { k with work := .copied np }
  else (s.setProc np fun k => { k with state := .unused }).forkRet c (-1)

def forkPublish (s : State n) (c : Fin n) (np : Slot) : State n :=
  s.publish c np fun t => (t.forkRet c (s.proc np).pid).release

end Create

section Wakeup

def wakeup1 (s : State n) (c : Fin n) (chan : Option Chan) (i : Nat) (r : Ret) : State n :=
  if h : i < NPROC then
    let p : Slot := ⟨i, h⟩
    if (s.proc p).state = .sleeping ∧ (s.proc p).chan = chan then
      let t := s.setProc p fun k => { k with state := .runnable }
      t.orPanic c (t.enqueue (t.proc p).queue p) fun u => u.goto c (.wakeup1 chan (i + 1) r)
    else s.goto c (.wakeup1 chan (i + 1) r)
  else match r with
    | .caller => s.release.resume c
    | .account => s.release.goto c .account
    | .reparent j => s.goto c (.reparent j)

def kill (s : State n) (c : Fin n) (pid : Int) : State n :=
  match (List.finRange NPROC).find? fun p => (s.proc p).pid = pid with
  | some p =>
    let t := s.setProc p fun k => { k with killed := true }
    if (t.proc p).state = .sleeping then
      let u := t.setProc p fun k => { k with state := .runnable }
      u.orPanic c (u.enqueue (u.proc p).queue p) fun v => (v.ret c 0).release
    else (t.ret c 0).release
  | none => (s.ret c (-1)).release

end Wakeup

def chpr (s : State n) (c : Fin n) (priority : Int) : State n :=
  match s.myproc c with
  | some me =>
    let pid := (s.proc me).pid
    match (List.finRange NPROC).find? fun p => (s.proc p).pid = pid with
    | some p => ((s.setProc p fun k => { k with priority := priority }).ret c pid).release
    | none => (s.ret c pid).release
  | none => s.halt c .fault

section Stop

def exit (s : State n) (c : Fin n) : State n :=
  match s.myproc c with
  | some p =>
    if s.initproc = some p then s.panic c "init exiting"
    else
      let masked := (s.cpu c).mode = .trapEnd
      (s.setProc p fun k => { k with etime := int32 s.ticks, work := .exiting masked }).goto c .thread
  | none => s.halt c .fault

def exitLock (s : State n) (c : Fin n) : State n :=
  match (s.cpu c).stack with
  | some p => s.goto c (.wakeup1 ((s.proc p).parent.map .proc) 0 (.reparent 0))
  | none => s.halt c .fault

/-- One turn of the loop of `exit` that passes the children to init, and the code after the loop. -/
def reparent (s : State n) (c : Fin n) (i : Nat) : State n :=
  match (s.cpu c).stack with
  | some me =>
    if h : i < NPROC then
      let p : Slot := ⟨i, h⟩
      if (s.proc p).parent = some me then
        let t := s.setProc p fun k => { k with parent := s.initproc }
        if (s.proc p).state = .zombie then
          t.goto c (.wakeup1 (s.initproc.map .proc) 0 (.reparent (i + 1)))
        else t.goto c (.reparent (i + 1))
      else s.goto c (.reparent (i + 1))
    else (s.setProc me fun k => { k with state := .zombie }).goto c (.sched .exit)
  | none => s.halt c .fault

def yield (s : State n) (c : Fin n) : State n :=
  match s.myproc c with
  | some p => (s.setProc p fun k => { k with state := .runnable }).goto c (.sched .yield)
  | none => s.halt c .fault

def sleep (s : State n) (c : Fin n) (chan : Chan) (caller : Context) : State n :=
  match s.myproc c with
  | some p =>
    (s.setProc p fun k => { k with chan := some chan, state := .sleeping }).goto c (.sched caller)
  | none => s.panic c "sleep"

/-- `p->parent == curproc && p->state == ZOMBIE`, the child that `wait` and `waitx` reap. -/
def zombieChild (s : State n) (me : Slot) : Option Slot :=
  (List.finRange NPROC).find? fun p => (s.proc p).parent = some me ∧ (s.proc p).state = .zombie

def havekids (s : State n) (me : Slot) : Bool :=
  (List.finRange NPROC).any fun p => (s.proc p).parent = some me

def reap (kind : WaitKind) (k : Proc) : Proc :=
  match kind with
  | .wait => { k with pid := 0, parent := none, killed := false, state := .unused }
  | .waitx =>
    { k with
      pid := 0, parent := none, killed := false, state := .unused
      ctime := 0, etime := 0, rtime := 0, wtime := 0, modtime := 0 }

def reported (k : Proc) : Int × Int := (int32 (int32 (k.etime - k.ctime) - k.rtime), k.rtime)

def waiting (s : State n) (c : Fin n) (kind : WaitKind) : State n :=
  match (s.cpu c).stack with
  | some me =>
    match s.zombieChild me with
    | some p =>
      let t := s.setProc p (reap kind)
      let u := if kind = .waitx then t.setProc me fun k => { k with out := reported (s.proc p) }
        else t
      (u.ret c (s.proc p).pid).release.resume c
    | none =>
      if !s.havekids me ∨ (s.proc me).killed then (s.ret c (-1)).release.resume c
      else s.sleep c (.proc me) (.wait kind)
  | none => s.halt c .fault

/-- `sched`: save the context and `swtch` to the scheduler of this processor. -/
def sched (s : State n) (c : Fin n) (context : Context) : State n :=
  match s.myproc c with
  | some p =>
    if s.lock ≠ some c then s.panic c "sched ptable.lock"
    else if (s.proc p).state = .running then s.panic c "sched running"
    else (s.setProc p fun k => { k with context := context }).setCpu c fun k =>
      { k with stack := none, mode := .back }
  | none => s.halt c .fault

/-- The first code of a process after a `swtch` into its context. -/
def resumed (s : State n) (c : Fin n) : State n :=
  match (s.cpu c).stack with
  | some p =>
    match (s.proc p).context with
    | .forkret | .yield => s.release.goto c .thread
    | .sleep => (s.setProc p fun k => { k with chan := none }).release.goto c .thread
    -- `wait` slept with `ptable.lock` as its `lk` and goes on with it held
    | .wait kind => (s.setProc p fun k => { k with chan := none }).goto c (.waiting kind)
    | .exit => s.panic c "zombie exit"
  | none => s.halt c .fault

end Stop

section Trap

/-- The timer interrupt reaches `trap`: processor 0 counts it. -/
def timer (s : State n) (c : Fin n) : State n :=
  if c.val = 0 then { s with ticks := (s.ticks + 1) % 2 ^ 32 }.goto c .tick else s.goto c .account

def charge (ticks : Nat) (q : Level) (k : Proc) : Proc :=
  { k with
    rtime := int32 (k.rtime + 1), modtime := int32 (k.modtime + 1), lastExecuted := int32 ticks
    ticks := Function.update k.ticks q (int32 (k.ticks q + 1)) }

def account (s : State n) (c : Fin n) : State n :=
  match s.myproc c with
  | some p =>
    match level? (s.proc p).queue with
    | some q => (s.setProc p (charge s.ticks q)).goto c .trapEnd
    | none => s.halt c .fault
  | none => s.resume c

def badTrap (s : State n) (c : Fin n) : State n := s.setCur c fun k => { k with killed := true }

end Trap

section Boot

/-- `startothers`: wake the processor `k` and wait for it, or skip the one that runs this loop. -/
def startothers (s : State n) (c : Fin n) (k : Nat) : State n :=
  if h : k < n then
    let ap : Fin n := ⟨k, h⟩
    if ap = c then s.goto c (.startothers (k + 1))
    else
      -- a processor that is already running ignores the startup interrupt
      let t := if (s.cpu ap).mode = .off then s.goto ap .mpenter else s
      t.goto c (.started k)
  else s.goto c .userinit

def mpmain (s : State n) (c : Fin n) : State n :=
  s.setCpu c fun k => { k with started := true, mode := .enter }

def userinit (s : State n) (c : Fin n) : State n :=
  match s.allocproc with
  | some (p, t) => t.goto c (.userAllocated p)
  | none => s.halt c .fault

def userFill (s : State n) (c : Fin n) (p : Slot) (kalloc : Bool) : State n :=
  if kalloc then { s.allocEnd p true with initproc := some p }.goto c (.userFilled p)
  -- initproc is null, and so is the pointer whose `pgdir` is written next
  else { s.allocEnd p false with initproc := none }.halt c .fault

def userCopy (s : State n) (c : Fin n) (p : Slot) (setupkvm : Bool) : State n :=
  if setupkvm then s.goto c (.userCopied p) else s.panic c "userinit: out of memory?"

def userPublish (s : State n) (c : Fin n) (p : Slot) : State n :=
  s.publish c p fun t => t.release.goto c .mpmain

end Boot

end State

end Xv6.Kernel
