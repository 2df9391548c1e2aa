import Xv6.Kernel.State

/-!
# `sleep` and `wakeup`, lock by lock

Here a step is a single acquire, release, store or `swtch`. Some threads test a condition under the lock `lk` and
call `sleep(chan, lk)` while it is false, some make it true under `lk` and call `wakeup(chan)` before they release
`lk`. In `acquiresleep` and `releasesleep` the condition is that the sleep-lock is free, and `lk` is its spinlock;
`wait` passes `ptable.lock` as `lk`, and wakers that hold it call `wakeup1`. `exit` is not such a waker: it calls
`wakeup1` first and makes the parent's condition true, by the store of ZOMBIE, later under the same hold of the lock.

A scheduler may pick any RUNNABLE process, so the model covers the four policies. A panic of `acquire`, `release` or
`sched` is a step that cannot be taken.
-/

namespace Xv6.Sleep
open Xv6.Kernel (Slot NPROC ProcState)

inductive Lock where
  | ptable
  | other
  deriving DecidableEq

inductive Pc where
  -- outside, at `acquire(lk)` and with `lk` held
  | out
  | enter
  | inside
  -- sleep()
  | sleepAcquire
  | sleepRelease
  | sleepChan
  | sleepState
  | sleepSched
  | asleep
  | resumed
  | sleepDone
  -- wakeup() and wakeup1() at slot `i`
  | wakeAcquire
  | wake (i : Nat)
  | wakeRelease
  -- yield(), and its return or the first return of a new process
  | yieldAcquire
  | yieldState
  | yieldSched
  | ready
  | returned
  deriving DecidableEq

structure Thread where
  state : ProcState
  -- `p->chan` is the address in question
  onChan : Bool
  pc : Pc

/-- What a processor executes: its scheduler without and with `ptable.lock`, or a thread. -/
inductive Seat where
  | loop
  | pick
  | on (p : Slot)
  deriving DecidableEq

structure State (n : Nat) where
  lock : Lock → Option (Fin n)
  thread : Slot → Thread
  seat : Fin n → Seat
  cond : Bool

inductive Action where
  | go
  | dispatch (p : Slot)
  | call
  | test
  | change (value : Bool)
  | leave
  | yield
  deriving DecidableEq

variable {n : Nat}

namespace State

def setThread (s : State n) (p : Slot) (f : Thread → Thread) : State n :=
  { s with thread := Function.update s.thread p (f (s.thread p)) }

def goto (s : State n) (p : Slot) (pc : Pc) : State n := s.setThread p ({ · with pc := pc })

def sit (s : State n) (c : Fin n) (x : Seat) : State n := { s with seat := Function.update s.seat c x }

def setLock (s : State n) (l : Lock) (o : Option (Fin n)) : State n := { s with lock := Function.update s.lock l o }

def acquire (s : State n) (l : Lock) (c : Fin n) : Option (State n) :=
  if s.lock l = none then some (s.setLock l (some c)) else none

def release (s : State n) (l : Lock) (c : Fin n) : Option (State n) :=
  if s.lock l = some c then some (s.setLock l none) else none

def sched (s : State n) (c : Fin n) (p : Slot) (saved : Pc) : Option (State n) :=
  if s.lock .ptable = some c ∧ (s.thread p).state ≠ .running then some ((s.goto p saved).sit c .pick) else none

def wakeup1 (s : State n) (p : Slot) (i : Nat) (next : Pc) : State n :=
  if h : i < NPROC then
    let q : Slot := ⟨i, h⟩
    if (s.thread q).state = .sleeping ∧ (s.thread q).onChan then
      (s.setThread q ({ · with state := .runnable })).goto p (.wake (i + 1))
    else s.goto p (.wake (i + 1))
  else s.goto p next

def go (lk : Lock) (s : State n) (c : Fin n) (p : Slot) : Option (State n) :=
  match (s.thread p).pc with
  | .enter => (s.acquire lk c).map (·.goto p .inside)
  | .sleepAcquire => (s.acquire .ptable c).map (·.goto p .sleepRelease)
  | .sleepRelease => (s.release lk c).map (·.goto p .sleepChan)
  | .sleepChan => some (s.setThread p ({ · with onChan := true, pc := .sleepState }))
  | .sleepState => some (s.setThread p ({ · with state := .sleeping, pc := .sleepSched }))
  | .sleepSched => s.sched c p .asleep
  | .resumed => some (s.setThread p ({ · with onChan := false, pc := if lk = .ptable then .inside else .sleepDone }))
  | .sleepDone => (s.release .ptable c).map (·.goto p .enter)
  | .wakeAcquire => (s.acquire .ptable c).map (·.goto p (.wake 0))
  | .wake i => some (s.wakeup1 p i (if lk = .ptable then .inside else .wakeRelease))
  | .wakeRelease => (s.release .ptable c).map (·.goto p .inside)
  | .yieldAcquire => (s.acquire .ptable c).map (·.goto p .yieldState)
  | .yieldState => some (s.setThread p ({ · with state := .runnable, pc := .yieldSched }))
  | .yieldSched => s.sched c p .ready
  | .returned => (s.release .ptable c).map (·.goto p .out)
  | .out | .inside | .asleep | .ready => none

/-- Where a thread goes on after the `swtch` to it. -/
def resume : Pc → Pc
  | .asleep => .resumed
  | .ready => .returned
  | pc => pc

def sleep (lk : Lock) (s : State n) (p : Slot) : State n :=
  s.goto p (if lk = .ptable then .sleepChan else .sleepAcquire)

def wakeup (lk : Lock) (s : State n) (p : Slot) : State n :=
  s.goto p (if lk = .ptable then .wake 0 else .wakeAcquire)

end State

open State

def step (lk : Lock) (s : State n) : Fin n × Action → Option (State n)
  | (c, .go) =>
    match s.seat c with
    | .loop => (s.acquire .ptable c).map (·.sit c .pick)
    | .pick => (s.release .ptable c).map (·.sit c .loop)
    | .on p => s.go lk c p
  | (c, .dispatch p) =>
    if s.seat c = .pick ∧ (s.thread p).state = .runnable then
      some ((s.setThread p fun k => { k with state := .running, pc := resume k.pc }).sit c (.on p))
    else none
  | (c, a) =>
    match s.seat c with
    | .on p =>
      match a, (s.thread p).pc with
      | .call, .out => some (s.goto p .enter)
      | .yield, .out => some (s.goto p .yieldAcquire)
      | .test, .inside => some (if s.cond then s else s.sleep lk p)
      | .change value, .inside =>
        let t := { s with cond := value }
        some (if value then t.wakeup lk p else t)
      | .leave, .inside => (s.release lk c).map (·.goto p .out)
      | _, _ => none
    | _ => none

def start (live : Slot → Bool) : State n where
  lock _ := none
  thread p := ⟨if live p then .runnable else .unused, false, .ready⟩
  seat _ := .loop
  cond := false

end Xv6.Sleep
