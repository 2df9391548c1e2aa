import Xv6.Kernel.Log

/-!
# `begin_op` and `end_op`

Any number of processes begin and end operations and call `log_write` in between. A step goes from one place where
a process can wait, or give way to others, to the next: before an `acquire`, inside `sleep` and `wakeup`, in
`commit`. `log_write` looks at `log.lh.n` and `log.outstanding` before it takes the lock, and `commit` runs without it;
what `commit` does with the disk is in `Xv6.Log`.
-/

namespace Xv6.GroupCommit
open Xv6.Log (Word)

inductive Pc where
  | out
  -- begin_op(): acquire(&log.lock), the tests, and sleep(&log, &log.lock)
  | beginAcquire
  | beginTest
  | sleepAcquire
  | sleepRelease
  | falling
  | asleep
  -- the operation, and its calls of log_write()
  | running
  | logAcquire (b : Word)
  | logAbsorb (b : Word)
  -- end_op()
  | endAcquire
  | endDrop
  | endWakeup
  | commit
  | doneAcquire
  | doneClear
  | doneWakeup
  deriving DecidableEq

structure State (n : Nat) where
  lock : Option (Fin n)
  ptable : Option (Fin n)
  outstanding : Int
  committing : Bool
  lh : List Word
  pc : Fin n → Pc

inductive Action where
  | begin
  | logWrite (b : Word)
  | finish
  | go
  -- `kill` makes a sleeping process RUNNABLE
  | rouse
  deriving DecidableEq

inductive Panic where
  | tooBig
  | outside
  | committing
  deriving DecidableEq

variable {n : Nat}

namespace State

def goto (s : State n) (t : Fin n) (pc : Pc) : State n := { s with pc := Function.update s.pc t pc }

def acquire (s : State n) (t : Fin n) (pc : Pc) : Option (State n) :=
  if s.lock = none then some { s.goto t pc with lock := some t } else none

def wakeup (s : State n) (t : Fin n) : Option (State n) :=
  if s.ptable = none then
    some { s with
      lock := none
      pc := fun u => if u = t then .out else if s.pc u = .asleep then .beginAcquire else s.pc u }
  else none

/-- The panic that a step runs into; `size` is `log.size`. -/
def panic (size : Nat) (s : State n) : Fin n × Action → Option Panic
  | (t, .logWrite _) =>
    if s.pc t ≠ .running then none
    else if s.lh.length ≥ LOGSIZE ∨ s.lh.length ≥ size - 1 then some .tooBig
    else if s.outstanding < 1 then some .outside
    else none
  | (t, .go) => if s.pc t = .endDrop ∧ s.committing then some .committing else none
  | _ => none

def go (s : State n) (t : Fin n) : Option (State n) :=
  match s.pc t with
  | .beginAcquire => s.acquire t .beginTest
  | .beginTest =>
    if s.committing then some (s.goto t .sleepAcquire)
    else if s.lh.length + (s.outstanding + 1) * MAXOPBLOCKS > LOGSIZE then some (s.goto t .sleepAcquire)
    else some { s.goto t .running with outstanding := s.outstanding + 1, lock := none }
  | .sleepAcquire =>
    if s.ptable = none then some { s.goto t .sleepRelease with ptable := some t } else none
  | .sleepRelease => some { s.goto t .falling with lock := none }
  | .falling => some { s.goto t .asleep with ptable := none }
  | .logAcquire b => s.acquire t (.logAbsorb b)
  | .logAbsorb b =>
    some { s.goto t .running with lh := if b ∈ s.lh then s.lh else s.lh ++ [b], lock := none }
  | .endAcquire => s.acquire t .endDrop
  | .endDrop =>
    if s.outstanding - 1 = 0 then
      some { s.goto t .commit with outstanding := s.outstanding - 1, committing := true, lock := none }
    else some { s.goto t .endWakeup with outstanding := s.outstanding - 1 }
  | .endWakeup => s.wakeup t
  | .commit => some { s.goto t .doneAcquire with lh := [] }
  | .doneAcquire => s.acquire t .doneClear
  | .doneClear => some { s.goto t .doneWakeup with committing := false }
  | .doneWakeup => s.wakeup t
  | .out | .asleep | .running => none

end State

open State

def step (size : Nat) (s : State n) (e : Fin n × Action) : Option (State n) :=
  if (s.panic size e).isSome then none
  else
    match e.2, s.pc e.1 with
    | .go, _ => s.go e.1
    | .begin, .out => some (s.goto e.1 .beginAcquire)
    | .logWrite b, .running => some (s.goto e.1 (.logAcquire b))
    | .finish, .running => some (s.goto e.1 .endAcquire)
    | .rouse, .asleep => some (s.goto e.1 .beginAcquire)
    | _, _ => none

def start : State n := ⟨none, none, 0, false, [], fun _ => .out⟩

end Xv6.GroupCommit
