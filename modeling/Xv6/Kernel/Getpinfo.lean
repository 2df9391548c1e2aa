import Xv6.Kernel.Step

/-!
# `getpinfo`

`getpinfo` copies the counters of the calling process one by one, holding no lock and with interrupts on.
A `Machine` is the kernel together with the calls of `getpinfo` that are in progress; the assignments of a
call and the steps of the kernel interleave in any way.
-/

namespace Xv6.Kernel

structure ProcStat where
  pid : Int
  runtime : Int
  numRun : Int
  currentQueue : Int
  ticks : Level → Int

inductive StatField where
  | pid | runtime | numRun | currentQueue
  | ticks (i : Level)
  deriving DecidableEq

def getpinfo : List StatField :=
  [.pid, .runtime, .numRun, .currentQueue, .ticks 0, .ticks 1, .ticks 2, .ticks 3, .ticks 4]

def assign (k : Proc) (stat : ProcStat) : StatField → ProcStat
  | .pid => { stat with pid := k.pid }
  | .runtime => { stat with runtime := k.rtime }
  | .numRun => { stat with numRun := k.numRun }
  | .currentQueue => { stat with currentQueue := k.queue }
  | .ticks i => { stat with ticks := Function.update stat.ticks i (k.ticks i) }

/-- A call of `getpinfo`: the assignments still to come and the user's structure. -/
structure Copy where
  rest : List StatField
  stat : ProcStat

structure Machine (n : Nat) where
  kernel : State n
  copy : Slot → Option Copy

inductive Move (n : Nat) where
  | kernel (c : Fin n) (a : Action)
  | call (c : Fin n) (stat : ProcStat)
  | assign (c : Fin n)
  | ret (c : Fin n)

namespace Machine

variable {n : Nat}

def setCopy (m : Machine n) (p : Slot) (k : Option Copy) : Machine n :=
  { m with copy := Function.update m.copy p k }

def copying (m : Machine n) (c : Fin n) : Bool := (m.kernel.cpu c).stack.any fun p => (m.copy p).isSome

def thread (m : Machine n) (c : Fin n) : Option Slot :=
  if (m.kernel.cpu c).mode = .thread then (m.kernel.cpu c).stack else none

def step (pol : Policy) (m : Machine n) : Move n → Option (Machine n)
  | .kernel c a =>
    -- inside `getpinfo` a thread makes no other call
    if m.copying c ∧ a.isCall then none
    else (Kernel.step pol m.kernel (c, a)).map fun s => { m with kernel := s }
  | .call c stat =>
    match m.thread c with
    | some p =>
      if (m.kernel.proc p).work = .run ∧ (m.copy p).isNone then some (m.setCopy p (some ⟨getpinfo, stat⟩))
      else none
    | none => none
  | .assign c =>
    match m.thread c with
    | some p =>
      match m.copy p with
      | some ⟨f :: rest, stat⟩ => some (m.setCopy p (some ⟨rest, assign (m.kernel.proc p) stat f⟩))
      | _ => none
    | none => none
  | .ret c =>
    match m.thread c with
    | some p =>
      match m.copy p with
      | some ⟨[], _⟩ => some { m.setCopy p none with kernel := m.kernel.ret c 1 }
      | _ => none
    | none => none

end Machine

end Xv6.Kernel
