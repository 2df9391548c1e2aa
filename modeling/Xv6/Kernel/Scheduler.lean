import Xv6.Kernel.State

/-!
# `enqueue`, `dequeue` and `scheduler()`

One definition for each piece of straight-line code of `scheduler()` between two points where another
thread can run. `s.pass pol c` is the body of the loop from `acquire(&ptable.lock)` to the `swtch`
into a process or to the `release`; `s.back pol c` is the code after that `swtch` returns. All of it
runs with `ptable.lock` held.
-/

namespace Xv6.Kernel
open Xv6.Library

variable {n : Nat} {l : Level} {queueNumber : Int} {P : State n → Prop}

def level? (q : Int) : Option Level := if h : q > 4 ∨ q < 0 then none else some ⟨q.toNat, by omega⟩

theorem level?_eq_some {q : Int} : level? q = some l ↔ q = l.val := by
  have bound := l.isLt
  unfold level?
  split_ifs with out
  · simp only [false_iff]
    omega
  · rw [Option.some.injEq, Fin.ext_iff]
    simp only
    omega

@[simp] theorem level?_val (l : Level) : level? l.val = some l := level?_eq_some.mpr rfl

def sliceOf (q : Int) : Nat := slice.getD q.toNat 0

namespace State

@[simps -fullyApplied lock cpu ticks flag nextpid initproc]
def push (s : State n) (q : Level) (new : Slot) : State n :=
  { s with
    queue := Function.update s.queue q ((s.queue q).push (some new))
    proc := Function.update s.proc new { s.proc new with queue := q.val } }

@[simps -fullyApplied lock cpu proc ticks flag nextpid initproc]
def drop (s : State n) (q : Level) : State n :=
  { s with queue := Function.update s.queue q (s.queue q).drop }

def enqueue (s : State n) (queueNumber : Int) (new : Slot) : Except String (State n) :=
  match level? queueNumber with
  | none => .error "out of bound quenumber"
  | some q => .ok (s.push q new)

def dequeue (s : State n) (queueNumber : Int) : Except String (State n) :=
  match level? queueNumber with
  | none => .error "out of bound quenumber"
  | some q => .ok (s.drop q)

/-- Continue with the result of a call that may panic; the panic leaves the lock held. -/
def orPanic (s : State n) (c : Fin n) (result : Except String (State n))
    (next : State n → State n) : State n :=
  match result with
  | .ok t => next t
  | .error message => s.panic c message

theorem enqueue_cases {s : State n} {c : Fin n} {p : Slot}
    {next : State n → State n}
    (bad : level? queueNumber = none → P (s.panic c "out of bound quenumber"))
    (good : ∀ q : Level, queueNumber = q.val → P (next (s.push q p))) :
    P (s.orPanic c (s.enqueue queueNumber p) next) := by
  unfold orPanic enqueue
  cases accepted : level? queueNumber with
  | none => exact bad accepted
  | some q => exact good q (level?_eq_some.mp accepted)

theorem dequeue_cases {s : State n} {c : Fin n}
    {next : State n → State n}
    (bad : level? queueNumber = none → P (s.panic c "out of bound quenumber"))
    (good : ∀ q : Level, queueNumber = q.val → P (next (s.drop q))) :
    P (s.orPanic c (s.dequeue queueNumber) next) := by
  unfold orPanic dequeue
  cases accepted : level? queueNumber with
  | none => exact bad accepted
  | some q => exact good q (level?_eq_some.mp accepted)

/-- `c->proc = p; p->state = RUNNING; swtch(&c->scheduler, p->context)`. -/
def dispatch (s : State n) (c : Fin n) (p : Slot) (a : Nat) : State n :=
  (s.setProc p fun k => { k with state := .running }).setCpu c fun k =>
    { k with proc := some p, stack := some p, mode := .resumed, p := some p, a := a }

section Select

def firstRunnable (s : State n) : Option Slot :=
  (List.finRange NPROC).find? fun p => (s.proc p).state = .runnable

theorem firstRunnable_runnable {s : State n} {p : Slot} (h : s.firstRunnable = some p) :
    (s.proc p).state = .runnable := by
  unfold firstRunnable at h
  simpa using List.find?_some h

def highPVisit (s : State n) (highP : Option Slot) (p1 : Slot) : Option Slot :=
  match highP with
  | some h =>
    if (s.proc p1).state = .runnable ∧ (s.proc h).priority > (s.proc p1).priority then some p1
    else if (s.proc p1).state = .runnable ∧ (s.proc h).priority = (s.proc p1).priority then
      if (s.proc p1).lastExecuted < (s.proc h).lastExecuted then some p1 else some h
    else some h
  | none => if (s.proc p1).state = .runnable then some p1 else none

def highP (s : State n) : Option Slot := (List.finRange NPROC).foldl s.highPVisit none

def minPVisit (s : State n) (minP : Option Slot) (p1 : Slot) : Option Slot :=
  if (s.proc p1).state ≠ .runnable then minP
  else match minP with
    | some m => if (s.proc p1).ctime < (s.proc m).ctime then some p1 else some m
    | none => some p1

def minP (s : State n) : Option Slot := (List.finRange NPROC).foldl s.minPVisit none

/-- MLFQ: the first pointer that is not null in the first ring that holds one. -/
def pick (s : State n) : Option Slot :=
  (List.finRange 5).findSome? fun priority => (s.queue priority).first

end Select

section Mlfq

def ageingCheck (s : State n) (c : Fin n) : State n :=
  if s.ticks > uint32 ((s.cpu c).ageingUpdate + ageingConst) then
    s.goto c (.ageing 1 (s.queue 1).head)
  else s.release.goto c .loop

/-- After the slice loop: demote and put back a process that is still RUNNABLE. -/
def afterSlice (s : State n) (c : Fin n) (p : Slot) : State n :=
  if (s.proc p).state = .runnable then
    let t := if (s.proc p).queue < 4 then s.setProc p fun k => { k with queue := k.queue + 1 } else s
    t.orPanic c (t.enqueue (t.proc p).queue p) fun u => u.ageingCheck c
  else s.ageingCheck c

/-- The head of the slice loop, with loop variable `a`, and its body up to the `swtch`. -/
def sliceLoop (s : State n) (c : Fin n) (p : Slot) (a : Nat) : State n :=
  if a < sliceOf (s.proc p).queue then
    if (s.proc p).state = .runnable then
      (s.setProc p fun k => { k with numRun := int32 (k.numRun + 1) }).dispatch c p a
    else (s.setCpu c fun k => { k with proc := none }).afterSlice c p
  else s.afterSlice c p

def mlfqPass (s : State n) (c : Fin n) : State n :=
  match s.pick with
  | some p =>
    if (s.proc p).state ≠ .runnable then s.panic c "process is sleeping"
    else s.orPanic c (s.dequeue (s.proc p).queue) fun t => t.sliceLoop c p 0
  | none => s.ageingCheck c

/-- The rest of the slice loop's body and the next turn of the loop. -/
def mlfqBack (s : State n) (c : Fin n) : State n :=
  match (s.cpu c).p with
  | some p =>
    let t := s.setCpu c fun k => { k with proc := none }
    if (s.proc p).state ≠ .runnable then t.afterSlice c p
    else t.sliceLoop c p ((s.cpu c).a + 1)
  | none => s.halt c .fault

def aged (s : State n) (q : Level) (i : Fin NPROC) : Option Slot :=
  match (s.queue q).cells i with
  | some p =>
    if i ≠ (s.queue q).tail ∧ (uint32 (s.ticks - (s.proc p).lastExecuted) : Int) > ageingConst then
      some p
    else none
  | none => none

/-- The inner loop of the ageing block is done with ring `q`. -/
def ageingNext (s : State n) (c : Fin n) (q : Level) : State n :=
  let t := s.setCpu c fun k => { k with ageingUpdate := int32 s.ticks }
  if h : q.val + 1 < 5 then t.goto c (.ageing ⟨q.val + 1, h⟩ (s.queue ⟨q.val + 1, h⟩).head)
  else t.release.goto c .loop

def ageing (s : State n) (c : Fin n) (q : Level) (i : Fin NPROC) : State n :=
  if i = (s.queue q).tail then s.ageingNext c q
  else match (s.queue q).cells i with
    | none => s.halt c .fault
    | some p =>
      let t := s.setCpu c fun k => { k with p := some p }
      if (s.aged q i).isSome then
        t.orPanic c (t.dequeue q.val) fun u =>
          u.orPanic c (u.enqueue ((u.proc p).queue - 1) p) fun v =>
            v.goto c (.ageing q (Ring.next i))
      else t.goto c (.ageing q (Ring.next i))

end Mlfq

/-- The body of the scheduler loop, from `acquire` to the `swtch` or the `release`. -/
def pass (pol : Policy) (s : State n) (c : Fin n) : State n :=
  match pol with
  | .default =>
    match s.firstRunnable with
    | some p => s.dispatch c p 0
    -- `p` is one past the table, where `p->state` reads `queue_head[3]` and RUNNABLE is 3
    | none => if (s.queue 3).head.val = 3 then s.halt c .fault else s.release
  | .pbs =>
    -- a `p` from an earlier pass is used when the scan finds nothing
    match s.highP.or (s.cpu c).p with
    | some p =>
      if (s.proc p).state = .runnable then
        (s.setProc p fun k => { k with lastExecuted := int32 s.ticks }).dispatch c p 0
      else s.release
    | none => s.release
  | .fcfs =>
    match (s.minP.filter fun m => (s.proc m).state = .runnable).or (s.cpu c).p with
    | some p => if (s.proc p).state = .runnable then s.dispatch c p 0 else s.release
    | none => s.release
  | .mlfq => s.mlfqPass c

/-- After the `swtch` into a process has returned. -/
def back (pol : Policy) (s : State n) (c : Fin n) : State n :=
  match pol with
  | .mlfq => s.mlfqBack c
  | _ => (s.release.setCpu c fun k => { k with proc := none }).goto c .loop

section Fields
variable (s : State n) (q : Level) (p r : Slot)

@[simp] theorem push_queue_self : (s.push q p).queue q = (s.queue q).push (some p) := by simp [push]
@[simp] theorem push_queue_ne (other : l ≠ q) : (s.push q p).queue l = s.queue l := by
  simp [push, other]
theorem push_proc :
    (s.push q p).proc r = if r = p then { s.proc p with queue := q.val } else s.proc r := by
  simp [push, Function.update_apply]
@[simp] theorem push_state : ((s.push q p).proc r).state = (s.proc r).state := by
  rw [push_proc]; split <;> simp_all
@[simp] theorem drop_queue_self : (s.drop q).queue q = (s.queue q).drop := by simp [drop]
@[simp] theorem drop_queue_ne (other : l ≠ q) : (s.drop q).queue l = s.queue l := by
  simp [drop, other]

end Fields

def enterLoop (s : State n) (c : Fin n) : State n :=
  s.setCpu c fun k => { k with proc := none, p := none, ageingUpdate := int32 s.ticks, mode := .loop }

def enter (s : State n) (c : Fin n) : State n :=
  if s.flag = 0 then s.goto c (.resetHead 0) else s.enterLoop c

def resetHead (s : State n) (c : Fin n) (i : Nat) : State n :=
  if h : i < 5 then
    let q : Level := ⟨i, h⟩
    { s with queue := Function.update s.queue q { s.queue q with head := 0 } }.goto c (.resetTail q)
  else { s with flag := int32 (s.flag + 1) }.enterLoop c

def resetTail (s : State n) (c : Fin n) (q : Level) : State n :=
  { s with queue := Function.update s.queue q { s.queue q with tail := 0 } }.goto c
    (.resetHead (q.val + 1))

end State

end Xv6.Kernel
