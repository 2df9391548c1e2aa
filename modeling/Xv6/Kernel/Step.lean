import Xv6.Kernel.Process

/-!
# The transition function

`step pol s (c, a)` lets processor `c` do one stretch of code. `Action.go` is the next stretch of
whatever the processor is in the middle of; the other actions are the choices open to a process, to
the memory allocator and to the interrupt hardware. A processor that waits for `ptable.lock`, and one
that has stopped, is not enabled. Every interleaving of the processors is a schedule of `step`.
-/

namespace Xv6.Kernel
open Xv6.Library

inductive Action where
  | go
  | timer
  | wakeup (chan : Chan)
  | kill (pid : Int)
  | chpr (priority : Int)
  | badTrap
  | fork
  | fill (kalloc : Bool)
  | copy (mapped : Bool)
  | publish
  | exit
  | wait (kind : WaitKind)
  | sleep (chan : Chan)
  deriving DecidableEq

/-- What a thread does of its own accord, as opposed to the interrupts and the stretches that follow. -/
def Action.isCall : Action → Bool
  | .go | .timer | .wakeup _ => false
  | _ => true

variable {n : Nat}

namespace State

def working (s : State n) (c : Fin n) : Option Work :=
  if (s.cpu c).mode = .thread then (s.cpu c).stack.map fun p => (s.proc p).work else none

def interruptible (s : State n) (c : Fin n) : Bool :=
  (s.cpu c).mode = .loop ∨ (s.cpu c).mode = .thread ∧ s.working c ≠ some (.exiting true)

def locked (s : State n) (c : Fin n) (body : State n → State n) : Option (State n) :=
  if s.lock = none then some (body (s.acquire c)) else none

def go (pol : Policy) (s : State n) (c : Fin n) : Option (State n) :=
  match (s.cpu c).mode with
  | .off => none
  | .mpenter => some (s.mpmain c)
  | .startothers k => some (s.startothers c k)
  | .started k =>
    if h : k < n then
      if (s.cpu ⟨k, h⟩).started then some (s.goto c (.startothers (k + 1))) else none
    else none
  | .userinit => s.locked c fun t => (t.userinit c).release
  | .userAllocated _ => none
  | .userFilled _ => none
  | .userCopied p => s.locked c fun t => t.userPublish c p
  | .mpmain => some (s.mpmain c)
  | .enter => some (s.enter c)
  | .resetHead i => some (s.resetHead c i)
  | .resetTail q => some (s.resetTail c q)
  | .loop => s.locked c fun t => t.pass pol c
  | .back => some (s.back pol c)
  | .ageing q i => some (s.ageing c q i)
  | .tick => s.locked c fun t => t.goto c (.wakeup1 (some .ticks) 0 .account)
  | .account => some (s.account c)
  | .trapEnd =>
    if (s.myproc c).any fun p => (s.proc p).state = .running then s.locked c fun t => t.yield c
    else some (s.resume c)
  | .thread =>
    match s.working c with
    | some (.exiting _) => s.locked c fun t => t.exitLock c
    | _ => none
  | .resumed => some (s.resumed c)
  | .waiting kind => some (s.waiting c kind)
  | .wakeup1 chan i r => some (s.wakeup1 c chan i r)
  | .reparent i => some (s.reparent c i)
  | .sched context => some (s.sched c context)
  | .halted _ => none

end State

open State

def step (pol : Policy) (s : State n) : Fin n × Action → Option (State n)
  | (c, .go) => s.go pol c
  | (c, .timer) => if s.interruptible c then some (s.timer c) else none
  | (c, .wakeup chan) =>
    -- a device interrupt, or the thread's own code
    if (s.cpu c).mode = .loop ∨ (s.cpu c).mode = .thread then
      s.locked c fun t => t.goto c (.wakeup1 (some chan) 0 .caller)
    else none
  | (c, .kill pid) => if s.working c = some .run then s.locked c fun t => t.kill c pid else none
  | (c, .chpr priority) =>
    if s.working c = some .run then s.locked c fun t => t.chpr c priority else none
  | (c, .badTrap) => if s.working c = some .run then some (s.badTrap c) else none
  | (c, .fork) =>
    if s.working c = some .run then s.locked c fun t => (t.fork c).release else none
  | (c, .fill kalloc) =>
    match (s.cpu c).mode, s.working c with
    | .userAllocated p, _ => some (s.userFill c p kalloc)
    | _, some (.allocated np) => some (s.forkFill c np kalloc)
    | _, _ => none
  | (c, .copy mapped) =>
    match (s.cpu c).mode, s.working c with
    | .userFilled p, _ => some (s.userCopy c p mapped)
    | _, some (.filled np) => some (s.forkCopy c np mapped)
    | _, _ => none
  | (c, .publish) =>
    match s.working c with
    | some (.copied np) => s.locked c fun t => t.forkPublish c np
    | _ => none
  | (c, .exit) =>
    -- a call of exit, or a killed process on its way back to user space
    if s.working c = some .run ∨
        ((s.cpu c).mode = .trapEnd ∧ (s.myproc c).any fun p => (s.proc p).killed ∧
          (s.proc p).work = .run) then
      some (s.exit c)
    else none
  | (c, .wait kind) =>
    if s.working c = some .run then s.locked c fun t => t.goto c (.waiting kind) else none
  | (c, .sleep chan) =>
    match chan, s.working c with
    -- only `wait` and `waitx` sleep on the address of a process
    | .proc _, _ => none
    | _, some .run | _, some (.exiting _) => s.locked c fun t => t.sleep c chan .sleep
    | _, _ => none

/-- Processor `c` runs the thread of `p`, which is in the middle of `w`. -/
structure At (s : State n) (c : Fin n) (p : Slot) (w : Work) : Prop where
  mode : (s.cpu c).mode = .thread
  stack : (s.cpu c).stack = some p
  work : (s.proc p).work = w

/-- The graph of `step`, with one constructor for each stretch of code. -/
inductive Transition (pol : Policy) (s : State n) (c : Fin n) : Action → State n → Prop
  | mpmain (mode : (s.cpu c).mode = .mpenter ∨ (s.cpu c).mode = .mpmain) :
      Transition pol s c .go (s.mpmain c)
  | startothers (k : Nat) (mode : (s.cpu c).mode = .startothers k) :
      Transition pol s c .go (s.startothers c k)
  | started (k : Nat) (mode : (s.cpu c).mode = .started k) :
      Transition pol s c .go (s.goto c (.startothers (k + 1)))
  | userinit (mode : (s.cpu c).mode = .userinit) (free : s.lock = none) :
      Transition pol s c .go ((s.acquire c).userinit c).release
  | userFill (p : Slot) (ok : Bool) (mode : (s.cpu c).mode = .userAllocated p) :
      Transition pol s c (.fill ok) (s.userFill c p ok)
  | userCopy (p : Slot) (ok : Bool) (mode : (s.cpu c).mode = .userFilled p) :
      Transition pol s c (.copy ok) (s.userCopy c p ok)
  | userPublish (p : Slot) (mode : (s.cpu c).mode = .userCopied p) (free : s.lock = none) :
      Transition pol s c .go ((s.acquire c).userPublish c p)
  | enter (mode : (s.cpu c).mode = .enter) : Transition pol s c .go (s.enter c)
  | resetHead (i : Nat) (mode : (s.cpu c).mode = .resetHead i) :
      Transition pol s c .go (s.resetHead c i)
  | resetTail (q : Level) (mode : (s.cpu c).mode = .resetTail q) :
      Transition pol s c .go (s.resetTail c q)
  | pass (mode : (s.cpu c).mode = .loop) (free : s.lock = none) :
      Transition pol s c .go ((s.acquire c).pass pol c)
  | back (mode : (s.cpu c).mode = .back) : Transition pol s c .go (s.back pol c)
  | ageing (q : Level) (i : Fin NPROC) (mode : (s.cpu c).mode = .ageing q i) :
      Transition pol s c .go (s.ageing c q i)
  | timer (mode : (s.cpu c).mode = .loop ∨
        (s.cpu c).mode = .thread ∧ s.working c ≠ some (.exiting true)) :
      Transition pol s c .timer (s.timer c)
  | tick (mode : (s.cpu c).mode = .tick) (free : s.lock = none) :
      Transition pol s c .go ((s.acquire c).goto c (.wakeup1 (some .ticks) 0 .account))
  | account (mode : (s.cpu c).mode = .account) : Transition pol s c .go (s.account c)
  | yield (mode : (s.cpu c).mode = .trapEnd) (free : s.lock = none) :
      Transition pol s c .go ((s.acquire c).yield c)
  | trapEnd (mode : (s.cpu c).mode = .trapEnd)
      (stopped : ∀ p, (s.cpu c).proc = some p → (s.proc p).state ≠ .running) :
      Transition pol s c .go (s.resume c)
  | wakeup (chan : Chan) (mode : (s.cpu c).mode = .loop ∨ (s.cpu c).mode = .thread)
      (free : s.lock = none) :
      Transition pol s c (.wakeup chan) ((s.acquire c).goto c (.wakeup1 (some chan) 0 .caller))
  | wakeup1 (chan : Option Chan) (i : Nat) (r : Ret) (mode : (s.cpu c).mode = .wakeup1 chan i r) :
      Transition pol s c .go (s.wakeup1 c chan i r)
  | kill (p : Slot) (pid : Int) (here : At s c p .run) (free : s.lock = none) :
      Transition pol s c (.kill pid) ((s.acquire c).kill c pid)
  | chpr (p : Slot) (priority : Int) (here : At s c p .run) (free : s.lock = none) :
      Transition pol s c (.chpr priority) ((s.acquire c).chpr c priority)
  | badTrap (p : Slot) (here : At s c p .run) : Transition pol s c .badTrap (s.badTrap c)
  | fork (p : Slot) (here : At s c p .run) (free : s.lock = none) :
      Transition pol s c .fork ((s.acquire c).fork c).release
  | forkFill (p np : Slot) (ok : Bool) (here : At s c p (.allocated np)) :
      Transition pol s c (.fill ok) (s.forkFill c np ok)
  | forkCopy (p np : Slot) (ok : Bool) (here : At s c p (.filled np)) :
      Transition pol s c (.copy ok) (s.forkCopy c np ok)
  | forkPublish (p np : Slot) (here : At s c p (.copied np)) (free : s.lock = none) :
      Transition pol s c .publish ((s.acquire c).forkPublish c np)
  | exit (mode : (s.cpu c).mode = .thread ∨ (s.cpu c).mode = .trapEnd)
      (run : ∀ p, (s.cpu c).proc = some p → (s.cpu c).stack = some p → (s.proc p).work = .run) :
      Transition pol s c .exit (s.exit c)
  | exitLock (p : Slot) (masked : Bool) (here : At s c p (.exiting masked)) (free : s.lock = none) :
      Transition pol s c .go ((s.acquire c).exitLock c)
  | reparent (i : Nat) (mode : (s.cpu c).mode = .reparent i) :
      Transition pol s c .go (s.reparent c i)
  | wait (p : Slot) (kind : WaitKind) (here : At s c p .run) (free : s.lock = none) :
      Transition pol s c (.wait kind) ((s.acquire c).goto c (.waiting kind))
  | waiting (kind : WaitKind) (mode : (s.cpu c).mode = .waiting kind) :
      Transition pol s c .go (s.waiting c kind)
  | sleep (p : Slot) (chan : Chan) (mode : (s.cpu c).mode = .thread)
      (stack : (s.cpu c).stack = some p)
      (work : (s.proc p).work = .run ∨ ∃ masked, (s.proc p).work = .exiting masked)
      (free : s.lock = none) (other : ∀ r, chan ≠ .proc r) :
      Transition pol s c (.sleep chan) ((s.acquire c).sleep c chan .sleep)
  | sched (context : Context) (mode : (s.cpu c).mode = .sched context) :
      Transition pol s c .go (s.sched c context)
  | resumed (mode : (s.cpu c).mode = .resumed) : Transition pol s c .go (s.resumed c)

variable {pol : Policy} {s t : State n} {c : Fin n} {a : Action}

theorem locked_eq_some {body : State n → State n} (h : s.locked c body = some t) :
    s.lock = none ∧ t = body (s.acquire c) := by
  unfold State.locked at h
  split at h
  · exact ⟨‹_›, (Option.some.inj h).symm⟩
  · cases h

theorem working_eq_some {w : Work} (h : s.working c = some w) : ∃ p, At s c p w := by
  unfold State.working at h
  split at h
  · obtain ⟨p, stack, work⟩ := Option.map_eq_some_iff.mp h
    exact ⟨p, ‹_›, stack, work⟩
  · cases h

theorem go_transition (action : s.go pol c = some t) : Transition pol s c .go t := by
  unfold State.go at action
  cases mode : (s.cpu c).mode <;> simp only [mode] at action
  case off | userAllocated | userFilled | halted => cases action
  case mpenter => exact Option.some.inj action ▸ .mpmain (.inl mode)
  case mpmain => exact Option.some.inj action ▸ .mpmain (.inr mode)
  case startothers k => exact Option.some.inj action ▸ .startothers k mode
  case started k =>
      split_ifs at action
      exact Option.some.inj action ▸ .started k mode
  case userinit =>
      obtain ⟨free, rfl⟩ := locked_eq_some action
      exact .userinit mode free
  case userCopied p =>
      obtain ⟨free, rfl⟩ := locked_eq_some action
      exact .userPublish p mode free
  case enter => exact Option.some.inj action ▸ .enter mode
  case resetHead i => exact Option.some.inj action ▸ .resetHead i mode
  case resetTail q => exact Option.some.inj action ▸ .resetTail q mode
  case loop =>
      obtain ⟨free, rfl⟩ := locked_eq_some action
      exact .pass mode free
  case back => exact Option.some.inj action ▸ .back mode
  case ageing q i => exact Option.some.inj action ▸ .ageing q i mode
  case tick =>
      obtain ⟨free, rfl⟩ := locked_eq_some action
      exact .tick mode free
  case account => exact Option.some.inj action ▸ .account mode
  case trapEnd =>
      split_ifs at action with run
      · obtain ⟨free, rfl⟩ := locked_eq_some action
        exact .yield mode free
      · refine Option.some.inj action ▸ .trapEnd mode fun p own state => run ?_
        simp [own, state]
  case thread =>
      split at action
      · obtain ⟨p, here⟩ := working_eq_some ‹_›
        obtain ⟨free, rfl⟩ := locked_eq_some action
        exact .exitLock p _ here free
      · cases action
  case resumed => exact Option.some.inj action ▸ .resumed mode
  case waiting kind => exact Option.some.inj action ▸ .waiting kind mode
  case wakeup1 chan i r => exact Option.some.inj action ▸ .wakeup1 chan i r mode
  case reparent i => exact Option.some.inj action ▸ .reparent i mode
  case sched context => exact Option.some.inj action ▸ .sched context mode

theorem step_transition (action : step pol s (c, a) = some t) : Transition pol s c a t := by
  cases a <;> simp only [step] at action
  case go => exact go_transition action
  case timer =>
      split_ifs at action with enabled
      exact Option.some.inj action ▸ .timer (by simpa [State.interruptible] using enabled)
  case wakeup chan =>
      split_ifs at action with mode
      obtain ⟨free, rfl⟩ := locked_eq_some action
      exact .wakeup chan mode free
  case kill pid =>
      split_ifs at action with run
      obtain ⟨p, here⟩ := working_eq_some run
      obtain ⟨free, rfl⟩ := locked_eq_some action
      exact .kill p pid here free
  case chpr priority =>
      split_ifs at action with run
      obtain ⟨p, here⟩ := working_eq_some run
      obtain ⟨free, rfl⟩ := locked_eq_some action
      exact .chpr p priority here free
  case badTrap =>
      split_ifs at action with run
      obtain ⟨p, here⟩ := working_eq_some run
      exact Option.some.inj action ▸ .badTrap p here
  case fork =>
      split_ifs at action with run
      obtain ⟨p, here⟩ := working_eq_some run
      obtain ⟨free, rfl⟩ := locked_eq_some action
      exact .fork p here free
  case fill ok =>
      split at action
      case h_1 _ p mode => exact Option.some.inj action ▸ .userFill p ok mode
      case h_2 np work _ =>
          obtain ⟨p, here⟩ := working_eq_some work
          exact Option.some.inj action ▸ .forkFill p np ok here
      case h_3 => cases action
  case copy ok =>
      split at action
      case h_1 _ p mode => exact Option.some.inj action ▸ .userCopy p ok mode
      case h_2 np work _ =>
          obtain ⟨p, here⟩ := working_eq_some work
          exact Option.some.inj action ▸ .forkCopy p np ok here
      case h_3 => cases action
  case publish =>
      split at action
      case h_1 np work =>
          obtain ⟨p, here⟩ := working_eq_some work
          obtain ⟨free, rfl⟩ := locked_eq_some action
          exact .forkPublish p np here free
      case h_2 => cases action
  case exit =>
      split_ifs at action with allowed
      rcases allowed with run | ⟨mode, killed⟩
      · obtain ⟨p, here⟩ := working_eq_some run
        refine Option.some.inj action ▸ .exit (.inl here.mode) fun r _ stack => ?_
        obtain rfl : p = r := Option.mem_unique here.stack stack
        exact here.work
      · refine Option.some.inj action ▸ .exit (.inr mode) fun r own _ => ?_
        have both : (s.proc r).killed = true ∧ (s.proc r).work = .run := by simpa [own] using killed
        exact both.2
  case wait kind =>
      split_ifs at action with run
      obtain ⟨p, here⟩ := working_eq_some run
      obtain ⟨free, rfl⟩ := locked_eq_some action
      exact .wait p kind here free
  case sleep chan =>
      split at action
      case h_1 => cases action
      case h_2 other run =>
          obtain ⟨p, here⟩ := working_eq_some run
          obtain ⟨free, rfl⟩ := locked_eq_some action
          exact .sleep p _ here.mode here.stack (.inl here.work) free other
      case h_3 masked other exiting =>
          obtain ⟨p, here⟩ := working_eq_some exiting
          obtain ⟨free, rfl⟩ := locked_eq_some action
          exact .sleep p _ here.mode here.stack (.inr ⟨masked, here.work⟩) free other
      case h_4 => cases action

end Xv6.Kernel
