import Xv6.Proof.Select
import Xv6.Proof.Thread

/-!
# What one step does to the scheduling data

The scheduling properties read a part of the state only: a few fields of each process, the rings, and
for each processor its `c->proc`, the variable `a` of the slice loop and where it is as far as that
matters. `State.view` is this part, and `Change` says everything a step can do to it.
-/

namespace Xv6.Proof
open Xv6.Library Xv6.Kernel State

def owns : Work → Option Slot
  | .allocated np | .filled np | .copied np => some np
  | .run | .exiting _ => none

def masked : Work → Bool
  | .exiting masked => masked
  | _ => false

def raw : Work → Bool
  | .allocated _ => true
  | _ => false

structure Core where
  state : ProcState
  queue : Int
  pid : Int
  priority : Int
  ctime : Int
  lastExecuted : Int
  ticks : Level → Int
  -- the slot that a `fork` in progress has taken, and whether its `ctime` is still to be written
  owns : Option Slot
  raw : Bool
  -- on the way out, with interrupts off
  masked : Bool

def core (k : Proc) : Core where
  state := k.state
  queue := k.queue
  pid := k.pid
  priority := k.priority
  ctime := k.ctime
  lastExecuted := k.lastExecuted
  ticks := k.ticks
  owns := Proof.owns k.work
  raw := Proof.raw k.work
  masked := Proof.masked k.work

inductive Stage where
  | plain
  -- before `userinit` takes a slot
  | early
  -- `userinit` has taken this slot
  | boots (p : Slot)
  -- between the first store of the reset of the rings and the last
  | reset
  -- a timer interrupt is being served
  | trap
  -- a tick is charged and the process has not yielded yet
  | late
  | stopped
  -- stopped by the panic about a process that is not RUNNABLE
  | asleep
  deriving DecidableEq

def processIsSleeping : Halt := .panic "process is sleeping"

def stage : Mode → Stage
  | .startothers _ | .started _ | .userinit => .early
  | .userAllocated p | .userFilled p | .userCopied p => .boots p
  | .resetHead _ | .resetTail _ => .reset
  | .tick | .account | .wakeup1 _ _ .account => .trap
  | .trapEnd => .late
  | .halted why => if why = processIsSleeping then .asleep else .stopped
  | _ => .plain

structure Turn where
  proc : Option Slot
  a : Nat
  stage : Stage

def turn (k : Cpu) : Turn := ⟨k.proc, k.a, Proof.stage k.mode⟩

structure View (n : Nat) where
  core : Slot → Core
  queue : Level → Ring NPROC (Option Slot)
  turn : Fin n → Turn
  ticks : Nat
  nextpid : Int
  flag : Int

variable {n : Nat}

def view (s : State n) : View n where
  core p := Proof.core (s.proc p)
  queue := s.queue
  turn c := Proof.turn (s.cpu c)
  ticks := s.ticks
  nextpid := s.nextpid
  flag := s.flag

namespace View

@[simps -fullyApplied queue turn ticks nextpid flag]
def setCore (v : View n) (p : Slot) (f : Core → Core) : View n :=
  { v with core := Function.update v.core p (f (v.core p)) }

@[simps -fullyApplied core queue ticks nextpid flag]
def setTurn (v : View n) (c : Fin n) (f : Turn → Turn) : View n :=
  { v with turn := Function.update v.turn c (f (v.turn c)) }

@[simps -fullyApplied core turn ticks nextpid flag]
def setRing (v : View n) (q : Level) (f : Ring NPROC (Option Slot) → Ring NPROC (Option Slot)) : View n :=
  { v with queue := Function.update v.queue q (f (v.queue q)) }

def push (v : View n) (q : Level) (p : Slot) : View n :=
  (v.setRing q (·.push (some p))).setCore p ({ · with queue := q.val })

def drop (v : View n) (q : Level) : View n := v.setRing q Ring.drop

def Owns (v : View n) : Fin n ⊕ Slot → Slot → Prop
  | .inl c, p => (v.turn c).stage = .boots p
  | .inr me, p => (v.core me).owns = some p

def own (v : View n) (o : Fin n ⊕ Slot) (p : Slot) : View n :=
  match o with
  | .inl c => v.setTurn c ({ · with stage := .boots p })
  | .inr me => v.setCore me ({ · with owns := some p, raw := true })

def disown (v : View n) (o : Fin n ⊕ Slot) : View n :=
  match o with
  | .inl c => v.setTurn c ({ · with stage := .plain })
  | .inr me => v.setCore me ({ · with owns := none, raw := false })

def filled (v : View n) (o : Fin n ⊕ Slot) : View n :=
  match o with
  | .inl _ => v
  | .inr me => v.setCore me ({ · with raw := false })

section Fields
variable (v : View n) (p r : Slot) (q l : Level) (c d : Fin n) (f : Core → Core) (g : Turn → Turn)
  (h : Ring NPROC (Option Slot) → Ring NPROC (Option Slot)) (o : Fin n ⊕ Slot)

theorem setCore_core : (v.setCore p f).core r = if r = p then f (v.core p) else v.core r := by
  simp [setCore, Function.update_apply]
@[simp] theorem setCore_core_self : (v.setCore p f).core p = f (v.core p) := by simp [setCore_core]
@[simp] theorem setCore_core_ne {r : Slot} (other : r ≠ p) : (v.setCore p f).core r = v.core r := by
  simp [setCore_core, other]
theorem setTurn_turn : (v.setTurn c g).turn d = if d = c then g (v.turn c) else v.turn d := by
  simp [setTurn, Function.update_apply]
@[simp] theorem setTurn_turn_self : (v.setTurn c g).turn c = g (v.turn c) := by simp [setTurn_turn]
@[simp] theorem setTurn_turn_ne {d : Fin n} (other : d ≠ c) : (v.setTurn c g).turn d = v.turn d := by
  simp [setTurn_turn, other]
theorem setRing_queue : (v.setRing q h).queue l = if l = q then h (v.queue q) else v.queue l := by
  simp [setRing, Function.update_apply]
theorem push_core : (v.push q p).core r = if r = p then { v.core p with queue := q.val } else v.core r := by
  simp [push, setCore_core]
theorem push_queue : (v.push q p).queue l = if l = q then (v.queue q).push (some p) else v.queue l := by
  simp [push, setRing_queue]
@[simp] theorem push_turn : (v.push q p).turn = v.turn := rfl
@[simp] theorem push_ticks : (v.push q p).ticks = v.ticks := rfl
@[simp] theorem push_nextpid : (v.push q p).nextpid = v.nextpid := rfl
@[simp] theorem push_flag : (v.push q p).flag = v.flag := rfl
theorem drop_queue : (v.drop q).queue l = if l = q then (v.queue q).drop else v.queue l := by
  simp [drop, setRing_queue]
@[simp] theorem drop_core : (v.drop q).core = v.core := rfl
@[simp] theorem drop_turn : (v.drop q).turn = v.turn := rfl
@[simp] theorem drop_ticks : (v.drop q).ticks = v.ticks := rfl
@[simp] theorem drop_nextpid : (v.drop q).nextpid = v.nextpid := rfl
@[simp] theorem drop_flag : (v.drop q).flag = v.flag := rfl
theorem own_core :
    (v.own o p).core r = if o = .inr r then { v.core r with owns := some p, raw := true } else v.core r := by
  cases o with
  | inl c => simp [own]
  | inr me => by_cases same : r = me <;> simp [own, same, eq_comm]
theorem own_turn : (v.own o p).turn d = if o = .inl d then { v.turn d with stage := .boots p } else v.turn d := by
  cases o with
  | inl c => by_cases same : d = c <;> simp [own, same, eq_comm]
  | inr => simp [own]
theorem disown_core :
    (v.disown o).core r = if o = .inr r then { v.core r with owns := none, raw := false } else v.core r := by
  cases o with
  | inl c => simp [disown]
  | inr me => by_cases same : r = me <;> simp [disown, same, eq_comm]
theorem disown_turn : (v.disown o).turn d = if o = .inl d then { v.turn d with stage := .plain } else v.turn d := by
  cases o with
  | inl c => by_cases same : d = c <;> simp [disown, same, eq_comm]
  | inr => simp [disown]
theorem filled_core : (v.filled o).core r = if o = .inr r then { v.core r with raw := false } else v.core r := by
  cases o with
  | inl c => simp [filled]
  | inr me => by_cases same : r = me <;> simp [filled, same, eq_comm]
@[simp] theorem filled_turn : (v.filled o).turn = v.turn := by cases o <;> rfl
@[simp] theorem filled_queue : (v.filled o).queue = v.queue := by cases o <;> rfl
@[simp] theorem filled_ticks : (v.filled o).ticks = v.ticks := by cases o <;> rfl
@[simp] theorem filled_nextpid : (v.filled o).nextpid = v.nextpid := by cases o <;> rfl
@[simp] theorem filled_flag : (v.filled o).flag = v.flag := by cases o <;> rfl
@[simp] theorem own_queue : (v.own o p).queue = v.queue := by cases o <;> rfl
@[simp] theorem own_ticks : (v.own o p).ticks = v.ticks := by cases o <;> rfl
@[simp] theorem own_nextpid : (v.own o p).nextpid = v.nextpid := by cases o <;> rfl
@[simp] theorem own_flag : (v.own o p).flag = v.flag := by cases o <;> rfl
@[simp] theorem disown_queue : (v.disown o).queue = v.queue := by cases o <;> rfl
@[simp] theorem disown_ticks : (v.disown o).ticks = v.ticks := by cases o <;> rfl
@[simp] theorem disown_nextpid : (v.disown o).nextpid = v.nextpid := by cases o <;> rfl
@[simp] theorem disown_flag : (v.disown o).flag = v.flag := by cases o <;> rfl

end Fields

end View

def Acts (s : State n) (c : Fin n) : Fin n ⊕ Slot → Prop
  | .inl d => d = c
  | .inr me => (s.cpu c).proc = some me ∧ (s.proc me).state = .running

def fills (s : State n) (c : Fin n) : Option Slot :=
  match (s.cpu c).mode, s.working c with
  | .userAllocated p, _ => some p
  | _, some (.allocated np) => some np
  | _, _ => none

structure Freed (ticks : Nat) (k freed : Core) : Prop where
  state : freed.state = .unused
  queue : freed.queue = k.queue
  owns : freed.owns = k.owns
  raw : freed.raw = k.raw
  masked : freed.masked = k.masked
  ctime : freed.ctime = k.ctime ∨ freed.ctime = int32 ticks ∨ freed.ctime = 0

def Selects (pol : Policy) (s : State n) (p : Slot) : Prop :=
  match pol with
  | .default => FirstRunnable s p
  | .pbs => LeastPriority s p
  | .fcfs => LeastCtime s p
  | .mlfq => False

theorem Selects.runnable {pol : Policy} {s : State n} {p : Slot} (h : Selects pol s p) :
    (s.proc p).state = .runnable := by
  cases pol with
  | default | pbs | fcfs => exact h.1
  | mlfq => exact h.elim

inductive Change (pol : Policy) (s t : State n) (c : Fin n) (a : Action) : Prop
  | quiet (view : view t = view s)
  | halt (view : view t = (view s).setTurn c ({ · with stage := .stopped }))
  | timer (action : a = .timer) (plain : stage (s.cpu c).mode = .plain)
      (unmasked : ∀ p, (s.cpu c).proc = some p → masked (s.proc p).work = false)
      (view : view t = { (view s).setTurn c ({ · with stage := .trap }) with
        ticks := if c.val = 0 then (s.ticks + 1) % 2 ^ 32 else s.ticks })
  | timerDone (mode : (s.cpu c).mode = .account) (idle : (s.cpu c).proc = none)
      (view : view t = (view s).setTurn c ({ · with stage := .plain }))
  -- booting
  | enterReset (mode : (s.cpu c).mode = .enter) (first : s.flag = 0)
      (view : view t = (view s).setTurn c ({ · with stage := .reset }))
  | resetDone (stage : stage (s.cpu c).mode = .reset)
      (view : view t = { (view s).setTurn c ({ · with stage := .plain }) with
        flag := int32 (s.flag + 1) })
  | resetHead (q : Level) (mode : (s.cpu c).mode = .resetHead q.val)
      (view : view t = (view s).setRing q ({ · with head := 0 }))
  | resetTail (q : Level) (mode : (s.cpu c).mode = .resetTail q)
      (view : view t = (view s).setRing q ({ · with tail := 0 }))
  | bootFail (p : Slot) (f : Core → Core) (owns : (view s).Owns (.inl c) p)
      (embryo : (s.proc p).state = .embryo)
      (unused : ∀ k, Freed s.ticks k (f k))
      (view : view t = ((view s).setCore p f).setTurn c ({ · with stage := .stopped }))
  -- creating, publishing and giving up a process
  | alloc (o : Fin n ⊕ Slot) (p : Slot) (acts : Acts s c o)
      (early : o = .inl c → (s.cpu c).mode = .userinit)
      (fresh : ∀ me, o = .inr me → ((view s).core me).owns = none) (unused : (s.proc p).state = .unused)
      (away : ∀ d, (s.cpu d).proc ≠ some p)
      (view : view t = { ((view s).setCore p ({ · with
          state := .embryo, pid := s.nextpid, priority := 60, queue := 0 })).own o p with
        nextpid := int32 (s.nextpid + 1) })
  | fill (o : Fin n ⊕ Slot) (p : Slot) (acts : Acts s c o) (action : a = .fill true)
      (target : fills s c = some p) (owns : (view s).Owns o p) (embryo : (s.proc p).state = .embryo)
      (view : view t = ((view s).setCore p ({ · with
        ctime := int32 s.ticks, lastExecuted := 0, ticks := fun _ => 0, owns := none, raw := false,
        masked := false })).filled o)
  | discard (me p : Slot) (f : Core → Core) (acts : (s.cpu c).proc = some me)
      (owns : (view s).Owns (.inr me) p) (embryo : (s.proc p).state = .embryo)
      (unused : ∀ k, Freed s.ticks k (f k))
      (view : view t = ((view s).setCore p f).disown (.inr me))
  | publish (o : Fin n ⊕ Slot) (p : Slot) (acts : Acts s c o)
      (last : o = .inl c → a = .go ∧ (s.cpu c).mode = .userCopied p)
      (ready : ∀ me, o = .inr me → ((view s).core me).raw = false) (owns : (view s).Owns o p)
      (embryo : (s.proc p).state = .embryo) (away : ∀ d, (s.cpu d).proc ≠ some p)
      (view : view t = (((view s).setCore p ({ · with state := .runnable })).push 0 p).disown o)
  | reap (p : Slot) (f : Core → Core) (zombie : (s.proc p).state = .zombie)
      (unused : ∀ k, Freed s.ticks k (f k))
      (view : view t = (view s).setCore p f)
  -- the scheduler
  | dispatch (p : Slot) (action : a = .go) (mode : (s.cpu c).mode = .loop) (free : s.lock = none)
      (selects : Selects pol s p)
      (view : view t = ((view s).setCore p fun k => { k with
          state := .running
          lastExecuted := if pol = .pbs then int32 s.ticks else k.lastExecuted }).setTurn c
        ({ · with proc := some p, a := 0, stage := .plain }))
  | pick (p : Slot) (q : Level) (mlfq : pol = .mlfq) (action : a = .go)
      (mode : (s.cpu c).mode = .loop) (free : s.lock = none) (picked : s.pick = some p)
      (runnable : (s.proc p).state = .runnable) (level : (s.proc p).queue = q.val)
      (view : view t = (((view s).drop q).setCore p ({ · with state := .running })).setTurn c
        ({ · with proc := some p, a := 0, stage := .plain }))
  | asleep (p : Slot) (mlfq : pol = .mlfq) (picked : s.pick = some p)
      (stopped : (s.proc p).state ≠ .runnable) (view : view t = (view s).setTurn c ({ · with stage := .asleep }))
  | again (p : Slot) (mlfq : pol = .mlfq) (action : a = .go) (mode : (s.cpu c).mode = .back)
      (own : (s.cpu c).proc = some p) (runnable : (s.proc p).state = .runnable)
      (more : (s.cpu c).a + 1 < sliceOf (s.proc p).queue)
      (view : view t = ((view s).setCore p ({ · with state := .running })).setTurn c
        ({ · with proc := some p, a := (s.cpu c).a + 1, stage := .plain }))
  | requeue (p : Slot) (q : Level) (mlfq : pol = .mlfq) (action : a = .go)
      (mode : (s.cpu c).mode = .back) (own : (s.cpu c).proc = some p)
      (runnable : (s.proc p).state = .runnable) (done : sliceOf (s.proc p).queue ≤ (s.cpu c).a + 1)
      (level : q.val = min ((s.proc p).queue + 1) 4)
      (view : view t = ((view s).push q p).setTurn c ({ · with proc := none, stage := .plain }))
  | leave (p : Slot) (action : a = .go) (mode : (s.cpu c).mode = .back) (own : (s.cpu c).proc = some p)
      (stopped : (s.proc p).state ≠ .running) (blocked : pol = .mlfq → (s.proc p).state ≠ .runnable)
      (view : view t = (view s).setTurn c ({ · with proc := none, stage := .plain }))
  | promote (q m : Level) (i : Fin NPROC) (p : Slot) (action : a = .go) (low : q ≠ 0)
      (mode : (s.cpu c).mode = .ageing q i) (aged : s.aged q i = some p)
      (level : (m.val : Int) = (s.proc p).queue - 1) (view : view t = ((view s).drop q).push m p)
  | ageingPanic (q : Level) (i : Fin NPROC) (p : Slot) (low : q ≠ 0) (mode : (s.cpu c).mode = .ageing q i)
      (aged : s.aged q i = some p) (out : level? ((s.proc p).queue - 1) = none)
      (view : view t = ((view s).drop q).setTurn c ({ · with stage := .stopped }))
  -- a process on its processor
  | charge (p : Slot) (q : Level) (action : a = .go) (mode : (s.cpu c).mode = .account)
      (own : (s.cpu c).proc = some p) (running : (s.proc p).state = .running)
      (level : (s.proc p).queue = q.val)
      (view : view t = ((view s).setCore p fun k => { k with
          lastExecuted := int32 s.ticks
          ticks := Function.update k.ticks q (int32 (k.ticks q + 1)) }).setTurn c
        ({ · with stage := .late }))
  | yield (p : Slot) (mode : (s.cpu c).mode = .trapEnd) (own : (s.cpu c).proc = some p)
      (running : (s.proc p).state = .running)
      (view : view t = ((view s).setCore p ({ · with state := .runnable })).setTurn c
        ({ · with stage := .plain }))
  | exit (p : Slot) (mode : (s.cpu c).mode = .trapEnd) (own : (s.cpu c).proc = some p)
      (running : (s.proc p).state = .running)
      (view : view t = ((view s).setCore p ({ · with masked := true })).setTurn c
        ({ · with stage := .plain }))
  | block (p : Slot) (state : ProcState) (own : (s.cpu c).proc = some p)
      (running : (s.proc p).state = .running) (blocked : state = .sleeping ∨ state = .zombie)
      (view : view t = (view s).setCore p ({ · with state := state }))
  | wake (p : Slot) (q : Level) (asleep : (s.proc p).state = .sleeping)
      (away : ∀ d, (s.cpu d).proc ≠ some p)
      (level : (s.proc p).queue = q.val)
      (view : view t = ((view s).setCore p ({ · with state := .runnable })).push q p)
  | chpr (p : Slot) (priority : Int) (action : a = .chpr priority)
      (view : view t = (view s).setCore p ({ · with priority := priority }))

section View
variable (s : State n) (c : Fin n) (p : Slot) (q : Level)

theorem View.setCore_self {v : View n} {p : Slot} {f : Core → Core} (same : f (v.core p) = v.core p) :
    v.setCore p f = v := by
  simp [View.setCore, same]

theorem View.setTurn_self {v : View n} {c : Fin n} {f : Turn → Turn} (same : f (v.turn c) = v.turn c) :
    v.setTurn c f = v := by
  simp [View.setTurn, same]

theorem View.setCore_setCore (v : View n) (p : Slot) (f g : Core → Core) :
    (v.setCore p f).setCore p g = v.setCore p fun k => g (f k) := by
  simp [View.setCore]

theorem View.setTurn_setTurn (v : View n) (c : Fin n) (f g : Turn → Turn) :
    (v.setTurn c f).setTurn c g = v.setTurn c fun k => g (f k) := by
  simp [View.setTurn]

@[simp] theorem view_acquire : view (s.acquire c) = view s := rfl

@[simp] theorem view_release : view s.release = view s := rfl

theorem view_setProc {f : Proc → Proc} {g : Core → Core}
    (same : core (f (s.proc p)) = g (core (s.proc p))) : view (s.setProc p f) = (view s).setCore p g := by
  simp only [view, View.setCore, State.setProc, ← same, View.mk.injEq, and_true]
  funext r
  by_cases h : r = p
  · subst h
    simp
  · simp [h]

theorem view_setProc_self {f : Proc → Proc} (same : core (f (s.proc p)) = core (s.proc p)) :
    view (s.setProc p f) = view s :=
  (view_setProc s p (g := id) same).trans (View.setCore_self rfl)

theorem view_setCpu {f : Cpu → Cpu} {g : Turn → Turn} (same : turn (f (s.cpu c)) = g (turn (s.cpu c))) :
    view (s.setCpu c f) = (view s).setTurn c g := by
  simp only [view, View.setTurn, State.setCpu, ← same, View.mk.injEq, and_true, true_and]
  funext d
  by_cases h : d = c
  · subst h
    simp
  · simp [h]

theorem view_setCpu_self {f : Cpu → Cpu} (same : turn (f (s.cpu c)) = turn (s.cpu c)) : view (s.setCpu c f) = view s :=
  (view_setCpu s c (g := id) same).trans (View.setTurn_self rfl)

theorem view_goto (m : Mode) : view (s.goto c m) = (view s).setTurn c ({ · with stage := stage m }) :=
  view_setCpu s c rfl

theorem view_goto_self {m : Mode} (same : stage m = stage (s.cpu c).mode) : view (s.goto c m) = view s :=
  view_setCpu_self s c (by simp [turn, same])

theorem view_goto_plain {m : Mode} (next : stage m = .plain) (plain : stage (s.cpu c).mode = .plain) :
    view (s.goto c m) = view s :=
  view_goto_self s c (next.trans plain.symm)

theorem view_halt {why : Halt} (other : why ≠ processIsSleeping) :
    view (s.halt c why) = (view s).setTurn c ({ · with stage := .stopped }) := by
  rw [halt, view_goto]
  simp [stage, other]

@[simp] theorem view_drop : view (s.drop q) = (view s).drop q := rfl

@[simp] theorem view_push : view (s.push q p) = (view s).push q p := by
  simp only [view, View.push, View.setRing, View.setCore, State.push, View.mk.injEq, and_true]
  funext r
  by_cases h : r = p
  · subst h
    simp [core]
  · simp [h]

theorem view_setCur_self {f : Proc → Proc} (same : ∀ k, core (f k) = core k) : view (s.setCur c f) = view s := by
  unfold State.setCur
  split
  · exact view_setProc_self s _ (same _)
  · rfl

@[simp] theorem view_ret (value : Int) : view (s.ret c value) = view s :=
  view_setCur_self s c fun _ => rfl

theorem view_setCur {f : Proc → Proc} {g : Core → Core} (stack : (s.cpu c).stack = some p)
    (same : core (f (s.proc p)) = g (core (s.proc p))) : view (s.setCur c f) = (view s).setCore p g := by
  rw [State.setCur, stack]
  exact view_setProc s p same

theorem view_dispatch (a : Nat) :
    view (s.dispatch c p a) = ((view s).setCore p ({ · with state := .running })).setTurn c
      ({ · with proc := some p, a := a, stage := .plain }) := by
  unfold State.dispatch
  rw [view_setCpu (g := ({ · with proc := some p, a := a, stage := .plain })) _ _ rfl]
  rw [view_setProc (g := ({ · with state := .running })) _ _ rfl]

theorem view_ageingCheck : view (s.ageingCheck c) = (view s).setTurn c ({ · with stage := .plain }) := by
  unfold State.ageingCheck
  split_ifs
  · exact view_goto ..
  · exact view_goto ..

end View

end Xv6.Proof
