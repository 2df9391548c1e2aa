import Xv6.Proof.WellFormed

/-!
# What one step does to the process table

`Change` follows the scheduling data. The properties of `fork`, `exit`, `wait` and `kill` and of the
times that `waitx` reports read other fields of a process and other places in the code: `table` is this
part of a state, and `Deed` says everything a step can do to it.
-/

namespace Xv6.Proof
open Xv6.Library Xv6.Kernel State

structure Life where
  state : ProcState
  pid : Int
  parent : Option Slot
  work : Work
  chan : Option Chan
  killed : Bool
  ctime : Int
  etime : Int
  rtime : Int
  ticks : Level → Int

def life (k : Proc) : Life where
  state := k.state
  pid := k.pid
  parent := k.parent
  work := k.work
  chan := k.chan
  killed := k.killed
  ctime := k.ctime
  etime := k.etime
  rtime := k.rtime
  ticks := k.ticks

inductive Errand where
  | none
  -- before `userinit` takes a slot, and with the slot it has taken, before and after its times are written
  | early
  | boots (p : Slot) (filled : Bool)
  -- a timer interrupt that hit this process
  | trap (p : Option Slot)
  -- `exit` of this process: at slot `i` of the loop that wakes its parent, at slot `i` of the loop over its
  -- children, at slot `j` of the loop that wakes init for the child `i`
  | rouses (me : Option Slot) (chan : Option Chan) (i : Nat)
  | passes (me : Option Slot) (i : Nat)
  | hands (me : Option Slot) (chan : Option Chan) (j i : Nat)
  deriving DecidableEq

def errand (k : Cpu) : Errand :=
  match k.mode with
  | .startothers _ | .started _ | .userinit => .early
  | .userAllocated p => .boots p false
  | .userFilled p | .userCopied p => .boots p true
  | .tick | .account | .wakeup1 _ _ .account => .trap k.proc
  | .wakeup1 chan i (.reparent 0) => .rouses k.stack chan i
  | .wakeup1 chan j (.reparent (i + 1)) => .hands k.stack chan j i
  | .reparent i => .passes k.stack i
  | _ => .none

def Errand.leaver : Errand → Option Slot
  | .rouses me _ _ | .passes me _ | .hands me _ _ _ => me
  | _ => Option.none

structure Table (n : Nat) where
  life : Slot → Life
  errand : Fin n → Errand
  nextpid : Int
  initproc : Option Slot
  ticks : Nat

variable {n : Nat}

def table (s : State n) : Table n where
  life p := Proof.life (s.proc p)
  errand c := Proof.errand (s.cpu c)
  nextpid := s.nextpid
  initproc := s.initproc
  ticks := s.ticks

namespace Table

@[simps -fullyApplied errand nextpid initproc ticks]
def set (v : Table n) (p : Slot) (f : Life → Life) : Table n :=
  { v with life := Function.update v.life p (f (v.life p)) }

@[simps -fullyApplied life nextpid initproc ticks]
def send (v : Table n) (c : Fin n) (x : Errand) : Table n :=
  { v with errand := Function.update v.errand c x }

def goOn (v : Table n) (c : Fin n) (o : Option Slot) (w : Work) (x : Errand) : Table n :=
  match o with
  | some me => v.set me ({ · with work := w })
  | none => v.send c x

section Fields
variable (v : Table n) (p r : Slot) (c d : Fin n) (f : Life → Life) (x : Errand) (o : Option Slot) (w : Work)

theorem set_life : (v.set p f).life r = if r = p then f (v.life p) else v.life r := by
  simp [set, Function.update_apply]
@[simp] theorem set_life_self : (v.set p f).life p = f (v.life p) := by simp [set_life]
@[simp] theorem set_life_ne {r : Slot} (other : r ≠ p) : (v.set p f).life r = v.life r := by
  simp [set_life, other]
theorem send_errand : (v.send c x).errand d = if d = c then x else v.errand d := by
  simp [send, Function.update_apply]
@[simp] theorem send_errand_self : (v.send c x).errand c = x := by simp [send_errand]
@[simp] theorem goOn_nextpid : (v.goOn c o w x).nextpid = v.nextpid := by cases o <;> rfl
@[simp] theorem goOn_initproc : (v.goOn c o w x).initproc = v.initproc := by cases o <;> rfl
@[simp] theorem goOn_ticks : (v.goOn c o w x).ticks = v.ticks := by cases o <;> rfl
theorem goOn_life : (v.goOn c o w x).life r = if o = some r then { v.life r with work := w } else v.life r := by
  cases o with
  | none => rfl
  | some me =>
    by_cases same : r = me
    · simp [goOn, same]
    · simp [goOn, same, Ne.symm same]
theorem goOn_errand : (v.goOn c o w x).errand d = if o = none ∧ d = c then x else v.errand d := by
  cases o <;> simp [goOn, send_errand]

end Fields

theorem set_keeps {β : Type} {v : Table n} {p : Slot} {f : Life → Life} (π : Life → β)
    (same : π (f (v.life p)) = π (v.life p)) (r : Slot) : π ((v.set p f).life r) = π (v.life r) := by
  rw [set_life]
  split_ifs with here
  · rw [same, here]
  · rfl

theorem set_self {v : Table n} {p : Slot} {f : Life → Life} (same : f (v.life p) = v.life p) : v.set p f = v := by
  simp [set, same]

theorem set_congr {v : Table n} {p : Slot} {f g : Life → Life} (same : f (v.life p) = g (v.life p)) :
    v.set p f = v.set p g := by
  simp [set, same]

theorem initproc_self {v : Table n} {i : Option Slot} (same : v.initproc = i) : { v with initproc := i } = v := by
  subst same
  rfl

theorem send_self {v : Table n} {c : Fin n} {x : Errand} (same : v.errand c = x) : v.send c x = v := by
  simp [send, ← same]

theorem set_set (v : Table n) (p : Slot) (f g : Life → Life) : (v.set p f).set p g = v.set p fun k => g (f k) := by
  simp [set]

end Table

structure Calls (s : State n) (c : Fin n) (a : Action) (me : Slot) (w : Work) : Prop where
  own : (s.cpu c).proc = some me
  stack : (s.cpu c).stack = some me
  running : (s.proc me).state = .running
  work : (s.proc me).work = w
  calm : errand (s.cpu c) = .none
  call : a.isCall

structure Maker (s : State n) (c : Fin n) (a : Action) (o : Option Slot) (w : Work) (x : Errand) : Prop where
  thread : ∀ me, o = some me → Calls s c a me w
  boot : o = none → errand (s.cpu c) = x

theorem Maker.ofBoot {s : State n} {c : Fin n} {a : Action} {w : Work} {x : Errand} (boots : errand (s.cpu c) = x) :
    Maker s c a none w x :=
  ⟨fun me same => (by cases same), fun _ => boots⟩

theorem Maker.ofThread {s : State n} {c : Fin n} {a : Action} {me : Slot} {w : Work} {x : Errand}
    (calls : Calls s c a me w) : Maker s c a (some me) w x :=
  ⟨fun _ same => Option.some.inj same ▸ calls, fun same => (by cases same)⟩

def Life.reset (ticks : Nat) (k : Life) : Life :=
  { k with ctime := int32 ticks, etime := int32 ticks, rtime := 0, ticks := fun _ => 0 }

def Life.reap (kind : WaitKind) (k : Life) : Life :=
  match kind with
  | .wait => { k with pid := 0, parent := none, killed := false, state := .unused }
  | .waitx =>
    { k with
      pid := 0, parent := none, killed := false, state := .unused
      ctime := 0, etime := 0, rtime := 0 }

def Life.charge (q : Level) (k : Life) : Life :=
  { k with rtime := int32 (k.rtime + 1), ticks := Function.update k.ticks q (int32 (k.ticks q + 1)) }

def Life.rouse (k : Life) : Life := { k with state := if k.state = .sleeping then .runnable else k.state }

inductive Deed (s t : State n) (c : Fin n) (a : Action) : Prop
  | rest (table : table t = table s)
  | halt (stays : (errand (s.cpu c)).leaver = none) (table : table t = (table s).send c .none)
  | timer (action : a = .timer) (calm : errand (s.cpu c) = .none)
      (mode : (s.cpu c).mode = .loop ∨ (s.cpu c).mode = .thread ∧ s.working c ≠ some (.exiting true))
      (table : table t = { (table s).send c (.trap (s.cpu c).proc) with
        ticks := if c.val = 0 then (s.ticks + 1) % 2 ^ 32 else s.ticks })
  | timerDone (mode : (s.cpu c).mode = .account)
    (idle : (s.cpu c).proc = none) (table : table t = (table s).send c .none)
  -- creating, publishing and giving up a process
  | alloc (o : Option Slot) (p : Slot) (action : o = none ∨ a = .fork) (maker : Maker s c a o .run .early)
      (unused : (s.proc p).state = .unused)
      (table : table t = { ((table s).set p ({ · with state := .embryo, pid := s.nextpid })).goOn c o
        (.allocated p) (.boots p false) with nextpid := int32 (s.nextpid + 1) })
  | fill (o : Option Slot) (p : Slot) (action : a = .fill true)
      (maker : Maker s c a o (.allocated p) (.boots p false)) (embryo : (s.proc p).state = .embryo)
      (table : table t = { ((table s).set p fun k => { k.reset s.ticks with work := .run }).goOn c o
        (.filled p) (.boots p true) with initproc := if o = none then some p else s.initproc })
  | fillFail (o : Option Slot) (p : Slot) (action : a = .fill false)
      (maker : Maker s c a o (.allocated p) (.boots p false)) (embryo : (s.proc p).state = .embryo)
      (table : table t = { ((table s).set p fun k => { k.reset s.ticks with state := .unused }).goOn c o
        .run .none with initproc := if o = none then none else s.initproc })
  | copy (me p : Slot) (maker : Maker s c a (some me) (.filled p) .none) (embryo : (s.proc p).state = .embryo)
      (table : table t = ((table s).set p ({ · with parent := some me })).set me ({ · with work := .copied p }))
  | copyFail (me p : Slot) (action : a = .copy false) (maker : Maker s c a (some me) (.filled p) .none)
      (embryo : (s.proc p).state = .embryo)
      (table : table t = ((table s).set p ({ · with state := .unused })).set me ({ · with work := .run }))
  | publish (o : Option Slot) (p : Slot) (maker : Maker s c a o (.copied p) (.boots p true))
      (embryo : (s.proc p).state = .embryo)
      (table : table t = ((table s).set p ({ · with state := .runnable })).goOn c o .run .none)
  | reap (me p : Slot) (kind : WaitKind) (mode : (s.cpu c).mode = .waiting kind)
      (own : (s.cpu c).proc = some me) (found : s.zombieChild me = some p)
      (table : table t = (table s).set p (Life.reap kind))
  -- a process on its processor
  | dispatch (p : Slot) (runnable : (s.proc p).state = .runnable)
      (table : table t = (table s).set p ({ · with state := .running }))
  | charge (p : Slot) (q : Level) (action : a = .go) (mode : (s.cpu c).mode = .account)
      (own : (s.cpu c).proc = some p) (running : (s.proc p).state = .running) (level : (s.proc p).queue = q.val)
      (table : table t = ((table s).set p (Life.charge q)).send c .none)
  | yield (p : Slot) (own : (s.cpu c).proc = some p) (running : (s.proc p).state = .running)
      (table : table t = (table s).set p ({ · with state := .runnable }))
  | sleep (p : Slot) (chan : Chan) (own : (s.cpu c).proc = some p) (running : (s.proc p).state = .running)
      (calm : errand (s.cpu c) = .none) (held : s.lock = none ∨ s.lock = some c)
      (wait : ∀ r, chan = .proc r → r = p ∧ s.zombieChild p = none)
      (table : table t = (table s).set p ({ · with state := .sleeping, chan := some chan }))
  | wake (p : Slot) (chan : Option Chan) (r : Ret) (mode : (s.cpu c).mode = .wakeup1 chan p.val r)
      (asleep : (s.proc p).state = .sleeping) (same : (s.proc p).chan = chan)
      (table : table t = ((table s).set p ({ · with state := .runnable })).send c
        (errand { s.cpu c with mode := .wakeup1 chan (p.val + 1) r }))
  | resumed (p : Slot) (own : (s.cpu c).proc = some p) (running : (s.proc p).state = .running)
      (table : table t = (table s).set p ({ · with chan := none }))
  -- `kill` and the fatal traps
  | kill (p : Slot) (pid : Int) (action : a = .kill pid)
      (found : ((List.finRange NPROC).find? fun p => (s.proc p).pid = pid) = some p)
      (table : table t = (table s).set p fun k => { k.rouse with killed := true })
  | badTrap (p : Slot) (action : a = .badTrap) (own : (s.cpu c).proc = some p)
      (running : (s.proc p).state = .running)
      (table : table t = (table s).set p ({ · with killed := true }))
  -- `exit`
  | exit (p : Slot) (masked : Bool) (calls : Calls s c a p .run) (other : s.initproc ≠ some p)
      (table : table t = (table s).set p ({ · with etime := int32 s.ticks, work := .exiting masked }))
  | exitLock (p : Slot) (masked : Bool) (own : (s.cpu c).proc = some p) (stack : (s.cpu c).stack = some p)
      (running : (s.proc p).state = .running) (work : (s.proc p).work = .exiting masked) (free : s.lock = none)
      (table : table t = (table s).send c (.rouses (some p) ((s.proc p).parent.map .proc) 0))
  | scan (chan : Option Chan) (i : Nat) (r : Ret) (mode : (s.cpu c).mode = .wakeup1 chan i r)
      (within : i < NPROC) (passed : ¬ ((s.proc ⟨i, within⟩).state = .sleeping ∧ (s.proc ⟨i, within⟩).chan = chan))
      (table : table t = (table s).send c (errand { s.cpu c with mode := .wakeup1 chan (i + 1) r }))
  | scanned (chan : Option Chan) (i j : Nat) (mode : (s.cpu c).mode = .wakeup1 chan i (.reparent j))
      (done : NPROC ≤ i) (table : table t = (table s).send c (.passes (s.cpu c).stack j))
  | pass (p me : Slot) (mode : (s.cpu c).mode = .reparent p.val) (stack : (s.cpu c).stack = some me)
      (running : (s.proc me).state = .running) (child : (s.proc p).parent = some me)
      (table : table t = ((table s).set p ({ · with parent := s.initproc })).send c
        (if (s.proc p).state = .zombie then .hands (some me) (s.initproc.map .proc) 0 p.val
          else .passes (some me) (p.val + 1)))
  | skip (p me : Slot) (mode : (s.cpu c).mode = .reparent p.val) (stack : (s.cpu c).stack = some me)
      (other : (s.proc p).parent ≠ some me)
      (table : table t = (table s).send c (.passes (some me) (p.val + 1)))
  | zombie (me : Slot) (i : Nat) (mode : (s.cpu c).mode = .reparent i) (done : NPROC ≤ i)
      (stack : (s.cpu c).stack = some me) (running : (s.proc me).state = .running)
      (table : table t = ((table s).set me ({ · with state := .zombie })).send c .none)

section Table
variable (s : State n) (c : Fin n) (p : Slot) (q : Level)

theorem table_state : ((table s).life p).state = (s.proc p).state := rfl

theorem table_work : ((table s).life p).work = (s.proc p).work := rfl

@[simp] theorem table_acquire : table (s.acquire c) = table s := rfl

@[simp] theorem table_release : table s.release = table s := rfl

@[simp] theorem table_drop : table (s.drop q) = table s := rfl

theorem table_setProc {f : Proc → Proc} {g : Life → Life} (same : life (f (s.proc p)) = g (life (s.proc p))) :
    table (s.setProc p f) = (table s).set p g := by
  simp only [table, Table.set, State.setProc, ← same, Table.mk.injEq, and_true]
  funext r
  by_cases h : r = p
  · subst h
    simp
  · simp [h]

theorem table_setProc_self {f : Proc → Proc} (same : life (f (s.proc p)) = life (s.proc p)) :
    table (s.setProc p f) = table s :=
  (table_setProc s p (g := id) same).trans (Table.set_self rfl)

@[simp] theorem table_push : table (s.push q p) = table s := by
  simp only [table, State.push, Table.mk.injEq, and_true]
  funext r
  by_cases h : r = p
  · subst h
    simp [life]
  · simp [h]

theorem table_setCpu {f : Cpu → Cpu} : table (s.setCpu c f) = (table s).send c (errand (f (s.cpu c))) := by
  simp only [table, Table.send, State.setCpu, Table.mk.injEq, and_true, true_and]
  funext d
  by_cases h : d = c
  · subst h
    simp
  · simp [h]

theorem table_setCpu_self {f : Cpu → Cpu} (same : errand (s.cpu c) = errand (f (s.cpu c))) :
    table (s.setCpu c f) = table s := by
  rw [table_setCpu]
  exact Table.send_self same

theorem table_goto (m : Mode) : table (s.goto c m) = (table s).send c (errand { s.cpu c with mode := m }) :=
  table_setCpu s c

theorem table_goto_self {m : Mode} (same : errand (s.cpu c) = errand { s.cpu c with mode := m }) :
    table (s.goto c m) = table s :=
  table_setCpu_self s c same

@[simp] theorem table_halt (why : Halt) : table (s.halt c why) = (table s).send c .none :=
  table_goto s c _

theorem table_setCur {f : Proc → Proc} {g : Life → Life} (stack : (s.cpu c).stack = some p)
    (same : life (f (s.proc p)) = g (life (s.proc p))) : table (s.setCur c f) = (table s).set p g := by
  rw [State.setCur, stack]
  exact table_setProc s p same

theorem table_setCur_self {f : Proc → Proc} (same : ∀ k, life (f k) = life k) : table (s.setCur c f) = table s := by
  unfold State.setCur
  split
  · exact table_setProc_self s _ (same _)
  · rfl

@[simp] theorem table_ret (value : Int) : table (s.ret c value) = table s :=
  table_setCur_self s c fun _ => rfl

theorem table_resume (calm : errand (s.cpu c) = .none) : table (s.resume c) = table s := by
  refine table_goto_self s c ?_
  split_ifs <;> simpa [errand] using calm

theorem table_dispatch (a : Nat) (calm : errand (s.cpu c) = .none) :
    table (s.dispatch c p a) = (table s).set p ({ · with state := .running }) := by
  unfold State.dispatch
  rw [table_setCpu, table_setProc (g := ({ · with state := .running })) _ _ rfl]
  exact Table.send_self calm

end Table

end Xv6.Proof
