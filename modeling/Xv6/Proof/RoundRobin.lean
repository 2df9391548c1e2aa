import Xv6.Proof.Fate

namespace Xv6.Proof
open Xv6.Library Xv6.Kernel State

variable {n : Nat} {pol : Policy}

theorem goto_goto (s : State n) (c : Fin n) (m m' : Mode) : (s.goto c m).goto c m' = s.goto c m' := by
  simp [goto, setCpu]

theorem wakeup1_nobody {s : State n} {c : Fin n} {chan : Option Chan} {r : Ret}
    {P : State n × (Fin n × Action) → Prop}
    (nobody : ∀ p, (s.proc p).state = .sleeping → (s.proc p).chan ≠ chan)
    (holds : ∀ i, P (s.goto c (.wakeup1 chan i r), (c, .go))) (k i : Nat) (all : i + k = NPROC) :
    Run (step pol) P (s.goto c (.wakeup1 chan i r)) (List.replicate k (c, .go)) (s.goto c (.wakeup1 chan NPROC r)) := by
  induction k generalizing i with
  | zero =>
    obtain rfl : i = NPROC := by omega
    exact .nil _
  | succ k ih =>
    have next : step pol (s.goto c (.wakeup1 chan i r)) (c, .go) = some (s.goto c (.wakeup1 chan (i + 1) r)) := by
      have within : i < NPROC := by omega
      simp +contextual [step, State.go, State.wakeup1, within, nobody, goto_goto]
    exact .cons next (holds i) (ih (i + 1) (by omega))

def Alone (s : State 1) (a : Slot) (e : State 1 × (Fin 1 × Action)) : Prop :=
  (∀ p, p ≠ a → e.1.proc p = s.proc p) ∧ (e.1.proc a).state ≠ .unused

variable {s t u : State 1} {a b : Slot} {ca : Fin 1 × Action}

theorem alone {k : Proc} (proc : u.proc = Function.update s.proc a k) (used : k.state ≠ .unused) :
    Alone s a (u, ca) := by
  refine ⟨fun p other => ?_, ?_⟩
  · simp [proc, other]
  · simpa [proc] using used

theorem alone_same (proc : u.proc = s.proc) (used : (s.proc a).state ≠ .unused) : Alone s a (u, ca) :=
  alone (k := s.proc a) (by simp [proc]) used

structure InUser (s : State 1) (a : Slot) : Prop where
  lock : s.lock = none
  mode : (s.cpu 0).mode = .thread
  own : (s.cpu 0).proc = some a
  stack : (s.cpu 0).stack = some a
  running : (s.proc a).state = .running
  work : (s.proc a).work = .run
  level : ∃ q : Level, (s.proc a).queue = q.val
  awake : ∀ p, (s.proc p).state ≠ .sleeping

def tickHandled : List (Fin 1 × Action) :=
  [(0, Action.timer), (0, .go)] ++ (List.replicate NPROC (0, Action.go) ++ [(0, Action.go)])

theorem InUser.tick (h : InUser s a) : ∃ t, Run (step .default) (Alone s a) s tickHandled t ∧
    t.lock = none ∧ t.proc = s.proc ∧ t.cpu 0 = { s.cpu 0 with mode := .account } := by
  have working : s.working 0 = some .run := by simp [State.working, h.mode, h.stack, h.work]
  set u : State 1 := { s with ticks := (s.ticks + 1) % 2 ^ 32 }.goto 0 .tick with hu
  have timer : step .default s (0, .timer) = some u := by
    simp [step, State.interruptible, h.mode, working, State.timer, hu]
  have locks : step .default u (0, .go) = some ((u.acquire 0).goto 0 (.wakeup1 (some .ticks) 0 .account)) := by
    simp [step, State.go, State.locked, h.lock, hu]
  have ends : step .default ((u.acquire 0).goto 0 (.wakeup1 (some .ticks) NPROC .account)) (0, .go) =
      some ((u.acquire 0).release.goto 0 .account) := by
    simp only [step, State.go, goto_cpu_self, State.wakeup1, lt_irrefl, dite_false]
    simp [goto, setCpu, release]
  refine ⟨(u.acquire 0).release.goto 0 .account, ?_, rfl, rfl, by simp [hu]⟩
  have alone {v : State 1} {ca : Fin 1 × Action} (proc : v.proc = s.proc) : Alone s a (v, ca) :=
    alone_same proc (by simp [h.running])
  refine .append (.cons timer (alone rfl) (.cons locks (alone rfl) (.nil _)))
    (.append ?_ (.cons ends (alone rfl) (.nil _)))
  exact wakeup1_nobody (s := u.acquire 0) (fun p asleep => absurd asleep (h.awake p))
    (fun _ => alone rfl) NPROC 0 (by simp)

structure Turnable (s : State 1) (a : Slot) : Prop where
  lock : s.lock = none
  mode : (s.cpu 0).mode = .loop
  first : FirstRunnable s a
  context : (s.proc a).context = .forkret ∨ (s.proc a).context = .yield
  work : (s.proc a).work = .run
  level : ∃ q : Level, (s.proc a).queue = q.val
  awake : ∀ p, (s.proc p).state ≠ .sleeping

theorem Turnable.pass (h : Turnable s a) : step .default s (0, .go) = some ((s.acquire 0).dispatch 0 a 0) := by
  simp only [step, State.go, h.mode, State.locked, h.lock, if_true]
  rw [pass_default (s := s.acquire 0) h.first]

theorem Turnable.dispatch (h : Turnable s a) :
    ∃ t, Run (step .default) (Alone s a) s [(0, .go), (0, .go)] t ∧ InUser t a ∧
      t.proc = Function.update s.proc a { s.proc a with state := .running } := by
  have resumed : step .default ((s.acquire 0).dispatch 0 a 0)
    (0, .go) = some (((s.acquire 0).dispatch 0 a 0).release.goto 0 .thread) := by
    rcases h.context with context | context <;> simp [step, State.go, State.dispatch, State.resumed, context]
  refine ⟨_, .cons h.pass (alone_same rfl (by simp [h.first.1]))
    (.cons resumed (alone rfl (by simp)) (.nil _)), ?_, rfl⟩
  obtain ⟨q, level⟩ := h.level
  refine ⟨rfl, ?_, ?_, ?_, ?_, ?_, ⟨q, ?_⟩, fun p => ?_⟩ <;> simp [State.dispatch, h.work, level, setProc_proc]
  split_ifs
  · simp
  · exact h.awake p

theorem InUser.yields (h : InUser s a) (lock : u.lock = none)
    (proc : u.proc = s.proc) (cpu : u.cpu 0 = { s.cpu 0 with mode := .account }) :
    ∃ t, Run (step .default) (Alone s a) u (List.replicate 4 (0, .go)) t ∧ t.lock = none ∧
      (t.cpu 0).mode = .loop ∧ (t.proc a).state = .runnable ∧ (t.proc a).context = .yield ∧
      (t.proc a).work = .run ∧ (∃ q : Level, (t.proc a).queue = q.val) ∧ ∀ p, p ≠ a → t.proc p = s.proc p := by
  obtain ⟨q, level⟩ := h.level
  set v := (u.setProc a (charge u.ticks q)).goto 0 .trapEnd with hv
  have account : step .default u (0, .go) = some v := by
    have accepted : level? (s.proc a).queue = some q := level?_eq_some.mpr level
    simp [step, State.go, cpu, State.account, h.own, proc, accepted, hv]
  have vcpu : v.cpu 0 = { s.cpu 0 with mode := .trapEnd } := by simp [hv, cpu]
  have vproc : v.proc = Function.update s.proc a (charge u.ticks q (s.proc a)) := by
    simp [hv, setProc, proc]
  have vlock : v.lock = none := lock
  set w := ((v.acquire 0).setProc a fun k => { k with state := .runnable }).goto 0 (.sched .yield) with hw
  have yields : step .default v (0, .go) = some w := by
    simp [step, State.go, vcpu, State.locked, vlock, h.own, vproc, charge, h.running, State.yield, hw]
  have wcpu : w.cpu 0 = { s.cpu 0 with mode := .sched .yield } := by simp [hw, vcpu]
  have wproc : w.proc = Function.update s.proc a { charge u.ticks q (s.proc a) with state := .runnable } := by
    simp [hw, setProc, vproc]
  set x := (w.setProc a fun k => { k with context := .yield }).setCpu 0 fun k =>
    { k with stack := none, mode := .back } with hx
  have sched : step .default w (0, .go) = some x := by
    have lock : w.lock = some 0 := rfl
    simp [step, State.go, wcpu, State.sched, h.own, lock, wproc, hx]
  have xproc : x.proc = Function.update s.proc a
      { charge u.ticks q (s.proc a) with state := .runnable, context := .yield } := by
    simp [hx, setProc, wproc]
  have back : step .default x (0, .go) = some ((x.release.setCpu 0 fun k => { k with proc := none }).goto 0 .loop) := by
    simp [step, State.go, State.back, hx]
  refine ⟨_, .cons account (alone_same proc (by simp [h.running])) (.cons yields (alone vproc
    (by simp [charge, h.running])) (.cons sched (alone wproc (by simp)) (.cons back (alone xproc (by simp))
    (.nil _)))), rfl, by simp, ?_, ?_, ?_, ⟨q, ?_⟩, fun p other => ?_⟩
  · simp [xproc]
  · simp [xproc]
  · simp [xproc, charge, h.work]
  · simp [xproc, charge, level]
  · change x.proc p = _
    simp [xproc, other]

def oneTurn : List (Fin 1 × Action) :=
  [(0, Action.go), (0, .go)] ++ (tickHandled ++ List.replicate 4 (0, Action.go))

theorem Turnable.round (h : Turnable s a) : ∃ t, Run (step .default) (Alone s a) s oneTurn t ∧
    Turnable t a ∧ ∀ p, p ≠ a → t.proc p = s.proc p := by
  obtain ⟨u, dispatched, user, proc⟩ := h.dispatch
  obtain ⟨v, ticked, lock, same, cpu⟩ := user.tick
  obtain ⟨t, yielded, free, mode, runnable, context, work, level, others⟩ := user.yields lock same cpu
  have alone (p : Slot) (other : p ≠ a) : u.proc p = s.proc p := by simp [proc, other]
  have weaken {e : State 1 × (Fin 1 × Action)} (h : Alone u a e) : Alone s a e :=
    ⟨fun p other => (h.1 p other).trans (alone p other), h.2⟩
  have others (p : Slot) (other : p ≠ a) : t.proc p = s.proc p := (others p other).trans (alone p other)
  refine ⟨t, dispatched.append (.append (ticked.mono fun e => weaken) (yielded.mono fun e => weaken)),
    ⟨free, mode, ⟨runnable, fun r ready => ?_⟩, .inr context, work, level, fun p => ?_⟩, others⟩
  · by_cases same : r = a
    · exact same.ge
    · exact h.first.2 r (others r same ▸ ready)
  by_cases same : p = a
  · simp [same, runnable]
  · rw [others p same]
    exact h.awake p

/-- `a` is dispatched twice while `b` is RUNNABLE all the time. -/
def Overtakes (es : List (State 1 × (Fin 1 × Action))) (a b : Slot) : Prop :=
  ∃ before e between last, before ++ e :: between ++ [last] <+: es ∧
    Dispatches .default e a ∧ Dispatches .default last a ∧
    ∀ d ∈ e :: between ++ [last], (d.1.proc b).state = .runnable ∧ (d.1.proc a).state ≠ .unused

theorem Turnable.dispatches (h : Turnable s a) : Dispatches .default (s, (0, .go)) a :=
  ⟨h.first.1, _, h.pass, by simp [State.dispatch]⟩

theorem Turnable.overtakes (h : Turnable s a) (other : b ≠ a) (ready : (s.proc b).state = .runnable) :
    ∃ t, exec (step .default) s (oneTurn ++ [(0, .go)]) = some t ∧
      Overtakes (trace (step .default) s (oneTurn ++ [(0, .go)])) a b := by
  obtain ⟨m, run, again, same⟩ := h.round
  refine ⟨_, exec_snoc run.ends again.pass, ?_⟩
  have first : trace (step .default) s oneTurn = (s, (0, .go)) ::
      trace (step .default) ((s.acquire 0).dispatch 0 a 0) oneTurn.tail := trace_cons _ h.pass
  rw [trace_snoc run.ends again.pass]
  refine ⟨[], _, _, _, by rw [first]; exact List.prefix_refl _, h.dispatches, again.dispatches, ?_⟩
  rw [← first]
  intro d member
  rcases List.mem_append.mp member with inside | last
  · obtain ⟨others, used⟩ := run.meets d inside
    exact ⟨by rw [others b other, ready], used⟩
  · obtain rfl : d = (m, (0, .go)) := by simpa using last
    exact ⟨by rw [same b other, ready], by simp [again.first.1]⟩

theorem Overtakes.append {es : List (State 1 × (Fin 1 × Action))} (h : Overtakes es a b)
    (earlier : List (State 1 × (Fin 1 × Action))) : Overtakes (earlier ++ es) a b := by
  obtain ⟨before, e, between, last, history, rest⟩ := h
  refine ⟨earlier ++ before, e, between, last, ?_, rest⟩
  simpa [List.append_assoc] using (List.prefix_append_right_inj earlier).mpr history

theorem Overtakes.le {es : List (Fin 1 × Action)} (start : Quiet s) (run : exec (step .default) s es = some t)
    (h : Overtakes (trace (step .default) s es) a b) : a ≤ b := by
  obtain ⟨_, e, _, last, history, -, dispatches, ready⟩ := h
  have member : last ∈ trace (step .default) s es := history.subset (by simp)
  obtain ⟨_, _, u, -, reached, -⟩ := exec_to_event run member
  have selects := dispatches.selects (start.wellFormed.exec reached) (by decide)
  exact selects.2 b (ready last (by simp)).1

def pair (a b : Slot) : State 1 :=
  { boot 0 with
    proc := fun p => { Proc.zero with state := if p = a ∨ p = b then .runnable else .unused }
    cpu := fun _ => Cpu.zero .loop }

theorem pair_quiet (a b : Slot) : Quiet (pair a b) where
  lock := rfl
  idle _ := ⟨⟨rfl, rfl⟩, rfl⟩
  stopped p := by
    simp only [pair]
    split_ifs <;> simp
  work _ := rfl
  level _ := by simp [pair, Proc.zero]

theorem pair_turnable (lower : a < b) : Turnable (pair a b) a where
  lock := rfl
  mode := rfl
  first := by
    refine ⟨by simp [pair], fun r ready => ?_⟩
    by_cases found : r = a ∨ r = b
    · rcases found with rfl | rfl
      · exact le_refl _
      · exact lower.le
    · simp [pair, found] at ready
  context := .inl rfl
  work := rfl
  level := ⟨0, rfl⟩
  awake p := by
    simp only [pair]
    split_ifs <;> simp

/-- On one processor under DEFAULT a process that stays RUNNABLE is never overtaken by the process in
slot `a` exactly if it sits in a lower slot. -/
theorem default_overtakes_iff (other : a ≠ b) :
    (∀ (s t : State 1) (as : List (Fin 1 × Action)), Quiet s → exec (step .default) s as = some t →
      ¬ Overtakes (trace (step .default) s as) a b) ↔ b < a := by
  constructor
  · intro fair
    by_contra higher
    have lower : a < b := lt_of_le_of_ne (not_lt.mp higher) other
    obtain ⟨t, run, overtakes⟩ := (pair_turnable lower).overtakes (Ne.symm other) (by simp [pair])
    exact fair _ t _ (pair_quiet a b) run overtakes
  · intro lower s t _ start run overtakes
    exact absurd lower (not_lt.mpr (overtakes.le start run))

theorem default_overtakes_lower : (0 : Slot) < 1 ∧ ∀ (s t : State 1) (as : List (Fin 1 × Action)), Quiet s →
    exec (step .default) s as = some t → ¬ Overtakes (trace (step .default) s as) 1 0 :=
  ⟨by decide, (default_overtakes_iff (by decide)).mpr (by decide)⟩

def childWaits : List (Fin 1 × Action) :=
  firstProcess ++ forks 0 ++
    (tickHandled ++ List.replicate 4 (0, .go))

theorem child_overtaken : ∃ t, exec (step .default) (boot 0) (childWaits ++ (oneTurn ++ [(0, .go)])) = some t ∧
    Overtakes (trace (step .default) (boot 0) (childWaits ++ (oneTurn ++ [(0, .go)]))) 0 1 := by
  obtain ⟨s, run, lock, mode, runnable, context, work, level, awake, ready⟩ :
      ∃ s, exec (step .default) (boot 0) childWaits = some s ∧ s.lock = none ∧ (s.cpu 0).mode = .loop ∧
        (s.proc 0).state = .runnable ∧ (s.proc 0).context = .yield ∧ (s.proc 0).work = .run ∧ (s.proc 0).queue = 0 ∧
        (∀ p, (s.proc p).state ≠ .sleeping) ∧ (s.proc 1).state = .runnable := by
    decide +kernel
  have turnable : Turnable s 0 :=
    ⟨lock, mode, ⟨runnable, fun r _ => Fin.zero_le r⟩, .inr context, work, ⟨0, level⟩, awake⟩
  obtain ⟨t, rest, overtakes⟩ := turnable.overtakes (by decide) ready
  refine ⟨t, exec_append run rest, ?_⟩
  rw [trace_append run]
  exact overtakes.append _

end Xv6.Proof
