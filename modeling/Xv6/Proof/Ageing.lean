import Xv6.Proof.Overflow
import Xv6.Proof.RoundRobin

namespace Xv6.Proof
open Xv6.Library Xv6.Kernel State

variable {n : Nat} {s t : State n} {c : Fin n} {p : Slot} {q : Level} {a : Action}
  {as : List (Fin n × Action)} {es : List (State n × (Fin n × Action))}
  {P : State n × (Fin n × Action) → Prop} {e : State n × (Fin n × Action)}

def Ticks (e : State n × (Fin n × Action)) : Prop := e.2.2 = .timer ∧ e.2.1.val = 0

instance (e : State n × (Fin n × Action)) : Decidable (Ticks e) := inferInstanceAs (Decidable (_ ∧ _))

def elapsed (es : List (State n × (Fin n × Action))) : Nat := es.countP fun e => Ticks e

def InRings (s : State n) (p : Slot) : Prop :=
  (s.proc p).state = .runnable ∧ ∃ q, some p ∈ (s.queue q).toList

/-- At the end of the history `es`, in `s`, the process has been RUNNABLE and in the rings for more than
`Ageing_const` ticks. -/
def Waited (es : List (State n × (Fin n × Action))) (s : State n) (p : Slot) : Prop :=
  ∃ before since, es = before ++ since ∧ (∀ e ∈ since, InRings e.1 p) ∧ InRings s p ∧
    ageingConst < elapsed since

def Promotes (e : State n × (Fin n × Action)) (p : Slot) : Prop :=
  e.2.2 = .go ∧ ∃ q i, (e.1.cpu e.2.1).mode = .ageing q i ∧ e.1.aged q i = some p

/-- Whoever this step puts into a ring below the first one was hit by the present tick. -/
def Stamped (e : State n × (Fin n × Action)) : Prop :=
  ∀ u ∈ step .mlfq e.1 e.2, ∀ p, ∀ q : Level, q ≠ 0 → some p ∈ (u.queue q).toList →
    (∀ l, some p ∉ (e.1.queue l).toList) → (e.1.proc p).lastExecuted = int32 e.1.ticks

theorem uint32_sub_int32 (k : Nat) : uint32 (k - int32 k) = 0 := by
  unfold uint32 int32
  rw [Int.bmod_def]
  split_ifs <;> omega

theorem uint32_tick (k : Nat) (x : Int) : uint32 (((k + 1) % 2 ^ 32 : Nat) - x) = (uint32 (k - x) + 1) % 2 ^ 32 := by
  unfold uint32
  omega

theorem Change.level_le (change : Change .mlfq s t c a) (rings : Rings (view s))
    (member : some p ∈ (s.queue q).toList) : (t.proc p).queue ≤ (s.proc p).queue := by
  have ready : (s.proc p).state = .runnable := (rings.member (q := q) member).1
  change ((view t).core p).queue ≤ ((view s).core p).queue
  have touch {r : Slot} {f : Core → Core} (here : r = p → (f ((view s).core p)).queue ≤ ((view s).core p).queue) :
      (((view s).setCore r f).core p).queue ≤ ((view s).core p).queue := by
    by_cases same : p = r
    · subst same
      simpa using here rfl
    · simp [same]
  have clash {r : Slot} {state : ProcState} {P : Prop}
    (known : (s.proc r).state = state) (other : state ≠ .runnable) : r = p → P := by
    rintro rfl
    exact absurd (known.symm.trans ready) other
  cases change with
  | quiet view | halt view | timer _ _ _ view | timerDone _ _ view | enterReset _ _ view | resetDone _ view
  | resetHead _ _ view | resetTail _ _ view | asleep _ _ _ _ view | leave _ _ _ _ _ _ view
  | ageingPanic _ _ _ _ _ _ _ view => simp [view]
  | bootFail r f _ embryo _ view => rw [view]; exact touch (clash embryo (by decide))
  | alloc o r _ _ _ unused _ view =>
    rw [view]
    refine le_trans (le_of_eq ?_) (touch (r := r) (f := ({ · with
      state := .embryo, pid := s.nextpid, priority := 60, queue := 0 })) (clash unused (by decide)))
    rw [View.own_core]
    split_ifs <;> rfl
  | fill o r _ _ _ _ embryo view =>
    rw [view, View.filled_core]
    split_ifs <;> exact touch (clash embryo (by decide))
  | discard _ r f _ _ embryo _ view =>
    rw [view, View.disown_core]
    split_ifs <;> exact touch (clash embryo (by decide))
  | publish o r _ _ _ _ embryo _ view =>
    have other : p ≠ r := fun same => clash (P := False) embryo (by decide) same.symm
    rw [view, View.disown_core]
    split_ifs <;> simp [View.push_core, other]
  | reap r f zombie _ view => rw [view]; exact touch (clash zombie (by decide))
  | dispatch _ _ _ _ selects => exact selects.elim
  | pick r l _ _ _ _ _ _ _ view | again r _ _ _ _ _ _ view =>
    rw [view]; exact touch (f := ({ · with state := .running })) fun _ => le_rfl
  | requeue r m _ _ _ own _ _ _ view =>
    have other : p ≠ r := by
      rintro rfl
      exact rings.away c p own q member
    rw [view]
    simp [View.push_core, other]
  | promote l m i r _ _ _ _ level view =>
    rw [view, View.push_core]
    split_ifs with same
    · subst same
      have above : ((Proof.view s).core p).queue = (s.proc p).queue := rfl
      simp only [above, level]
      omega
    · exact le_rfl
  | charge r l _ _ _ running _ view | yield r _ _ running view | exit r _ _ running view =>
    rw [view, View.setTurn_core]; exact touch (clash running (by decide))
  | block r _ _ running _ view => rw [view]; exact touch (clash running (by decide))
  | wake r l asleep _ _ view =>
    have other : p ≠ r := fun same => clash (P := False) asleep (by decide) same.symm
    rw [view]
    simp [View.push_core, other]
  | chpr r priority _ view => rw [view]; exact touch (f := ({ · with priority := priority })) fun _ => le_rfl

theorem step_timer (action : step .mlfq s (c, .timer) = some t) : t.queue = s.queue ∧
    t.ticks = if c.val = 0 then (s.ticks + 1) % 2 ^ 32 else s.ticks := by
  simp only [step] at action
  split_ifs at action
  obtain rfl : s.timer c = t := Option.some.inj action
  unfold State.timer
  split_ifs <;> exact ⟨rfl, rfl⟩

def Timed (es : List (State n × (Fin n × Action))) (s : State n) : Prop :=
  ∀ p, ∀ q : Level, q ≠ 0 → some p ∈ (s.queue q).toList → ∃ before since, es = before ++ since ∧
    (∀ e ∈ since, InRings e.1 p) ∧ uint32 (s.ticks - (s.proc p).lastExecuted) = elapsed since % 2 ^ 32

theorem Fate.lastExecuted (fate : Fate .mlfq s t c a p) (ready : (t.proc p).state = .runnable) :
    (t.proc p).lastExecuted = (s.proc p).lastExecuted := by
  cases fate with
  | keep _ record | publish _ _ record | yield _ _ _ record | wake _ _ record =>
    exact congrArg Record.lastExecuted record
  | take _ other | fill _ _ other | free _ other | dispatch _ _ other | charge _ _ _ other =>
    rw [ready] at other
    cases other
  | block _ other =>
    rw [ready] at other
    rcases other with other | other <;> cases other

theorem step_ticks (wf : WellFormed s) (action : step .mlfq s (c, a) = some t) :
    t.ticks = if Ticks (s, (c, a)) then (s.ticks + 1) % 2 ^ 32 else s.ticks := by
  by_cases trap : a = .timer
  · subst trap
    simpa [Ticks] using (step_timer action).2
  rw [if_neg fun ticks => trap ticks.1]
  change (view t).ticks = (view s).ticks
  cases step_change wf action
  case timer again _ _ _ => exact absurd again trap
  all_goals
    rename view t = _ => view
    simp [view]

theorem Timed.step (timed : Timed es s) (wf : WellFormed s) (rings : Rings (view s)) (orderly : Orderly (s, (c, a)))
    (stamped : Stamped (s, (c, a))) (action : step .mlfq s (c, a) = some t) :
    Timed (es ++ [(s, (c, a))]) t := by
  intro p q low member
  have change := step_change wf action
  have after : Rings (view t) := rings.change wf orderly.1 orderly.2 change
  obtain ⟨ready, level⟩ := after.member (q := q) member
  have last : (t.proc p).lastExecuted = (s.proc p).lastExecuted := (change.fate p).lastExecuted ready
  rw [last, step_ticks wf action]
  by_cases old : ∃ l, some p ∈ (s.queue l).toList
  · obtain ⟨l, inside⟩ := old
    have here : InRings s p := ⟨(rings.member (q := l) inside).1, l, inside⟩
    have below : l ≠ 0 := by
      rintro rfl
      have sinks := change.level_le rings inside
      have top : (s.proc p).queue = 0 := (rings.member (q := 0) inside).2
      have deep : (t.proc p).queue = q.val := level
      apply low
      exact Fin.ext (by simp; omega)
    obtain ⟨before, since, split, waiting, time⟩ := timed p l below inside
    refine ⟨before, since ++ [(s, (c, a))], by rw [split, List.append_assoc], ?_, ?_⟩
    · intro e inside
      rcases List.mem_append.mp inside with earlier | now
      · exact waiting e earlier
      · rw [List.mem_singleton.mp now]
        exact here
    simp only [elapsed, List.countP_append, List.countP_singleton, decide_eq_true_eq] at time ⊢
    split_ifs
    · rw [uint32_tick, time]
      omega
    · simpa using time
  · have fresh := stamped t action p q low member (not_exists.mp old)
    have still : ¬ Ticks (s, (c, a)) := by
      rintro ⟨rfl, -⟩
      rw [(step_timer action).1] at member
      exact old ⟨q, member⟩
    refine ⟨es ++ [(s, (c, a))], [], by simp, by simp, ?_⟩
    rw [if_neg still, fresh, uint32_sub_int32]
    rfl

theorem aged_late {i : Fin NPROC} (aged : s.aged q i = some p) :
    (uint32 (s.ticks - (s.proc p).lastExecuted) : Int) > ageingConst := by
  unfold State.aged at aged
  split at aged
  · split_ifs at aged with late
    exact Option.some.inj aged ▸ late.2
  · cases aged

theorem Timed.promotes (timed : Timed es s) (wf : WellFormed s) (rings : Rings (view s)) (heads : PromotesHead s c)
    (promotes : Promotes (s, (c, a)) p) : Waited es s p := by
  obtain ⟨-, q, i, mode, aged⟩ := promotes
  obtain ⟨live, head, ready, _⟩ := rings.aged heads mode aged
  have member : some p ∈ (s.queue q).toList := by
    rw [(s.queue q).toList_drop live, head]
    exact List.mem_cons_self ..
  have low : q ≠ 0 := by
    exact (wf.control.ok mode).1
  obtain ⟨before, since, split, waiting, time⟩ := timed p q low member
  refine ⟨before, since, split, waiting, ⟨ready, q, member⟩, ?_⟩
  have late := aged_late aged
  rw [time] at late
  have mod := Nat.mod_le (elapsed since) (2 ^ 32)
  omega

theorem promoted_waited (start : Fresh s) (run : exec (step .mlfq) s as = some t)
    (orderly : ∀ e ∈ trace (step .mlfq) s as, Orderly e) (stamped : ∀ e ∈ trace (step .mlfq) s as, Stamped e)
    (heads : PromotesHead t c) (promotes : Promotes (t, (c, a)) p) :
    Waited (trace (step .mlfq) s as) t p := by
  have reached : WellFormed t ∧ Rings (view t) ∧ Timed (trace (step .mlfq) s as) t := by
    refine exec_induction (I := fun es t => (∀ e ∈ es, Orderly e) → (∀ e ∈ es, Stamped e) →
      WellFormed t ∧ Rings (view t) ∧ Timed es t) (fun _ _ => ?_) ?_ run orderly stamped
    · refine ⟨start.stocked.wf, start.stocked.rings, fun p q _ member => ?_⟩
      exact absurd (start.stocked.rings.member (q := q) member).1 (start.waiting p)
    rintro _ t ⟨d, b⟩ u ih action orderly stamped
    obtain ⟨wf, rings, timed⟩ := ih (fun e earlier => orderly e (by simp [earlier]))
      (fun e earlier => stamped e (by simp [earlier]))
    have calm := orderly (t, (d, b)) (by simp)
    refine ⟨wf.step action, rings.change wf calm.1 calm.2 (step_change wf action), ?_⟩
    exact timed.step wf rings calm (stamped (t, (d, b)) (by simp)) action
  exact reached.2.2.promotes reached.1 reached.2.1 heads promotes

structure Idles (s : State n) (c : Fin n) : Prop where
  first : c.val = 0
  lock : s.lock = none
  mode : (s.cpu c).mode = .loop
  proc : (s.cpu c).proc = none
  stack : (s.cpu c).stack = none
  nobody : ∀ p, (s.proc p).state = .sleeping → (s.proc p).chan ≠ some .ticks

def idleTick (c : Fin n) : List (Fin n × Action) :=
  [(c, Action.timer), (c, .go)] ++ (List.replicate NPROC (c, Action.go) ++ [(c, Action.go), (c, .go)])

def ofTick : Mode → Bool
  | .loop | .tick | .account | .wakeup1 .. => true
  | _ => false

theorem Idles.tick (h : Idles s c)
    (holds : ∀ u b, ofTick (u.cpu c).mode → (∀ v ∈ step .mlfq u (c, b), v.queue = u.queue) → P (u, (c, b))) :
    Run (step .mlfq) P s (idleTick c) { s with ticks := (s.ticks + 1) % 2 ^ 32 } := by
  have meets {u v : State n} {b : Action} (mode : ofTick (u.cpu c).mode) (action : step .mlfq u (c, b) = some v)
      (queue : v.queue = u.queue) : P (u, (c, b)) := by
    refine holds u b mode fun w result => ?_
    rw [action] at result
    exact Option.some.inj result ▸ queue
  set u : State n := { s with ticks := (s.ticks + 1) % 2 ^ 32 }.goto c .tick with hu
  have timer : step .mlfq s (c, .timer) = some u := by
    simp [step, State.interruptible, h.mode, State.timer, h.first, hu]
  have locks : step .mlfq u (c, .go) = some ((u.acquire c).goto c (.wakeup1 (some .ticks) 0 .account)) := by
    simp [step, State.go, State.locked, h.lock, hu]
  have ends : step .mlfq ((u.acquire c).goto c (.wakeup1 (some .ticks) NPROC .account)) (c, .go) =
      some ((u.acquire c).release.goto c .account) := by
    simp only [step, State.go, goto_cpu_self, State.wakeup1, lt_irrefl, dite_false]
    simp [goto, setCpu, release]
  have accounts : step .mlfq ((u.acquire c).release.goto c .account)
    (c, .go) = some { s with ticks := (s.ticks + 1) % 2 ^ 32 } := by
    have same : { s.cpu c with proc := none, stack := none, mode := .loop } = s.cpu c := by
      obtain ⟨-, -, mode, proc, stack, -⟩ := h
      generalize s.cpu c = k at mode proc stack
      cases k
      simp_all
    simp [step, State.go, hu, State.account, State.myproc, h.proc,
      State.resume, h.stack, goto, setCpu, release, acquire, ← h.lock, same]
  have wakes (i : Nat) : P ((u.acquire c).goto c (.wakeup1 (some .ticks) i .account), (c, .go)) := by
    refine holds _ _ (by simp [ofTick]) fun v result => ?_
    simp only [step, State.go, goto_cpu_self, Option.mem_def, Option.some.injEq] at result
    subst result
    unfold State.wakeup1
    split_ifs with within
    · dsimp only
      split_ifs with asleep
      · exact absurd asleep.2 (h.nobody _ asleep.1)
      · rfl
    · rfl
  refine .append (.cons timer (meets (by simp [h.mode, ofTick]) timer rfl)
    (.cons locks (meets (by simp [hu, ofTick]) locks rfl) (.nil _))) (.append
      (wakeup1_nobody (s := u.acquire c) h.nobody wakes NPROC 0 (by simp))
      (.cons ends (meets (by simp [ofTick]) ends rfl)
        (.cons accounts (meets (by simp [ofTick]) accounts rfl) (.nil _))))

theorem Idles.ticks (h : Idles s c)
    (holds : ∀ u b, ofTick (u.cpu c).mode → (∀ v ∈ step .mlfq u (c, b), v.queue = u.queue) → P (u, (c, b)))
    {k : Nat} (small : s.ticks + k < 2 ^ 32) :
    Run (step .mlfq) P s (List.replicate k (idleTick c)).flatten { s with ticks := s.ticks + k } := by
  induction k generalizing s with
  | zero => exact .nil _
  | succ k ih =>
    have mod : (s.ticks + 1) % 2 ^ 32 = s.ticks + 1 := Nat.mod_eq_of_lt (by omega)
    have one := h.tick holds
    rw [mod] at one
    have rest := ih (s := { s with ticks := s.ticks + 1 }) ⟨h.first, h.lock, h.mode, h.proc, h.stack, h.nobody⟩
      (show s.ticks + 1 + k < 2 ^ 32 by omega)
    rw [List.replicate_succ, List.flatten_cons]
    have sum : s.ticks + 1 + k = s.ticks + (k + 1) := by omega
    exact .append one (sum ▸ rest)

instance (e : State n × (Fin n × Action)) : Decidable (Stamped e) :=
  inferInstanceAs (Decidable (∀ u ∈ step .mlfq e.1 e.2, ∀ _ : Slot, ∀ _ : Level, _ → _ → _ → _))

def initWaits : List (Fin 2 × Action) :=
  untilCopied ++ List.replicate 3 (0, Action.go) ++ List.replicate 2 (1, Action.go) ++ forks 1 ++
    (1, Action.timer) :: List.replicate 4 (1, .go)

def runsAndSleeps (chan : Chan) : List (Fin 2 × Action) :=
  List.replicate 2 (1, Action.go) ++ [(1, Action.sleep chan), (1, .go), (1, .go)]

theorem ofTick_calm {u : State n} {b : Action} (mode : ofTick (u.cpu c).mode)
    (still : ∀ v ∈ step .mlfq u (c, b), v.queue = u.queue) : Orderly (u, (c, b)) ∧ Stamped (u, (c, b)) := by
  refine ⟨⟨fun q => ⟨fun reset => ?_, fun reset => ?_⟩, fun q i ageing => ?_⟩, fun v result p q _ member new => ?_⟩
  · dsimp only at reset
    simp [reset, ofTick] at mode
  · dsimp only at reset
    simp [reset, ofTick] at mode
  · dsimp only at ageing
    simp [ageing, ofTick] at mode
  · rw [still v result] at member
    exact absurd member (new q)

theorem NotAgeing.orderly (young : NotAgeing e) (resets : ResetsNothing e.1 e.2.1) : Orderly e :=
  ⟨resets, young.promotesHead⟩

def idlesAtZero (s : State 2) : Bool :=
  decide (s.lock = none ∧ (s.cpu 0).mode = .loop ∧ (s.cpu 0).proc = none ∧ (s.cpu 0).stack = none ∧ s.ticks = 0 ∧
    ∀ p, (s.proc p).state = .sleeping → (s.proc p).chan ≠ some .ticks)

theorem idlesAtZero_ticks {s : State 2} (h : idlesAtZero s) {k : Nat} (small : k < 2 ^ 32) :
    Run (step .mlfq) (fun e => Orderly e ∧ Stamped e) s (List.replicate k (idleTick 0)).flatten
      { s with ticks := k } := by
  obtain ⟨lock, mode, proc, stack, zero, nobody⟩ := of_decide_eq_true h
  have clock := (Idles.mk rfl lock mode proc stack nobody).ticks
    (P := fun e => Orderly e ∧ Stamped e) (fun u b => ofTick_calm) (k := k) (by omega)
  rwa [zero, Nat.zero_add] at clock

theorem promoted_waited_init : ∃ (as : List (Fin 2 × Action)) (t : State 2), exec (step .mlfq) (boot 0) as = some t ∧
    Promotes (t, (1, .go)) 0 ∧ Waited (trace (step .mlfq) (boot 0) as) t 0 := by
  obtain ⟨s, waits, idles, early, t, sleeps, late, mode, aged, head⟩ :
      ∃ s, exec (step .mlfq) (boot 0) initWaits = some s ∧ idlesAtZero s ∧
        (∀ e ∈ trace (step .mlfq) (boot 0) initWaits, NotAgeing e ∧ ResetsNothing e.1 e.2.1 ∧ Stamped e) ∧
        ∃ t, exec (step .mlfq) { s with ticks := 1001 } (runsAndSleeps (.other 0)) = some t ∧
          (∀ e ∈ trace (step .mlfq) { s with ticks := 1001 } (runsAndSleeps (.other 0)),
            NotAgeing e ∧ ResetsNothing e.1 e.2.1 ∧ Stamped e) ∧
          (t.cpu 1).mode = .ageing 1 0 ∧ t.aged 1 0 = some 0 ∧ (t.queue 1).head = 0 := by
    decide +kernel
  have run : Run (step .mlfq) (fun e => Orderly e ∧ Stamped e) (boot 0) _ t :=
    .append ⟨waits, fun e member => ⟨(early e member).1.orderly (early e member).2.1, (early e member).2.2⟩⟩
      (.append (idlesAtZero_ticks idles (k := 1001) (by decide))
        ⟨sleeps, fun e member => ⟨(late e member).1.orderly (late e member).2.1, (late e member).2.2⟩⟩)
  have heads : PromotesHead t 1 := by
    intro q i here _
    rw [mode] at here
    cases here
    exact head.symm
  have promotes : Promotes (t, (1, .go)) 0 := ⟨rfl, 1, 0, mode, aged⟩
  exact ⟨_, t, run.ends, promotes, promoted_waited (fresh_boot 0) run.ends (fun e member => (run.meets e member).1)
    (fun e member => (run.meets e member).2) heads promotes⟩

theorem not_waited {before late : List (State n × (Fin n × Action))}
    (asleep : (e.1.proc p).state = .sleeping) (still : ∀ e ∈ late, ¬ Ticks e) :
    ¬ Waited (before ++ e :: late) s p := by
  rintro ⟨_, since, split, waiting, -, long⟩
  have awake : e ∉ since := by
    intro member
    rw [(waiting e member).1] at asleep
    cases asleep
  rcases List.append_eq_append_iff.mp split with ⟨mid, -, rest⟩ | ⟨mid, -, rest⟩
  · cases mid with
    | nil =>
      rw [List.nil_append] at rest
      exact awake (by simp [← rest])
    | cons x =>
      obtain ⟨-, rfl⟩ := List.cons.inj rest
      have none : elapsed since = 0 := by
        rw [elapsed, List.countP_eq_zero]
        exact fun e member => by simpa using still e (by simp [member])
      rw [none] at long
      exact absurd long (by decide)
  · exact awake (by simp [rest])

def bothSleep : List (Fin 2 × Action) :=
  initWaits ++ runsAndSleeps (.other 1) ++ runsAndSleeps (.other 0)

def initWoken : List (Fin 2 × Action) :=
  (0, .wakeup (.other 1)) :: (List.replicate 65 (0, Action.go) ++ List.replicate 2 (1, Action.go) ++
    (1, Action.wakeup (.other 0)) :: List.replicate 65 (1, Action.go) ++
      [(1, Action.sleep (.other 1)), (1, .go), (1, .go)])

theorem promoted_just_woken : ∃ (as : List (Fin 2 × Action)) (t : State 2), exec (step .mlfq) (boot 0) as = some t ∧
    (∀ e ∈ trace (step .mlfq) (boot 0) as, Orderly e) ∧ PromotesHead t 1 ∧ Promotes (t, (1, .go)) 0 ∧
    ¬ Waited (trace (step .mlfq) (boot 0) as) t 0 := by
  obtain ⟨s, waits, idles, early, asleep, t, wakes, late, mode, aged, head⟩ :
      ∃ s, exec (step .mlfq) (boot 0) bothSleep = some s ∧ idlesAtZero s ∧
        (∀ e ∈ trace (step .mlfq) (boot 0) bothSleep, NotAgeing e ∧ ResetsNothing e.1 e.2.1) ∧
        (s.proc 0).state = .sleeping ∧
        ∃ t, exec (step .mlfq) { s with ticks := 1001 } initWoken = some t ∧
          (∀ e ∈ trace (step .mlfq) { s with ticks := 1001 } initWoken,
            NotAgeing e ∧ ResetsNothing e.1 e.2.1 ∧ ¬ Ticks e) ∧
          (t.cpu 1).mode = .ageing 1 1 ∧ t.aged 1 1 = some 0 ∧ (t.queue 1).head = 1 := by
    decide +kernel
  have clock := idlesAtZero_ticks idles (k := 1001) (by decide)
  have run : Run (step .mlfq) Orderly (boot 0) _ t :=
    .append ⟨waits, fun e member => (early e member).1.orderly (early e member).2⟩
      (.append (clock.mono fun _ calm => calm.1)
        ⟨wakes, fun e member => (late e member).1.orderly (late e member).2.1⟩)
  refine ⟨_, t, run.ends, run.meets, ?_, ⟨rfl, 1, 1, mode, aged⟩, ?_⟩
  · intro q i here _
    rw [mode] at here
    cases here
    exact head.symm
  rw [trace_append waits, trace_append clock.ends, ← List.append_assoc]
  obtain ⟨u, first, -⟩ := exec_cons_iff.mp wakes
  rw [initWoken, trace_cons _ first] at late ⊢
  exact not_waited asleep fun e member => (late e (List.mem_cons_of_mem _ member)).2.2

end Xv6.Proof
