import Xv6.Proof.Stage

namespace Xv6.Proof
open Xv6.Library Xv6.Kernel State

variable {n : Nat} {pol : Policy} {s t : State n} {v w : View n} {c : Fin n} {a : Action} {p x : Slot}

def Known (s : State n) (r : Slot) : Prop :=
  live (s.proc r).state ∨ ∃ me, (s.proc me).work = .filled r ∨ (s.proc me).work = .copied r

def View.Known (v : View n) (r : Slot) : Prop :=
  live (v.core r).state ∨ ∃ me, (v.core me).owns = some r ∧ (v.core me).raw = false

theorem known_iff : Known s x ↔ (view s).Known x := by
  refine or_congr_right (exists_congr fun me => ?_)
  change _ ↔ owns (s.proc me).work = some x ∧ raw (s.proc me).work = false
  cases (s.proc me).work <;> simp [owns, raw]

inductive Dated (s t : State n) (c : Fin n) (a : Action) (x : Slot) : Prop
  | before (known : Known s x) (pid : (t.proc x).pid = (s.proc x).pid)
      (ctime : (t.proc x).ctime = (s.proc x).ctime)
  | now (action : a = .fill true) (target : fills s c = some x) (pid : (t.proc x).pid = (s.proc x).pid)
      (ctime : (t.proc x).ctime = int32 s.ticks)
  | first (only : ∀ r, r ≠ x → ¬ Known t r)

/-- A process that is filling in `x` after a step was at it before, or has written the times of `x` in this step. -/
theorem Change.owner (change : Change pol s t c a) {me : Slot} (owner : ((view t).core me).owns = some x)
    (filled : ((view t).core me).raw = false) :
    (((view s).core me).owns = some x ∧ ((view s).core me).raw = false) ∨ a = .fill true ∧ Dated s t c a x := by
  have kept {v : View n} {p : Slot} {f : Core → Core} (owner : ((v.setCore p f).core me).owns = some x)
      (filled : ((v.setCore p f).core me).raw = false) (same : ∀ k, (f k).owns = k.owns ∧ (f k).raw = k.raw) :
      (v.core me).owns = some x ∧ (v.core me).raw = false := by
    rw [View.setCore_core] at owner filled
    split_ifs at owner filled with here
    · rw [here, ← (same _).1, ← (same _).2]
      exact ⟨owner, filled⟩
    · exact ⟨owner, filled⟩
  have pushed {v : View n} {q : Level} {p : Slot} (owner : ((v.push q p).core me).owns = some x)
      (filled : ((v.push q p).core me).raw = false) : (v.core me).owns = some x ∧ (v.core me).raw = false :=
    kept (v := v.setRing q _) owner filled fun _ => ⟨rfl, rfl⟩
  cases change with
  | quiet view | halt view | timer _ _ _ view | timerDone _ _ view | enterReset _ _ view | resetDone _ view
  | resetHead _ _ view | resetTail _ _ view | asleep _ _ _ _ view | leave _ _ _ _ _ _ view
  | ageingPanic _ _ _ _ _ _ _ view =>
    rw [view] at owner filled
    exact .inl ⟨owner, filled⟩
  | chpr _ _ _ view | exit _ _ _ _ view | charge _ _ _ _ _ _ _ view | dispatch _ _ _ _ _ view
  | pick _ _ _ _ _ _ _ _ _ view
  | again _ _ _ _ _ _ _ view | yield _ _ _ _ view | block _ _ _ _ _ view =>
    simp only [view, View.setTurn_core] at owner filled
    have before := kept owner filled fun _ => ⟨rfl, rfl⟩
    exact .inl before
  | bootFail p f _ _ unused view | reap p f _ unused view =>
    simp only [view, View.setTurn_core] at owner filled
    exact .inl (kept owner filled fun k => ⟨(unused k).owns, (unused k).raw⟩)
  | requeue _ _ _ _ _ _ _ _ _ view | promote _ _ _ _ _ _ _ _ _ view =>
    simp only [view, View.setTurn_core] at owner filled
    exact .inl (pushed owner filled)
  | wake _ _ _ _ _ view =>
    rw [view] at owner filled
    obtain ⟨owner, filled⟩ := pushed owner filled
    exact .inl (kept owner filled fun _ => ⟨rfl, rfl⟩)
  | alloc o p _ _ _ _ _ view =>
    rw [view] at owner filled
    simp only [View.own_core] at owner filled
    split_ifs at owner filled
    exact .inl (kept owner filled fun _ => ⟨rfl, rfl⟩)
  | discard _ p f _ _ _ unused view =>
    rw [view, View.disown_core] at owner filled
    split_ifs at owner filled
    exact .inl (kept owner filled fun k => ⟨(unused k).owns, (unused k).raw⟩)
  | publish o p _ _ _ _ _ _ view =>
    rw [view, View.disown_core] at owner filled
    split_ifs at owner filled
    obtain ⟨owner, filled⟩ := pushed owner filled
    exact .inl (kept owner filled fun _ => ⟨rfl, rfl⟩)
  | fill o p acts action target owns embryo view =>
    have alike := filled_alike (v := (Proof.view s).setCore p ({ · with
      ctime := int32 s.ticks, lastExecuted := 0, ticks := fun _ => 0, owns :=
        none, raw := false, masked := false })) (o := o) (r := p)
    rw [← view, View.setCore_core_self] at alike
    rw [view, View.filled_core] at owner filled
    split_ifs at owner filled with maker
    · subst maker
      have other : me ≠ p := by
        rintro rfl
        simp [acts.2] at embryo
      rw [View.setCore_core_ne _ _ _ other] at owner
      obtain rfl : x = p := Option.mem_unique owner owns
      exact .inr ⟨action, .now action target (congrArg Record.pid alike.2) (congrArg Record.ctime alike.2)⟩
    · rw [View.setCore_core] at owner filled
      split_ifs at owner filled
      exact .inl ⟨owner, filled⟩

theorem Change.dated (change : Change pol s t c a) (wf : WellFormed s) (sole : Sole s) (known : Known t x) :
    Dated s t c a x := by
  have before {k : Record} (known : Known s x) (record : record t x = k) (pid : k.pid = (s.proc x).pid)
      (ctime : k.ctime = (s.proc x).ctime) : Dated s t c a x :=
    .before known ((congrArg Record.pid record).trans pid) ((congrArg Record.ctime record).trans ctime)
  have embryo {v : State n} {me r : Slot} (owned : Owned (view v)) (owner : ((view v).core me).owns = some r) :
      (v.proc r).state = .embryo := owned.embryo (.inr me) r owner
  rcases known_iff.mp known with (published : live (t.proc x).state) | ⟨me, owner, filled⟩
  · cases change.fate x with
    | keep state record => exact before (.inl (state ▸ published)) record rfl rfl
    | take _ state | fill _ _ state | free _ state => simp [state, live] at published
    | publish _ _ record maker =>
      rcases maker with ⟨me, owner, filled⟩ | ⟨action, boots⟩
      · exact before (known_iff.mpr (.inr ⟨me, owner, filled⟩)) record rfl rfl
      refine .first fun r other later => ?_
      have unused : (s.proc r).state = .unused := sole.boots c x boots r other
      rcases known_iff.mp later with (published : live (t.proc r).state) | ⟨me, owner, filled⟩
      · cases change.fate r <;> simp_all [live]
      · rcases change.owner owner filled with ⟨owner, -⟩ | ⟨fills, -⟩
        · simp [embryo wf.owned owner] at unused
        · simp [action] at fills
    | dispatch _ state _ _ record | charge _ _ state _ record | yield _ state _ record | block state _ record
    | wake state _ record =>
      exact before (.inl (by simp [state, live])) record rfl rfl
  · rcases change.owner owner filled with ⟨owner', filled'⟩ | ⟨-, dated⟩
    · have now := embryo (wf.owned.change change) owner
      have was := embryo wf.owned owner'
      cases change.fate x with
      | keep _ record => exact before (known_iff.mpr (.inr ⟨me, owner', filled'⟩)) record rfl rfl
      | fill action _ _ record target =>
        exact .now action target (congrArg Record.pid record) (congrArg Record.ctime record)
      | _ => simp_all
    · exact dated

structure InOrder (s : State n) : Prop where
  clock : ∀ x, (s.proc x).ctime ≤ s.ticks
  order : ∀ x y, Known s x → Known s y → (s.proc x).pid < (s.proc y).pid →
    toLex ((s.proc x).ctime, x) < toLex ((s.proc y).ctime, y)

/-- When a creation time is written, those already known belong to smaller pids, and to lower slots if
they are from the same tick. -/
def CreatesInOrder (e : State n × (Fin n × Action)) : Prop :=
  e.2.2 = .fill true → ∀ np, fills e.1 e.2.1 = some np → ∀ r, r ≠ np → Known e.1 r →
    (e.1.proc r).pid < (e.1.proc np).pid ∧ ((e.1.proc r).ctime = e.1.ticks → r < np)

theorem InOrder.change (h : InOrder s) (wf : WellFormed s) (sole : Sole s) (small : s.ticks < 2 ^ 31)
    (orderly : CreatesInOrder (s, (c, a))) (change : Change pol s t c a) : InOrder t where
  clock x := by
    have before := h.clock x
    have tick := int32_tick small
    have later : s.ticks ≤ t.ticks := by rcases change.ticks with same | next <;> omega
    have cases : (t.proc x).ctime = (s.proc x).ctime ∨ (t.proc x).ctime = int32 s.ticks ∨ (t.proc x).ctime = 0 := by
      cases change.fate x with
      | free _ _ ctime => exact ctime
      | fill _ _ _ record => exact .inr (.inl (congrArg Record.ctime record))
      | keep _ record | take _ _ record | publish _ _ record | dispatch _ _ _ _ record
      | charge _ _ _ _ record | yield _ _ _ record | block _ _ record | wake _ _ record =>
        exact .inl (congrArg Record.ctime record)
    omega
  order x y hx hy smaller := by
    have other : x ≠ y := by
      rintro rfl
      exact lt_irrefl _ smaller
    cases change.dated wf sole hx with
    | first only => exact absurd hy (only y other.symm)
    | before known pid ctime =>
      cases change.dated wf sole hy with
      | first only => exact absurd hx (only x other)
      | before known' pid' ctime' =>
        rw [pid, pid'] at smaller
        rw [ctime, ctime']
        exact h.order x y known known' smaller
      | now action target _ ctime' =>
        obtain ⟨-, lower⟩ := orderly action y target x other known
        have clock := h.clock x
        rw [ctime, ctime', int32_tick small, Prod.Lex.toLex_lt_toLex]
        rcases clock.lt_or_eq with less | same
        · exact .inl less
        · exact .inr ⟨same, lower same⟩
    | now action target =>
      cases change.dated wf sole hy with
      | first only => exact absurd hx (only x other)
      | before known =>
        have greater := (orderly action x target y other.symm known).1
        simp only at greater
        omega
      | now _ target' => exact absurd (Option.mem_unique target target') other

theorem InOrder.dispatches (h : InOrder s) (wf : WellFormed s) (dispatches : Dispatches .fcfs (s, (c, a)) p)
    {r : Slot} (ready : (s.proc r).state = .runnable) : (s.proc p).pid ≤ (s.proc r).pid := by
  have least := (dispatches.selects wf (by decide)).2 r ready
  have runnable : (s.proc p).state = .runnable := dispatches.1
  by_contra smaller
  refine absurd (h.order r p (.inl ?_) (.inl ?_) (not_le.mp smaller)) (not_lt.mpr least)
  · rw [ready]; rfl
  · rw [runnable]; rfl

/-- Under FCFS, as long as creation times are written in order, nobody with a smaller pid is RUNNABLE
when a process is dispatched. -/
theorem fcfs_pid_order {bsp : Fin n} {as : List (Fin n × Action)}
    (run : exec (step .fcfs) (boot bsp) as = some t)
    (clock : ∀ e ∈ trace (step .fcfs) (boot bsp) as, e.1.ticks < 2 ^ 31)
    (orderly : ∀ e ∈ trace (step .fcfs) (boot bsp) as, CreatesInOrder e) :
    ∀ e ∈ trace (step .fcfs) (boot bsp) as, ∀ p, Dispatches .fcfs e p →
      ∀ r, (e.1.proc r).state = .runnable → ¬ (e.1.proc r).pid < (e.1.proc p).pid := by
  intro e member p dispatches r ready
  obtain ⟨_, _, u, -, reached, -, -, split⟩ := exec_to_event run member
  have known : WellFormed e.1 ∧ Sole e.1 ∧ InOrder e.1 := by
    refine exec_invariant (I := fun s => WellFormed s ∧ Sole s ∧ InOrder s)
      (P := fun s ca => s.ticks < 2 ^ 31 ∧ CreatesInOrder (s, ca)) ?_ ?_ reached fun d inside => ?_
    · rintro s ⟨c, a⟩ t ⟨wf, sole, h⟩ ⟨small, orderly⟩ action
      have change := step_change wf action
      exact ⟨wf.step action, sole.change wf change, h.change wf sole small orderly change⟩
    · refine ⟨(quiet_boot bsp).wellFormed, sole_boot bsp, fun x => by simp [boot, Proc.zero], ?_⟩
      intro x y _ _ smaller
      exact absurd smaller (lt_irrefl _)
    · have before : d ∈ trace (step .fcfs) (boot bsp) as := by rw [split]; simp [inside]
      exact ⟨clock d before, orderly d before⟩
  exact not_lt.mpr (known.2.2.dispatches known.1 dispatches ready)

instance (s : State n) (r : Slot) : Decidable (Known s r) :=
  inferInstanceAs (Decidable (_ ∨ ∃ _ : Slot, _ ∨ _))

instance (e : State n × (Fin n × Action)) : Decidable (CreatesInOrder e) :=
  inferInstanceAs (Decidable (_ → ∀ np, fills e.1 e.2.1 = some np → ∀ r, r ≠ np → Known e.1 r → _ ∧ _))

def firstChild : List (Fin 1 × Action) :=
  firstProcess ++ forks 0 ++ forks 0 ++ [(0, Action.wait .wait)] ++ List.replicate 5 (0, Action.go)

theorem fcfs_pid_order_firstChild : ∃ t, exec (step .fcfs) (boot 0) firstChild = some t ∧
    (t.proc 1).state = .running ∧ ∀ e ∈ trace (step .fcfs) (boot 0) firstChild, ∀ p,
      Dispatches .fcfs e p → ∀ r, (e.1.proc r).state = .runnable → ¬ (e.1.proc r).pid < (e.1.proc p).pid := by
  obtain ⟨t, run, running, meets⟩ : ∃ t, exec (step .fcfs) (boot 0) firstChild = some t ∧ (t.proc 1).state = .running ∧
      ∀ e ∈ trace (step .fcfs) (boot 0) firstChild, e.1.ticks < 2 ^ 31 ∧ CreatesInOrder e := by
    decide +kernel
  exact ⟨t, run, running, fcfs_pid_order run (fun e member => (meets e member).1) fun e member => (meets e member).2⟩

def slotReused : List (Fin 1 × Action) :=
  firstChild ++ [(0, Action.exit)] ++ List.replicate 136 (0, Action.go) ++ forks 0 ++ [(0, Action.wait .wait)] ++
    List.replicate 3 (0, Action.go)

theorem younger_dispatched_first : ∃ s, exec (step .fcfs) (boot 0) slotReused = some s ∧
    (∀ e ∈ trace (step .fcfs) (boot 0) slotReused, e.1.ticks = 0) ∧ Dispatches .fcfs (s, (0, .go)) 1 ∧
    (s.proc 2).state = .runnable ∧ (s.proc 2).pid = 3 ∧ (s.proc 1).pid = 4 := by
  decide +kernel

end Xv6.Proof
