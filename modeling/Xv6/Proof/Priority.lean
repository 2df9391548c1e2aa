import Xv6.Proof.RoundRobin

namespace Xv6.Proof
open Xv6.Library Xv6.Kernel State

variable {n : Nat} {s t : State n} {c : Fin n} {a : Action} {p : Slot}

theorem pbs_dispatches_iff (free : s.lock = none) (mode : (s.cpu c).mode = .loop) :
    Dispatches .pbs (s, (c, .go)) p ↔ LeastPriority s p := by
  have passes : step .pbs s (c, .go) = some ((s.acquire c).pass .pbs c) := by
    simp [step, State.go, mode, State.locked, free]
  simp only [Dispatches, passes, Option.mem_def, Option.some.injEq, exists_eq_left']
  constructor
  · rintro ⟨runnable, running⟩
    rcases selection_cases s with nobody | ⟨-, ⟨r, least⟩, -⟩
    · exact absurd runnable (nobody p)
    rw [pass_pbs (s := s.acquire c) least] at running
    by_cases same : p = r
    · exact same ▸ least
    · simp [State.dispatch, same, runnable] at running
  · intro least
    refine ⟨least.1, ?_⟩
    rw [pass_pbs (s := s.acquire c) least]
    simp [State.dispatch]

structure Behind (A B : Slot) (T : Nat) (s : State n) : Prop where
  waits : (s.proc B).state = .runnable
  earlier : (s.proc B).lastExecuted < T
  clock : T ≤ s.ticks
  later : (s.proc A).state ≠ .unused → (s.proc A).state ≠ .embryo ∧ T ≤ (s.proc A).lastExecuted

variable {A B : Slot} {T : Nat}

theorem Behind.not_dispatches (h : Behind A B T s) (wf : WellFormed s)
    (equal : (s.proc A).priority = (s.proc B).priority) : ¬ Dispatches .pbs (s, (c, a)) A := by
  intro dispatches
  have least := (dispatches.selects wf (by decide)).2 B h.waits
  have runnable : (s.proc A).state = .runnable := dispatches.1
  have later := (h.later (by simp [runnable])).2
  have earlier := h.earlier
  rw [Prod.Lex.toLex_le_toLex, Prod.Lex.toLex_lt_toLex] at least
  simp only [equal, lt_irrefl, true_and, false_or, toLex_inj, Prod.mk.injEq] at least
  omega

theorem Behind.step (h : Behind A B T s) (wf : WellFormed s) (action : step .pbs s (c, a) = some t)
    (used : (s.proc A).state ≠ .unused) (small : s.ticks < 2 ^ 31)
    (waits : ¬ Dispatches .pbs (s, (c, a)) B) : Behind A B T t := by
  have change := step_change wf action
  have clock : T ≤ t.ticks := by
    have before := h.clock
    rcases change.ticks with same | tick <;> omega
  have tick : (T : Int) ≤ int32 s.ticks := by
    rw [int32_tick small]
    exact_mod_cast h.clock
  have waiting : (t.proc B).state = .runnable ∧ (t.proc B).lastExecuted = (s.proc B).lastExecuted := by
    have ready := h.waits
    cases change.fate B with
    | keep state record => exact ⟨state.trans ready, congrArg Record.lastExecuted record⟩
    | dispatch _ runnable running => exact absurd ⟨runnable, t, action, running⟩ waits
    | _ => simp_all
  refine ⟨waiting.1, waiting.2 ▸ h.earlier, clock, fun inUse => ?_⟩
  obtain ⟨known, later⟩ := h.later used
  cases change.fate A with
  | keep state record => exact ⟨by rwa [state], later.trans_eq (congrArg Record.lastExecuted record).symm⟩
  | dispatch _ _ running _ record =>
    rw [if_pos rfl] at record
    exact ⟨by simp [running], tick.trans_eq (congrArg Record.lastExecuted record).symm⟩
  | charge q _ _ still record =>
    exact ⟨by simp [still], tick.trans_eq (congrArg Record.lastExecuted record).symm⟩
  | yield _ _ runnable record | wake _ runnable record =>
    exact ⟨by simp [runnable], later.trans_eq (congrArg Record.lastExecuted record).symm⟩
  | block _ blocked record =>
    refine ⟨?_, later.trans_eq (congrArg Record.lastExecuted record).symm⟩
    rcases blocked with state | state <;> simp [state]
  | take unused => exact absurd unused used
  | fill _ embryo => exact absurd embryo known
  | publish embryo => exact absurd embryo known
  | free _ unused => exact absurd unused inUse

theorem LeastPriority.unique {r : Slot} (h : LeastPriority s p) (h' : LeastPriority s r) : p = r :=
  congrArg (fun key => (ofLex key).2) (le_antisymm (h.2 r h'.1) (h'.2 p h.1))

theorem Dispatches.behind (h : Dispatches .pbs (s, (c, a)) A) (wf : WellFormed s)
    (action : step .pbs s (c, a) = some t) (other : A ≠ B) (ready : (s.proc B).state = .runnable)
    (earlier : (s.proc B).lastExecuted < s.ticks) (small : s.ticks < 2 ^ 31) : Behind A B s.ticks t := by
  have change := step_change wf action
  obtain ⟨runnable, u, reached, running⟩ := id h
  obtain rfl : t = u := Option.mem_unique action reached
  have waiting : (t.proc B).state = .runnable ∧ (t.proc B).lastExecuted = (s.proc B).lastExecuted := by
    cases change.fate B with
    | keep state record => exact ⟨state.trans ready, congrArg Record.lastExecuted record⟩
    | dispatch _ _ _ selects =>
      exact absurd ((h.selects wf (by decide)).unique (selects (by decide))) other
    | _ => simp_all
  refine ⟨waiting.1, waiting.2 ▸ earlier, ?_, fun _ => ⟨by simp [running], ?_⟩⟩
  · rcases change.ticks with same | tick <;> omega
  cases change.fate A with
  | dispatch _ _ _ _ record =>
    rw [if_pos rfl] at record
    rw [← int32_tick small]
    exact (congrArg Record.lastExecuted record).ge
  | _ => simp_all

/-- Under PBS a pass dispatches a process exactly if one is RUNNABLE, and then the least one by
priority, `last_executed` and slot; and among equal priorities a process dispatched at a tick later
than the `last_executed` of a RUNNABLE one is not dispatched again before that one is. -/
theorem pbs_order :
    (∀ (s : State n) (c : Fin n), s.lock = none → (s.cpu c).mode = .loop →
      ((∃ p, Dispatches .pbs (s, (c, .go)) p) ↔ ∃ p, (s.proc p).state = .runnable) ∧
      ∀ p, Dispatches .pbs (s, (c, .go)) p → LeastPriority s p) ∧
    ∀ (s₀ s m t : State n) (ca : Fin n × Action) (bs as : List (Fin n × Action)) (A B : Slot),
      Quiet s₀ → exec (step .pbs) s₀ bs = some s → step .pbs s ca = some m →
      exec (step .pbs) m as = some t →
      Dispatches .pbs (s, ca) A → (s.proc B).state = .runnable → (s.proc B).lastExecuted < s.ticks →
      s.ticks < 2 ^ 31 →
      (∀ e ∈ trace (step .pbs) m as, e.1.ticks < 2 ^ 31 ∧ (e.1.proc A).priority = (e.1.proc B).priority ∧
        (e.1.proc A).state ≠ .unused ∧ ¬ Dispatches .pbs e B) →
      ∀ e ∈ trace (step .pbs) m as, ¬ Dispatches .pbs e A := by
  refine ⟨fun s c free mode => ⟨⟨?_, ?_⟩, fun p dispatches => (pbs_dispatches_iff free mode).mp dispatches⟩, ?_⟩
  · rintro ⟨p, runnable, -⟩
    exact ⟨p, runnable⟩
  · rintro ⟨p, runnable⟩
    rcases selection_cases s with nobody | ⟨-, ⟨r, least⟩, -⟩
    · exact absurd runnable (nobody p)
    · exact ⟨r, (pbs_dispatches_iff free mode).mpr least⟩
  · intro _ s m t ca _ _ A B start before action run dispatches ready earlier small conditions e member
    by_cases other : A = B
    · exact other ▸ (conditions e member).2.2.2
    have wf := start.wellFormed.exec before
    obtain ⟨_, _, u, -, reached, -, -, split⟩ := exec_to_event run member
    have behind : WellFormed e.1 ∧ Behind A B s.ticks e.1 := by
      refine exec_invariant (I := fun u => WellFormed u ∧ Behind A B s.ticks u)
        (P := fun u ca => u.ticks < 2 ^ 31 ∧ (u.proc A).state ≠ .unused ∧ ¬ Dispatches .pbs (u, ca) B) ?_ ?_
        reached fun d inside => ?_
      · rintro u ⟨c, a⟩ v ⟨wf, behind⟩ ⟨small, used, waits⟩ action
        exact ⟨wf.step action, behind.step wf action used small waits⟩
      · exact ⟨wf.step action, dispatches.behind wf action other ready earlier small⟩
      · obtain ⟨small, -, used, waits⟩ := conditions d (by rw [split]; simp [inside])
        exact ⟨small, used, waits⟩
    exact behind.2.not_dispatches behind.1 (conditions e member).2.1

def twoChildren : List (Fin 1 × Action) :=
  firstProcess ++ forks 0 ++ forks 0 ++
    (tickHandled ++ List.replicate 4 (0, .go))

def runsOn : List (Fin 1 × Action) := (0, .go) :: (tickHandled ++ List.replicate 4 (0, .go))

theorem pbs_order_children : ∃ s m t, exec (step .pbs) (boot 0) twoChildren = some s ∧
    step .pbs s (0, .go) = some m ∧ exec (step .pbs) m runsOn = some t ∧
    (∃ p, Dispatches .pbs (s, (0, .go)) p) ∧ Dispatches .pbs (s, (0, .go)) 1 ∧
    ∀ e ∈ trace (step .pbs) m runsOn, ¬ Dispatches .pbs e 1 := by
  obtain ⟨s, before, free, mode, dispatches, ready, earlier, small, m, action, ⟨t, run⟩, conditions⟩ :
      ∃ s, exec (step .pbs) (boot 0) twoChildren = some s ∧ s.lock = none ∧ (s.cpu 0).mode = .loop ∧
        Dispatches .pbs (s, (0, .go)) 1 ∧ (s.proc 2).state = .runnable ∧
        (s.proc 2).lastExecuted < s.ticks ∧ s.ticks < 2 ^ 31 ∧
        ∃ m, step .pbs s (0, .go) = some m ∧ (∃ t, exec (step .pbs) m runsOn = some t) ∧
          ∀ e ∈ trace (step .pbs) m runsOn, e.1.ticks < 2 ^ 31 ∧ (e.1.proc 1).priority = (e.1.proc 2).priority ∧
            (e.1.proc 1).state ≠ .unused ∧ ¬ Dispatches .pbs e 2 := by
    decide +kernel
  exact ⟨s, m, t, before, action, run, (pbs_order.1 s 0 free mode).1.mpr ⟨2, ready⟩, dispatches,
    pbs_order.2 _ s m t _ _ _ 1 2 (quiet_boot 0) before action run dispatches ready earlier small conditions⟩

end Xv6.Proof
