import Xv6.Proof.Reaping

namespace Xv6.Proof
open Xv6.Library Xv6.Kernel State

variable {n : Nat} {pol : Policy} {s t : State n} {bsp c : Fin n} {a : Action} {p me : Slot} {pid : Int}
  {as : List (Fin n × Action)} {es : List (State n × (Fin n × Action))}

def Aimed (e : State n × (Fin n × Action)) : Prop :=
  ∀ pid, e.2.2 = .kill pid → ∀ p, ((List.finRange NPROC).find? fun p => (e.1.proc p).pid = pid) = some p →
    live (e.1.proc p).state

/-- A `kill` with this pid, or a fatal trap of `p`; since then slot `p` has held the process with this pid. -/
def Marked (es : List (State n × (Fin n × Action))) (p : Slot) (pid : Int) : Prop :=
  ∃ before e later, es = before ++ e :: later ∧
    (e.2.2 = .kill pid ∨ e.2.2 = .badTrap ∧ (e.1.cpu e.2.1).proc = some p) ∧
    ∀ e' ∈ e :: later, (e'.1.proc p).state ≠ .unused ∧ (e'.1.proc p).pid = pid

theorem Marked.snoc (h : Marked es p (s.proc p).pid) (here : (s.proc p).state ≠ .unused) :
    Marked (es ++ [(s, (c, a))]) p (s.proc p).pid := by
  obtain ⟨before, e, later, rfl, mark, since⟩ := h
  refine ⟨before, e, later ++ [(s, (c, a))], by simp, mark, fun e' member => ?_⟩
  rw [← List.cons_append, List.mem_append] at member
  rcases member with earlier | last
  · exact since e' earlier
  · obtain rfl : e' = (s, (c, a)) := by simpa using last
    exact ⟨here, rfl⟩

theorem Marked.last (mark : a = .kill (s.proc p).pid ∨ a = .badTrap ∧ (s.cpu c).proc = some p)
    (here : (s.proc p).state ≠ .unused) : Marked (es ++ [(s, (c, a))]) p (s.proc p).pid := by
  refine ⟨es, (s, (c, a)), [], rfl, mark, fun e' member => ?_⟩
  obtain rfl : e' = (s, (c, a)) := by simpa using member
  exact ⟨here, rfl⟩

theorem taken_of_live {state : ProcState} (here : live state) : state ≠ .unused := by
  rintro rfl
  cases here

structure Judged (es : List (State n × (Fin n × Action))) (s : State n) : Prop where
  alive : ∀ p, (s.proc p).killed → live (s.proc p).state
  marked : ∀ p, (s.proc p).killed → Marked es p (s.proc p).pid

theorem Judged.deed (h : Judged es s) (aimed : Aimed (s, (c, a))) (deed : Deed s t c a) (p : Slot)
    (killed : (t.proc p).killed) : live (t.proc p).state ∧ Marked (es ++ [(s, (c, a))]) p (t.proc p).pid := by
  have mark : (face ((table t).life p)).killed := killed
  have state {k : Face} (same : face ((table t).life p) = k) : (t.proc p).state = k.state := congrArg Face.state same
  have pid {k : Face} (same : face ((table t).life p) = k) : (t.proc p).pid = k.pid := congrArg Face.pid same
  -- an old mark stays with the process
  have stays (before : (s.proc p).killed)
    (same : (t.proc p).pid = (s.proc p).pid) : Marked (es ++ [(s, (c, a))]) p (t.proc p).pid := by
    rw [same]
    exact (h.marked p before).snoc (taken_of_live (h.alive p before))
  -- and an embryo or a free slot has none
  have unborn {k : ProcState} (now : (s.proc p).state = k)
    (other : live k = false) (before : (s.proc p).killed) : False := by
    have here := h.alive p before
    rw [now, other] at here
    cases here
  cases deed.lot p with
  | keep face | fill _ face | busy _ _ _ _ _ _ face | pass _ _ face =>
    rw [face] at mark
    exact ⟨by rw [state face]; exact h.alive p mark, stays mark (pid face)⟩
  | alloc now face => rw [face] at mark; exact (unborn now rfl mark).elim
  | drop _ now face | name _ now face | publish now face => rw [face] at mark; exact (unborn now rfl mark).elim
  | reap _ face => rw [face] at mark; cases mark
  | move k _ after face =>
    rw [face] at mark
    exact ⟨by rw [state face]; exact live_of_alive after, stays mark (pid face)⟩
  | kill x action found face =>
    have here := aimed x action p found
    have own : (s.proc p).pid = x := by simpa using List.find?_some found
    have same : (t.proc p).pid = (s.proc p).pid := pid face
    refine ⟨?_, ?_⟩
    · rw [state face]
      exact (live_rouse ((table s).life p)).trans here
    · rw [same]
      exact .last (.inl (by rw [action, own])) (taken_of_live here)
  | badTrap action own running face =>
    have same : (t.proc p).pid = (s.proc p).pid := pid face
    refine ⟨?_, ?_⟩
    · have now : (t.proc p).state = .running := (state face).trans running
      rw [now]
      rfl
    · rw [same]
      exact .last (.inr ⟨action, own⟩) (by simp [running])
  | zombie _ _ _ _ _ face =>
    rw [face] at mark
    exact ⟨by rw [state face]; rfl, stays mark (pid face)⟩

theorem Deed.killed (deed : Deed s t c a) (killed : (t.proc p).killed) :
    (s.proc p).killed ∨ (∃ pid, a = .kill pid) ∨ a = .badTrap := by
  have mark : (face ((table t).life p)).killed := killed
  cases deed.lot p with
  | keep face | alloc _ face | fill _ face | busy _ _ _ _ _ _ face | drop _ _ face | name _ _ face | publish _ face
  | move _ _ _ face | pass _ _ face
  | zombie _ _ _ _ _ face => rw [face] at mark; exact .inl mark
  | reap _ face => rw [face] at mark; cases mark
  | kill pid action => exact .inr (.inl ⟨pid, action⟩)
  | badTrap action => exact .inr (.inr action)

theorem judged (run : exec (step pol) (boot bsp) as = some s) (aimed : ∀ e ∈ trace (step pol) (boot bsp) as, Aimed e) :
    Judged (trace (step pol) (boot bsp) as) s := by
  have both : WellFormed s ∧ Judged (trace (step pol) (boot bsp) as) s := by
    refine exec_induction (I := fun es s => (∀ e ∈ es, Aimed e) → WellFormed s ∧ Judged es s) (fun _ => ?_) ?_ run aimed
    · refine ⟨(quiet_boot bsp).wellFormed, fun p killed => ?_, fun p killed => ?_⟩ <;> cases killed
    rintro _ s ⟨c, a⟩ t ih action aimed
    obtain ⟨wf, judged⟩ := ih fun e member => aimed e (by simp [member])
    have step := judged.deed (aimed (s, (c, a)) (by simp)) (step_deed wf action)
    exact ⟨wf.step action, fun p killed => (step p killed).1, fun p killed => (step p killed).2⟩
  exact both.2

theorem kill_none (action : step pol s (c, .kill pid) = some t)
    (none : ((List.finRange NPROC).find? fun p => (s.proc p).pid = pid) = none) :
    ∃ me, (s.cpu c).stack = some me ∧ (t.proc me).eax = -1 := by
  cases step_transition action with
  | kill me _ here =>
    refine ⟨me, here.stack, ?_⟩
    unfold State.kill
    rw [acquire_proc, none]
    exact ret_eax here.stack

theorem killed_marked (run : exec (step pol) (boot bsp) as = some s)
    (aimed : ∀ e ∈ trace (step pol) (boot bsp) as, Aimed e) :
    (∀ p, (s.proc p).killed → Marked (trace (step pol) (boot bsp) as) p (s.proc p).pid) ∧
    (∀ c a t me np, Forks (s, (c, a)) me np → step pol s (c, a) = some t → (t.proc np).killed = false) ∧
    ∀ c pid t, Aimed (s, (c, .kill pid)) → step pol s (c, .kill pid) = some t →
      (∀ p, live (s.proc p).state → (s.proc p).pid ≠ pid) → ∃ me, (s.cpu c).stack = some me ∧ (t.proc me).eax = -1 := by
  have judged := judged run aimed
  have wf : WellFormed s := (quiet_boot bsp).wellFormed.exec run
  refine ⟨judged.marked, ?_, fun c pid t here action nobody => kill_none action ?_⟩
  · rintro c a t _ np ⟨publish, at_fork⟩ action
    dsimp only at publish at_fork
    have embryo := embryo_of_owns wf at_fork rfl
    refine Bool.eq_false_iff.mpr fun killed => ?_
    rcases (step_deed wf action).killed killed with before | ⟨x, kill⟩ | trap
    · have here := judged.alive np before
      rw [embryo] at here
      cases here
    · rw [publish] at kill
      cases kill
    · rw [publish] at trap
      cases trap
  · cases found : (List.finRange NPROC).find? fun p => decide ((s.proc p).pid = pid) with
    | none => rfl
    | some p =>
      have own : (s.proc p).pid = pid := by simpa using List.find?_some found
      exact absurd own (nobody p (here pid rfl p found))

instance (e : State 1 × (Fin 1 × Action)) : Decidable (Aimed e) :=
  match action : e.2.2 with
  | .kill pid =>
    decidable_of_iff (∀ p ∈ (List.finRange NPROC).find? fun p => (e.1.proc p).pid = pid, live (e.1.proc p).state)
      (by simp [Aimed, action])
  | .go | .timer | .wakeup _ | .chpr _ | .badTrap | .fork | .fill _ | .copy _ | .publish | .exit | .wait _ | .sleep _ =>
    isTrue (by simp [Aimed, action])

theorem killed_marked_child : ∃ s, exec (step .default) (boot 0) (firstProcess ++ forks 0 ++ [(0, .kill 2)]) = some s ∧
    (s.proc 1).killed ∧ (s.proc 1).pid = 2 ∧
    Marked (trace (step .default) (boot 0) (firstProcess ++ forks 0 ++ [(0, .kill 2)])) 1 2 := by
  obtain ⟨s, run, killed, pid, aimed⟩ :
      ∃ s, exec (step .default) (boot 0) (firstProcess ++ forks 0 ++ [(0, .kill 2)]) = some s ∧ (s.proc 1).killed ∧
        (s.proc 1).pid = 2 ∧ ∀ e ∈ trace (step .default) (boot 0) (firstProcess ++ forks 0 ++ [(0, .kill 2)]),
        Aimed e := by
    decide +kernel
  have marked := (killed_marked run aimed).1 1 killed
  rw [pid] at marked
  exact ⟨s, run, killed, pid, marked⟩

/-- `kill(0)` returns 0 although no process has the pid 0, and the next child of init is born with the mark. -/
theorem kill_zero_marks_child :
    (∃ s t, exec (step .default) (boot 0) firstProcess = some s ∧ (∀ p, live (s.proc p).state → (s.proc p).pid ≠ 0) ∧
      step .default s (0, .kill 0) = some t ∧ (t.proc 0).eax = 0) ∧
    ∃ s, exec (step .default) (boot 0) (firstProcess ++ (0, .kill 0) :: forks 0) = some s ∧
      (s.proc 1).state = .runnable ∧ (s.proc 1).pid = 2 ∧ (s.proc 0).eax = 2 ∧ (s.proc 1).killed ∧
      ∀ e ∈ trace (step .default) (boot 0) (firstProcess ++ (0, .kill 0) :: forks 0),
        e.2.2 ≠ .kill 2 ∧ e.2.2 ≠ .badTrap := by
  refine ⟨?_, by decide +kernel⟩
  obtain ⟨s, run, none, t, action, zero⟩ : ∃ s, exec (step .default) (boot 0) firstProcess = some s ∧
      (∀ p, live (s.proc p).state → (s.proc p).pid ≠ 0) ∧
      ∃ t, step .default s (0, .kill 0) = some t ∧ (t.proc 0).eax = 0 := by
    decide +kernel
  exact ⟨s, t, run, none, action, zero⟩

end Xv6.Proof
