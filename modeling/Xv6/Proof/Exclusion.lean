import Xv6.Proof.WellFormed

namespace Xv6.Proof
open Xv6.Library Xv6.Kernel State

variable {n : Nat} {pol : Policy} {s t : State n} {as : List (Fin n × Action)}

def atRest : Mode → Bool
  | .off | .mpenter | .startothers _ | .started _ | .userinit | .mpmain | .enter | .loop => true
  | _ => false

structure Quiet (s : State n) : Prop where
  lock : s.lock = none
  idle : ∀ c, Idle s c ∧ atRest (s.cpu c).mode
  stopped : ∀ p, (s.proc p).state ≠ .running
  work : ∀ p, owns (s.proc p).work = none
  level : ∀ p, 0 ≤ (s.proc p).queue ∧ (s.proc p).queue ≤ 4

theorem quiet_boot (bsp : Fin n) : Quiet (boot bsp) where
  lock := rfl
  idle c := by
    by_cases same : c = bsp <;> simp [boot, Cpu.zero, Idle, atRest, same]
  stopped p := by simp [boot, Proc.zero]
  work p := rfl
  level p := by simp [boot, Proc.zero]

theorem Quiet.wellFormed (h : Quiet s) : WellFormed s where
  control := by
    refine ⟨fun c => ?_, fun p running => absurd running (h.stopped p), fun d e p hd => ?_⟩
    · obtain ⟨idle, rest⟩ := h.idle c
      have unlocked : s.lock ≠ some c := by simp [h.lock]
      cases mode : (s.cpu c).mode <;> rw [mode] at rest <;> first
        | exact ⟨unlocked, idle⟩
        | cases rest
    · rw [(h.idle d).1.2] at hd
      cases hd
  owned := by
    have nobody : ∀ o p, ¬ (view s).Owns o p := by
      rintro (c | me) p owner
      · have rest := (h.idle c).2
        simp only [View.Owns, view, turn] at owner
        cases mode : (s.cpu c).mode <;> simp [mode, stage, atRest] at owner rest
      · simp [View.Owns, view, core, h.work me] at owner
    exact ⟨fun o p owner => absurd owner (nobody o p), fun o _ p owner => absurd owner (nobody o p)⟩
  bounded := h.level

/-- Whenever the lock is free, each RUNNING process is the `c->proc` of exactly one processor and each
`c->proc` is null or RUNNING. -/
theorem running_exclusive (start : Quiet s) (run : exec (step pol) s as = some t)
    (free : t.lock = none) :
    (∀ p, (t.proc p).state = .running → ∃! c, (t.cpu c).proc = some p) ∧
      ∀ c p, (t.cpu c).proc = some p → (t.proc p).state = .running := by
  have control := (start.wellFormed.exec run).control
  constructor
  · intro p running
    obtain ⟨c, own⟩ := control.running p running
    exact ⟨c, own, fun d other => control.inj d c p other own⟩
  · intro c p own
    exact (control.cpu c).proc_running (by simp [free]) own

def Dispatches (pol : Policy) (e : State n × (Fin n × Action)) (p : Slot) : Prop :=
  (e.1.proc p).state = .runnable ∧ ∃ u ∈ step pol e.1 e.2, (u.proc p).state = .running

instance (pol : Policy) (e : State n × (Fin n × Action)) (p : Slot) : Decidable (Dispatches pol e p) :=
  inferInstanceAs (Decidable (_ ∧ ∃ u ∈ step pol e.1 e.2, (u.proc p).state = .running))

def firstProcess : List (Fin 1 × Action) :=
  List.replicate 3 (0, Action.go) ++ [(0, Action.fill true), (0, .copy true)] ++ List.replicate 16 (0, Action.go)

def untilCopied : List (Fin 2 × Action) :=
  List.replicate 2 (0, Action.go) ++ List.replicate 13 (1, Action.go) ++ List.replicate 3 (0, Action.go) ++
    [(0, Action.fill true), (0, .copy true)]

def forks (c : Fin n) : List (Fin n × Action) :=
  [(c, .fork), (c, .fill true), (c, .copy true), (c, .publish)]

theorem running_exclusive_first : ∃ t, exec (step .default) (boot 0) firstProcess = some t ∧
    t.lock = none ∧ (t.proc 0).state = .running ∧ ∃! c, (t.cpu c).proc = some 0 := by
  obtain ⟨t, run, free, running⟩ : ∃ t, exec (step .default) (boot 0) firstProcess = some t ∧ t.lock = none ∧
      (t.proc 0).state = .running := by
    decide +kernel
  exact ⟨t, run, free, running, (running_exclusive (quiet_boot 0) run free).1 0 running⟩

end Xv6.Proof
