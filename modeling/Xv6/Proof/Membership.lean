import Xv6.Proof.Rings

namespace Xv6.Proof
open Xv6.Library Xv6.Kernel State

variable {n : Nat} {s t : State n} {c : Fin n} {p : Slot} {q : Level} {a : Action}
  {as : List (Fin n × Action)}

structure Queued (s : State n) : Prop where
  wf : WellFormed s
  settled : Settled s
  rings : Rings (view s)
  awake : ∀ c, stage (s.cpu c).mode ≠ .asleep

theorem Queued.step (h : Queued s) (heads : PromotesHead s c) (action : step .mlfq s (c, a) = some t) : Queued t where
  wf := h.wf.step action
  settled := h.settled.change (step_change h.wf action)
  rings := h.rings.change h.wf (h.settled.resetsNothing c) heads (step_change h.wf action)
  awake d asleep := by
    rcases (step_change h.wf action).stage d with same | ⟨-, enters⟩
    · exact h.awake d (same.symm.trans asleep)
    change ((view t).turn d).stage = _ at asleep
    rw [asleep] at enters
    obtain ⟨p, picked, stopped⟩ := enters
    obtain ⟨-, -, runnable, -⟩ := h.rings.pick picked
    exact stopped runnable

/-- The queues as the reset leaves them, with nobody RUNNABLE and no processor stopped or still on its
way through the reset. -/
structure Initialised (s : State n) : Prop where
  flag : s.flag ≠ 0
  past : ∀ c, stage (s.cpu c).mode ≠ .reset
  going : ∀ c, stage (s.cpu c).mode ≠ .stopped ∧ stage (s.cpu c).mode ≠ .asleep
  empty : ∀ q, (s.queue q).head = 0 ∧ (s.queue q).tail = 0
  waiting : ∀ p, (s.proc p).state ≠ .runnable

instance (s : State n) : Decidable (Initialised s) :=
  decidable_of_iff (s.flag ≠ 0 ∧ (∀ c, stage (s.cpu c).mode ≠ .reset) ∧
    (∀ c, stage (s.cpu c).mode ≠ .stopped ∧ stage (s.cpu c).mode ≠ .asleep) ∧
    (∀ q, (s.queue q).head = 0 ∧ (s.queue q).tail = 0) ∧ ∀ p, (s.proc p).state ≠ .runnable)
    ⟨fun ⟨flag, past, going, empty, waiting⟩ => ⟨flag, past, going, empty, waiting⟩,
      fun h => ⟨h.flag, h.past, h.going, h.empty, h.waiting⟩⟩

theorem Initialised.queued (h : Initialised s) (wf : WellFormed s) : Queued s ∧ Kept (view s) := by
  have nil (q : Level) : ((view s).queue q).toList = [] := by
    rw [Ring.toList_eq_nil_iff]
    exact (h.empty q).1.trans (h.empty q).2.symm
  refine ⟨⟨wf, ⟨h.flag, h.past⟩, ⟨fun q => ?_, fun q x member => ?_, fun c p _ q member => ?_⟩,
    fun c => (h.going c).2⟩, fun p runnable => absurd runnable (h.waiting p)⟩
  · simp [nil]
  · simp [nil] at member
  · simp [nil] at member

def NotAgeing (e : State n × (Fin n × Action)) : Prop :=
  match (e.1.cpu e.2.1).mode with
  | .ageing _ _ => False
  | _ => True

instance (e : State n × (Fin n × Action)) : Decidable (NotAgeing e) := by
  unfold NotAgeing
  split <;> infer_instance

theorem NotAgeing.promotesNobody {e : State n × (Fin n × Action)} (h : NotAgeing e) : PromotesNobody e.1 e.2.1 := by
  unfold NotAgeing at h
  unfold PromotesNobody
  cases mode : (e.1.cpu e.2.1).mode <;> simp_all

theorem NotAgeing.promotesHead (h : NotAgeing (s, (c, a))) : PromotesHead s c := h.promotesNobody.promotesHead

def Fits (e : State n × (Fin n × Action)) : Prop := ∀ u ∈ step .mlfq e.1 e.2, Room e.1 u

instance (s t : State n) : Decidable (Room s t) :=
  inferInstanceAs (Decidable (∀ q, (t.queue q).tail ≠ (s.queue q).tail → (s.queue q).count + 1 < NPROC))

instance (e : State n × (Fin n × Action)) : Decidable (Fits e) :=
  inferInstanceAs (Decidable (∀ u ∈ step .mlfq e.1 e.2, Room e.1 u))

theorem Queued.exec (h : Queued s) (kept : Kept (view s)) (run : exec (Kernel.step .mlfq) s as = some t)
    (heads : ∀ e ∈ trace (Kernel.step .mlfq) s as, PromotesHead e.1 e.2.1)
    (fits : ∀ e ∈ trace (Kernel.step .mlfq) s as, Fits e) : Queued t ∧ Kept (view t) := by
  refine exec_invariant (I := fun s => Queued s ∧ Kept (view s))
    (P := fun s ca => PromotesHead s ca.1 ∧ Fits (s, ca)) ?_ ⟨h, kept⟩ run fun e member =>
      ⟨heads e member, fits e member⟩
  rintro s ⟨c, a⟩ t ⟨h, kept⟩ ⟨heads, fits⟩ action
  exact ⟨h.step heads action,
    kept.change h.wf (h.settled.resetsNothing c) h.rings heads (step_change h.wf action) (fits t action)⟩

def OccursAt (s : State n) (p : Slot) (q : Level) (i : Fin NPROC) : Prop :=
  i ∈ (s.queue q).live ∧ (s.queue q).cells i = some p

theorem occursAt_mem {i : Fin NPROC} (h : OccursAt s p q i) : some p ∈ (s.queue q).toList :=
  Ring.mem_toList.mpr ⟨i, h.1, h.2⟩

theorem Queued.position_unique (h : Queued s) (member : some p ∈ (s.queue q).toList) : ∃! i, OccursAt s p q i := by
  obtain ⟨i, live, cell⟩ := Ring.mem_toList.mp member
  refine ⟨i, ⟨live, cell⟩, fun j other => ?_⟩
  exact List.inj_on_of_nodup_map (h.rings.nodup q) other.1 live (other.2.trans cell.symm)

/-- Under MLFQ without ageing and without overflow, whenever the lock is free the RUNNABLE processes
are the live entries of the rings, each in one place and in the ring its `queue` names; and the
scheduler never meets a process that is not RUNNABLE. -/
theorem runnable_iff_queued {s₀ : State n} {bs : List (Fin n × Action)} (origin : Quiet s₀)
    (before : exec (step .mlfq) s₀ bs = some s) (start : Initialised s)
    (run : exec (step .mlfq) s as = some t)
    (young : ∀ e ∈ trace (step .mlfq) s as, NotAgeing e)
    (fits : ∀ e ∈ trace (step .mlfq) s as, Fits e) :
    (t.lock = none →
      (∀ p, (t.proc p).state = .runnable → ∃ q : Level, (t.proc p).queue = q.val ∧
        (∃! i, OccursAt t p q i) ∧ ∀ l ≠ q, ∀ i, ¬ OccursAt t p l i) ∧
      ∀ p q i, OccursAt t p q i → (t.proc p).state = .runnable) ∧
    ∀ c, (t.cpu c).mode ≠ .halted processIsSleeping := by
  obtain ⟨queued, kept⟩ := start.queued (origin.wellFormed.exec before)
  obtain ⟨queued, kept⟩ := queued.exec kept run (fun e member => (young e member).promotesHead) fits
  refine ⟨fun free => ⟨fun p runnable => ?_, fun p q i occurs => ?_⟩, fun c mode => ?_⟩
  · -- with the lock free, what a processor has in hand is RUNNING
    have inRing : ∃ q, some p ∈ (t.queue q).toList := by
      refine (kept p runnable).resolve_right ?_
      rintro ⟨c, own⟩
      have running := (queued.wf.control.cpu c).proc_running (by simp [free]) own
      rw [running] at runnable
      cases runnable
    obtain ⟨q, member⟩ := inRing
    have level := (queued.rings.member (q := q) member).2
    refine ⟨q, level, queued.position_unique member, fun l other i occurs => other ?_⟩
    have here := (queued.rings.member (q := l) (occursAt_mem occurs)).2
    exact Fin.ext (by omega)
  · exact (queued.rings.member (q := q) (occursAt_mem occurs)).1
  · refine queued.awake c ?_
    simp [mode, stage]

theorem runnable_iff_queued_boot : ∃ s t, exec (step .mlfq) (boot (0 : Fin 2))
      (List.replicate 2 (0, .go) ++ List.replicate 13 (1, .go)) = some s ∧
    exec (step .mlfq) s [(0, .go), (0, .go), (0, .go), (0, .fill true), (0, .copy true), (0, .go)] = some t ∧
    (t.proc 0).state = .runnable ∧ ∃ q : Level, (t.proc 0).queue = q.val ∧ ∃! i, OccursAt t 0 q i := by
  obtain ⟨s, before, start, t, run, free, runnable, conditions⟩ : ∃ s, exec (step .mlfq) (boot (0 : Fin 2))
      (List.replicate 2 (0, .go) ++ List.replicate 13 (1, .go)) = some s ∧ Initialised s ∧
      ∃ t, exec (step .mlfq) s [(0, .go), (0, .go), (0, .go), (0, .fill true), (0, .copy true), (0, .go)] = some t ∧
        t.lock = none ∧ (t.proc 0).state = .runnable ∧
        ∀ e ∈ trace (step .mlfq) s [(0, .go), (0, .go), (0, .go), (0, .fill true), (0, .copy true), (0, .go)],
          NotAgeing e ∧ Fits e := by
    decide +kernel
  obtain ⟨q, level, unique, -⟩ := ((runnable_iff_queued (quiet_boot 0) before start run
    (fun e member => (conditions e member).1) fun e member => (conditions e member).2).1 free).1 0 runnable
  exact ⟨s, t, before, run, runnable, q, level, unique⟩

end Xv6.Proof
