import Xv6.Proof.Membership

namespace Xv6.Proof
open Xv6.Library Xv6.Kernel State

variable {n : Nat} {s t : State n} {c : Fin n} {p : Slot} {q : Level} {a : Action}
  {as : List (Fin n × Action)}

def Waits (s : State n) (q : Level) (p : Slot) : Prop :=
  (s.proc p).state = .runnable ∧ (s.proc p).queue = q.val ∧ ∀ c, (s.cpu c).proc ≠ some p

instance (s : State n) (q : Level) (p : Slot) : Decidable (Waits s q p) :=
  inferInstanceAs (Decidable (_ ∧ _ ∧ _))

def waiters (s : State n) (q : Level) : Finset Slot := Finset.univ.filter (Waits s q)

structure Fresh (s : State n) : Prop where
  quiet : Quiet s
  empty : ∀ q, (s.queue q).head = 0 ∧ (s.queue q).tail = 0
  waiting : ∀ p, (s.proc p).state ≠ .runnable

theorem fresh_boot (bsp : Fin n) : Fresh (boot bsp) where
  quiet := quiet_boot bsp
  empty _ := ⟨rfl, rfl⟩
  waiting _ := by simp [boot, Proc.zero]

structure Stocked (s : State n) : Prop where
  wf : WellFormed s
  rings : Rings (view s)
  kept : Kept (view s)

theorem Fresh.stocked (h : Fresh s) : Stocked s := by
  have nil (q : Level) : ((view s).queue q).toList = [] := by
    rw [Ring.toList_eq_nil_iff]
    exact (h.empty q).1.trans (h.empty q).2.symm
  refine ⟨h.quiet.wellFormed, ⟨fun q => ?_, fun q x member => ?_, fun c p _ q member => ?_⟩,
    fun p runnable => absurd runnable (h.waiting p)⟩
  · simp [nil]
  · simp [nil] at member
  · simp [nil] at member

theorem Stocked.mem_iff (h : Stocked s) (x : Option Slot) : x ∈ (s.queue q).toList ↔ ∃ p, Waits s q p ∧ some p = x := by
  constructor
  · intro member
    obtain ⟨p, rfl, runnable, level⟩ := h.rings.entry q x member
    exact ⟨p, ⟨runnable, level, fun c own => h.rings.away c p own q member⟩, rfl⟩
  rintro ⟨p, ⟨runnable, _, away⟩, rfl⟩
  rcases h.kept p runnable with ⟨l, member⟩ | ⟨c, own⟩
  · have here := (h.rings.member member).2
    change (s.proc p).queue = _ at here
    obtain rfl : l = q := Fin.ext (by omega)
    exact member
  · exact absurd own (away c)

theorem Stocked.count (h : Stocked s) (q : Level) : (s.queue q).count = (waiters s q).card := by
  have entries : (s.queue q).toList.toFinset = (waiters s q).map ⟨some, Option.some_injective _⟩ := by
    ext x
    simp [h.mem_iff, waiters]
  have nodup : (s.queue q).toList.Nodup := h.rings.nodup q
  rw [← Ring.length_toList, ← List.toFinset_card_of_nodup nodup, entries, Finset.card_map]

theorem Rings.enqueues (h : Rings (view s)) (heads : PromotesHead s c) (resets : ResetsNothing s c)
    (change : Change .mlfq s t c a) (moved : Enqueues s t q) :
    ∃ p, t.queue q = (s.queue q).push (some p) := by
  change ((view t).queue q).tail ≠ ((view s).queue q).tail at moved
  change ∃ p, (view t).queue q = ((view s).queue q).push (some p)
  have given {l : Level} {r : Slot} (queue : (view t).queue = ((view s).push l r).queue) :
      ∃ p, (view t).queue q = ((view s).queue q).push (some p) := by
    rw [queue, View.push_queue] at moved ⊢
    split_ifs at moved ⊢ with same
    · exact ⟨r, same ▸ rfl⟩
    · exact absurd rfl moved
  cases change with
  | publish o r _ _ _ _ _ _ view => exact given (l := 0) (r := r) (by rw [view]; simp; rfl)
  | wake r l _ _ _ view => exact given (l := l) (r := r) (by rw [view]; rfl)
  | requeue r l _ _ _ _ _ _ _ view =>
    exact given (l := l) (r := r) (by rw [view]; rfl)
  | promote l m i r _ _ mode aged _ view =>
    have apart : m ≠ l := by
      have here := (h.aged heads mode aged).2.2.2
      rintro rfl
      omega
    rw [view, View.push_queue] at moved ⊢
    split_ifs at moved ⊢ with same
    · subst same
      exact ⟨r, by rw [View.drop_queue, if_neg apart]⟩
    rw [View.drop_queue] at moved
    split_ifs at moved with dropped
    · exact absurd (dropped ▸ rfl) moved
    · exact absurd rfl moved
  | pick r l _ _ _ _ _ _ _ view
  | ageingPanic l i r _ _ _ _ view =>
    rw [view] at moved
    simp only [View.setTurn_queue, View.setCore_queue, View.drop_queue] at moved
    split_ifs at moved with dropped
    · exact absurd (dropped ▸ rfl) moved
    · exact absurd rfl moved
  | resetHead l mode view => exact absurd (by rw [view, resets.head mode]) moved
  | resetTail l mode view => exact absurd (by rw [view, resets.tail mode]) moved
  | dispatch r _ _ _ selects => exact selects.elim
  | _ =>
    rename view t = _ => view
    exact absurd (by simp [view]) moved

theorem Stocked.step (h : Stocked s) (heads : PromotesHead s c) (resets : ResetsNothing s c)
    (action : step .mlfq s (c, a) = some t) (room : Room s t) : Stocked t where
  wf := h.wf.step action
  rings := h.rings.change h.wf resets heads (step_change h.wf action)
  kept := h.kept.change h.wf resets h.rings heads (step_change h.wf action) room

theorem Stocked.addsOne_iff (h : Stocked s) (heads : PromotesHead s c) (resets : ResetsNothing s c)
    (action : Kernel.step .mlfq s (c, a) = some t) (moved : Enqueues s t q) :
    (t.queue q).count = (s.queue q).count + 1 ↔ (waiters s q).card + 1 < NPROC := by
  obtain ⟨p, queue⟩ := h.rings.enqueues heads resets (step_change h.wf action) moved
  rw [queue, ← h.count]
  constructor
  · intro adds
    by_contra small
    have full : (s.queue q).count + 1 = NPROC := by
      have bound := (s.queue q).count_lt
      omega
    rw [Ring.count_push_full _ _ full] at adds
    omega
  · exact Ring.count_push _ _

/-- The stores of the reset change nothing, and the ageing block takes entries from the heads. -/
def Orderly (e : State n × (Fin n × Action)) : Prop :=
  ResetsNothing e.1 e.2.1 ∧ PromotesHead e.1 e.2.1

def AddsOne (e : State n × (Fin n × Action)) : Prop :=
  ∀ u ∈ step .mlfq e.1 e.2, ∀ q, Enqueues e.1 u q → (u.queue q).count = (e.1.queue q).count + 1

/-- Nobody is enqueued while all the others wait at that level. -/
def Spare (e : State n × (Fin n × Action)) : Prop :=
  ∀ u ∈ step .mlfq e.1 e.2, ∀ q, Enqueues e.1 u q → (waiters e.1 q).card + 1 < NPROC

instance (s : State n) (c : Fin n) : Decidable (ResetsNothing s c) :=
  inferInstanceAs (Decidable (∀ _ : Level, _ ∧ _))

instance (s t : State n) (q : Level) : Decidable (Enqueues s t q) :=
  inferInstanceAs (Decidable (_ ≠ _))

instance (e : State n × (Fin n × Action)) : Decidable (Spare e) :=
  inferInstanceAs (Decidable (∀ u ∈ step .mlfq e.1 e.2, ∀ _ : Level, _ → _))

theorem enqueue_addsOne_iff (start : Fresh s) (run : exec (step .mlfq) s as = some t)
    (orderly : ∀ e ∈ trace (step .mlfq) s as, Orderly e) :
    (∀ e ∈ trace (step .mlfq) s as, AddsOne e) ↔ ∀ e ∈ trace (step .mlfq) s as, Spare e := by
  have agree (s : State n) (ca : Fin n × Action) (t : State n) (h : Stocked s) (orderly : Orderly (s, ca))
      (action : step .mlfq s ca = some t) : AddsOne (s, ca) ↔ Spare (s, ca) := by
    simp only [AddsOne, Spare, Option.mem_def, action, Option.some.injEq, forall_eq']
    exact forall₂_congr fun q moved => h.addsOne_iff orderly.2 orderly.1 action moved
  refine trace_forall_iff agree (fun s _ t h orderly adds action => ?_) start.stocked run orderly
  refine h.step orderly.2 orderly.1 action fun q moved => ?_
  rw [h.count]
  exact (h.addsOne_iff orderly.2 orderly.1 action moved).mp (adds t action q moved)

def initRuns : List (Fin 2 × Action) := untilCopied ++ List.replicate 5 (0, Action.go)

theorem enqueue_addsOne_initRuns : ∃ t, exec (step .mlfq) (boot 0) initRuns = some t ∧
    (t.proc 0).state = .running ∧ ∀ e ∈ trace (step .mlfq) (boot 0) initRuns, AddsOne e := by
  obtain ⟨t, run, running, meets⟩ : ∃ t, exec (step .mlfq) (boot 0) initRuns = some t ∧ (t.proc 0).state = .running ∧
      ∀ e ∈ trace (step .mlfq) (boot 0) initRuns, NotAgeing e ∧ ResetsNothing e.1 e.2.1 ∧ Spare e := by
    decide +kernel
  refine ⟨t, run, running, (enqueue_addsOne_iff (fresh_boot 0) run ?_).mpr ?_⟩
  · exact fun e member => ⟨(meets e member).2.1, (meets e member).1.promotesHead⟩
  · exact fun e member => (meets e member).2.2

def tableFills : List (Fin 2 × Action) :=
  initRuns ++ (List.replicate 63 (forks 0)).flatten ++
    [(0, Action.sleep .ticks), (0, .go), (0, .go), (0, .timer), (0, .go)]

theorem enqueue_overflows : ∃ s t, exec (step .mlfq) (boot 0) tableFills = some s ∧
    step .mlfq s (0, .go) = some t ∧ (s.queue 0).count = 63 ∧ Enqueues s t 0 ∧ (t.queue 0).count = 0 ∧
    ∀ p, (t.proc p).state = .runnable := by
  obtain ⟨s, run, t, action, facts⟩ : ∃ s, exec (step .mlfq) (boot 0) tableFills = some s ∧
      ∃ t, step .mlfq s (0, .go) = some t ∧ (s.queue 0).count = 63 ∧ Enqueues s t 0 ∧ (t.queue 0).count = 0 ∧
        ∀ p, (t.proc p).state = .runnable := by
    decide +kernel
  exact ⟨s, t, run, action, facts⟩

end Xv6.Proof
