import Xv6.Library.Instances

/-!
# Schedules of a transition function

A partial step function `step : σ → α → Option σ` is driven by a schedule, a list of actions. `exec`
is the state it ends in and `trace` the list of states it passes through with the action taken in
each. Everything said about a whole run is derived from the two rules `exec_induction` (the
invariant may speak about the history) and `exec_invariant` (it may not).
-/

namespace Xv6.Library

variable {σ α τ β : Type} {step : σ → α → Option σ} {u : σ} {I : σ → Prop} {s t : σ} {as : List α}

/-- The state after a schedule, when every action of it is enabled in its turn. -/
def exec (step : σ → α → Option σ) : σ → List α → Option σ
  | s, [] => some s
  | s, a :: as => (step s a).bind fun t => exec step t as

/-- The states a schedule goes through, each with the action taken there. -/
def trace (step : σ → α → Option σ) : σ → List α → List (σ × α)
  | _, [] => []
  | s, a :: as => (s, a) :: (step s a).elim [] fun t => trace step t as

instance decidableIsSome {o : Option σ} : Decidable (∃ s, o = some s) := decidable_of_iff _ Option.isSome_iff_exists

instance decidableSomeAnd {o : Option σ} {P : σ → Prop} [DecidablePred P] : Decidable (∃ s, o = some s ∧ P s) :=
  match o with
  | none => isFalse (by simp)
  | some s => decidable_of_iff (P s) (by simp)

@[simp] theorem exec_nil (s : σ) : exec step s [] = some s := rfl

@[simp] theorem trace_nil (s : σ) : trace step s [] = [] := rfl

theorem exec_cons_iff {s : σ} {a : α} :
    exec step s (a :: as) = some u ↔ ∃ t, step s a = some t ∧ exec step t as = some u := by
  simp [exec, Option.bind_eq_some_iff]

theorem exec_singleton {a : α} (action : step s a = some t) : exec step s [a] = some t :=
  exec_cons_iff.mpr ⟨t, action, rfl⟩

theorem trace_cons {a : α} (as : List α) (action : step s a = some t) :
    trace step s (a :: as) = (s, a) :: trace step t as := by
  simp [trace, action]

theorem exec_append_iff {s : σ} {as bs : List α} : exec step s (as ++ bs) = some u ↔
      ∃ t, exec step s as = some t ∧ exec step t bs = some u := by
  induction as generalizing s with
  | nil => simp
  | cons a _ ih =>
    simp only [List.cons_append, exec_cons_iff, ih]
    constructor
    · rintro ⟨m, first, t, middle, last⟩
      exact ⟨t, ⟨m, first, middle⟩, last⟩
    · rintro ⟨t, ⟨m, first, middle⟩, last⟩
      exact ⟨m, first, t, middle, last⟩

theorem exec_append {as bs : List α} (first : exec step s as = some t)
    (second : exec step t bs = some u) : exec step s (as ++ bs) = some u :=
  exec_append_iff.mpr ⟨t, first, second⟩

theorem exec_snoc {a : α} (run : exec step s as = some t)
    (action : step t a = some u) : exec step s (as ++ [a]) = some u :=
  exec_append run (exec_singleton action)

theorem trace_append {as bs : List α} (run : exec step s as = some t) :
    trace step s (as ++ bs) = trace step s as ++ trace step t bs := by
  induction as generalizing s with
  | nil => simp_all
  | cons a _ ih =>
    obtain ⟨m, action, rest⟩ := exec_cons_iff.mp run
    rw [List.cons_append, trace_cons _ action, trace_cons _ action, ih rest, List.cons_append]

theorem trace_snoc {a : α} (run : exec step s as = some t)
    (action : step t a = some u) : trace step s (as ++ [a]) = trace step s as ++ [(t, a)] := by
  rw [trace_append run, trace_cons _ action, trace_nil]

theorem exec_schedule {I : List α → σ → Prop} {s : σ} (start : I [] s)
    (next : ∀ as t a u, exec step s as = some t → I as t → step t a = some u → I (as ++ [a]) u) {t : σ}
    (run : exec step s as = some t) : I as t := by
  induction as using List.reverseRecOn generalizing t with
  | nil =>
    obtain rfl : s = t := by simpa using run
    exact start
  | append_singleton _ a ih =>
    obtain ⟨m, before, last⟩ := exec_append_iff.mp run
    obtain ⟨u, action, same⟩ := exec_cons_iff.mp last
    obtain rfl : u = t := by simpa using same
    exact next _ _ _ _ before (ih before) action

theorem exec_induction {I : List (σ × α) → σ → Prop} {s : σ} (start : I [] s)
    (next : ∀ es t a u, I es t → step t a = some u → I (es ++ [(t, a)]) u) {t : σ}
    (run : exec step s as = some t) : I (trace step s as) t := by
  refine exec_schedule (I := fun as t => I (trace step s as) t) start (fun _ t a u before ih action => ?_) run
  rw [trace_snoc before action]
  exact next _ _ _ _ ih action

theorem exec_invariant {P : σ → α → Prop} (preserved : ∀ s a t, I s → P s a → step s a = some t → I t) (start : I s)
    (run : exec step s as = some t) (meets : ∀ e ∈ trace step s as, P e.1 e.2) : I t := by
  refine exec_induction (I := fun es t => (∀ e ∈ es, P e.1 e.2) → I t) (fun _ => start) ?_ run meets
  intro _ t a u ih action all
  refine preserved t a u (ih fun e member => all e (by simp [member])) (all (t, a) (by simp)) action

theorem trace_forall_iff {P A B : σ × α → Prop}
    (same : ∀ s a t, I s → P (s, a) → step s a = some t → (A (s, a) ↔ B (s, a)))
    (preserved : ∀ s a t, I s → P (s, a) → A (s, a) → step s a = some t → I t) (start : I s)
    (run : exec step s as = some t) (meets : ∀ e ∈ trace step s as, P e) :
    (∀ e ∈ trace step s as, A e) ↔ ∀ e ∈ trace step s as, B e := by
  induction as generalizing s with
  | nil => simp
  | cons a _ ih =>
    obtain ⟨m, action, rest⟩ := exec_cons_iff.mp run
    simp only [trace_cons _ action, List.forall_mem_cons] at meets ⊢
    rw [same s a m start meets.1 action]
    refine and_congr_right fun first => ih ?_ rest meets.2
    exact preserved s a m start meets.1 ((same s a m start meets.1 action).mpr first) action

theorem exec_split {before after : List (σ × α)} {e : σ × α} (run : exec step s as = some t)
    (split : trace step s as = before ++ e :: after) :
    ∃ xs ys u, as = xs ++ e.2 :: ys ∧ exec step s xs = some e.1 ∧ step e.1 e.2 = some u ∧
      exec step u ys = some t ∧ trace step s xs = before ∧ trace step u ys = after := by
  induction as generalizing s before with
  | nil => simp at split
  | cons a as ih =>
    obtain ⟨m, action, rest⟩ := exec_cons_iff.mp run
    rw [trace_cons _ action] at split
    cases before with
    | nil =>
      obtain ⟨rfl, rfl⟩ := List.cons.inj split
      exact ⟨[], as, m, rfl, rfl, action, rest, rfl, rfl⟩
    | cons =>
      obtain ⟨rfl, history⟩ := List.cons.inj split
      obtain ⟨xs, ys, u, rfl, reached, last, onward, rfl, rfl⟩ := ih rest history
      exact ⟨a :: xs, ys, u, rfl, exec_cons_iff.mpr ⟨m, action, reached⟩, last, onward, trace_cons _ action, rfl⟩

theorem exec_to_event {e : σ × α} (run : exec step s as = some t) (member : e ∈ trace step s as) :
    ∃ xs ys u, as = xs ++ e.2 :: ys ∧ exec step s xs = some e.1 ∧ step e.1 e.2 = some u ∧
      exec step u ys = some t ∧ trace step s as = trace step s xs ++ e :: trace step u ys := by
  obtain ⟨_, _, split⟩ := List.append_of_mem member
  obtain ⟨xs, ys, u, same, reached, last, onward, rfl, rfl⟩ := exec_split run split
  exact ⟨xs, ys, u, same, reached, last, onward, split⟩

theorem exec_simulation {astep : τ → β → Option τ} {L : σ × α → List β} {P : σ × α → Prop}
    {R : σ → τ → Prop} {x : τ}
    (simulates : ∀ s a t x, R s x → P (s, a) → step s a = some t → ∃ y, exec astep x (L (s, a)) = some y ∧ R t y)
    (start : R s x) (run : exec step s as = some t) (meets : ∀ e ∈ trace step s as, P e) :
    ∃ y, exec astep x ((trace step s as).flatMap L) = some y ∧ R t y := by
  refine exec_induction (I := fun es t => (∀ e ∈ es, P e) →
    ∃ y, exec astep x (es.flatMap L) = some y ∧ R t y) (fun _ => ⟨x, rfl, start⟩) ?_ run meets
  intro _ t a u ih action all
  obtain ⟨y, sofar, related⟩ := ih fun e member => all e (by simp [member])
  obtain ⟨z, next, after⟩ := simulates t a u y related (all (t, a) (by simp)) action
  refine ⟨z, ?_, after⟩
  simpa using exec_append sofar next

/-- A run whose steps all meet a condition, put together from its parts. -/
structure Run (step : σ → α → Option σ) (P : σ × α → Prop) (s : σ) (as : List α) (t : σ) : Prop where
  ends : exec step s as = some t
  meets : ∀ e ∈ trace step s as, P e

section Run
variable {P Q : σ × α → Prop} {m : σ} {a : α} {bs : List α}

theorem Run.nil (s : σ) : Run step P s [] s := ⟨rfl, by simp⟩

theorem Run.cons (action : step s a = some m) (first : P (s, a)) (rest : Run step P m as t) :
    Run step P s (a :: as) t where
  ends := exec_cons_iff.mpr ⟨m, action, rest.ends⟩
  meets := by
    rw [trace_cons _ action]
    exact List.forall_mem_cons.mpr ⟨first, rest.meets⟩

theorem Run.append (before : Run step P s as m) (rest : Run step P m bs t) : Run step P s (as ++ bs) t where
  ends := exec_append before.ends rest.ends
  meets := by
    rw [trace_append before.ends]
    exact List.forall_mem_append.mpr ⟨before.meets, rest.meets⟩

theorem Run.mono (run : Run step P s as t) (weaker : ∀ e, P e → Q e) : Run step Q s as t :=
  ⟨run.ends, fun e member => weaker e (run.meets e member)⟩

end Run

end Xv6.Library
