import Xv6.Proof.Overflow

namespace Xv6.Proof
open Xv6.Library Xv6.Kernel State

variable {n : Nat} {s t u m : State n} {v w : View n} {c : Fin n} {p : Slot} {q : Level} {a : Action}
  {T k l : Nat} {as : List (Fin n × Action)} {ca : Fin n × Action}
  {f : Core → Core} {g : Turn → Turn} {o : Fin n ⊕ Slot} {r : Slot}

def Masks (v : View n) : Prop :=
  ∀ c p, (v.turn c).stage = .trap ∨ (v.turn c).stage = .late → (v.turn c).proc = some p →
    (v.core p).masked = false

section
variable (h : Masks v)
include h

theorem Masks.setCore (same : (f (v.core p)).masked = (v.core p).masked ∨ (f (v.core p)).masked = false) :
    Masks (v.setCore p f) := by
  intro d r busy own
  by_cases here : r = p
  · subst here
    rw [View.setCore_core_self]
    rcases same with same | clear
    · exact same.trans (h d r busy own)
    · exact clear
  · rw [View.setCore_core_ne _ _ _ here]
    exact h d r busy own

theorem Masks.setTurn (here : (g (v.turn c)).stage = .trap ∨ (g (v.turn c)).stage = .late → ∀ p,
      (g (v.turn c)).proc = some p → (v.core p).masked = false) : Masks (v.setTurn c g) := by
  intro d r busy own
  rw [View.setTurn_turn] at busy own
  split_ifs at busy own
  · exact here busy r own
  · exact h d r busy own

theorem Masks.setRing {f : Ring NPROC (Option Slot) → Ring NPROC (Option Slot)} : Masks (v.setRing q f) := h

theorem Masks.push : Masks (v.push q p) := by
  rw [View.push]
  exact h.setRing.setCore (.inl rfl)

theorem Masks.own : Masks (v.own o p) := by
  cases o with
  | inl c => rw [View.own]; exact h.setTurn (by simp)
  | inr => rw [View.own]; exact h.setCore (.inl rfl)

theorem Masks.disown : Masks (v.disown o) := by
  cases o with
  | inl c => rw [View.disown]; exact h.setTurn (by simp)
  | inr => rw [View.disown]; exact h.setCore (.inl rfl)

theorem Masks.filled : Masks (v.filled o) := by
  cases o with
  | inl c => exact h
  | inr => rw [View.filled]; exact h.setCore (.inl rfl)

end

theorem Masks.change (h : Masks (view s)) (wf : WellFormed s) (change : Change .mlfq s t c a) : Masks (view t) := by
  cases change with
  | quiet view => exact view ▸ h
  | halt view => exact view ▸ h.setTurn (by simp)
  | timer _ _ unmasked view =>
    have served : Masks ((Proof.view s).setTurn c ({ · with stage := .trap })) :=
      h.setTurn fun _ r own => unmasked r own
    exact view ▸ served
  | timerDone _ _ view | enterReset _ _ view | asleep _ _ _ _ view | leave _ _ _ _ _ _ view =>
    exact view ▸ h.setTurn (by simp)
  | resetDone _ view =>
    have done : Masks ((Proof.view s).setTurn c ({ · with stage := .plain })) := h.setTurn (by simp)
    exact view ▸ done
  | resetHead _ _ view | resetTail _ _ view => exact view ▸ h.setRing
  | bootFail _ _ _ _ unused view => exact view ▸ (h.setCore (.inl (unused _).masked)).setTurn (by simp)
  | alloc o r _ _ _ _ _ view =>
    have taken : Masks ((Proof.view s).setCore r ({ · with
      state := .embryo, pid := s.nextpid, priority := 60, queue := 0 })) := h.setCore (.inl rfl)
    have owned := taken.own (o := o) (p := r)
    exact view ▸ owned
  | fill _ _ _ _ _ _ _ view => exact view ▸ (h.setCore (.inr rfl)).filled
  | discard _ _ _ _ _ _ unused view => exact view ▸ (h.setCore (.inl (unused _).masked)).disown
  | publish _ _ _ _ _ _ _ _ view => exact view ▸ (Masks.push (h.setCore (.inl rfl))).disown
  | reap _ _ _ unused view => exact view ▸ h.setCore (.inl (unused _).masked)
  | dispatch _ _ _ _ selects => exact selects.elim
  | pick _ _ _ _ _ _ _ _ _ view => exact view ▸ (h.setRing.setCore (.inl rfl)).setTurn (by simp)
  | again _ _ _ _ _ _ _ view => exact view ▸ (h.setCore (.inl rfl)).setTurn (by simp)
  | requeue _ _ _ _ _ _ _ _ _ view => exact view ▸ h.push.setTurn (by simp)
  | promote _ _ _ _ _ _ _ _ _ view => exact view ▸ h.setRing.push
  | ageingPanic _ _ _ _ _ _ _ view => exact view ▸ h.setRing.setTurn (by simp)
  | charge r q _ mode _ _ _ view =>
    rw [view]
    have charged : Masks ((Proof.view s).setCore r fun k => { k with
      lastExecuted := int32 s.ticks
      ticks := Function.update k.ticks q (int32 (k.ticks q + 1)) }) := h.setCore (.inl rfl)
    have trapped : ((Proof.view s).turn c).stage = .trap := by simp [Proof.view, turn, stage, mode]
    exact charged.setTurn fun _ x hand => charged c x (.inl trapped) hand
  | yield _ _ _ _ view => exact view ▸ (h.setCore (.inl rfl)).setTurn (by simp)
  | exit r _ own _ view =>
    rw [view]
    intro d x busy hand
    by_cases same : d = c
    · subst same
      simp at busy
    rw [View.setTurn_turn_ne _ _ _ same] at busy hand
    have other : x ≠ r := by
      rintro rfl
      exact same (wf.control.inj d c x hand own)
    rw [View.setTurn_core, View.setCore_core_ne _ _ _ other]
    exact h d x busy hand
  | block _ _ _ _ _ view | chpr _ _ _ view => exact view ▸ h.setCore (.inl rfl)
  | wake _ _ _ _ _ view => exact view ▸ Masks.push (h.setCore (.inl rfl))

theorem Quiet.masks (h : Quiet s) : Masks (view s) := by
  intro c p busy
  have rest := (h.idle c).2
  change stage (s.cpu c).mode = _ ∨ stage (s.cpu c).mode = _ at busy
  cases mode : (s.cpu c).mode <;> simp [mode, stage, atRest] at busy rest

def Used (q : Level) (k T : Nat) : Prop := if q = 4 then 15 ≤ T else T + 1 = 2 ^ q.val + k

def Left (q : Level) (k : Nat) : Prop := k < 2 ^ q.val

def Stage.finished : Stage → Bool
  | .late | .stopped | .asleep => true
  | _ => false

inductive Place (v : View n) (p : Slot) (T : Nat) : Prop
  | embryo (state : (v.core p).state = .embryo) (none : T = 0)
  | waits (q : Level) (state : (v.core p).state = .runnable) (away : ∀ c, (v.turn c).proc ≠ some p)
      (level : (v.core p).queue = q.val) (used : Used q 0 T)
  | runs (c : Fin n) (q : Level) (own : (v.turn c).proc = some p) (state : (v.core p).state = .running)
      (early : (v.turn c).stage ≠ .late) (level : (v.core p).queue = q.val) (left : Left q (v.turn c).a)
      (used : Used q (v.turn c).a T)
  -- the tick of this turn is charged
  | spent (c : Fin n) (q : Level) (own : (v.turn c).proc = some p)
      (state : (v.core p).state = .running ∨ (v.core p).state = .runnable)
      (finished : (v.turn c).stage.finished ∨ (v.core p).masked ∨ (v.core p).state = .runnable)
      (level : (v.core p).queue = q.val) (left : Left q (v.turn c).a) (used : Used q ((v.turn c).a + 1) T)
  | gone (state : (v.core p).state = .zombie)

def Moves (x y : Stage) : Prop := y = x ∨ y = .stopped ∨ y = .asleep ∨ x.finished = false ∧ y ≠ .late

theorem Place.frame (h : Place v p T) (core : (w.core p).state = (v.core p).state ∧
      (w.core p).queue = (v.core p).queue ∧ (w.core p).masked = (v.core p).masked)
    (hand : ∀ c, (w.turn c).proc = some p ↔ (v.turn c).proc = some p)
    (turn : ∀ c, (v.turn c).proc = some p → (w.turn c).a = (v.turn c).a ∧ Moves (v.turn c).stage (w.turn c).stage) :
    Place w p T := by
  obtain ⟨state, queue, masked⟩ := core
  cases h with
  | embryo embryo none => exact .embryo (state.trans embryo) none
  | waits q runnable away level used =>
    exact .waits q (state.trans runnable) (fun c own => away c ((hand c).mp own)) (queue.trans level) used
  | runs c q own running early level left used =>
    obtain ⟨same, moves⟩ := turn c own
    refine .runs c q ((hand c).mpr own) (state.trans running) ?_ (queue.trans level) (same ▸ left) (same ▸ used)
    rcases moves with same | stopped | asleep | ⟨-, early⟩
    · exact same ▸ early
    · simp [stopped]
    · simp [asleep]
    · exact early
  | spent c q own states finished level left used =>
    obtain ⟨same, moves⟩ := turn c own
    refine .spent c q ((hand c).mpr own) (state.symm ▸ states) ?_ (queue.trans level) (same ▸ left) (same ▸ used)
    rw [masked, state]
    refine finished.imp_left fun finished => ?_
    rcases moves with same | stopped | asleep | ⟨open', -⟩
    · exact same ▸ finished
    · simp [stopped, Stage.finished]
    · simp [asleep, Stage.finished]
    · simp [open'] at finished
  | gone zombie => exact .gone (state.trans zombie)

section Frame
variable (h : Place v p T)
include h

theorem Place.setCore (same : r = p → (f (v.core p)).state = (v.core p).state ∧
    (f (v.core p)).queue = (v.core p).queue ∧ (f (v.core p)).masked = (v.core p).masked) :
    Place (v.setCore r f) p T := by
  refine h.frame ?_ (fun _ => Iff.rfl) fun _ _ => ⟨rfl, .inl rfl⟩
  by_cases here : p = r
  · subst here
    simpa using same rfl
  · simp [here]

theorem Place.setCore_ne (other : r ≠ p) : Place (v.setCore r f) p T :=
  h.setCore fun same => absurd same other

theorem Place.setTurn (same : (g (v.turn c)).proc = (v.turn c).proc)
    (moves : (v.turn c).proc = some p → (g (v.turn c)).a = (v.turn c).a ∧
      Moves (v.turn c).stage (g (v.turn c)).stage) : Place (v.setTurn c g) p T := by
  refine h.frame ⟨rfl, rfl, rfl⟩ (fun d => ?_) fun d own => ?_ <;> rw [View.setTurn_turn] <;> split_ifs with here
  · rw [here, same]
  · exact Iff.rfl
  · subst here
    exact moves own
  · exact ⟨rfl, .inl rfl⟩

theorem Place.setTurn_other (before : (v.turn c).proc ≠ some p) (after : (g (v.turn c)).proc ≠ some p) :
    Place (v.setTurn c g) p T := by
  refine h.frame ⟨rfl, rfl, rfl⟩ (fun d => ?_) fun d own => ?_ <;> rw [View.setTurn_turn] <;> split_ifs with here
  · subst here
    exact iff_of_false after before
  · exact Iff.rfl
  · subst here
    exact absurd own before
  · exact ⟨rfl, .inl rfl⟩

theorem Place.setRing {f : Ring NPROC (Option Slot) → Ring NPROC (Option Slot)} : Place (v.setRing q f) p T :=
  h.frame ⟨rfl, rfl, rfl⟩ (fun _ => Iff.rfl) fun _ _ => ⟨rfl, .inl rfl⟩

theorem Place.push (other : r ≠ p) : Place (v.push q r) p T := by
  rw [View.push]
  exact h.setRing.setCore_ne other

theorem Place.own (open' : ∀ c, o = .inl c → (v.turn c).stage.finished = false) : Place (v.own o r) p T := by
  cases o with
  | inl c => rw [View.own]; exact h.setTurn rfl fun _ => ⟨rfl, .inr (.inr (.inr ⟨open' c rfl, by simp⟩))⟩
  | inr => rw [View.own]; exact h.setCore fun _ => ⟨rfl, rfl, rfl⟩

theorem Place.disown (open' : ∀ c, o = .inl c → (v.turn c).stage.finished = false) : Place (v.disown o) p T := by
  cases o with
  | inl c => rw [View.disown]; exact h.setTurn rfl fun _ => ⟨rfl, .inr (.inr (.inr ⟨open' c rfl, by simp⟩))⟩
  | inr => rw [View.disown]; exact h.setCore fun _ => ⟨rfl, rfl, rfl⟩

theorem Place.filled : Place (v.filled o) p T := by
  cases o with
  | inl c => exact h
  | inr => rw [View.filled]; exact h.setCore fun _ => ⟨rfl, rfl, rfl⟩

theorem Place.born : (v.core p).state ≠ .unused ∧ (v.core p).state ≠ .sleeping := by
  cases h with
  | embryo state | gone state | waits _ state | runs _ _ _ state => simp [state]
  | spent _ _ _ state => rcases state with state | state <;> simp [state]

theorem Place.unborn (embryo : (v.core p).state = .embryo) : T = 0 := by
  cases h with
  | embryo _ none => exact none
  | waits _ state | runs _ _ _ state | gone state | spent _ _ _ state => simp [embryo] at state

theorem Place.waiting (away : ∀ c, (v.turn c).proc = some p → (v.core p).state = .running)
    (runnable : (v.core p).state = .runnable) :
    (∀ c, (v.turn c).proc ≠ some p) ∧ ∃ q : Level, (v.core p).queue = q.val ∧ Used q 0 T := by
  cases h with
  | waits q _ nobody level used => exact ⟨nobody, q, level, used⟩
  | embryo state | gone state => simp [state] at runnable
  | runs c q own | spent c q own => simp [away c own] at runnable

theorem Place.returned (unique : ∀ d, (v.turn d).proc = some p → d = c) (own : (v.turn c).proc = some p)
    (runnable : (v.core p).state = .runnable) : ∃ q : Level, (v.core p).queue = q.val ∧
      Left q (v.turn c).a ∧ Used q ((v.turn c).a + 1) T := by
  cases h with
  | waits q _ nobody => exact absurd own (nobody c)
  | embryo state | gone state => simp [state] at runnable
  | runs d q _ state => simp [state] at runnable
  | spent d q hand _ _ level left used =>
    obtain rfl := unique d hand
    exact ⟨q, level, left, used⟩

theorem Place.charged (unique : ∀ d, (v.turn d).proc = some p → d = c) (own : (v.turn c).proc = some p)
    (running : (v.core p).state = .running) (late : (v.turn c).stage = .late) :
    ∃ q : Level, (v.core p).queue = q.val ∧ Left q (v.turn c).a ∧ Used q ((v.turn c).a + 1) T := by
  cases h with
  | waits q state => simp [state] at running
  | embryo state | gone state => simp [state] at running
  | runs d q hand _ early =>
    obtain rfl := unique d hand
    exact absurd late early
  | spent d q hand _ _ level left used =>
    obtain rfl := unique d hand
    exact ⟨q, level, left, used⟩

end Frame

theorem sliceOf_level (q : Level) : sliceOf q.val = 2 ^ q.val := by
  revert q
  decide

theorem Used.level_zero : Used 0 0 0 := by simp [Used]

theorem Used.demote {m : Level} {k : Nat} (used : Used q (k + 1) T) (left : Left q k)
    (done : 2 ^ q.val ≤ k + 1) (level : (m.val : Int) = min (q.val + 1 : Int) 4) : Used m 0 T := by
  have full : k + 1 = 2 ^ q.val := le_antisymm left done
  have bound := q.isLt
  rcases eq_or_ne q 4 with rfl | other
  · obtain rfl : m = 4 := Fin.ext (by simp at level; omega)
    exact used
  have low : q.val < 4 := by
    have apart : q.val ≠ 4 := fun same => other (Fin.ext same)
    omega
  have next : m.val = q.val + 1 := by omega
  simp only [Used, other, if_false, full] at used
  unfold Used
  split_ifs with last
  · have three : q.val = 3 := by rw [last] at next; simp at next; omega
    rw [three] at used
    omega
  · rw [next, pow_succ]
    omega

section Scheduled
variable (h : Place (view s) p T) (wf : WellFormed s)
include h

theorem Place.published (embryo : (s.proc p).state = .embryo) (away : ∀ d, (s.cpu d).proc ≠ some p)
    (open' : ∀ d, o = .inl d → ((view s).turn d).stage.finished = false) :
    Place ((((view s).setCore p ({ · with state := .runnable })).push 0 p).disown o) p T := by
  refine Place.disown (.waits 0 (by simp [View.push_core]) away (by simp [View.push_core]) ?_) open'
  rw [h.unborn embryo]
  exact Used.level_zero

include wf

omit h in
theorem WellFormed.sole (own : (s.cpu c).proc = some p) (d : Fin n) (hand : ((view s).turn d).proc = some p) : d = c :=
  wf.control.inj d c p hand own

theorem Place.picked (free : s.lock = none)
    (runnable : (s.proc p).state = .runnable) (level : (s.proc p).queue = q.val) :
    Place ((((view s).drop q).setCore p ({ · with state := .running })).setTurn c
      ({ · with proc := some p, a := 0, stage := .plain })) p T := by
  obtain ⟨-, l, here, used⟩ := h.waiting (fun d own => (wf.control.cpu d).proc_running (by simp [free]) own) runnable
  obtain rfl : l = q := Fin.ext (by have := here.symm.trans level; omega)
  exact .runs c l (by simp) (by simp) (by simp) (by simpa using here) (by simp [Left]) (by simpa using used)

theorem Place.resumed (own : (s.cpu c).proc = some p) (runnable : (s.proc p).state = .runnable)
    (more : (s.cpu c).a + 1 < sliceOf (s.proc p).queue) :
    Place (((view s).setCore p ({ · with state := .running })).setTurn c
      ({ · with proc := some p, a := (s.cpu c).a + 1, stage := .plain })) p T := by
  obtain ⟨q, level, left, used⟩ := h.returned (wf.sole own) own runnable
  refine .runs c q (by simp) (by simp) (by simp) (by simpa using level) ?_ (by rw [View.setTurn_turn_self]; exact used)
  have here : (s.proc p).queue = q.val := level
  rw [here, sliceOf_level] at more
  simpa [Left] using more

theorem Place.requeued {m : Level} (own : (s.cpu c).proc = some p) (runnable : (s.proc p).state = .runnable)
    (done : sliceOf (s.proc p).queue ≤ (s.cpu c).a + 1) (level : m.val = min ((s.proc p).queue + 1) 4) :
    Place (((view s).push m p).setTurn c ({ · with proc := none, stage := .plain })) p T := by
  obtain ⟨q, here, left, used⟩ := h.returned (wf.sole own) own runnable
  have queue : (s.proc p).queue = q.val := here
  refine .waits m (by simp [View.push_core, show ((view s).core p).state = .runnable from runnable])
    (fun d hand => ?_) (by simp [View.push_core]) (used.demote left ?_ (by rw [level, queue]))
  · rw [View.setTurn_turn] at hand
    split_ifs at hand with at'
    exact at' (wf.sole own d hand)
  · rw [queue, sliceOf_level] at done
    exact done

omit wf in
theorem Place.left (stopped : (s.proc p).state ≠ .running) (blocked : (s.proc p).state ≠ .runnable) :
    Place ((view s).setTurn c ({ · with proc := none, stage := .plain })) p T := by
  cases h with
  | gone state => exact .gone state
  | embryo state none => exact .embryo state none
  | waits _ state => exact absurd state blocked
  | runs _ _ _ state => exact absurd state stopped
  | spent _ _ _ state =>
    rcases state with state | state
    · exact absurd state stopped
    · exact absurd state blocked

/-- The end of a timer interrupt that was charged: `yield` or `exit`. -/
theorem Place.ended (mode : (s.cpu c).mode = .trapEnd)
    (own : (s.cpu c).proc = some p) (running : (s.proc p).state = .running)
    (queue : (f ((view s).core p)).queue = ((view s).core p).queue)
    (state : (f ((view s).core p)).state = .runnable ∨
      (f ((view s).core p)).state = .running ∧ (f ((view s).core p)).masked) :
    Place (((view s).setCore p f).setTurn c ({ · with stage := .plain })) p T := by
  have late : ((view s).turn c).stage = .late := by simp [view, turn, stage, mode]
  obtain ⟨q, level, left, used⟩ := h.charged (wf.sole own) own running late
  refine .spent c q (by rw [View.setTurn_turn_self]; exact own) ?_ ?_
    (by simpa using queue.trans level) (by simpa using left)
    (by simpa using used)
  · rw [View.setTurn_core, View.setCore_core_self]
    exact state.symm.imp_left And.left
  · rw [View.setTurn_core, View.setCore_core_self]
    exact .inr (state.symm.imp_left And.right)

theorem Place.change (young : PromotesNobody s c)
    (uncharged : ¬ (a = .go ∧ (s.cpu c).mode = .account ∧ (s.cpu c).proc = some p))
    (stays : (t.proc p).state ≠ .sleeping ∧ (t.proc p).state ≠ .unused)
    (change : Change .mlfq s t c a) : Place (view t) p T := by
  have apart {r : Slot} (own : (s.cpu c).proc = some r) (other : r ≠ p) : (s.cpu c).proc ≠ some p := fun hand =>
    other (Option.mem_unique own hand)
  have lasts {v : View n} (same : view t = v) : (v.core p).state ≠ .sleeping ∧ (v.core p).state ≠ .unused :=
    same ▸ stays
  cases change with
  | quiet view => exact view ▸ h
  | halt view => exact view ▸ h.setTurn rfl fun _ => ⟨rfl, .inr (.inl rfl)⟩
  | timer _ plain _ view =>
    have served : Place ((Proof.view s).setTurn c ({ · with stage := .trap })) p T :=
      h.setTurn rfl fun _ =>
        ⟨rfl, .inr (.inr (.inr ⟨by simp [Proof.view, turn, plain, Stage.finished], by simp⟩))⟩
    exact view ▸ served.frame ⟨rfl, rfl, rfl⟩ (fun _ => Iff.rfl) fun _ _ => ⟨rfl, .inl rfl⟩
  | timerDone mode _ view | enterReset mode _ view =>
    refine view ▸ h.setTurn rfl fun _ => ⟨rfl, .inr (.inr (.inr ⟨?_, by simp⟩))⟩
    simp [Proof.view, turn, stage, mode, Stage.finished]
  | resetDone reset view =>
    have done : Place ((Proof.view s).setTurn c ({ · with stage := .plain })) p T :=
      h.setTurn rfl fun _ =>
        ⟨rfl, .inr (.inr (.inr ⟨by simp [Proof.view, turn, reset, Stage.finished], by simp⟩))⟩
    exact view ▸ done.frame ⟨rfl, rfl, rfl⟩ (fun _ => Iff.rfl) fun _ _ => ⟨rfl, .inl rfl⟩
  | resetHead _ _ view | resetTail _ _ view => exact view ▸ h.setRing
  | bootFail r f _ _ unused view =>
    have other : r ≠ p := by
      rintro rfl
      exact (lasts view).2 (by simp [(unused _).state])
    exact view ▸ (h.setCore_ne other).setTurn rfl fun _ => ⟨rfl, .inr (.inl rfl)⟩
  | alloc o r acts early _ unused _ view =>
    have other : r ≠ p := by
      rintro rfl
      exact h.born.1 unused
    have taken : Place ((Proof.view s).setCore r ({ · with
        state := .embryo, pid := s.nextpid, priority := 60, queue := 0 })) p T :=
      h.setCore_ne other
    have owned := taken.own (o := o) (r := r) fun d same => by
      subst same
      obtain rfl : d = c := acts
      simp [Proof.view, turn, stage, early rfl, Stage.finished]
    exact view ▸ owned.frame ⟨rfl, rfl, rfl⟩ (fun _ => Iff.rfl) fun _ _ => ⟨rfl, .inl rfl⟩
  | fill o r _ _ _ _ embryo view =>
    rw [view]
    by_cases same : r = p
    · subst same
      exact Place.filled (.embryo (by rw [View.setCore_core_self]; exact embryo) (h.unborn embryo))
    · exact (h.setCore_ne same).filled
  | discard _ r f _ _ _ unused view =>
    have other : r ≠ p := by
      rintro rfl
      exact (lasts view).2 (by simp [disown_state, (unused _).state])
    exact view ▸ (h.setCore_ne other).disown (by simp)
  | publish o r acts last _ _ embryo away view =>
    have open' (d : Fin n) (same : o = .inl d) : ((Proof.view s).turn d).stage.finished = false := by
      subst same
      obtain rfl : d = c := acts
      simp [Proof.view, turn, stage, (last rfl).2, Stage.finished]
    by_cases same : r = p
    · subst same
      exact view ▸ h.published embryo away open'
    · exact view ▸ ((h.setCore_ne same).push same).disown open'
  | reap r f _ unused view =>
    have other : r ≠ p := by
      rintro rfl
      exact (lasts view).2 (by simp [(unused _).state])
    exact view ▸ h.setCore_ne other
  | dispatch _ _ _ _ selects => exact selects.elim
  | pick r q _ _ mode free _ runnable level view =>
    by_cases same : r = p
    · subst same
      exact view ▸ h.picked wf free runnable level
    have idle : (s.cpu c).proc = none := (wf.control.ok mode).2.2
    have dropped : Place (((Proof.view s).drop q).setCore r ({ · with state := .running })) p T :=
      Place.setCore_ne h.setRing same
    exact view ▸ dropped.setTurn_other (fun own => absurd (idle.symm.trans own) (by simp)) (by simpa using same)
  | asleep _ _ _ _ view => exact view ▸ h.setTurn rfl fun _ => ⟨rfl, .inr (.inr (.inl rfl))⟩
  | again r _ _ _ own runnable more view =>
    by_cases same : r = p
    · subst same
      exact view ▸ h.resumed wf own runnable more
    · exact view ▸ (h.setCore_ne same).setTurn_other (apart own same) (by simpa using same)
  | requeue r m _ _ _ own runnable done level view =>
    by_cases same : r = p
    · subst same
      exact view ▸ h.requeued wf own runnable done level
    · exact view ▸ (h.push same).setTurn_other (apart own same) (by simp)
  | leave r _ _ own stopped blocked view =>
    by_cases same : r = p
    · subst same
      exact view ▸ h.left stopped (blocked rfl)
    · exact view ▸ h.setTurn_other (apart own same) (by simp)
  | promote q m i r _ _ mode aged => simp [young.aged mode] at aged
  | ageingPanic q i r _ mode aged => simp [young.aged mode] at aged
  | charge r q action mode own _ _ view =>
    have other : r ≠ p := by
      rintro rfl
      exact uncharged ⟨action, mode, own⟩
    exact view ▸ (h.setCore_ne other).setTurn_other (apart own other) (apart own other)
  | yield r mode own running view =>
    by_cases same : r = p
    · subst same
      exact view ▸ h.ended wf mode own running rfl (.inl rfl)
    · exact view ▸ (h.setCore_ne same).setTurn_other (apart own same) (apart own same)
  | exit r mode own running view =>
    by_cases same : r = p
    · subst same
      exact view ▸ h.ended wf mode own running rfl (.inr ⟨running, rfl⟩)
    · exact view ▸ (h.setCore_ne same).setTurn_other (apart own same) (apart own same)
  | block r _ _ _ blocked view =>
    by_cases same : r = p
    · subst same
      have awake := (lasts view).1
      rcases blocked with rfl | rfl
      · simp at awake
      · exact view ▸ .gone (by simp)
    · exact view ▸ h.setCore_ne same
  | wake r q asleep _ _ view =>
    have other : r ≠ p := by
      rintro rfl
      exact h.born.2 asleep
    exact view ▸ (h.setCore_ne other).push other
  | chpr r _ _ view => exact view ▸ h.setCore fun _ => ⟨rfl, rfl, rfl⟩

end Scheduled

def share (T : Nat) (q : Level) : Nat := if q = 4 then T - 15 else min (2 ^ q.val) (T - (2 ^ q.val - 1))

theorem share_zero (q : Level) : share 0 q = 0 := by
  unfold share
  split_ifs <;> simp

theorem share_succ {k : Nat} (used : Used q k T) (left : Left q k) (l : Level) :
    share (T + 1) l = if l = q then share T q + 1 else share T l := by
  unfold Left at left
  unfold Used at used
  unfold share
  fin_cases q <;> fin_cases l <;> simp at used left ⊢ <;> omega

theorem share_low (T : Nat) (low : q.val < 4) :
    (share T q : Int) = min (2 ^ q.val) (max 0 ((T : Int) - (2 ^ q.val - 1))) := by
  unfold share
  fin_cases q <;> simp at low ⊢ <;> omega

theorem share_lt (T : Nat) (low : q.val < 4) : share T q < 2 ^ 31 := by
  unfold share
  fin_cases q <;> simp at low ⊢

structure Tally (v : View n) (p : Slot) (T : Nat) : Prop where
  place : Place v p T
  ticks : ∀ q, (v.core p).ticks q = int32 (share T q)

theorem int32_succ (x : Int) : int32 (int32 x + 1) = int32 (x + 1) := by
  unfold int32
  simp

theorem Tally.charge (h : Tally (view s) p T) (wf : WellFormed s) (masks : Masks (view s))
    (mode : (s.cpu c).mode = .account) (own : (s.cpu c).proc = some p)
    (action : step .mlfq s (c, .go) = some t) : Tally (view t) p (T + 1) := by
  simp only [step, State.go, mode] at action
  obtain rfl : s.account c = t := Option.some.inj action
  have trapped : ((view s).turn c).stage = .trap := by simp [view, turn, stage, mode]
  have running : (s.proc p).state = .running := by
    have ok := wf.control.ok mode
    exact (wf.control.cpu c).proc_running (by rw [mode] at *; exact ok.1) own
  have known : ∃ q : Level, (s.proc p).queue = q.val ∧ Left q (s.cpu c).a ∧ Used q (s.cpu c).a T := by
    cases h.place with
    | embryo state | waits _ state | gone state => exact absurd (state.symm.trans running) (by decide)
    | runs d q hand _ _ level left used =>
      obtain rfl : d = c := wf.control.inj d c p hand own
      exact ⟨q, level, left, used⟩
    | spent d q hand _ finished =>
      obtain rfl : d = c := wf.control.inj d c p hand own
      rcases finished with finished | masked | runnable
      · simp [trapped, Stage.finished] at finished
      · simp [masks d p (.inl trapped) own] at masked
      · exact absurd (running.symm.trans runnable) (by decide)
  obtain ⟨q, level, left, used⟩ := known
  rw [view_account own level]
  refine ⟨.spent c q (by rw [View.setTurn_turn_self]; exact own) (.inl ?_) (.inl (by simp [Stage.finished])) ?_ ?_ ?_,
    fun l => ?_⟩
  · rw [View.setTurn_core, View.setCore_core_self]
    exact running
  · rw [View.setTurn_core, View.setCore_core_self]
    exact level
  · rw [View.setTurn_turn_self]
    exact left
  · rw [View.setTurn_turn_self]
    change Used q ((s.cpu c).a + 1) (T + 1)
    unfold Used at used ⊢
    split_ifs at used ⊢ <;> omega
  · rw [View.setTurn_core, View.setCore_core_self, share_succ used left]
    dsimp only
    rw [Function.update_apply]
    split_ifs with same
    · rw [h.ticks q, int32_succ]
      push_cast
      rfl
    · exact h.ticks l

def Charges (e : State n × (Fin n × Action)) (p : Slot) : Prop :=
  e.2.2 = .go ∧ (e.1.cpu e.2.1).mode = .account ∧ (e.1.cpu e.2.1).proc = some p

instance (e : State n × (Fin n × Action)) (p : Slot) : Decidable (Charges e p) :=
  inferInstanceAs (Decidable (_ ∧ _ ∧ _))

def received (es : List (State n × (Fin n × Action))) (p : Slot) : Nat := es.countP fun e => Charges e p

/-- `p` neither blocks nor leaves the table in this step. -/
def NeverBlocks (e : State n × (Fin n × Action)) (p : Slot) : Prop :=
  ∀ u ∈ step .mlfq e.1 e.2, (u.proc p).state ≠ .sleeping ∧ (u.proc p).state ≠ .unused

theorem Tally.change (h : Tally (view s) p T) (wf : WellFormed s) (young : PromotesNobody s c)
    (uncharged : ¬ Charges (s, (c, a)) p) (stays : (t.proc p).state ≠ .sleeping ∧ (t.proc p).state ≠ .unused)
    (change : Change .mlfq s t c a) : Tally (view t) p T := by
  refine ⟨h.place.change wf young uncharged stays change, fun q => ?_⟩
  have same (kept : (record t p).ticks = (record s p).ticks) : ((view t).core p).ticks q = int32 (share T q) :=
    (congrFun kept q).trans (h.ticks q)
  cases change.fate p with
  | keep _ record | publish _ _ record | yield _ _ _ record | block _ _ record | wake _ _ record =>
    exact same (by rw [record])
  | dispatch _ _ _ _ record => exact same (by rw [record])
  | take _ _ record => exact same (by rw [record])
  | free _ unused => exact absurd unused stays.2
  | charge _ due => exact absurd due uncharged
  | fill _ embryo _ record =>
    obtain rfl := h.place.unborn embryo
    change (Proof.record t p).ticks q = _
    rw [record, share_zero]
    exact (int32_tick (k := 0) (by decide)).symm

theorem tally_forkFill {me : Slot} (wf : WellFormed s) (here : At s c me (.allocated p))
    (created : step .mlfq s (c, .fill true) = some t) : Tally (view t) p 0 := by
  obtain ⟨-, -, -, embryo, other⟩ := wf.parent here rfl
  have working : s.working c = some (.allocated p) := by simp [State.working, here.mode, here.stack, here.work]
  simp only [step, here.mode, working] at created
  obtain rfl : s.forkFill c p true = t := Option.some.inj created
  have core : (view (s.forkFill c p true)).core p = { (view s).core p with
      ctime := int32 s.ticks, lastExecuted := 0, ticks := fun _ => 0, owns := none, raw := false,
      masked := false } := by
    rw [view_forkFill here other, View.filled_core, if_neg (by simpa using other), View.setCore_core_self]
  refine ⟨.embryo ?_ rfl, fun q => ?_⟩
  · rw [core]
    exact embryo
  · rw [core, share_zero]
    exact (int32_tick (k := 0) (by decide)).symm

theorem Tally.exec (h : Tally (view s) p 0) (wf : WellFormed s)
    (masks : Masks (view s)) (run : exec (step .mlfq) s as = some t)
    (awake : ∀ e ∈ trace (step .mlfq) s as, NeverBlocks e p)
    (young : ∀ e ∈ trace (step .mlfq) s as, PromotesNobody e.1 e.2.1) :
    Tally (view t) p (received (trace (step .mlfq) s as) p) := by
  refine (exec_induction (I := fun es t => (∀ e ∈ es, NeverBlocks e p ∧ PromotesNobody e.1 e.2.1) →
    WellFormed t ∧ Masks (view t) ∧ Tally (view t) p (received es p)) (fun _ => ⟨wf, masks, h⟩) ?_ run
    fun e member => ⟨awake e member, young e member⟩).2.2
  rintro _ s ⟨c, a⟩ t ih action all
  obtain ⟨wf, masks, tally⟩ := ih fun e member => all e (by simp [member])
  obtain ⟨awake, young⟩ := all (s, (c, a)) (by simp)
  have change := step_change wf action
  refine ⟨wf.step action, masks.change wf change, ?_⟩
  rw [received, List.countP_append, List.countP_singleton]
  by_cases charges : Charges (s, (c, a)) p
  · obtain ⟨rfl, mode, own⟩ := charges
    rw [if_pos (decide_eq_true ⟨rfl, mode, own⟩)]
    exact tally.charge wf masks mode own action
  · rw [if_neg (by simpa using charges)]
    exact tally.change wf young charges (awake t action) change

theorem Masks.exec {s₀ : State n} {bs : List (Fin n × Action)} (origin : Quiet s₀)
    (before : exec (step .mlfq) s₀ bs = some s) : Masks (view s) := by
  refine (exec_invariant (I := fun s => WellFormed s ∧ Masks (view s)) (P := fun _ _ => True) ?_
    ⟨origin.wellFormed, origin.masks⟩ before fun _ _ => trivial).2
  rintro s ⟨c, a⟩ t ⟨wf, masks⟩ - action
  exact ⟨wf.step action, masks.change wf (step_change wf action)⟩

section Forked
variable {s₀ : State n} {bs : List (Fin n × Action)} {me : Slot} (origin : Quiet s₀)
  (before : exec (step .mlfq) s₀ bs = some s) (forks : At s c me (.allocated p))
  (created : step .mlfq s (c, .fill true) = some u) (run : exec (step .mlfq) u as = some t)
  (awake : ∀ e ∈ trace (step .mlfq) u as, NeverBlocks e p)
  (young : ∀ e ∈ trace (step .mlfq) u as, PromotesNobody e.1 e.2.1)
include origin before forks created run awake young

theorem tally_received : Tally (view t) p (received (trace (step .mlfq) u as) p) := by
  have wf := origin.wellFormed.exec before
  exact (tally_forkFill wf forks created).exec (wf.step created)
    ((Masks.exec origin before).change wf (step_change wf created)) run awake young

/-- The counters of a process made by `fork` that never blocks, after `T` ticks: 1, 2, 4 and 8 of them at
the first four levels and all the others at the last one, in the 32 bits of an `int`. -/
theorem ticks_received : (∀ q : Level, q.val < 4 → (t.proc p).ticks q =
      min (2 ^ q.val) (max 0 ((received (trace (step .mlfq) u as) p : Int) - (2 ^ q.val - 1)))) ∧
    (t.proc p).ticks 4 = int32 (max 0 ((received (trace (step .mlfq) u as) p : Int) - 15)) := by
  have tally := tally_received origin before forks created run awake young
  generalize received (trace (step .mlfq) u as) p = T at tally
  refine ⟨fun q low => ?_, ?_⟩
  · refine (tally.ticks q).trans ?_
    rw [int32_tick (share_lt T low), share_low T low]
  refine (tally.ticks 4).trans ?_
  congr 1
  simp [share]
  omega

end Forked

def initForks : List (Fin 2 × Action) := initRuns ++ [(0, .fork)]

def aTick (k : Nat) : List (Fin 2 × Action) := (1, .timer) :: List.replicate k (1, .go)

def childDescends : List (Fin 2 × Action) :=
  [(0, .copy true), (0, .publish), (1, .go), (1, .go)] ++ aTick 6 ++ aTick 5 ++ aTick 6 ++
    (List.replicate 3 (aTick 5)).flatten ++ aTick 6 ++ (List.replicate 7 (aTick 5)).flatten ++ aTick 6

instance (e : State n × (Fin n × Action)) (p : Slot) : Decidable (NeverBlocks e p) :=
  inferInstanceAs (Decidable (∀ u ∈ step .mlfq e.1 e.2, _ ∧ _))

structure Spins (s : State n) (c : Fin n) (p : Slot) : Prop where
  lock : s.lock = none
  mode : (s.cpu c).mode = .thread
  own : (s.cpu c).proc = some p
  stack : (s.cpu c).stack = some p
  saved : (s.cpu c).p = some p
  running : (s.proc p).state = .running
  work : (s.proc p).work = .run
  level : (s.proc p).queue = 4
  empty : ∀ q, (s.queue q).head = (s.queue q).tail
  young : s.ticks ≤ uint32 ((s.cpu c).ageingUpdate + ageingConst)

theorem child_descends : ∃ s u m, exec (step .mlfq) (boot 0) initForks = some s ∧ At s 0 0 (.allocated 1) ∧
    step .mlfq s (0, .fill true) = some u ∧
    Run (step .mlfq) (fun e => NeverBlocks e 1 ∧ NotAgeing e) u childDescends m ∧
    received (trace (step .mlfq) u childDescends) 1 = 15 ∧ Spins m 1 1 := by
  obtain ⟨s, before, mode, stack, work, u, created, m, run, steps,
    count, lock, place, own, hand, saved, running, busy, level,
      empty, young⟩ : ∃ s, exec (step .mlfq) (boot 0) initForks = some s ∧ (s.cpu 0).mode = .thread ∧
      (s.cpu 0).stack = some 0 ∧ (s.proc 0).work = .allocated 1 ∧ ∃ u, step .mlfq s (0, .fill true) = some u ∧
      ∃ m, exec (step .mlfq) u childDescends = some m ∧
        (∀ e ∈ trace (step .mlfq) u childDescends, NeverBlocks e 1 ∧ NotAgeing e) ∧
        received (trace (step .mlfq) u childDescends) 1 = 15 ∧ m.lock = none ∧ (m.cpu 1).mode = .thread ∧
        (m.cpu 1).proc = some 1 ∧ (m.cpu 1).stack = some 1 ∧ (m.cpu 1).p = some 1 ∧ (m.proc 1).state = .running ∧
        (m.proc 1).work = .run ∧ (m.proc 1).queue = 4 ∧ (∀ q, (m.queue q).head = (m.queue q).tail) ∧
        m.ticks ≤ uint32 ((m.cpu 1).ageingUpdate + ageingConst) := by
    decide +kernel
  exact ⟨s, u, m, before, ⟨mode, stack, work⟩, created, ⟨run, steps⟩, count,
    lock, place, own, hand, saved, running, busy, level, empty, young⟩

theorem ticks_received_child : ∃ s u t, exec (step .mlfq) (boot 0) initForks = some s ∧
    step .mlfq s (0, .fill true) = some u ∧ exec (step .mlfq) u childDescends = some t ∧
    received (trace (step .mlfq) u childDescends) 1 = 15 ∧ (t.proc 1).ticks 3 = 8 ∧ (t.proc 1).ticks 4 = 0 := by
  obtain ⟨s, u, t, before, forks, created, run, count, -⟩ := child_descends
  have counters := ticks_received (quiet_boot 0) before forks created run.ends
    (fun e member => (run.meets e member).1) fun e member => (run.meets e member).2.promotesNobody
  rw [count] at counters
  refine ⟨s, u, t, before, created, run.ends, count, ?_, ?_⟩
  · simpa using counters.1 3 (by decide)
  · rw [counters.2]
    exact int32_tick (k := 0) (by decide)

section Forever

def Receives (p : Slot) (s : State n) (k : Nat) (t : State n) : Prop :=
  ∃ as, Run (step .mlfq) (fun e => NeverBlocks e p ∧ NotAgeing e) s as t ∧
    received (trace (step .mlfq) s as) p = k

theorem Receives.nil (s : State n) : Receives p s 0 s := ⟨[], .nil s, rfl⟩

theorem Receives.append (first : Receives p s k m) (rest : Receives p m l t) : Receives p s (k + l) t := by
  obtain ⟨as, before, count⟩ := first
  obtain ⟨bs, after, more⟩ := rest
  refine ⟨as ++ bs, before.append after, ?_⟩
  rw [trace_append before.ends, received, List.countP_append]
  exact congrArg₂ (· + ·) count more

theorem Receives.step (action : step .mlfq s ca = some t) (charges : Charges (s, ca) p ↔ k = 1)
    (one : k ≤ 1) (awake : (t.proc p).state = .running ∨ (t.proc p).state = .runnable)
    (young : NotAgeing (s, ca)) : Receives p s k t := by
  refine ⟨[ca], .cons action ⟨fun u after => ?_, young⟩ (.nil t), ?_⟩
  · obtain rfl : t = u := Option.mem_unique action after
    rcases awake with state | state <;> simp [state]
  rw [trace_cons _ action, trace_nil, received, List.countP_singleton]
  by_cases charged : Charges (s, ca) p
  · rw [if_pos (decide_eq_true charged), charges.mp charged]
  · have other : k ≠ 1 := fun same => charged (charges.mpr same)
    rw [if_neg (by simpa using charged)]
    omega

structure Returns (s : State n) (c : Fin n) (p : Slot) : Prop where
  lock : s.lock = some c
  mode : (s.cpu c).mode = .back
  saved : (s.cpu c).p = some p
  runnable : (s.proc p).state = .runnable
  work : (s.proc p).work = .run
  context : (s.proc p).context = .yield
  level : (s.proc p).queue = 4
  empty : ∀ q, (s.queue q).head = (s.queue q).tail
  young : s.ticks ≤ uint32 ((s.cpu c).ageingUpdate + ageingConst)

theorem Spins.tick (h : Spins s c p) (other : c.val ≠ 0) : ∃ t, Receives p s 1 t ∧ Returns t c p := by
  have working : s.working c = some .run := by simp [State.working, h.mode, h.stack, h.work]
  have four : level? (s.proc p).queue = some 4 := level?_eq_some.mpr (by simp [h.level])
  set s1 := s.goto c .account with h1
  have timer : step .mlfq s (c, .timer) = some s1 := by
    simp [step, State.interruptible, h.mode, working, State.timer, other, h1]
  set s2 := (s1.setProc p (charge s.ticks 4)).goto c .trapEnd with h2
  have account : step .mlfq s1 (c, .go) = some s2 := by
    simp [step, State.go, State.account, h1, h.own, four, h2]
  set s3 := ((s2.acquire c).setProc p fun k => { k with state := .runnable }).goto c (.sched .yield) with h3
  have yields : step .mlfq s2 (c, .go) = some s3 := by
    simp [step, State.go, State.locked, h1, h2, h.own, h.lock, charge, h.running, State.yield, h3]
  set s4 := (s3.setProc p fun k => { k with context := .yield }).setCpu c fun k =>
    { k with stack := none, mode := .back } with h4
  have sched : step .mlfq s3 (c, .go) = some s4 := by
    simp [step, State.go, State.sched, h1, h2, h3, h.own, h4]
  refine ⟨s4, ?_, ?_⟩
  · have first : Receives p s 0 s1 :=
      .step timer (by simp [Charges]) (by simp) (.inl h.running) (by simp [NotAgeing, h.mode])
    have second : Receives p s1 1 s2 := .step account (by simp [Charges, h1, h.own]) (by simp)
      (.inl (by simp [h2, h1, charge, h.running])) (by simp [NotAgeing, h1])
    have third : Receives p s2 0 s3 :=
      .step yields (by simp [Charges, h2]) (by simp) (.inr (by simp [h3])) (by simp [NotAgeing, h2])
    have fourth : Receives p s3 0 s4 := .step sched (by simp [Charges, h3]) (by simp) (.inr (by simp [h4, h3]))
      (by simp [NotAgeing, h3])
    exact first.append (second.append (third.append fourth))
  · refine ⟨rfl, ?_, ?_, ?_, ?_, ?_, ?_, h.empty, ?_⟩ <;> simp [h4, h3, h2, h1, charge, h.saved, h.work, h.level]
    exact h.young

theorem Returns.again (h : Returns s c p) (more : (s.cpu c).a + 1 < 16) : ∃ t, Receives p s 0 t ∧ Spins t c p := by
  have slice : sliceOf (s.proc p).queue = 16 := by rw [h.level]; decide
  set s1 := ((s.setCpu c fun k => { k with proc := none }).setProc p fun k =>
    { k with numRun := int32 (k.numRun + 1) }).dispatch c p ((s.cpu c).a + 1) with h1
  have back : step .mlfq s (c, .go) = some s1 := by
    simp [step, State.go, h.mode, State.back, State.mlfqBack, h.saved, h.runnable, State.sliceLoop, slice, more, h1]
  set s2 := s1.release.goto c .thread with h2
  have resumed : step .mlfq s1 (c, .go) = some s2 := by
    simp [step, State.go, State.resumed, h1, State.dispatch, h.context, h2]
  refine ⟨s2, ?_, ?_⟩
  · have first : Receives p s 0 s1 := .step back (by simp [Charges, h.mode]) (by simp)
      (.inl (by simp [h1, State.dispatch])) (by simp [NotAgeing, h.mode])
    have second : Receives p s1 0 s2 := .step resumed (by simp [Charges, h1, State.dispatch]) (by simp)
      (.inl (by simp [h2, h1, State.dispatch])) (by simp [NotAgeing, h1, State.dispatch])
    exact first.append second
  · refine ⟨rfl, ?_, ?_, ?_, ?_, ?_, ?_, ?_, h.empty, ?_⟩ <;> simp [h2, h1, State.dispatch, h.work, h.level]
    exact h.young

theorem step_pick (mode : (s.cpu c).mode = .loop) (free : s.lock = none) (picked : s.pick = some p)
    (runnable : (s.proc p).state = .runnable) (level : (s.proc p).queue = q.val) :
    step .mlfq s (c, .go) = some ((((s.acquire c).drop q).setProc p fun k =>
      { k with numRun := int32 (k.numRun + 1) }).dispatch c p 0) := by
  have found : (s.acquire c).pick = some p := picked
  have first : 0 < sliceOf (s.proc p).queue := level ▸ sliceOf_pos q
  have entered : (s.acquire c).pass .mlfq c = (((s.acquire c).drop q).setProc p fun k =>
      { k with numRun := int32 (k.numRun + 1) }).dispatch c p 0 := by
    unfold State.pass State.mlfqPass
    rw [found]
    dsimp only
    rw [acquire_proc, if_neg (not_not.mpr runnable)]
    refine dequeue_cases (P := fun t => t = _) (fun out => ?_) fun l _ => ?_
    · rw [level, level?_val] at out
      cases out
    · obtain rfl : l = q := Fin.ext (by omega)
      rw [State.sliceLoop, drop_proc, acquire_proc, if_pos first, if_pos runnable]
  simp only [step, State.go, mode, State.locked, free, if_true]
  rw [entered]

theorem Returns.requeue (h : Returns s c p) (done : 16 ≤ (s.cpu c).a + 1) :
    ∃ t, Receives p s 0 t ∧ Spins t c p := by
  have slice : sliceOf (s.proc p).queue = 16 := by rw [h.level]; decide
  have four : level? 4 = some 4 := level?_eq_some.mpr (by simp)
  set s0 := (s.setCpu c fun k => { k with proc := none }).push 4 p with h0
  set s1 := s0.release.goto c .loop with h1
  have back : step .mlfq s (c, .go) = some s1 := by
    have settled : s0.ageingCheck c = s1 := by
      unfold State.ageingCheck
      rw [if_neg (by simpa [h0] using h.young)]
    have after : (s.setCpu c fun k => { k with proc := none }).afterSlice c p = s1 := by
      simp [State.afterSlice, h.runnable, h.level, State.orPanic, State.enqueue, four, ← h0, settled]
    simp [step, State.go, h.mode, State.back, State.mlfqBack, h.saved, h.runnable, State.sliceLoop, slice, done, after]
  have picked : (s1.acquire c).pick = some p := by
    have nil (q : Level) : (s.queue q).toList = [] := (Ring.toList_eq_nil_iff _).mpr (h.empty q)
    have one : ((s.queue 4).push (some p)).toList = [some p] := by
      rw [Ring.toList_push _ _ (by rw [(Ring.count_eq_zero_iff _).mpr (h.empty 4)]; decide), nil]
      rfl
    have others (q : Level) (other : q ≠ 4) : (s0.queue q).first = none := by
      rw [h0, push_queue_ne _ _ _ other, setCpu_queue, Ring.first_eq, nil]
      rfl
    have last : (s0.queue 4).first = some p := by
      rw [h0, push_queue_self, setCpu_queue, Ring.first_eq, one]
      rfl
    change (List.finRange 5).findSome? (fun q => (s0.queue q).first) = some p
    simp [List.finRange_succ, others, last]
  set s2 := (((s1.acquire c).drop 4).setProc p fun k =>
    { k with numRun := int32 (k.numRun + 1) }).dispatch c p 0 with h2
  have pass : step .mlfq s1 (c, .go) = some s2 :=
    step_pick (q := 4) (by simp [h1]) rfl picked (by simp [h1, h0, h.runnable]) (by simp [h1, h0, push_proc])
  set s3 := s2.release.goto c .thread with h3
  have resumed : step .mlfq s2 (c, .go) = some s3 := by
    simp [step, State.go, State.resumed, h2, h1, h0, State.dispatch, push_proc, h.context, h3]
  refine ⟨s3, ?_, ?_⟩
  · have first : Receives p s 0 s1 := .step back (by simp [Charges, h.mode]) (by simp)
      (.inr (by simp [h1, h0, h.runnable])) (by simp [NotAgeing, h.mode])
    have second : Receives p s1 0 s2 := .step pass (by simp [Charges, h1]) (by simp)
      (.inl (by simp [h2, State.dispatch])) (by simp [NotAgeing, h1])
    have third : Receives p s2 0 s3 := .step resumed (by simp [Charges, h2, State.dispatch]) (by simp)
      (.inl (by simp [h3, h2, State.dispatch])) (by simp [NotAgeing, h2, State.dispatch])
    exact first.append (second.append third)
  refine ⟨rfl, ?_, ?_, ?_, ?_, ?_, ?_, ?_, fun q => ?_, ?_⟩
  · simp [h3]
  iterate 4
    · simp [h3, h2, State.dispatch]
  · simp [h3, h2, h1, h0, State.dispatch, push_proc, h.work]
  · simp [h3, h2, h1, h0, State.dispatch, push_proc]
  · change ((s0.drop 4).queue q).head = ((s0.drop 4).queue q).tail
    by_cases last : q = 4
    · simp [last, h0, h.empty]
    · simp [last, h0, h.empty]
  · simpa [h3, h2, h1, h0, State.dispatch] using h.young

theorem Spins.receives (h : Spins s c p) (other : c.val ≠ 0) (k : Nat) : ∃ t, Receives p s k t ∧ Spins t c p := by
  induction k with
  | zero => exact ⟨s, .nil s, h⟩
  | succ k ih =>
    obtain ⟨m, before, spins⟩ := ih
    obtain ⟨r, tick, returns⟩ := spins.tick other
    obtain ⟨t, rest, again⟩ : ∃ t, Receives p r 0 t ∧ Spins t c p := by
      rcases Nat.lt_or_ge ((r.cpu c).a + 1) 16 with more | done
      · exact returns.again more
      · exact returns.requeue done
    exact ⟨t, before.append (tick.append rest), again⟩

theorem last_counter_wraps : ∃ s u as t, exec (step .mlfq) (boot 0) initForks = some s ∧
    At s 0 0 (.allocated 1) ∧ step .mlfq s (0, .fill true) = some u ∧ exec (step .mlfq) u as = some t ∧
    (∀ e ∈ trace (step .mlfq) u as, NeverBlocks e 1 ∧ NotAgeing e) ∧
    received (trace (step .mlfq) u as) 1 = 2 ^ 31 + 15 ∧ (t.proc 1).ticks 4 = -2 ^ 31 := by
  obtain ⟨s, u, m, before, forks, created, run, count, spins⟩ := child_descends
  obtain ⟨t, ⟨bs, long, total⟩, -⟩ := spins.receives (by decide) (2 ^ 31)
  have whole : Run (step .mlfq) (fun e => NeverBlocks e 1 ∧ NotAgeing e) u (childDescends ++ bs) t :=
    run.append long
  have received_all : received (trace (step .mlfq) u (childDescends ++ bs)) 1 = 2 ^ 31 + 15 := by
    rw [trace_append run.ends, received, List.countP_append, Nat.add_comm]
    exact congrArg₂ (· + ·) total count
  have tally := tally_received (quiet_boot 0) before forks created whole.ends
    (fun e member => (whole.meets e member).1) fun e member => (whole.meets e member).2.promotesNobody
  refine ⟨s, u, childDescends ++ bs, t, before, forks, created, whole.ends, whole.meets, received_all, ?_⟩
  refine (tally.ticks 4).trans ?_
  rw [received_all]
  unfold int32
  decide

end Forever

end Xv6.Proof
