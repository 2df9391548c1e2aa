import Xv6.Proof.Membership

namespace Xv6.Proof
open Xv6.Library Xv6.Kernel State

variable {n : Nat} {s t : State n} {c bsp : Fin n} {p : Slot} {a : Action}
  {as : List (Fin n × Action)} {es : List (State n × (Fin n × Action))}

def New (s : State n) (p : Slot) : Prop := (s.proc p).state = .unused ∨ (s.proc p).state = .embryo

inductive Early (s t : State n) (c : Fin n) (a : Action) : Prop
  | keep (queue : t.queue = s.queue) (proc : ∀ d, (t.cpu d).proc = none)
      (state : ∀ p, (t.proc p).state = (s.proc p).state ∨ New s p ∧ New t p)
      (main : inMain (stage (s.cpu c).mode) ∨ stage (s.cpu c).mode = .stopped →
        inMain (stage (t.cpu c).mode) ∨ stage (t.cpu c).mode = .stopped)
  | clear (mode : (s.cpu c).mode = .resetTail 0)
      (queue : t.queue = Function.update s.queue 0 { s.queue 0 with tail := 0 })
      (proc : ∀ d, (t.cpu d).proc = none) (state : ∀ p, (t.proc p).state = (s.proc p).state)
  | publish (p : Slot) (action : a = .go) (mode : (s.cpu c).mode = .userCopied p)
      (queue : t.queue = Function.update s.queue 0 ((s.queue 0).push (some p)))
      (proc : ∀ d, (t.cpu d).proc = none) (runnable : (t.proc p).state = .runnable)
      (state : ∀ r, r ≠ p → (t.proc r).state = (s.proc r).state) (left : inMain (stage (t.cpu c).mode) = false)
  | pick (p : Slot) (mode : (s.cpu c).mode = .loop) (picked : s.pick = some p) (runnable : (s.proc p).state = .runnable)
      (running : (t.proc p).state = .running)

theorem Change.early (change : Change .mlfq s t c a) (idle : ∀ d, (s.cpu d).proc = none) (head : (s.queue 0).head = 0)
    (rest : ∀ q, q ≠ 0 → s.queue q = emptyRing) (calm : ∀ p, New s p ∨ (s.proc p).state = .runnable)
    (ready : ∀ p, s.pick = some p → (s.proc p).state = .runnable) : Early s t c a := by
  have keep (queue : (view t).queue = (view s).queue) (proc : ∀ d, ((view t).turn d).proc = ((view s).turn d).proc)
      (state : ∀ p, ((view t).core p).state = ((view s).core p).state ∨ New s p ∧ New t p)
      (main : inMain ((view s).turn c).stage ∨ ((view s).turn c).stage = .stopped →
        inMain ((view t).turn c).stage ∨ ((view t).turn c).stage = .stopped) : Early s t c a :=
    .keep queue (fun d => (proc d).trans (idle d)) state main
  have stopped {r : Slot} {state : ProcState} (known : (s.proc r).state = state)
      (other : state ≠ .unused ∧ state ≠ .embryo ∧ state ≠ .runnable) : False := by
    rcases calm r with (unused | embryo) | runnable
    · exact other.1 (known.symm.trans unused)
    · exact other.2.1 (known.symm.trans embryo)
    · exact other.2.2 (known.symm.trans runnable)
  have nobody {d : Fin n} {r : Slot} (own : (s.cpu d).proc = some r) : False := by
    rw [idle d] at own
    cases own
  have same (view : view t = view s) : Early s t c a :=
    keep (by rw [view]) (fun d => by rw [view]) (fun r => .inl (by rw [view])) (by rw [view]; exact id)
  have young {q : Level} {i : Fin NPROC} {r : Slot} (low : q ≠ 0) (aged : s.aged q i = some r) : False := by
    simp [State.aged, rest q low, emptyRing] at aged
  cases change with
  | quiet view => exact same view
  | halt view =>
    exact keep (by simp [view]) (fun d => by by_cases here : d = c <;> simp [view, here])
      (fun r => .inl (by simp [view])) fun _ => .inr (by simp [view])
  | timer _ stage _ view | resetDone stage view =>
    refine keep (by simp [view]) (fun d => by by_cases here : d = c <;> simp [view, here])
      (fun r => .inl (by simp [view])) fun main => ?_
    simp [Proof.view, turn, stage, inMain] at main
  | timerDone mode _ view | enterReset mode _ view =>
    refine keep (by simp [view]) (fun d => by by_cases here : d = c <;> simp [view, here])
      (fun r => .inl (by simp [view])) fun main => ?_
    simp [Proof.view, turn, Proof.stage, mode, inMain] at main
  | resetHead q _ view =>
    refine same (view.trans (View.setRing_self ?_))
    change { s.queue q with head := 0 } = s.queue q
    by_cases first : q = 0
    · rw [first, ← head]
    · rw [rest q first]
      rfl
  | resetTail q mode view =>
    by_cases first : q = 0
    · subst first
      refine .clear mode (congrArg View.queue view) (fun d => ?_) fun r => ?_
      · exact (congrArg Turn.proc (congrFun (congrArg View.turn view) d)).trans (idle d)
      · exact congrArg Core.state (congrFun (congrArg View.core view) r)
    refine same (view.trans (View.setRing_self ?_))
    change { s.queue q with tail := 0 } = s.queue q
    rw [rest q first]
    rfl
  | bootFail p f _ embryo unused view =>
    refine keep (by simp [view]) (fun d => by by_cases here : d = c <;> simp [view, here])
      (fun r => ?_) fun _ => .inr (by simp [view])
    by_cases here : r = p
    · subst here
      refine .inr ⟨.inr embryo, .inl ?_⟩
      change ((Proof.view t).core r).state = _
      simp [view, (unused _).state]
    · exact .inl (by simp [view, here])
  | alloc o p acts _ _ unused _ view =>
    cases o with
    | inr => exact (nobody acts.1).elim
    | inl d =>
      obtain rfl : d = c := acts
      refine keep (by simp [view]) (fun e => ?_) (fun r => ?_) fun _ => .inl ?_
      · by_cases here : e = d <;> simp [view, View.own, here]
      · by_cases here : r = p
        · subst here
          refine .inr ⟨.inl unused, .inr ?_⟩
          change ((Proof.view t).core r).state = _
          simp [view, View.own]
        · exact .inl (by simp [view, View.own, here])
      · simp [view, View.own, inMain]
  | fill o p acts _ _ _ _ view =>
    cases o with
    | inr => exact (nobody acts.1).elim
    | inl d =>
      refine keep (by simp [view]) (fun e => by simp [view]) (fun r => .inl ?_) (by simp [view])
      by_cases here : r = p <;> simp [view, View.filled, here]
  | publish o p acts last _ _ _ _ view =>
    cases o with
    | inr => exact (nobody acts.1).elim
    | inl d =>
      obtain rfl : d = c := acts
      refine .publish p (last rfl).1 (last rfl).2 ?_ (fun e => ?_) ?_ (fun r other => ?_) ?_
      · change (Proof.view t).queue = _
        rw [view]
        rfl
      · refine Eq.trans ?_ (idle e)
        change ((Proof.view t).turn e).proc = ((Proof.view s).turn e).proc
        by_cases here : e = d <;> simp [view, View.disown, here]
      · change ((Proof.view t).core p).state = _
        simp [view, View.disown, View.push_core]
      · change ((Proof.view t).core r).state = ((Proof.view s).core r).state
        simp [view, View.disown, View.push_core, other]
      · change inMain ((Proof.view t).turn d).stage = false
        simp [view, View.disown, inMain]
  | pick p q _ _ mode _ picked runnable _ view =>
    refine .pick p mode picked runnable ?_
    change ((Proof.view t).core p).state = _
    simp [view]
  | asleep p _ picked blocked => exact absurd (ready p picked) blocked
  | chpr p _ _ view =>
    refine keep (by simp [view]) (fun d => by simp [view]) (fun r => .inl ?_) (by simp [view])
    by_cases here : r = p <;> simp [view, here]
  | dispatch p _ _ _ selects => exact selects.elim
  | reap p f zombie => exact (stopped zombie (by decide)).elim
  | wake p q asleep => exact (stopped asleep (by decide)).elim
  | promote q m i p _ low _ aged => exact (young low aged).elim
  | ageingPanic q i p low _ aged => exact (young low aged).elim
  | discard _ p f acts => exact (nobody acts).elim
  | again p _ _ _ own => exact (nobody own).elim
  | requeue p q _ _ _ own => exact (nobody own).elim
  | leave p _ _ own => exact (nobody own).elim
  | charge p q _ _ own => exact (nobody own).elim
  | yield p _ own => exact (nobody own).elim
  | exit p _ own => exact (nobody own).elim
  | block p _ own => exact (nobody own).elim

structure Still (s : State n) (ring : Ring NPROC (Option Slot)) : Prop where
  idle : ∀ c, (s.cpu c).proc = none
  first : s.queue 0 = ring
  rest : ∀ q, q ≠ 0 → s.queue q = emptyRing

theorem Still.pick {ring : Ring NPROC (Option Slot)} (h : Still s ring) : s.pick = ring.first := by
  have levels : List.finRange 5 = [0, 1, 2, 3, 4] := by decide
  have low (q : Level) (positive : q ≠ 0) : (s.queue q).first = none := by
    rw [h.rest q positive]
    decide +kernel
  rw [State.pick, levels]
  simp only [List.findSome?_cons, List.findSome?_nil, h.first,
    low 1 (by decide), low 2 (by decide), low 3 (by decide), low 4 (by decide)]
  cases ring.first <;> rfl

structure Unpublished (bsp : Fin n) (s : State n) : Prop where
  still : Still s emptyRing
  new : ∀ p, New s p
  others : ∀ c, c ≠ bsp → inMain (stage (s.cpu c).mode) = false
  main : inMain (stage (s.cpu bsp).mode) ∨ stage (s.cpu bsp).mode = .stopped

structure Published (s : State n) (p : Slot) (ring : Ring NPROC (Option Slot)) : Prop where
  still : Still s ring
  runnable : (s.proc p).state = .runnable
  new : ∀ r, r ≠ p → New s r
  past : ∀ c, inMain (stage (s.cpu c).mode) = false

def waitingRing (p : Slot) : Ring NPROC (Option Slot) := emptyRing.push (some p)

def wipedRing (p : Slot) : Ring NPROC (Option Slot) := { waitingRing p with tail := 0 }

theorem unpublished_boot (bsp : Fin n) : Unpublished bsp (boot bsp) where
  still := ⟨fun _ => rfl, rfl, fun _ _ => rfl⟩
  new _ := .inl rfl
  others c other := by simp [boot, Cpu.zero, other, stage, inMain]
  main := .inl (by simp [boot, Cpu.zero, stage, inMain])

theorem Unpublished.change (h : Unpublished bsp s) (change : Change .mlfq s t c a) : Unpublished bsp t ∨
      ∃ p, a = .go ∧ (s.cpu c).mode = .userCopied p ∧ Published t p (waitingRing p) := by
  have nothing : s.pick = none := by
    rw [h.still.pick]
    decide +kernel
  have others (d : Fin n) (other : d ≠ bsp) := change.notMain (h.others d other)
  have main (elsewhere : c ≠ bsp) : inMain (stage (t.cpu bsp).mode) ∨ stage (t.cpu bsp).mode = .stopped := by
    rcases change.stage bsp with same | ⟨here, -⟩
    · change stage (t.cpu bsp).mode = stage (s.cpu bsp).mode at same
      rw [same]
      exact h.main
    · exact absurd here.symm elsewhere
  cases change.early h.still.idle (by rw [h.still.first]; rfl) h.still.rest
    (fun p => .inl (h.new p)) (by simp [nothing]) with
  | keep queue proc state stays =>
    refine .inl ⟨⟨proc, ?_, fun q low => ?_⟩, fun p => ?_, others, ?_⟩
    · rw [queue, h.still.first]
    · rw [queue, h.still.rest q low]
    · rcases state p with same | ⟨-, new⟩
      · simpa [New, same] using h.new p
      · exact new
    · by_cases here : c = bsp
      · subst here
        exact stays h.main
      · exact main here
  | clear mode queue proc state =>
    refine .inl ⟨⟨proc, ?_, fun q low => ?_⟩, fun p => ?_, others, main ?_⟩
    · simp [queue, h.still.first, emptyRing]
    · simp [queue, low, h.still.rest q low]
    · simpa [New, state p] using h.new p
    · rintro rfl
      simpa [mode, stage, inMain] using h.main
  | publish p action mode queue proc runnable state left =>
    obtain rfl : c = bsp := by
      by_contra other
      simpa [mode, stage, inMain] using h.others c other
    refine .inr ⟨p, action, mode, ⟨proc, ?_, fun q low => ?_⟩, runnable, fun r other => ?_, fun d => ?_⟩
    · simp [queue, h.still.first, waitingRing]
    · simp [queue, low, h.still.rest q low]
    · simpa [New, state r other] using h.new r
    · by_cases here : d = c
      · rw [here]
        exact left
      · exact others d here
  | pick p mode picked runnable running =>
    rw [nothing] at picked
    cases picked

theorem Published.change {ring : Ring NPROC (Option Slot)} (h : Published s p ring)
    (head : ring.head = 0) (first : ring.first = none ∨ ring.first = some p)
    (change : Change .mlfq s t c a) :
    Published t p ring ∨ (s.cpu c).mode = .resetTail 0 ∧ Published t p { ring with tail := 0 } ∨
      (s.cpu c).mode = .loop ∧ ring.first = some p ∧ (t.proc p).state = .running := by
  have past (d : Fin n) := change.notMain (h.past d)
  have blocked : ¬ New s p := by simp [New, h.runnable]
  cases change.early h.still.idle (by rw [h.still.first, head]) h.still.rest (fun r => by
      by_cases here : r = p
      · exact .inr (here ▸ h.runnable)
      · exact .inl (h.new r here))
    (fun r picked => by
      rw [h.still.pick] at picked
      rcases first with none | some
      · rw [none] at picked
        cases picked
      · exact Option.mem_unique picked some ▸ h.runnable) with
  | keep queue proc state stays =>
    refine .inl ⟨⟨proc, queue ▸ h.still.first, fun q low => queue ▸ h.still.rest q low⟩, ?_, fun r other => ?_, past⟩
    · exact ((state p).resolve_right fun new => blocked new.1).trans h.runnable
    · rcases state r with same | ⟨-, new⟩
      · simpa [New, same] using h.new r other
      · exact new
  | clear mode queue proc state =>
    refine .inr (.inl ⟨mode, ⟨proc, ?_, fun q low => ?_⟩, ?_, fun r other => ?_, past⟩)
    · simp [queue, h.still.first]
    · simp [queue, low, h.still.rest q low]
    · rw [state p, h.runnable]
    · simpa [New, state r] using h.new r other
  | publish r action mode queue proc runnable state left =>
    simpa [mode, stage, inMain] using h.past c
  | pick r mode picked runnable running =>
    rw [h.still.pick] at picked
    rcases first with none | some
    · rw [none] at picked
      cases picked
    · obtain rfl : r = p := Option.mem_unique picked some
      exact .inr (.inr ⟨mode, some, running⟩)

def Publishes (e : State n × (Fin n × Action)) (p : Slot) : Prop :=
  e.2.2 = .go ∧ (e.1.cpu e.2.1).mode = .userCopied p

/-- Processor `c` has found `flag` set, or has set it itself after the last store of the reset. -/
def Passed (es : List (State n × (Fin n × Action))) (c : Fin n) : Prop :=
  ∃ e ∈ es, e.2 = (c, .go) ∧ ((e.1.cpu c).mode = .enter ∧ e.1.flag ≠ 0 ∨ (e.1.cpu c).mode = .resetHead 5)

def Clears (e : State n × (Fin n × Action)) (p : Slot) : Prop :=
  (e.1.cpu e.2.1).mode = .resetTail 0 ∧ (e.1.proc p).state = .runnable

def Wiped (es : List (State n × (Fin n × Action))) (p : Slot) : Prop :=
  ∃ before e, before ++ [e] <+: es ∧ Clears e p ∧ ∀ d ∈ before, ¬ Dispatches .mlfq d p

theorem wiped_snoc {e : State n × (Fin n × Action)} :
    Wiped (es ++ [e]) p ↔ Wiped es p ∨ Clears e p ∧ ∀ d ∈ es, ¬ Dispatches .mlfq d p := by
  constructor
  · rintro ⟨before, d, first, clears, never⟩
    rcases List.prefix_concat_iff.mp first with whole | earlier
    · obtain ⟨rfl, last⟩ := List.append_inj' whole rfl
      obtain rfl : d = e := by simpa using last
      exact .inr ⟨clears, never⟩
    · exact .inl ⟨before, d, earlier, clears, never⟩
  · rintro (⟨before, d, first, clears, never⟩ | ⟨clears, never⟩)
    · exact ⟨before, d, first.trans (List.prefix_append ..), clears, never⟩
    · exact ⟨es, e, List.prefix_refl _, clears, never⟩

inductive Phase (bsp : Fin n) (es : List (State n × (Fin n × Action))) (t : State n) : Prop
  | unpublished (state : Unpublished bsp t) (early : ¬ Passed es bsp) (new : ∀ e ∈ es, ∀ p, New e.1 p)
  | waiting (p : Slot) (published : ∃ e ∈ es, Publishes e p) (state : Published t p (waitingRing p))
      (kept : ¬ Wiped es p) (never : ∀ e ∈ es, ¬ Dispatches .mlfq e p)
  | wiped (p : Slot) (published : ∃ e ∈ es, Publishes e p) (state : Published t p (wipedRing p))
      (wiped : Wiped es p) (never : ∀ e ∈ es, ¬ Dispatches .mlfq e p)
  | dispatched (p : Slot) (published : ∃ e ∈ es, Publishes e p)
      (dispatched : ∃ e ∈ es, Dispatches .mlfq e p) (kept : ¬ Wiped es p)

theorem step_resetTail {pol : Policy} (mode : (s.cpu c).mode = .resetTail 0)
    (action : step pol s (c, a) = some t) : (t.queue 0).tail = 0 := by
  have idle : s.working c = none := by simp [State.working, mode]
  cases a
  case sleep chan => cases chan <;> simp [step, idle] at action
  all_goals simp [step, State.go, State.interruptible, mode, idle] at action
  rw [← action]
  simp [State.resetTail]

theorem Phase.step (h : Phase bsp es s) (wf : WellFormed s)
    (action : step .mlfq s (c, a) = some t) : Phase bsp (es ++ [(s, (c, a))]) t := by
  have change := step_change wf action
  have later {P : State n × (Fin n × Action) → Prop} (before : ∃ e ∈ es, P e) : ∃ e ∈ es ++ [(s, (c, a))], P e := by
    obtain ⟨e, member, holds⟩ := before
    exact ⟨e, by simp [member], holds⟩
  have now {P : State n × (Fin n × Action) → Prop} (holds : P (s, (c, a))) : ∃ e ∈ es ++ [(s, (c, a))], P e :=
    ⟨_, by simp, holds⟩
  have still {p : Slot} (never : ∀ e ∈ es, ¬ Dispatches .mlfq e p) (state : (t.proc p).state = .runnable) :
      ∀ e ∈ es ++ [(s, (c, a))], ¬ Dispatches .mlfq e p := by
    intro e member dispatches
    rcases List.mem_append.mp member with old | last
    · exact never e old dispatches
    obtain rfl : e = (s, (c, a)) := by simpa using last
    obtain ⟨-, u, reached, running⟩ := dispatches
    obtain rfl : t = u := Option.mem_unique action reached
    simp [state] at running
  cases h with
  | unpublished state early new =>
    rcases state.change change with same | ⟨p, go, mode, next⟩
    · refine .unpublished same ?_ ?_
      · rintro ⟨e, member, acts, passes⟩
        rcases List.mem_append.mp member with old | last
        · exact early ⟨e, old, acts, passes⟩
        · obtain rfl : e = (s, (c, a)) := by simpa using last
          have main := state.main
          rcases passes with ⟨mode, -⟩ | mode <;> rw [mode] at main <;> simp [stage, inMain] at main
      · intro e member
        rcases List.mem_append.mp member with old | last
        · exact new e old
        · obtain rfl : e = (s, (c, a)) := by simpa using last
          exact state.new
    · have blocked {e : State n × (Fin n × Action)} (member : e ∈ es) : (e.1.proc p).state ≠ .runnable := by
        rcases new e member p with state | state <;> simp [state]
      refine .waiting p (now ⟨go, mode⟩) next ?_ (still (fun e member h => blocked member h.1) next.runnable)
      rw [wiped_snoc]
      rintro (⟨_, e, first, ⟨-, runnable⟩, -⟩ | ⟨⟨clears, -⟩, -⟩)
      · exact blocked (first.subset (by simp)) runnable
      · simp [mode] at clears
  | waiting p published state kept never =>
    have quiet (mode : (s.cpu c).mode ≠ .resetTail 0) : ¬ Wiped (es ++ [(s, (c, a))]) p := by
      rw [wiped_snoc]
      rintro (old | ⟨⟨clears, -⟩, -⟩)
      · exact kept old
      · exact mode clears
    rcases state.change rfl (.inr rfl) change with same | ⟨mode, next⟩ | ⟨mode, -, running⟩
    · refine .waiting p (later published) same (quiet fun mode => ?_) (still never same.runnable)
      have cleared := step_resetTail mode action
      rw [same.still.first] at cleared
      exact Ring.next_ne 0 (by decide) cleared
    · exact .wiped p (later published) next
        (wiped_snoc.mpr (.inr ⟨⟨mode, state.runnable⟩, never⟩)) (still never next.runnable)
    · refine .dispatched p (later published) (now ⟨state.runnable, t, action, running⟩) (quiet ?_)
      rw [mode]
      decide
  | wiped p published state wiped never =>
    have empty : (wipedRing p).first = none := by
      rw [Ring.first_eq, (Ring.toList_eq_nil_iff _).mpr rfl]
      rfl
    rcases state.change rfl (.inl empty) change with same | ⟨mode, next⟩ | ⟨mode, found, running⟩
    · exact .wiped p (later published) same (wiped_snoc.mpr (.inl wiped)) (still never same.runnable)
    · exact .wiped p (later published) next (wiped_snoc.mpr (.inl wiped)) (still never next.runnable)
    · rw [empty] at found
      cases found
  | dispatched p published dispatched kept =>
    refine .dispatched p (later published) (later dispatched) ?_
    rw [wiped_snoc]
    rintro (old | ⟨-, never⟩)
    · exact kept old
    · obtain ⟨e, member, dispatches⟩ := dispatched
      exact never e member dispatches

/-- Once every processor has passed the reset, the first process is in ring 0 or has been dispatched,
unless a processor made the store `queue_tail[0] = 0` while it waited there. -/
theorem first_process_kept_iff (run : exec (step .mlfq) (boot bsp) as = some t)
    (passed : ∀ c, Passed (trace (step .mlfq) (boot bsp) as) c) :
    ∃ p, (∃ e ∈ trace (step .mlfq) (boot bsp) as, Publishes e p) ∧
      ((∃ i, OccursAt t p 0 i) ∨ (∃ e ∈ trace (step .mlfq) (boot bsp) as, Dispatches .mlfq e p) ↔
        ¬ Wiped (trace (step .mlfq) (boot bsp) as) p) := by
  have phase : WellFormed t ∧ Phase bsp (trace (step .mlfq) (boot bsp) as) t := by
    refine exec_induction (I := fun es t => WellFormed t ∧ Phase bsp es t) ?_ ?_ run
    · exact ⟨(quiet_boot bsp).wellFormed, .unpublished (unpublished_boot bsp) (by simp [Passed]) (by simp)⟩
    · rintro _ s ⟨c, a⟩ t ⟨wf, phase⟩ action
      exact ⟨wf.step action, phase.step wf action⟩
  cases phase.2 with
  | unpublished _ early => exact absurd (passed bsp) early
  | waiting p published state kept =>
    have member : some p ∈ (t.queue 0).toList := by
      rw [state.still.first, waitingRing, Ring.toList_push _ _ (by decide)]
      simp
    obtain ⟨i, live, cell⟩ := Ring.mem_toList.mp member
    exact ⟨p, published, iff_of_true (.inl ⟨i, live, cell⟩) kept⟩
  | wiped p published state wiped never =>
    refine ⟨p, published, iff_of_false ?_ (not_not.mpr wiped)⟩
    rintro (⟨i, occurs⟩ | ⟨e, member, dispatches⟩)
    · have member := occursAt_mem occurs
      rw [state.still.first, (Ring.toList_eq_nil_iff _).mpr rfl] at member
      cases member
    · exact never e member dispatches
  | dispatched p published dispatched kept =>
    exact ⟨p, published, iff_of_true (.inr dispatched) kept⟩

instance (es : List (State n × (Fin n × Action))) (c : Fin n) : Decidable (Passed es c) :=
  inferInstanceAs (Decidable (∃ e ∈ es, _ ∧ _))

instance (e : State n × (Fin n × Action)) (p : Slot) : Decidable (Clears e p) :=
  inferInstanceAs (Decidable (_ ∧ _))

instance (e : State n × (Fin n × Action)) (p : Slot) : Decidable (Publishes e p) :=
  inferInstanceAs (Decidable (_ ∧ _))

def secondResets : List (Fin 2 × Action) := untilCopied ++ List.replicate 3 (0, Action.go)

theorem first_process_kept_second : ∃ t, exec (step .mlfq) (boot 0) secondResets = some t ∧
    ∃ p, (∃ e ∈ trace (step .mlfq) (boot 0) secondResets, Publishes e p) ∧
      ((∃ i, OccursAt t p 0 i) ∨ ∃ e ∈ trace (step .mlfq) (boot 0) secondResets, Dispatches .mlfq e p) := by
  obtain ⟨⟨t, run⟩, passed, never⟩ : (∃ t, exec (step .mlfq) (boot 0) secondResets = some t) ∧
      (∀ c, Passed (trace (step .mlfq) (boot 0) secondResets) c) ∧
      ∀ e ∈ trace (step .mlfq) (boot 0) secondResets, ∀ p, ¬ Clears e p := by
    decide +kernel
  obtain ⟨p, published, kept⟩ := first_process_kept_iff run passed
  refine ⟨t, run, p, published, kept.mpr ?_⟩
  rintro ⟨_, e, first, clears, -⟩
  exact never e (first.subset (by simp)) p clears

def loneProcessor : List (Fin 1 × Action) :=
  List.replicate 3 (0, Action.go) ++ [(0, Action.fill true), (0, .copy true)] ++ List.replicate 14 (0, Action.go)

theorem first_process_lost : ∃ t, exec (step .mlfq) (boot 0) loneProcessor = some t ∧
    (∀ c, Passed (trace (step .mlfq) (boot 0) loneProcessor) c) ∧
    (∃ e ∈ trace (step .mlfq) (boot 0) loneProcessor, Publishes e 0) ∧
    (∀ i, ¬ OccursAt t 0 0 i) ∧ ∀ e ∈ trace (step .mlfq) (boot 0) loneProcessor, ¬ Dispatches .mlfq e 0 := by
  obtain ⟨t, run, passed, published, empty, never⟩ : ∃ t, exec (step .mlfq) (boot 0) loneProcessor = some t ∧
      (∀ c, Passed (trace (step .mlfq) (boot 0) loneProcessor) c) ∧
      (∃ e ∈ trace (step .mlfq) (boot 0) loneProcessor, Publishes e 0) ∧ (t.queue 0).live = [] ∧
      ∀ e ∈ trace (step .mlfq) (boot 0) loneProcessor, ¬ Dispatches .mlfq e 0 := by
    decide +kernel
  refine ⟨t, run, passed, published, fun i occurs => ?_, never⟩
  simpa [empty] using occurs.1

end Xv6.Proof
