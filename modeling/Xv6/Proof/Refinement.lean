import Xv6.Library.Feedback
import Xv6.Proof.Boot
import Xv6.Proof.Overflow

/-!
# The rings as FIFO lists

MLFQ refines the scheduler of `Library.Feedback`: the lists are the live segments of the rings, a pass
with somebody RUNNABLE is the event `pass`, the return of a `swtch` the event `back`, and a process that
becomes RUNNABLE from EMBRYO or from SLEEPING is created or woken.
-/

namespace Xv6.Proof
open Xv6.Library Xv6.Kernel State
open Feedback hiding step idle

variable {n : Nat} {s t : State n} {v w u : View n} {c : Fin n} {p : Slot} {q : Level} {a : Action}
  {x : Lists 5 n Slot} {as : List (Fin n × Action)} {g : Turn → Turn} {f : Core → Core} {o : Fin n ⊕ Slot}

def mlfqRules : Rules 5 where
  top := 0
  slice q := sliceOf q.val
  demote q := ⟨min (q.val + 1) 4, by omega⟩
  positive := sliceOf_pos

def arrival (s t : State n) (p : Slot) : Option (Event n Slot) :=
  if (t.proc p).state = .runnable then
    match (s.proc p).state with
    | .embryo => some (.create p)
    | .sleeping => some (.wake p)
    | _ => none
  else none

def arrivals (s t : State n) : List (Event n Slot) := (List.finRange NPROC).filterMap (arrival s t)

/-- What a step of the kernel is to the scheduler of the lists. -/
def events (e : State n × (Fin n × Action)) : List (Event n Slot) :=
  if e.2.2 = .go ∧ (e.1.cpu e.2.1).mode = .loop then
    if ∃ p, (e.1.proc p).state = .runnable then [.pass e.2.1] else []
  else if e.2.2 = .go ∧ (e.1.cpu e.2.1).mode = .back then
    [.back e.2.1 ((e.1.cpu e.2.1).proc.any fun p => (e.1.proc p).state = .runnable)]
  else (step .mlfq e.1 e.2).elim [] (arrivals e.1)

/-- The lists are the live segments, the hands the `c->proc` with the turn of the slice loop, and a
process that exists has the level its `queue` names. -/
structure Simulates (v : View n) (x : Lists 5 n Slot) : Prop where
  wait : ∀ q, (v.queue q).toList = (x.wait q).map some
  hand : ∀ c, (v.turn c).proc = none ∧ x.hand c = none ∨
    ∃ p q, (v.turn c).proc = some p ∧ (v.core p).queue = (q : Level).val ∧
      x.hand c = some ⟨p, q, (v.turn c).a + 1⟩
  level : ∀ p, live (v.core p).state → (v.core p).queue = (x.level p).val

theorem Simulates.idle (h : Simulates v x) (free : (v.turn c).proc = none) : x.hand c = none := by
  rcases h.hand c with ⟨-, idle⟩ | ⟨p, q, own, -⟩
  · exact idle
  · rw [free] at own
    cases own

theorem Simulates.served (h : Simulates v x) (own : (v.turn c).proc = some p)
    (level : (v.core p).queue = q.val) : x.hand c = some ⟨p, q, (v.turn c).a + 1⟩ := by
  rcases h.hand c with ⟨free, -⟩ | ⟨r, l, other, here, hand⟩
  · rw [free] at own
    cases own
  · obtain rfl : r = p := Option.mem_unique other own
    obtain rfl : l = q := Fin.ext (by omega)
    exact hand

theorem Simulates.away (h : Simulates v x) (rings : Rings v) (stopped : (v.core p).state ≠ .runnable)
    (away : ∀ c, (v.turn c).proc ≠ some p) : x.Away p := by
  refine ⟨fun q member => ?_, fun c hand served => ?_⟩
  · exact rings.absent stopped q (by rw [h.wait q]; exact List.mem_map_of_mem member)
  rcases h.hand c with ⟨-, idle⟩ | ⟨r, q, own, -, same⟩
  · rw [idle] at served
    cases served
  · obtain rfl : _ = hand := Option.mem_unique same served
    rintro rfl
    exact away c own

structure Unseen (v w : View n) : Prop where
  queue : w.queue = v.queue
  turn : ∀ c, (w.turn c).proc = (v.turn c).proc ∧ (w.turn c).a = (v.turn c).a
  core : ∀ p, (w.core p).queue = (v.core p).queue ∨
    (∀ c, (v.turn c).proc ≠ some p) ∧ live (w.core p).state = false
  live : ∀ p, live (w.core p).state → live (v.core p).state
  calm : ∀ p, (w.core p).state = .runnable → (v.core p).state = .runnable ∨ (v.core p).state = .running

theorem Unseen.refl (v : View n) : Unseen v v :=
  ⟨rfl, fun _ => ⟨rfl, rfl⟩, fun _ => .inl rfl, fun _ => id, fun _ => .inl⟩

section
variable (h : Unseen v w)
include h

theorem Unseen.setTurn (same : ∀ k : Turn, (g k).proc = k.proc ∧ (g k).a = k.a) : Unseen v (w.setTurn c g) := by
  refine ⟨h.queue, fun d => ?_, h.core, h.live, h.calm⟩
  by_cases here : d = c
  · subst here
    simpa [same] using h.turn d
  · simpa [here] using h.turn d

theorem Unseen.setCore (queue : (f (w.core p)).queue = (w.core p).queue)
    (published : Proof.live (f (w.core p)).state → Proof.live (w.core p).state)
    (ready : (f (w.core p)).state = .runnable → (w.core p).state = .runnable ∨ (v.core p).state = .running) :
    Unseen v (w.setCore p f) := by
  refine ⟨h.queue, h.turn, fun r => ?_, fun r alive => ?_, fun r runnable => ?_⟩ <;> by_cases same : r = p
  · subst same
    rw [View.setCore_core_self, queue]
    rcases h.core r with level | ⟨away, unborn⟩
    · exact .inl level
    · exact .inr ⟨away, Bool.eq_false_iff.mpr fun alive => by simp [published alive] at unborn⟩
  · rw [View.setCore_core_ne _ _ _ same]
    exact h.core r
  · subst same
    rw [View.setCore_core_self] at alive
    exact h.live r (published alive)
  · rw [View.setCore_core_ne _ _ _ same] at alive
    exact h.live r alive
  · subst same
    rw [View.setCore_core_self] at runnable
    exact (ready runnable).elim (h.calm r) .inr
  · rw [View.setCore_core_ne _ _ _ same] at runnable
    exact h.calm r runnable

theorem Unseen.setCore_same (same : ∀ k : Core, (f k).state = k.state ∧ (f k).queue = k.queue) :
    Unseen v (w.setCore p f) :=
  h.setCore (same _).2 (by rw [(same _).1]; exact id) (by rw [(same _).1]; exact .inl)

theorem Unseen.own : Unseen v (w.own o p) := by
  cases o with
  | inl c => rw [View.own]; exact h.setTurn fun _ => ⟨rfl, rfl⟩
  | inr => rw [View.own]; exact h.setCore_same fun _ => ⟨rfl, rfl⟩

theorem Unseen.disown : Unseen v (w.disown o) := by
  cases o with
  | inl c => rw [View.disown]; exact h.setTurn fun _ => ⟨rfl, rfl⟩
  | inr => rw [View.disown]; exact h.setCore_same fun _ => ⟨rfl, rfl⟩

theorem Unseen.filled : Unseen v (w.filled o) := by
  cases o with
  | inl c => exact h
  | inr => rw [View.filled]; exact h.setCore_same fun _ => ⟨rfl, rfl⟩

theorem Unseen.simulates (before : Simulates v x) : Simulates w x where
  wait q := by rw [h.queue, before.wait]
  hand c := by
    rw [(h.turn c).1, (h.turn c).2]
    refine (before.hand c).imp id ?_
    rintro ⟨p, q, own, level, hand⟩
    refine ⟨p, q, own, ?_, hand⟩
    rcases h.core p with same | ⟨away, -⟩
    · exact same.trans level
    · exact absurd own (away c)
  level p alive := by
    rcases h.core p with same | ⟨-, unborn⟩
    · exact same.trans (before.level p (h.live p alive))
    · simp [alive] at unborn

end

section Moves

theorem Simulates.take (h : Simulates v x) (live : 0 < (v.queue q).count) : Simulates (v.drop q) (x.take q) := by
  refine ⟨fun l => ?_, h.hand, h.level⟩
  rw [View.drop_queue, take_wait]
  split_ifs with same
  · have split := (v.queue q).toList_drop live
    rw [h.wait q] at split
    rw [List.map_tail, split, List.tail_cons]
  · exact h.wait l

theorem Simulates.serve (h : Simulates v x) {hand : Option (Hand 5 Slot)}
    (ok : (g (v.turn c)).proc = none ∧ hand = none ∨ ∃ p q, (g (v.turn c)).proc = some p ∧
      (v.core p).queue = (q : Level).val ∧ hand = some ⟨p, q, (g (v.turn c)).a + 1⟩) :
    Simulates (v.setTurn c g) (x.serve c hand) := by
  refine ⟨h.wait, fun d => ?_, h.level⟩
  rw [View.setTurn_turn, serve_hand]
  split_ifs
  · exact ok
  · exact h.hand d

theorem Simulates.enqueue (h : Simulates v x) (room : (v.queue q).count + 1 < NPROC)
    (away : ∀ c, (v.turn c).proc ≠ some p) (f : Core → Core) :
    Simulates ((v.setCore p f).push q p) (x.join q p) := by
  refine ⟨fun l => ?_, fun c => ?_, fun r alive => ?_⟩
  · rw [View.push_queue, join_wait, View.setCore_queue]
    split_ifs with same
    · rw [(v.queue q).toList_push _ room, h.wait q, List.map_append, List.map_singleton]
    · exact h.wait l
  · refine (h.hand c).imp id ?_
    rintro ⟨r, l, own, level, hand⟩
    have other : r ≠ p := by
      rintro rfl
      exact away c own
    exact ⟨r, l, own, by simpa [View.push_core, other] using level, hand⟩
  · rw [View.push_core] at alive ⊢
    rw [join_level]
    split_ifs at alive ⊢ with same
    · rfl
    · rw [View.setCore_core_ne _ _ _ same] at alive ⊢
      exact h.level r alive

end Moves

theorem arrivals_nil (calm : ∀ p, (t.proc p).state = .runnable →
    (s.proc p).state = .runnable ∨ (s.proc p).state = .running) : arrivals s t = [] := by
  refine List.filterMap_eq_nil_iff.mpr fun p _ => ?_
  unfold arrival
  split_ifs with runnable
  · rcases calm p runnable with state | state <;> simp [state]
  · rfl

theorem arrivals_one {e : Event n Slot} (here : arrival s t p = some e)
    (others : ∀ r, r ≠ p → (t.proc r).state = (s.proc r).state) : arrivals s t = [e] := by
  have absent (r : Slot) (other : r ≠ p) : arrival s t r = none := by
    unfold arrival
    split_ifs with runnable
    · rw [others r other] at runnable
      simp [runnable]
    · rfl
  obtain ⟨before, after, split⟩ := List.append_of_mem (List.mem_finRange p)
  have unique : (before ++ p :: after).Nodup := split ▸ List.nodup_finRange NPROC
  obtain ⟨-, tail, apart⟩ := List.nodup_append.mp unique
  have none₁ : before.filterMap (arrival s t) = [] := List.filterMap_eq_nil_iff.mpr fun r member =>
    absent r (apart r member p (List.mem_cons_self ..))
  have none₂ : after.filterMap (arrival s t) = [] := List.filterMap_eq_nil_iff.mpr fun r member =>
    absent r fun same => (List.nodup_cons.mp tail).1 (same ▸ member)
  rw [arrivals, split, List.filterMap_append, List.filterMap_cons, here, none₁, none₂]
  rfl

section Step
variable (h : Simulates (view s) x) (stocked : Stocked s)
include h stocked

theorem Simulates.pass (mode : (s.cpu c).mode = .loop) (action : step .mlfq s (c, .go) = some t) :
    ∃ y, exec (Feedback.step mlfqRules) x (events (s, (c, .go))) = some y ∧ Simulates (view t) y := by
  simp only [step, State.go, mode] at action
  obtain ⟨free, rfl⟩ := locked_eq_some action
  have idle : (s.cpu c).proc = none := by
    exact (stocked.wf.control.ok mode).2.2
  simp only [events, mode, and_self, if_true]
  by_cases someone : ∃ p, (s.proc p).state = .runnable
  · -- with the lock free whoever is RUNNABLE is in a ring, so the search ends with a process
    obtain ⟨p, picked⟩ : ∃ p, s.pick = some p := by
      obtain ⟨r, runnable⟩ := someone
      refine Option.ne_none_iff_exists'.mp fun nothing => ?_
      rcases stocked.kept r runnable with ⟨q, member⟩ | ⟨d, own⟩
      · have empty := stocked.rings.pick_none nothing q
        change some r ∈ (s.queue q).toList at member
        simp [empty] at member
      · have running := (stocked.wf.control.cpu d).proc_running (by simp [free]) own
        rw [running] at runnable
        cases runnable
    obtain ⟨q, level, runnable, live, head, lower⟩ := stocked.rings.pick picked
    have here : x.wait q = p :: (x.wait q).tail := by
      have split := (s.queue q).toList_drop live
      have same : (s.queue q).toList = (x.wait q).map some := h.wait q
      rw [same, head] at split
      cases waiting : x.wait q with
      | nil => simp [waiting] at split
      | cons r =>
        rw [waiting, List.map_cons, List.cons.injEq] at split
        rw [Option.some.inj split.1, List.tail_cons]
    have none (l : Level) (below : l < q) : x.wait l = [] := by
      have same : (s.queue l).toList = (x.wait l).map some := h.wait l
      rw [lower l below] at same
      exact List.map_eq_nil_iff.mp same.symm
    refine ⟨(x.take q).serve c (some ⟨p, q, 1⟩), ?_, ?_⟩
    · rw [if_pos someone]
      refine exec_singleton ?_
      simp [Feedback.step, h.idle idle, first_eq here none]
    rw [view_pass_mlfq (s := s.acquire c) picked runnable level]
    have taken : Simulates ((view s).drop q) (x.take q) := h.take live
    have running := ((Unseen.refl ((view s).drop q)).setCore (p := p) (f := ({ · with state := .running }))
      rfl (fun _ => by simp [view, core, runnable, Proof.live]) (by simp)).simulates taken
    exact running.serve (.inr ⟨p, q, rfl, by rw [View.setCore_core_self]; exact level, rfl⟩)
  · refine ⟨x, by rw [if_neg someone]; rfl, ?_⟩
    have nobody : s.pick = none := by
      cases picked : s.pick with
      | none => rfl
      | some p =>
        obtain ⟨-, -, runnable, -⟩ := stocked.rings.pick picked
        exact absurd ⟨p, runnable⟩ someone
    rw [view_pass_mlfq_none (s := s.acquire c) mode nobody]
    exact h

theorem Simulates.back (room : Room s t) (mode : (s.cpu c).mode = .back) (action : step .mlfq s (c, .go) = some t) :
    ∃ y, exec (Feedback.step mlfqRules) x (events (s, (c, .go))) = some y ∧ Simulates (view t) y := by
  obtain ⟨-, ⟨p, own, saved, -⟩, -⟩ := stocked.wf.control.ok mode
  simp only [step, State.go, mode] at action
  obtain rfl : s.back .mlfq c = t := Option.some.inj action
  obtain ⟨q, level⟩ := stocked.wf.level p
  have served : x.hand c = some ⟨p, q, (s.cpu c).a + 1⟩ := h.served own level
  have left : Simulates ((view s).setTurn c ({ · with proc := none, stage := .plain })) (x.serve c none) :=
    h.serve (.inl ⟨rfl, rfl⟩)
  simp only [events, mode, reduceCtorEq, and_false, if_false, and_self, if_true, own, Option.any_some]
  by_cases runnable : (s.proc p).state = .runnable
  · by_cases more : (s.cpu c).a + 1 < sliceOf (s.proc p).queue
    · refine ⟨x.serve c (some ⟨p, q, (s.cpu c).a + 1 + 1⟩), exec_singleton ?_, ?_⟩
      · rw [level] at more
        simp [Feedback.step, served, runnable, mlfqRules, more]
      rw [view_back_again saved runnable more]
      have running := ((Unseen.refl (view s)).setCore (p := p) (f := ({ · with state := .running }))
        rfl (fun _ => by simp [view, core, runnable, Proof.live]) (by simp)).simulates h
      exact running.serve (.inr ⟨p, q, rfl, by rw [View.setCore_core_self]; exact level, rfl⟩)
    have bounds : 0 ≤ (s.proc p).queue ∧ (s.proc p).queue ≤ 4 := stocked.wf.bounded p
    have lower : (mlfqRules.demote q).val = min ((s.proc p).queue + 1) 4 := by
      rw [level]
      simp [mlfqRules]
    have result := view_back_requeue saved bounds runnable (not_lt.mp more) lower
    refine ⟨(x.serve c none).join (mlfqRules.demote q) p, exec_singleton ?_, ?_⟩
    · rw [level] at more
      simp [Feedback.step, served, runnable, mlfqRules, more]
    rw [result]
    have space : (s.queue (mlfqRules.demote q)).count + 1 < NPROC := by
      refine room _ (enqueues_of_push (p := p) ?_)
      change (view _).queue _ = _
      rw [result]
      simp [View.push_queue]
      rfl
    have away (d : Fin n) : (((view s).setTurn c ({ · with proc := none, stage := .plain })).turn d).proc ≠
        some p := by
      by_cases same : d = c
      · simp [same]
      · rw [View.setTurn_turn_ne _ _ _ same]
        exact fun elsewhere => same (stocked.wf.control.inj d c p elsewhere own)
    have joined := left.enqueue space away id
    rw [View.setCore_self rfl] at joined
    exact joined
  · refine ⟨x.serve c none, exec_singleton ?_, ?_⟩
    · simp [Feedback.step, served, runnable]
    · rw [view_back_blocked saved runnable]
      exact left

theorem Simulates.change (resets : ResetsNothing s c) (young : PromotesNobody s c) (room : Room s t)
    (other : ¬ (a = .go ∧ (s.cpu c).mode = .loop) ∧ ¬ (a = .go ∧ (s.cpu c).mode = .back))
    (change : Change .mlfq s t c a) :
    ∃ y, exec (Feedback.step mlfqRules) x (arrivals s t) = some y ∧ Simulates (view t) y := by
  have unseen (same : Unseen (view s) (view t)) : ∃ y, exec (Feedback.step mlfqRules) x (arrivals s t) = some y ∧
    Simulates (view t) y :=
    ⟨x, by rw [arrivals_nil same.calm]; rfl, same.simulates h⟩
  have start := Unseen.refl (view s)
  have arrives {p : Slot} {q : Level} {e : Event n Slot}
    (stopped : (s.proc p).state ≠ .runnable) (away : ∀ d, (s.cpu d).proc ≠ some p)
      (queue : (view t).queue q = ((view s).queue q).push (some p))
      (state : ∀ r, ((view t).core r).state = if r = p then .runnable else ((view s).core r).state)
      (here : (t.proc p).state = .runnable → arrival s t p = some e)
      (action : x.Away p → Feedback.step mlfqRules x e = some (x.join q p))
      (after : Simulates (((view s).setCore p ({ · with state := .runnable })).push q p) (x.join q p) →
        Simulates (view t) (x.join q p)) :
      ∃ y, exec (Feedback.step mlfqRules) x (arrivals s t) = some y ∧ Simulates (view t) y := by
    refine ⟨x.join q p, ?_, after (h.enqueue (room q (enqueues_of_push queue)) away _)⟩
    have runnable : (t.proc p).state = .runnable := (state p).trans (if_pos rfl)
    rw [arrivals_one (here runnable) fun r apart => (state r).trans (if_neg apart)]
    exact exec_singleton (action (h.away stocked.rings stopped away))
  cases change with
  | quiet view => exact unseen (view ▸ start)
  | halt view => exact unseen (view ▸ start.setTurn fun _ => ⟨rfl, rfl⟩)
  | timer _ _ _ view =>
    have served := start.setTurn (c := c) (g := ({ · with stage := .trap })) fun _ => ⟨rfl, rfl⟩
    exact unseen (view ▸ ⟨served.queue, served.turn, served.core, served.live, served.calm⟩)
  | timerDone _ _ view => exact unseen (view ▸ start.setTurn fun _ => ⟨rfl, rfl⟩)
  | enterReset _ _ view => exact unseen (view ▸ start.setTurn fun _ => ⟨rfl, rfl⟩)
  | resetDone _ view =>
    have done := start.setTurn (c := c) (g := ({ · with stage := .plain })) fun _ => ⟨rfl, rfl⟩
    exact unseen (view ▸ ⟨done.queue, done.turn, done.core, done.live, done.calm⟩)
  | resetHead q mode view => exact unseen (view ▸ (resets.head mode).symm ▸ start)
  | resetTail q mode view => exact unseen (view ▸ (resets.tail mode).symm ▸ start)
  | bootFail p f _ _ unused view =>
    exact unseen (view ▸ (start.setCore (unused _).queue (by simp [(unused _).state, Proof.live])
      (by simp [(unused _).state])).setTurn fun _ => ⟨rfl, rfl⟩)
  | alloc o p _ _ _ _ away view =>
    have taken : Unseen (Proof.view s) ((Proof.view s).setCore p ({ · with
        state := .embryo, pid := s.nextpid, priority := 60, queue := 0 })) := by
      refine ⟨rfl, fun _ => ⟨rfl, rfl⟩, fun r => ?_, fun r => ?_, fun r => ?_⟩ <;> by_cases same : r = p
      · exact .inr ⟨same ▸ away, by simp [same, Proof.live]⟩
      · exact .inl (by simp [same])
      · simp [same, Proof.live]
      · simp [same]
      · simp [same]
      · simpa [same] using Or.inl
    have owned := taken.own (o := o) (p := p)
    exact unseen (view ▸ ⟨owned.queue, owned.turn, owned.core, owned.live, owned.calm⟩)
  | fill o p _ _ _ _ _ view =>
    rw [view] at unseen ⊢
    refine unseen (.filled (.setCore_same start ?_))
    exact fun _ => ⟨rfl, rfl⟩
  | discard _ p f _ _ _ unused view =>
    exact unseen
      (view ▸
        (start.setCore (unused _).queue (by simp [(unused _).state, Proof.live]) (by simp [(unused _).state])).disown)
  | publish o p _ _ _ _ embryo away view =>
    refine arrives (q := 0) (e := .create p) (by simp [embryo]) away ?_ (fun r => ?_) (fun runnable => ?_)
      (fun absent => ?_) fun joined => ?_
    · rw [view]
      simp [View.push_queue]
    · rw [view]
      by_cases same : r = p <;> simp [disown_alike.1, push_alike.1, same]
    · simp [arrival, runnable, embryo]
    · simp [Feedback.step, absent, mlfqRules]
    · exact view ▸ (Unseen.refl _).disown.simulates joined
  | reap p f _ unused view =>
    exact unseen
      (view ▸ start.setCore (unused _).queue (by simp [(unused _).state, Proof.live]) (by simp [(unused _).state]))
  | dispatch p _ _ _ selects => exact selects.elim
  | pick p q _ action mode => exact absurd ⟨action, mode⟩ other.1
  | asleep p _ picked stopped =>
    obtain ⟨-, -, runnable, -⟩ := stocked.rings.pick picked
    exact absurd runnable stopped
  | again p _ action mode => exact absurd ⟨action, mode⟩ other.2
  | requeue p q _ action mode => exact absurd ⟨action, mode⟩ other.2
  | leave p action mode => exact absurd ⟨action, mode⟩ other.2
  | promote q m i p _ _ mode aged => simp [young.aged mode] at aged
  | ageingPanic q i p _ mode aged => simp [young.aged mode] at aged
  | charge p q _ _ _ _ _ view | exit p _ _ _ view =>
    rw [view] at unseen ⊢
    refine unseen (.setTurn (.setCore_same start ?_) fun _ => ⟨rfl, rfl⟩)
    exact fun _ => ⟨rfl, rfl⟩
  | yield p _ _ running view =>
    have yields := start.setCore (p := p) (f := ({ · with state := .runnable })) rfl
      (fun _ => by simp [Proof.view, core, running, Proof.live]) fun _ => .inr running
    exact unseen (view ▸ yields.setTurn fun _ => ⟨rfl, rfl⟩)
  | block p _ _ running blocked view =>
    refine unseen (view ▸ start.setCore rfl (fun _ => ?_) fun ready => ?_)
    · simp [Proof.view, core, running, Proof.live]
    · rcases blocked with rfl | rfl <;> cases ready
  | wake p q asleep away level view =>
    have here : q = x.level p := by
      have same : (s.proc p).queue = (x.level p).val :=
        h.level p (by simp [Proof.view, core, asleep, Proof.live])
      exact Fin.ext (by omega)
    refine arrives (q := q) (e := .wake p) (by simp [asleep]) away ?_ (fun r => ?_) (fun runnable => ?_)
      (fun absent => ?_) fun joined => view ▸ joined
    · rw [view]
      simp [View.push_queue]
    · rw [view]
      by_cases same : r = p <;> simp [push_alike.1, same]
    · simp [arrival, runnable, asleep]
    · simp [Feedback.step, absent, here]
  | chpr p _ _ view => exact unseen (view ▸ start.setCore_same fun _ => ⟨rfl, rfl⟩)

theorem Simulates.step (resets : ResetsNothing s c) (young : PromotesNobody s c)
    (room : Room s t) (action : step .mlfq s (c, a) = some t) :
    ∃ y, exec (Feedback.step mlfqRules) x (events (s, (c, a))) = some y ∧ Simulates (view t) y := by
  by_cases loop : a = .go ∧ (s.cpu c).mode = .loop
  · obtain ⟨rfl, mode⟩ := loop
    exact h.pass stocked mode action
  by_cases back : a = .go ∧ (s.cpu c).mode = .back
  · obtain ⟨rfl, mode⟩ := back
    exact h.back stocked room mode action
  rw [events, if_neg loop, if_neg back, action]
  exact h.change stocked resets young room ⟨loop, back⟩ (step_change stocked.wf action)

end Step

/-- The rings are reset before they are used, nobody ages and no ring overflows. -/
def Calm (e : State n × (Fin n × Action)) : Prop :=
  ResetsNothing e.1 e.2.1 ∧ PromotesNobody e.1 e.2.1 ∧ Fits e

def joinLevel (s : State n) (p : Slot) : Level := (level? (s.proc p).queue).getD 0

theorem Fresh.simulates (h : Fresh s) : Simulates (view s) (Feedback.idle (joinLevel s)) where
  wait q := (Ring.toList_eq_nil_iff _).mpr ((h.empty q).1.trans (h.empty q).2.symm)
  hand c := .inl ⟨(h.quiet.idle c).1.2, rfl⟩
  level p _ := by
    obtain ⟨q, level⟩ := h.quiet.wellFormed.level p
    change (s.proc p).queue = ((level? (s.proc p).queue).getD 0).val
    rw [level, level?_val]
    rfl

theorem mlfq_refines (start : Fresh s) (run : exec (step .mlfq) s as = some t)
    (calm : ∀ e ∈ trace (step .mlfq) s as, Calm e) :
    ∃ x, exec (Feedback.step mlfqRules) (Feedback.idle (joinLevel s))
        ((trace (step .mlfq) s as).flatMap events) = some x ∧
      Simulates (view t) x ∧ Within mlfqRules x := by
  obtain ⟨x, run, simulates, -⟩ := exec_simulation (P := Calm)
    (R := fun s x => Simulates (view s) x ∧ Stocked s) (L := events)
    (fun s _ t x ⟨h, stocked⟩ ⟨resets, young, fits⟩ action => by
      obtain ⟨y, simulated, after⟩ := h.step stocked resets young (fits t action) action
      exact ⟨y, simulated, after, stocked.step young.promotesHead resets action (fits t action)⟩)
    ⟨start.simulates, start.stocked⟩ run calm
  refine ⟨x, run, simulates, Within.exec ?_ run⟩
  intro c h served
  cases served

instance (e : State n × (Fin n × Action)) : Decidable (Calm e) :=
  inferInstanceAs (Decidable (_ ∧ _ ∧ _))

def initDemoted : List (Fin 2 × Action) :=
  initRuns ++ forks 0 ++ (0, .timer) :: List.replicate 71 (0, .go)

theorem mlfq_refines_initDemoted : ∃ t x, exec (step .mlfq) (boot 0) initDemoted = some t ∧
    exec (Feedback.step mlfqRules) (Feedback.idle (joinLevel (boot (0 : Fin 2))))
      ((trace (step .mlfq) (boot 0) initDemoted).flatMap events) = some x ∧
    x.hand 0 = some ⟨1, 0, 1⟩ ∧ x.wait 1 = [0] := by
  obtain ⟨t, run, own, first, level, behind, calm⟩ : ∃ t, exec (step .mlfq) (boot 0) initDemoted = some t ∧
      (t.cpu 0).proc = some 1 ∧ (t.cpu 0).a = 0 ∧ (t.proc 1).queue = 0 ∧ (t.queue 1).toList = [some 0] ∧
      ∀ e ∈ trace (step .mlfq) (boot 0) initDemoted, Calm e := by
    decide +kernel
  obtain ⟨x, simulated, simulates, -⟩ := mlfq_refines (fresh_boot 0) run calm
  have served := simulates.served (c := 0) (q := 0) own level
  have waits : (t.queue 1).toList = (x.wait 1).map some := simulates.wait 1
  refine ⟨t, x, run, simulated, ?_, ?_⟩
  · rw [served]
    exact congrArg (fun used => some (Hand.mk 1 0 (used + 1))) first
  · rw [behind] at waits
    exact (List.map_injective_iff.mpr (Option.some_injective _)) waits.symm

/-- A pass is made while init is RUNNABLE and every ring is empty. -/
theorem pass_dispatches_nobody : ∃ s t, exec (step .mlfq) (boot 0) loneProcessor = some s ∧
    (∀ e ∈ trace (step .mlfq) (boot 0) loneProcessor, PromotesNobody e.1 e.2.1 ∧ Fits e) ∧
    (s.cpu 0).mode = .loop ∧ (s.proc 0).state = .runnable ∧ (∀ q, (s.queue q).toList = []) ∧
    step .mlfq s (0, .go) = some t ∧ ∀ p, (t.proc p).state ≠ .running := by
  obtain ⟨s, run, calm, mode, runnable, empty, t, action, nobody⟩ :
      ∃ s, exec (step .mlfq) (boot 0) loneProcessor = some s ∧
      (∀ e ∈ trace (step .mlfq) (boot 0) loneProcessor, PromotesNobody e.1 e.2.1 ∧ Fits e) ∧
      (s.cpu 0).mode = .loop ∧ (s.proc 0).state = .runnable ∧ (∀ q, (s.queue q).toList = []) ∧
      ∃ t, step .mlfq s (0, .go) = some t ∧ ∀ p, (t.proc p).state ≠ .running := by
    decide +kernel
  exact ⟨s, t, run, calm, mode, runnable, empty, action, nobody⟩

end Xv6.Proof
