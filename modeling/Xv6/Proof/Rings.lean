import Xv6.Proof.Stage

/-!
# The five rings under MLFQ

`Rings` says what is in the rings: RUNNABLE processes, each in the ring that its `queue` names, none
twice, and none that a processor has in hand. It survives even an overflow. `Kept` is the converse: a
RUNNABLE process is in some ring or in hand, which takes that no ring overflows.
-/

namespace Xv6.Proof
open Xv6.Library Xv6.Kernel State

variable {n : Nat} {v w : View n} {p : Slot} {q : Level} {c : Fin n} {s t : State n} {a : Action}
  {pol : Policy} {f : Core → Core} {g : Turn → Turn} {o : Fin n ⊕ Slot} {i : Fin NPROC} {r : Slot}

def ResetsNothing (s : State n) (c : Fin n) : Prop :=
  ∀ q : Level, ((s.cpu c).mode = .resetHead q.val → (s.queue q).head = 0) ∧
    ((s.cpu c).mode = .resetTail q → (s.queue q).tail = 0)

theorem Settled.resetsNothing (h : Settled s) (c : Fin n) : ResetsNothing s c :=
  fun _ => ⟨fun mode => absurd mode ((h.mode c).1 _), fun mode => absurd mode ((h.mode c).2 _)⟩

theorem View.setRing_self {h : Ring NPROC (Option Slot) → Ring NPROC (Option Slot)}
    (same : h (v.queue q) = v.queue q) : v.setRing q h = v := by
  simp [View.setRing, same]

theorem ResetsNothing.head (h : ResetsNothing s c) (mode : (s.cpu c).mode = .resetHead q.val) :
    (view s).setRing q ({ · with head := 0 }) = view s := by
  refine View.setRing_self ?_
  rw [← (h q).1 mode]
  rfl

theorem ResetsNothing.tail (h : ResetsNothing s c) (mode : (s.cpu c).mode = .resetTail q) :
    (view s).setRing q ({ · with tail := 0 }) = view s := by
  refine View.setRing_self ?_
  rw [← (h q).2 mode]
  rfl

structure Rings (v : View n) : Prop where
  nodup : ∀ q, (v.queue q).toList.Nodup
  entry : ∀ q x, x ∈ (v.queue q).toList →
    ∃ p, x = some p ∧ (v.core p).state = .runnable ∧ (v.core p).queue = q.val
  away : ∀ c p, (v.turn c).proc = some p → ∀ q, some p ∉ (v.queue q).toList

section
variable (h : Rings v)
include h

theorem Rings.member (member : some p ∈ (v.queue q).toList) :
    (v.core p).state = .runnable ∧ (v.core p).queue = q.val := by
  obtain ⟨r, same, known⟩ := h.entry q _ member
  exact Option.some.inj same ▸ known

theorem Rings.absent (stopped : (v.core p).state ≠ .runnable) (q : Level) : some p ∉ (v.queue q).toList :=
  fun member => stopped (h.member member).1

theorem Rings.frame (queue : w.queue = v.queue) (core : ∀ q p, some p ∈ (v.queue q).toList →
      (w.core p).state = .runnable ∧ (w.core p).queue = (v.core p).queue)
    (turn : ∀ c p, (w.turn c).proc = some p → ∀ q, some p ∉ (v.queue q).toList) : Rings w where
  nodup q := queue ▸ h.nodup q
  entry q x member := by
    rw [queue] at member
    obtain ⟨p, rfl, -, level⟩ := h.entry q x member
    obtain ⟨state, same⟩ := core q p member
    exact ⟨p, rfl, state, same.trans level⟩
  away c p own q := by
    rw [queue]
    exact turn c p own q

theorem Rings.setCore (absent : ∀ q, some p ∉ (v.queue q).toList) : Rings (v.setCore p f) := by
  refine h.frame rfl (fun q r member => ?_) h.away
  have other : r ≠ p := by
    rintro rfl
    exact absent q member
  simpa [other] using (h.member member).1

theorem Rings.setCore_same (same : (f (v.core p)).state = (v.core p).state ∧ (f (v.core p)).queue = (v.core p).queue) :
    Rings (v.setCore p f) := by
  refine h.frame rfl (fun q r member => ?_) h.away
  by_cases here : r = p
  · subst here
    simpa [same] using (h.member member).1
  · simpa [here] using (h.member member).1

theorem Rings.setTurn (proc : ∀ p, (g (v.turn c)).proc = some p → ∀ q, some p ∉ (v.queue q).toList) :
    Rings (v.setTurn c g) := by
  refine h.frame rfl (fun q r member => ⟨(h.member member).1, rfl⟩) fun d p own => ?_
  by_cases same : d = c
  · subst same
    exact proc p (by simpa using own)
  · exact h.away d p (by simpa [same] using own)

theorem Rings.setTurn_same (same : (g (v.turn c)).proc = (v.turn c).proc) : Rings (v.setTurn c g) :=
  h.setTurn fun p own => h.away c p (same ▸ own)

theorem Rings.own : Rings (v.own o p) := by
  cases o with
  | inl c => rw [View.own]; exact h.setTurn_same rfl
  | inr => rw [View.own]; exact h.setCore_same ⟨rfl, rfl⟩

theorem Rings.filled : Rings (v.filled o) := by
  cases o with
  | inl c => exact h
  | inr => rw [View.filled]; exact h.setCore_same ⟨rfl, rfl⟩

theorem Rings.disown : Rings (v.disown o) := by
  cases o with
  | inl c => rw [View.disown]; exact h.setTurn_same rfl
  | inr => rw [View.disown]; exact h.setCore_same ⟨rfl, rfl⟩

theorem Rings.push (runnable : (v.core p).state = .runnable)
    (absent : ∀ l, some p ∉ (v.queue l).toList) (away : ∀ c, (v.turn c).proc ≠ some p) :
    Rings (v.push q p) := by
  have old {l : Level} {x : Option Slot} (member : x ∈ ((v.push q p).queue l).toList) : x ∈ (v.queue l).toList ∨
    l = q ∧ x = some p := by
    rw [View.push_queue] at member
    split_ifs at member with same
    · subst same
      have := ((v.queue l).toList_push_sublist (some p)).subset member
      simpa using this
    · exact .inl member
  refine ⟨fun l => ?_, fun l x member => ?_, fun d r own l member => ?_⟩
  · rw [View.push_queue]
    split_ifs with same
    · refine ((v.queue q).toList_push_sublist (some p)).nodup ?_
      exact (List.nodup_append_comm.mp (List.nodup_cons.mpr ⟨absent q, h.nodup q⟩))
    · exact h.nodup l
  · rcases old member with before | ⟨rfl, rfl⟩
    · obtain ⟨r, rfl, known⟩ := h.entry l x before
      have other : r ≠ p := by
        rintro rfl
        exact absent l before
      exact ⟨r, rfl, by simpa [View.push_core, other] using known⟩
    · exact ⟨p, rfl, by simp [View.push_core, runnable], by simp [View.push_core]⟩
  · rw [View.push_turn] at own
    rcases old member with before | ⟨-, same⟩
    · exact h.away d r own l before
    · exact away d (Option.some.inj same ▸ own)

theorem Rings.drop (live : 0 < (v.queue q).count) (head : (v.queue q).cells (v.queue q).head = some p) :
    Rings (v.drop q) ∧ ∀ l, some p ∉ ((v.drop q).queue l).toList := by
  have split : (v.queue q).toList = some p :: (v.queue q).drop.toList := by
    rw [(v.queue q).toList_drop live, head]
  have fewer (l : Level) : ((v.drop q).queue l).toList.Sublist (v.queue l).toList := by
    rw [View.drop_queue]
    split_ifs with same
    · rw [same, split]
      exact List.sublist_cons_self ..
    · exact List.Sublist.refl _
  refine ⟨⟨fun l => (fewer l).nodup (h.nodup l), fun l x member => h.entry l x ((fewer l).subset member),
    fun d r own l member => h.away d r own l ((fewer l).subset member)⟩, fun l member => ?_⟩
  have level : l = q := by
    have here := (h.member ((fewer l).subset member)).2
    rw [(h.member (q := q) (by simp [split])).2] at here
    exact Fin.ext (by omega)
  subst level
  rw [View.drop_queue, if_pos rfl] at member
  have unique := h.nodup l
  rw [split, List.nodup_cons] at unique
  exact unique.1 member

end

theorem Rings.first (h : Rings (view s)) (q : Level) : (s.queue q).first = none ∧ (s.queue q).toList = [] ∨
      ∃ p, (s.queue q).first = some p ∧ 0 < (s.queue q).count ∧ (s.queue q).cells (s.queue q).head = some p := by
  rw [Ring.first_eq]
  rcases Nat.eq_zero_or_pos (s.queue q).count with empty | live
  · have nil : (s.queue q).toList = [] := List.eq_nil_of_length_eq_zero (by simp [empty])
    exact .inl ⟨by simp [nil], nil⟩
  have split := (s.queue q).toList_drop live
  obtain ⟨p, head, -⟩ := h.entry q ((s.queue q).cells (s.queue q).head) (by
    change _ ∈ (s.queue q).toList
    simp [split])
  exact .inr ⟨p, by simp [split, head], live, head⟩

theorem Rings.pick (h : Rings (view s)) (picked : s.pick = some p) :
    ∃ q : Level, (s.proc p).queue = q.val ∧ (s.proc p).state = .runnable ∧ 0 < (s.queue q).count ∧
      (s.queue q).cells (s.queue q).head = some p ∧ ∀ l < q, (s.queue l).toList = [] := by
  obtain ⟨before, q, after, split, found, earlier⟩ := List.findSome?_eq_some_iff.mp picked
  obtain ⟨empty, -⟩ | ⟨r, first, live, head⟩ := h.first q
  · rw [empty] at found
    cases found
  obtain rfl : r = p := Option.mem_unique first found
  have known : (s.proc r).state = .runnable ∧ (s.proc r).queue = q.val := by
    refine h.member (q := q) ?_
    change some r ∈ (s.queue q).toList
    rw [(s.queue q).toList_drop live, head]
    exact List.mem_cons_self ..
  refine ⟨q, known.2, known.1, live, head, fun l lower => ?_⟩
  have sorted : (before ++ q :: after).Pairwise (· < ·) := split ▸ List.pairwise_lt_finRange 5
  have early : l ∈ before := by
    have member : l ∈ before ++ q :: after := split ▸ List.mem_finRange l
    rcases List.mem_append.mp member with early | late
    · exact early
    rcases List.mem_cons.mp late with rfl | later
    · exact absurd lower (lt_irrefl _)
    · have := (List.pairwise_cons.mp (List.pairwise_append.mp sorted).2.1).1 l later
      exact absurd lower this.asymm
  obtain ⟨-, nil⟩ | ⟨_, full, -⟩ := h.first l
  · exact nil
  · rw [earlier l early] at full
    cases full

theorem Rings.pick_none (h : Rings (view s)) (nothing : s.pick = none) (q : Level) : (s.queue q).toList = [] := by
  obtain ⟨-, nil⟩ | ⟨r, full, -⟩ := h.first q
  · exact nil
  · rw [List.findSome?_eq_none_iff.mp nothing q (List.mem_finRange q)] at full
    cases full

/-- The ageing block, if it takes an entry out of a ring on this step, takes the oldest one. -/
def PromotesHead (s : State n) (c : Fin n) : Prop :=
  ∀ q i, (s.cpu c).mode = .ageing q i → (s.aged q i).isSome → i = (s.queue q).head

/-- The ageing block, if this step is a turn of it, leaves its entry alone. -/
def PromotesNobody (s : State n) (c : Fin n) : Prop :=
  match (s.cpu c).mode with
  | .ageing q i => s.aged q i = none
  | _ => True

instance (s : State n) (c : Fin n) : Decidable (PromotesNobody s c) := by
  unfold PromotesNobody
  split <;> infer_instance

theorem PromotesNobody.aged (h : PromotesNobody s c) (mode : (s.cpu c).mode = .ageing q i) : s.aged q i = none := by
  simpa [PromotesNobody, mode] using h

theorem PromotesNobody.promotesHead (h : PromotesNobody s c) : PromotesHead s c := by
  intro q i mode aged
  simp [h.aged mode] at aged

theorem Rings.aged (h : Rings (view s)) (heads : PromotesHead s c)
    (mode : (s.cpu c).mode = .ageing q i) (aged : s.aged q i = some p) :
    0 < (s.queue q).count ∧ (s.queue q).cells (s.queue q).head = some p ∧
      (s.proc p).state = .runnable ∧ (s.proc p).queue = q.val := by
  obtain rfl := heads q i mode (by simp [aged])
  unfold State.aged at aged
  split at aged
  · rename_i r cell
    split_ifs at aged with old
    obtain rfl : r = p := Option.some.inj aged
    have live : 0 < (s.queue q).count := by
      rw [Nat.pos_iff_ne_zero, ne_eq, Ring.count_eq_zero_iff]
      exact old.1
    refine ⟨live, cell, h.member (q := q) ?_⟩
    change some r ∈ (s.queue q).toList
    rw [(s.queue q).toList_drop live, cell]
    exact List.mem_cons_self ..
  · cases aged

theorem Rings.change (h : Rings (view s)) (wf : WellFormed s) (resets : ResetsNothing s c)
    (heads : PromotesHead s c) (change : Change .mlfq s t c a) : Rings (view t) := by
  have absent {r : Slot} {state : ProcState} (known : (s.proc r).state = state)
      (other : state ≠ .runnable) : ∀ q, some r ∉ ((view s).queue q).toList :=
    h.absent fun runnable => other (known.symm.trans runnable)
  cases change with
  | quiet view => exact view ▸ h
  | halt view => exact view ▸ h.setTurn_same rfl
  | timer _ _ _ view =>
    have served : Rings ((Proof.view s).setTurn c ({ · with stage := .trap })) := h.setTurn_same rfl
    exact view ▸ ⟨served.nodup, served.entry, served.away⟩
  | timerDone _ _ view => exact view ▸ h.setTurn_same rfl
  | enterReset _ _ view => exact view ▸ h.setTurn_same rfl
  | resetDone stage view =>
    have done : Rings ((Proof.view s).setTurn c ({ · with stage := .plain })) := h.setTurn_same rfl
    exact view ▸ ⟨done.nodup, done.entry, done.away⟩
  | resetHead q mode view => exact view ▸ (resets.head mode).symm ▸ h
  | resetTail q mode view => exact view ▸ (resets.tail mode).symm ▸ h
  | bootFail p f _ embryo _ view =>
    exact view ▸ (h.setCore (absent embryo (by decide))).setTurn_same rfl
  | alloc o p _ _ _ unused away view =>
    have allocated := (h.setCore (f := ({ · with
      state := .embryo, pid := s.nextpid, priority := 60, queue := 0 }))
      (absent unused (by decide))).own (o := o) (p := p)
    exact view ▸ ⟨allocated.nodup, allocated.entry, allocated.away⟩
  | fill o p _ _ _ _ _ view => exact view ▸ (h.setCore_same ⟨rfl, rfl⟩).filled
  | discard _ p f _ _ embryo _ view =>
    exact view ▸ (h.setCore (absent embryo (by decide))).disown
  | publish o p _ _ _ _ embryo away view =>
    refine view ▸ Rings.disown ((h.setCore (absent embryo (by decide))).push ?_ ?_ away)
    · simp
    · exact absent embryo (by decide)
  | reap p f zombie _ view => exact view ▸ h.setCore (absent zombie (by decide))
  | dispatch p _ _ _ selects => exact selects.elim
  | pick p q _ _ _ _ picked _ _ view =>
    obtain ⟨l, same, -, live, head, -⟩ := h.pick picked
    obtain rfl : l = q := Fin.ext (by omega)
    obtain ⟨dropped, gone⟩ := h.drop live head
    refine view ▸ (dropped.setCore gone).setTurn fun r own => ?_
    obtain rfl : p = r := by simpa using own
    exact gone
  | asleep p _ _ _ view => exact view ▸ h.setTurn_same rfl
  | again p _ _ _ own _ _ view =>
    refine view ▸ (h.setCore (h.away c p own)).setTurn fun r hand => ?_
    obtain rfl : p = r := by simpa using hand
    exact h.away c p own
  | requeue p q _ _ _ own runnable _ _ view =>
    have absent := h.away c p own
    have free : Rings ((Proof.view s).setTurn c ({ · with proc := none, stage := .plain })) :=
      h.setTurn (by simp)
    refine view ▸ free.push (q := q) (p := p) runnable absent fun d hand => ?_
    by_cases same : d = c
    · subst same
      simp at hand
    · have elsewhere : ((Proof.view s).turn d).proc = some p := by simpa [same] using hand
      exact same (wf.control.inj d c p elsewhere own)
  | leave p _ _ _ _ _ view => exact view ▸ h.setTurn (by simp)
  | promote q m i p _ _ mode aged _ view =>
    obtain ⟨live, head, runnable, -⟩ := h.aged heads mode aged
    obtain ⟨dropped, gone⟩ := h.drop live head
    refine view ▸ dropped.push runnable gone fun d own => ?_
    refine h.away d p own q ?_
    change some p ∈ (s.queue q).toList
    rw [(s.queue q).toList_drop live, head]
    exact List.mem_cons_self ..
  | ageingPanic q i p _ mode aged _ view =>
    obtain ⟨live, head, -⟩ := h.aged heads mode aged
    exact view ▸ (h.drop live head).1.setTurn_same rfl
  | charge p q _ _ _ _ _ view =>
    exact view ▸ (h.setCore_same ⟨rfl, rfl⟩).setTurn_same rfl
  | yield p _ _ running view =>
    exact view ▸ (h.setCore (absent running (by decide))).setTurn_same rfl
  | exit p _ _ _ view => exact view ▸ (h.setCore_same ⟨rfl, rfl⟩).setTurn_same rfl
  | block p _ _ running _ view => exact view ▸ h.setCore (absent running (by decide))
  | wake p q asleep away _ view =>
    refine view ▸ (h.setCore (absent asleep (by decide))).push ?_ ?_ away
    · simp
    · exact absent asleep (by decide)
  | chpr p _ _ view => exact view ▸ h.setCore_same ⟨rfl, rfl⟩

def Held (v : View n) (p : Slot) : Prop :=
  (∃ q, some p ∈ (v.queue q).toList) ∨ ∃ c, (v.turn c).proc = some p

/-- No RUNNABLE process is lost. -/
def Kept (v : View n) : Prop := ∀ p, (v.core p).state = .runnable → Held v p

def Enqueues (s t : State n) (q : Level) : Prop := (t.queue q).tail ≠ (s.queue q).tail

def Room (s t : State n) : Prop := ∀ q, Enqueues s t q → (s.queue q).count + 1 < NPROC

theorem mem_push {l : Level} (member : some r ∈ (v.queue l).toList)
    (room : (v.queue q).count + 1 < NPROC) : some r ∈ ((v.push q p).queue l).toList := by
  rw [View.push_queue]
  split_ifs with same
  · subst same
    simp [(v.queue l).toList_push _ room, member]
  · exact member

theorem mem_push_self (room : (v.queue q).count + 1 < NPROC) : some p ∈ ((v.push q p).queue q).toList := by
  rw [View.push_queue, if_pos rfl, (v.queue q).toList_push _ room]
  simp

theorem Held.push (h : r ≠ p → Held v r) (room : (v.queue q).count + 1 < NPROC) : Held (v.push q p) r := by
  by_cases same : r = p
  · exact .inl ⟨q, same ▸ mem_push_self room⟩
  · rcases h same with ⟨l, member⟩ | hand
    · exact .inl ⟨l, mem_push member room⟩
    · exact .inr hand

theorem Held.drop (h : Held v r) (live : 0 < (v.queue q).count)
    (head : (v.queue q).cells (v.queue q).head = some p) (other : r ≠ p) : Held (v.drop q) r := by
  rcases h with ⟨l, member⟩ | hand
  · refine .inl ⟨l, ?_⟩
    rw [View.drop_queue]
    split_ifs with same
    · subst same
      rw [(v.queue l).toList_drop live, head, List.mem_cons] at member
      exact member.resolve_left fun same => other (Option.some.inj same)
    · exact member
  · exact .inr hand

theorem Held.setTurn (h : Held v r) (kept : (v.turn c).proc = some r → (g (v.turn c)).proc = some r) :
    Held (v.setTurn c g) r := by
  rcases h with ring | ⟨d, hand⟩
  · exact .inl ring
  refine .inr ⟨d, ?_⟩
  by_cases same : d = c
  · subst same
    simpa using kept hand
  · simpa [same] using hand

theorem Kept.setCore (h : Kept v) (here : (f (v.core p)).state = .runnable → Held v p) : Kept (v.setCore p f) := by
  intro r runnable
  by_cases same : r = p
  · subst same
    exact here (by simpa using runnable)
  · exact h r (by simpa [same] using runnable)

theorem Kept.own (h : Kept v) : Kept (v.own o p) := by
  cases o with
  | inl c => rw [View.own]; exact fun r runnable => (h r runnable).setTurn id
  | inr me => rw [View.own]; exact h.setCore (h me)

theorem Kept.filled (h : Kept v) : Kept (v.filled o) := by
  cases o with
  | inl c => exact h
  | inr me => rw [View.filled]; exact h.setCore (h me)

theorem Kept.disown (h : Kept v) : Kept (v.disown o) := by
  cases o with
  | inl c => rw [View.disown]; exact fun r runnable => (h r runnable).setTurn id
  | inr me => rw [View.disown]; exact h.setCore (h me)

theorem Kept.push (h : ∀ r, r ≠ p → (v.core r).state = .runnable → Held v r)
    (room : (v.queue q).count + 1 < NPROC) : Kept (v.push q p) := by
  intro r runnable
  refine Held.push (fun other => h r other ?_) room
  simpa [View.push_core, other] using runnable

theorem enqueues_of_push (queue : t.queue q = (s.queue q).push (some p)) : Enqueues s t q := by
  rw [Enqueues, queue]
  exact Ring.next_ne _ (by decide)

theorem Kept.change (h : Kept (view s)) (wf : WellFormed s) (resets : ResetsNothing s c)
    (rings : Rings (view s)) (heads : PromotesHead s c) (change : Change .mlfq s t c a)
    (room : Room s t) : Kept (view t) := by
  have blocked {r : Slot} {state : ProcState} (known : (s.proc r).state = state)
      (other : state ≠ .runnable) {P : Prop} : ((view s).core r).state = .runnable → P :=
    fun runnable => absurd (known.symm.trans runnable) other
  have space (q : Level) (r : Slot) (pushed : (view t).queue q = ((view s).queue q).push (some r)) :
      (s.queue q).count + 1 < NPROC := room q (enqueues_of_push pushed)
  cases change with
  | quiet view => exact view ▸ h
  | halt view => exact view ▸ fun r runnable => (h r runnable).setTurn id
  | timer _ _ _ view =>
    have served : Kept ((Proof.view s).setTurn c ({ · with stage := .trap })) :=
      fun r runnable => (h r runnable).setTurn id
    exact view ▸ served
  | timerDone _ _ view => exact view ▸ fun r runnable => (h r runnable).setTurn id
  | enterReset _ _ view => exact view ▸ fun r runnable => (h r runnable).setTurn id
  | resetDone stage view =>
    have done : Kept ((Proof.view s).setTurn c ({ · with stage := .plain })) :=
      fun r runnable => (h r runnable).setTurn id
    exact view ▸ done
  | resetHead q mode view => exact view ▸ (resets.head mode).symm ▸ h
  | resetTail q mode view => exact view ▸ (resets.tail mode).symm ▸ h
  | bootFail p f _ _ unused view =>
    have freed := h.setCore (p := p) (f := f) (by simp [(unused _).state])
    exact view ▸ fun r runnable => (freed r runnable).setTurn id
  | alloc o p _ _ _ _ _ view =>
    have allocated := (h.setCore (p := p) (f := ({ · with
      state := .embryo, pid := s.nextpid, priority := 60, queue := 0 })) (by simp)).own (o := o) (p := p)
    exact view ▸ allocated
  | fill o p _ _ _ _ embryo view =>
    exact view ▸ (h.setCore (blocked embryo (by decide))).filled
  | discard _ p f _ _ _ unused view =>
    exact view ▸ (h.setCore (by simp [(unused _).state])).disown
  | publish o p _ _ _ _ _ _ view =>
    refine view ▸ Kept.disown (Kept.push (fun r other runnable => ?_) ?_)
    · exact h r (by simpa [other] using runnable)
    · exact space 0 p (by rw [view]; simp [View.push_queue])
  | reap p f _ unused view => exact view ▸ h.setCore (by simp [(unused _).state])
  | dispatch p _ _ _ selects => exact selects.elim
  | pick p q _ _ mode _ picked _ _ view =>
    obtain ⟨l, same, -, live, head, -⟩ := rings.pick picked
    obtain rfl : l = q := Fin.ext (by omega)
    have idle : (s.cpu c).proc = none := by
      exact (wf.control.ok mode).2.2
    rw [view]
    intro r ready
    have other : r ≠ p := by
      rintro rfl
      simp at ready
    refine Held.setTurn ((h r (by simpa [other] using ready)).drop live head other) fun hand => ?_
    exact absurd (idle.symm.trans hand) (by simp)
  | asleep p _ _ _ view => exact view ▸ fun r runnable => (h r runnable).setTurn id
  | again p _ _ _ own _ _ view =>
    rw [view]
    intro r ready
    have other : r ≠ p := by
      rintro rfl
      simp at ready
    refine Held.setTurn (h r (by simpa [other] using ready)) fun hand => ?_
    exact absurd (Option.mem_unique hand own) other
  | requeue p q _ _ _ own _ _ _ view =>
    have pushed : Kept (((Proof.view s).setTurn c ({ · with proc := none, stage := .plain })).push q p) := by
      refine Kept.push (fun r other ready => (h r ready).setTurn fun hand => ?_) ?_
      · exact absurd (Option.mem_unique hand own) other
      · exact space q p (by rw [view]; simp [View.push_queue])
    exact view ▸ pushed
  | leave p _ _ own _ blocked view =>
    refine view ▸ fun r ready => (h r ready).setTurn fun hand => ?_
    obtain rfl : r = p := Option.mem_unique hand own
    exact absurd ready (blocked rfl)
  | promote q m i p _ _ mode aged _ view =>
    obtain ⟨live, head, runnable, here⟩ := rings.aged heads mode aged
    have apart : m ≠ q := by
      rintro rfl
      omega
    refine view ▸ Kept.push (fun r other ready => (h r ready).drop live head other) ?_
    rw [View.drop_queue, if_neg apart]
    exact space m p (by rw [view]; simp [View.push_queue, View.drop_queue, apart])
  | ageingPanic q i p low mode aged out =>
    obtain ⟨-, -, -, _⟩ := rings.aged heads mode aged
    have positive : 0 < q.val := Nat.pos_of_ne_zero fun zero => low (Fin.ext zero)
    have accepted := level?_eq_some (q := (s.proc p).queue - 1) (l := ⟨q.val - 1, by omega⟩)
    rw [accepted.mpr (by simp only; omega)] at out
    cases out
  | charge p q _ _ _ _ _ view =>
    have same := h.setCore (p := p) (f := fun k => { k with
      lastExecuted := int32 s.ticks
      ticks := Function.update k.ticks q (int32 (k.ticks q + 1)) }) (h p)
    exact view ▸ fun r ready => (same r ready).setTurn id
  | yield p _ own _ view =>
    have woken := h.setCore (p := p) (f := ({ · with state := .runnable })) fun _ => .inr ⟨c, own⟩
    exact view ▸ fun r ready => (woken r ready).setTurn id
  | exit p _ _ _ view =>
    have same := h.setCore (p := p) (f := ({ · with masked := true })) (h p)
    exact view ▸ fun r ready => (same r ready).setTurn id
  | block p _ _ _ blocked view =>
    refine view ▸ h.setCore fun ready => ?_
    rcases blocked with rfl | rfl <;> cases ready
  | wake p q _ _ _ view =>
    refine view ▸ Kept.push (fun r other runnable => ?_) ?_
    · exact h r (by simpa [other] using runnable)
    · exact space q p (by rw [view]; simp [View.push_queue])
  | chpr p _ _ view => exact view ▸ h.setCore (h p)

end Xv6.Proof
