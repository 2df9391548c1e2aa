import Xv6.Kernel.Step
import Xv6.Library.Transition

namespace Xv6.Proof
open Xv6.Library Xv6.Kernel State

variable {n : Nat} {s t u v : State n} {c : Fin n} {p x : Slot} {q l : Level} {xs : List Slot} {i : Fin NPROC}

def Ages (s : State n) (p : Slot) : Prop := (uint32 (s.ticks - (s.proc p).lastExecuted) : Int) > ageingConst

instance (s : State n) : DecidablePred (Ages s) := fun _ => inferInstanceAs (Decidable (_ > _))

def entries (s : State n) (q : Level) : List Slot := (s.queue q).toList.reduceOption

/-- The RUNNABLE processes are in the rings, each in one place and in the ring its `queue` names, and nothing else
is. -/
structure Members (s : State n) : Prop where
  nodup : ∀ q, (s.queue q).toList.Nodup
  entry : ∀ q, ∀ x ∈ (s.queue q).toList, ∃ p, x = some p ∧ (s.proc p).state = .runnable ∧ (s.proc p).queue = q.val
  kept : ∀ p, (s.proc p).state = .runnable → ∃ q, some p ∈ (s.queue q).toList

def leaving (s : State n) (q : Level) : List Slot := if q = 0 then [] else (entries s q).filter fun p => Ages s p

def staying (s : State n) (q : Level) : List Slot :=
  if q = 0 then entries s q else (entries s q).filter fun p => ¬Ages s p

def arriving (s : State n) (q : Level) : List Slot := if below : q.val + 1 < 5 then leaving s ⟨q.val + 1, below⟩ else []

structure Walked (q l : Level) (xs : List Slot) (t u : State n) : Prop where
  out : u.queue q = Ring.drop^[xs.length] (t.queue q)
  into : u.queue l = (xs.map some).foldl Ring.push (t.queue l)
  other : ∀ m, m ≠ q → m ≠ l → u.queue m = t.queue m
  proc : ∀ p, u.proc p = if p ∈ xs then { t.proc p with queue := l.val } else t.proc p
  ticks : u.ticks = t.ticks

theorem Walked.nil (queue : u.queue = t.queue) (proc : u.proc = t.proc) (ticks : u.ticks = t.ticks) :
    Walked q l [] t u where
  out := by simp [queue]
  into := by simp [queue]
  other := by simp [queue]
  proc := by simp [proc]
  ticks := ticks

theorem Walked.cons (rest : Walked q l xs u v) (apart : q ≠ l) (queue : u.queue = ((t.drop q).push l x).queue)
    (proc : u.proc = ((t.drop q).push l x).proc) (ticks : u.ticks = t.ticks) : Walked q l (x :: xs) t v where
  out := by
    rw [rest.out, queue, push_queue_ne _ _ _ apart, drop_queue_self, List.length_cons, Function.iterate_succ_apply]
  into := by
    rw [rest.into, queue, push_queue_self, drop_queue_ne _ _ apart.symm]
    rfl
  other := by
    intro m notFrom notInto
    rw [rest.other m notFrom notInto, queue, push_queue_ne _ _ _ notInto, drop_queue_ne _ _ notFrom]
  proc := by
    intro p
    rw [rest.proc p, proc, push_proc, drop_proc]
    by_cases first : p = x
    · subst first
      simp
    · simp [first]
  ticks := rest.ticks.trans ticks

theorem ageing_turn (inside : i ≠ (t.queue q).tail) (cell : (t.queue q).cells i = some p)
    (level : (t.proc p).queue = q.val) (above : q.val = l.val + 1) :
    t.ageing c q i = (if Ages t p then ((t.setCpu c ({ · with p := some p })).drop q).push l p
      else t.setCpu c ({ · with p := some p })).goto c (.ageing q (Ring.next i)) := by
  have aged : (t.aged q i).isSome = true ↔ Ages t p := by
    unfold State.aged
    rw [cell]
    simp only [Option.isSome_ite]
    exact and_iff_right inside
  have up : (t.proc p).queue - 1 = l.val := by omega
  unfold State.ageing
  rw [if_neg inside, cell]
  simp only [aged]
  split_ifs with old
  · simp [dequeue, enqueue, orPanic, up]
  · rfl

def InBlock (c : Fin n) (e : State n × (Fin n × Action)) : Prop := ∃ q i, (e.1.cpu c).mode = .ageing q i

theorem step_ageing (mode : (t.cpu c).mode = .ageing q i) : step .mlfq t (c, .go) = some (t.ageing c q i) := by
  simp [step, go, mode]

theorem ages_congr (ticks : u.ticks = t.ticks) (same : (u.proc p).lastExecuted = (t.proc p).lastExecuted) :
    Ages u p ↔ Ages t p := by
  unfold Ages
  rw [ticks, same]

theorem push_lastExecuted (t : State n) (l : Level) (x p : Slot) :
    ((t.push l x).proc p).lastExecuted = (t.proc p).lastExecuted := by
  rw [push_proc]
  split_ifs with same
  · rw [same]
  · rfl

theorem walk (above : q.val = l.val + 1) (mode : (t.cpu c).mode = .ageing q i)
    (ahead : (t.queue q).Ahead i (xs.map some)) (nodup : xs.Nodup) (level : ∀ p ∈ xs, (t.proc p).queue = q.val) :
    ∃ u, Run (step .mlfq) (InBlock c) t (List.replicate xs.length (c, .go)) u ∧
    (u.cpu c).mode = .ageing q (t.queue q).tail ∧
      Walked q l (xs.filter fun p => Ages t p) t u := by
  have apart : q ≠ l := by
    rintro rfl
    omega
  induction xs generalizing t i with
  | nil =>
    obtain rfl : i = (t.queue q).tail := ahead
    exact ⟨t, .nil t, mode, .nil rfl rfl rfl⟩
  | cons x xs ih =>
    obtain ⟨inside, cell, onward⟩ := ahead
    obtain ⟨new, nodup⟩ := List.nodup_cons.mp nodup
    have turn := ageing_turn (c := c) inside cell (level x (by simp)) above
    have action := step_ageing mode
    have levels (p : Slot) (member : p ∈ xs) : (t.proc p).queue = q.val := level p (by simp [member])
    rw [turn] at action
    split_ifs at action with old
    · obtain ⟨u, run, ends, walked⟩ := ih (t := (((t.setCpu c ({ · with p := some x })).drop q).push l x).goto c
        (.ageing q (Ring.next i))) (i := Ring.next i) (by simp) (onward.frame (by simp [apart]) (by simp [apart])) nodup
        (by
          intro p member
          have other : p ≠ x := by
            rintro rfl
            exact new member
          simpa [push_proc, other] using levels p member)
      refine ⟨u, .cons action ⟨q, i, mode⟩ run, by rw [ends]; simp [apart], ?_⟩
      have same (p : Slot) : Ages
        ((((t.setCpu c ({ · with p := some x })).drop q).push l x).goto c (.ageing q (Ring.next i))) p ↔
          Ages t p := ages_congr rfl (by simp [push_lastExecuted])
      simp only [same] at walked
      rw [List.filter_cons_of_pos (by simpa using old)]
      exact walked.cons apart rfl rfl rfl
    · obtain ⟨u, run, ends, walked⟩ := ih (t := (t.setCpu c ({ · with p := some x })).goto c (.ageing q (Ring.next i)))
        (i := Ring.next i) (by simp) onward nodup levels
      refine ⟨u, .cons action ⟨q, i, mode⟩ run, ends, ?_⟩
      rw [List.filter_cons_of_neg (by simpa using old)]
      exact ⟨walked.out, walked.into, walked.other, walked.proc, walked.ticks⟩

theorem Members.toList (h : Members s) (q : Level) : (s.queue q).toList = (entries s q).map some := by
  have all : ∀ xs : List (Option Slot), (∀ x ∈ xs, ∃ p, x = some p) → xs = xs.reduceOption.map some := by
    intro xs present
    induction xs with
    | nil => rfl
    | cons x _ ih =>
      obtain ⟨p, rfl⟩ := present x (by simp)
      rw [List.reduceOption_cons_of_some, List.map_cons, ← ih fun y member => present y (by simp [member])]
  exact all _ fun x member => (h.entry q x member).imp fun _ known => known.1

theorem mem_entries : p ∈ entries s q ↔ some p ∈ (s.queue q).toList := List.reduceOption_mem_iff

theorem Members.level (h : Members s) (member : p ∈ entries s q) :
    (s.proc p).state = .runnable ∧ (s.proc p).queue = q.val := by
  obtain ⟨r, same, known⟩ := h.entry q _ (mem_entries.mp member)
  exact Option.some.inj same ▸ known

theorem Members.same_ring (h : Members s) (first : p ∈ entries s q) (second : p ∈ entries s l) : q = l := by
  have one := (h.level first).2
  have two := (h.level second).2
  exact Fin.ext (by omega)

theorem Members.entries_nodup (h : Members s) (q : Level) : (entries s q).Nodup := by
  have distinct := h.nodup q
  rw [h.toList q] at distinct
  exact List.Nodup.of_map some distinct

theorem mem_leaving (member : p ∈ leaving s q) : q ≠ 0 ∧ p ∈ entries s q ∧ Ages s p := by
  unfold leaving at member
  split_ifs at member with first
  · cases member
  · exact ⟨first, by simpa using member⟩

structure Done (s : State n) (m : Nat) (t : State n) : Prop where
  queue : ∀ l : Level, t.queue l = ((if l.val + 1 < m then arriving s l else []).map some).foldl Ring.push
    (Ring.drop^[if l.val < m then (leaving s l).length else 0] (s.queue l))
  proc : ∀ p, (∀ l : Level, l.val < m → p ∉ leaving s l) → t.proc p = s.proc p
  moved : ∀ p, ∀ l : Level, l.val < m → p ∈ leaving s l → t.proc p = { s.proc p with queue := (s.proc p).queue - 1 }
  ticks : t.ticks = s.ticks

theorem Done.start : Done s 1 s where
  queue := by
    intro l
    have none : (if l.val < 1 then (leaving s l).length else 0) = 0 := by
      split_ifs with first
      · obtain rfl : l = 0 := Fin.ext (by simpa using first)
        rfl
      · rfl
    rw [none, if_neg (by omega)]
    rfl
  proc := fun _ _ => rfl
  moved := by
    intro p l first member
    obtain rfl : l = 0 := Fin.ext (by simpa using first)
    exact absurd rfl (mem_leaving member).1
  ticks := rfl

theorem Done.lastExecuted {m : Nat} (h : Done s m t) (p : Slot) :
    (t.proc p).lastExecuted = (s.proc p).lastExecuted := by
  by_cases leaves : ∃ l : Level, l.val < m ∧ p ∈ leaving s l
  · obtain ⟨l, before, member⟩ := leaves
    rw [h.moved p l before member]
  · rw [h.proc p fun l before member => leaves ⟨l, before, member⟩]

theorem Done.ring (h : Done s q.val t) : t.queue q = s.queue q := by
  rw [h.queue q, if_neg (by omega), if_neg (by omega)]
  rfl

theorem Done.waiting (h : Done s q.val t) (members : Members s) (member : p ∈ entries s q) : t.proc p = s.proc p := by
  refine h.proc p fun l before leaves => ?_
  rw [members.same_ring (mem_leaving leaves).2.1 member] at before
  exact lt_irrefl _ before

theorem Done.walked (h : Done s q.val t) (members : Members s)
    (above : q.val = l.val + 1) (walked : Walked q l (leaving s q) t u) :
    Done s (q.val + 1) u where
  queue := by
    intro m
    by_cases here : m = q
    · subst here
      have notYet : ¬m.val + 1 < m.val + 1 := lt_irrefl _
      rw [walked.out, h.ring, if_neg notYet, if_pos m.val.lt_succ_self]
      rfl
    by_cases there : m = l
    · subst there
      have next : arriving s m = leaving s q := by
        unfold arriving
        rw [dif_pos (by omega)]
        exact congrArg _ (Fin.ext above.symm)
      have before : ¬m.val + 1 < q.val ∧ m.val < q.val := by omega
      have after : m.val + 1 < q.val + 1 ∧ m.val < q.val + 1 := by omega
      rw [walked.into, h.queue m, if_neg before.1, if_pos before.2, if_pos after.1, if_pos after.2, next]
      rfl
    · have notHere : m.val ≠ q.val := fun same => here (Fin.ext same)
      have notThere : m.val ≠ l.val := fun same => there (Fin.ext same)
      rw [walked.other m here there, h.queue m]
      simp only [show (m.val + 1 < q.val + 1) = (m.val + 1 < q.val) from propext (by omega),
        show (m.val < q.val + 1) = (m.val < q.val) from propext (by omega)]
  proc := by
    intro p stays
    rw [walked.proc p, if_neg (stays q (by omega)), h.proc p fun m before => stays m (by omega)]
  moved := by
    intro p m _ member
    by_cases here : m = q
    · subst here
      obtain ⟨-, entry, -⟩ := mem_leaving member
      have level := (members.level entry).2
      rw [walked.proc p, if_pos member, h.waiting members entry, level, above]
      simp
    have notHere : m.val ≠ q.val := fun same => here (Fin.ext same)
    have stays : p ∉ leaving s q := by
      intro also
      exact here (members.same_ring (mem_leaving member).2.1 (mem_leaving also).2.1)
    rw [walked.proc p, if_neg stays, h.moved p m (by omega) member]
  ticks := walked.ticks.trans h.ticks

theorem Done.frame {m : Nat} (h : Done s m t) (queue : u.queue = t.queue)
    (proc : u.proc = t.proc) (ticks : u.ticks = t.ticks) :
    Done s m u := by
  refine ⟨?_, ?_, ?_, ticks.trans h.ticks⟩
  · rw [queue]
    exact h.queue
  · rw [proc]
    exact h.proc
  · rw [proc]
    exact h.moved

theorem Done.walks (h : Done s q.val t) (members : Members s)
    (notFirst : q ≠ 0) (mode : (t.cpu c).mode = .ageing q (t.queue q).head) :
    ∃ k u, Run (step .mlfq) (InBlock c) t (List.replicate k (c, .go)) u ∧ Done s (q.val + 1) u ∧
      (∀ below : q.val + 1 < 5, (u.cpu c).mode = .ageing ⟨q.val + 1, below⟩ (u.queue ⟨q.val + 1, below⟩).head) ∧
      (¬q.val + 1 < 5 → (u.cpu c).mode = .loop) := by
  have positive : q.val ≠ 0 := fun zero => notFirst (Fin.ext zero)
  have above : q.val = (⟨q.val - 1, by omega⟩ : Level).val + 1 := (Nat.succ_pred positive).symm
  have ahead : (t.queue q).Ahead (t.queue q).head ((entries s q).map some) := by
    rw [← members.toList q, ← h.ring]
    exact Ring.ahead_toList _
  obtain ⟨v, run, ends, walked⟩ := walk above mode ahead (members.entries_nodup q) fun p member => by
    rw [h.waiting members member]
    exact (members.level member).2
  have same : ((entries s q).filter fun p => Ages t p) = leaving s q := by
    rw [leaving, if_neg notFirst]
    exact List.filter_congr fun p _ => decide_eq_decide.mpr (ages_congr h.ticks (h.lastExecuted p))
  rw [same] at walked
  have done := h.walked members above walked
  have tail : (v.queue q).tail = (t.queue q).tail := by
    rw [walked.out]
    generalize (leaving s q).length = k
    induction k with
    | zero => rfl
    | succ k ih => rw [Function.iterate_succ_apply', Ring.drop_tail, ih]
  have action := step_ageing ends
  rw [State.ageing, if_pos tail.symm] at action
  have whole : Run (step .mlfq) (InBlock c) t
    (List.replicate ((entries s q).length + 1) (c, .go)) (v.ageingNext c q) := by
    rw [List.replicate_succ']
    exact run.append (.cons action ⟨q, _, ends⟩ (.nil _))
  refine ⟨_, _, whole, ?_, fun below => ?_, fun last => ?_⟩
  · unfold ageingNext
    split_ifs <;> exact done.frame rfl rfl rfl
  · simp [ageingNext, below]
  · simp [ageingNext, last]

/-- In no ring below the first does an entry that has aged stand behind one that has not. -/
def InFront (s : State n) : Prop := ∀ q : Level, q ≠ 0 → (entries s q).Pairwise fun a b => Ages s b → Ages s a

instance (s : State n) : Decidable (InFront s) := inferInstanceAs (Decidable (∀ _, _))

/-- No ring is to hold all the processes of the table. -/
def Spacious (s : State n) : Prop := ∀ q : Level, (staying s q).length + (arriving s q).length < NPROC

instance (s : State n) : Decidable (Spacious s) := inferInstanceAs (Decidable (∀ _, _))

section Front
variable {α : Type} {old : α → Prop} [DecidablePred old]

theorem pairwise_iff_filter (xs : List α) :
    (xs.Pairwise fun a b => old b → old a) ↔ xs = xs.filter (fun x => old x) ++ xs.filter fun x => ¬old x := by
  constructor
  · intro ordered
    induction xs with
    | nil => rfl
    | cons x xs ih =>
      obtain ⟨first, rest⟩ := List.pairwise_cons.mp ordered
      by_cases ages : old x
      · rw [List.filter_cons_of_pos (by simpa using ages),
          List.filter_cons_of_neg (by simpa using ages), List.cons_append, ← ih rest]
      have none (y : α) (member : y ∈ xs) : ¬old y := fun also => ages (first y member also)
      have nobody : xs.filter (fun x => old x) = [] := List.filter_eq_nil_iff.mpr (by simpa using none)
      have everybody : xs.filter (fun x => ¬old x) = xs := List.filter_eq_self.mpr (by simpa using none)
      rw [List.filter_cons_of_neg (by simpa using ages),
        List.filter_cons_of_pos (by simpa using ages), nobody, everybody]
      rfl
  · intro split
    rw [split, List.pairwise_append]
    refine ⟨?_, ?_, fun a first b _ _ => by simpa using (List.mem_filter.mp first).2⟩
    · exact List.pairwise_of_forall_mem_list fun a first b _ _ => by simpa using (List.mem_filter.mp first).2
    · refine List.pairwise_of_forall_mem_list fun a _ b second ages => absurd ages ?_
      simpa using (List.mem_filter.mp second).2

theorem drop_eq_filter_iff (xs : List α) :
    xs.drop (xs.filter fun x => old x).length = xs.filter (fun x => ¬old x) ↔ xs.Pairwise fun a b => old b → old a := by
  rw [pairwise_iff_filter]
  constructor
  · intro rest
    have split := List.take_append_drop (xs.filter fun x => old x).length xs
    have none : (xs.filter fun x => ¬old x).filter (fun x => old x) = [] := by simp [List.filter_filter]
    have kept : (xs.take (xs.filter fun x => old x).length).filter (fun x => old x) = xs.filter fun x => old x := by
      conv_rhs => rw [← split]
      rw [List.filter_append, rest, none, List.append_nil]
    have all : (xs.take (xs.filter fun x => old x).length).filter
      (fun x => old x) = xs.take (xs.filter fun x => old x).length := by
      refine List.Sublist.eq_of_length List.filter_sublist ?_
      rw [kept, List.length_take, min_eq_left (List.length_filter_le ..)]
    rw [← rest]
    conv_lhs => rw [← split]
    rw [← all, kept]
  · intro split
    conv_lhs => rw [split]
    rw [List.filter_append]
    simp [List.filter_filter]

end Front

theorem length_staying (s : State n) (q : Level) :
    (staying s q).length + (leaving s q).length = (entries s q).length := by
  unfold staying leaving
  split_ifs with first
  · simp
  · rw [List.length_eq_length_filter_add (l := entries s q) fun p => ¬Ages s p]
    simp

theorem staying_eq_drop_iff : (entries s q).drop (leaving s q).length = staying s q ↔
    (q ≠ 0 → (entries s q).Pairwise fun a b => Ages s b → Ages s a) := by
  unfold staying leaving
  split_ifs with first
  · simp [first]
  · simp only [ne_eq, first, not_false_eq_true, forall_const]
    exact drop_eq_filter_iff _

theorem Done.toList (h : Done s 5 t) (members : Members s) (spacious : Spacious s) (q : Level) :
    (t.queue q).toList = ((entries s q).drop (leaving s q).length ++ arriving s q).map some := by
  have all := members.toList q
  have total := length_staying s q
  have room := spacious q
  have count : (s.queue q).count = (entries s q).length := by rw [← Ring.length_toList, all, List.length_map]
  have arrives : (if q.val + 1 < 5 then arriving s q else []) = arriving s q := by
    unfold arriving
    split_ifs <;> rfl
  have dropped := (s.queue q).toList_drops (leaving s q).length (by omega)
  have left : (Ring.drop^[(leaving s q).length] (s.queue q)).count = (staying s q).length := by
    rw [← Ring.length_toList, dropped, List.length_drop, Ring.length_toList]
    omega
  rw [h.queue q, if_pos q.isLt, arrives,
    Ring.toList_pushes _ _ (by rw [left, List.length_map]; exact room), dropped, all,
    List.map_append, List.map_drop]

theorem Done.entries (h : Done s 5 t) (members : Members s) (spacious : Spacious s) (q : Level) :
    entries t q = (Proof.entries s q).drop (leaving s q).length ++ arriving s q := by
  have present (xs : List Slot) : (xs.map some).reduceOption = xs := by simp [List.reduceOption]
  change (t.queue q).toList.reduceOption = _
  rw [h.toList members spacious q, present]

theorem mem_arriving (member : p ∈ arriving s q) : ∃ below : q.val + 1 < 5, p ∈ leaving s ⟨q.val + 1, below⟩ := by
  unfold arriving at member
  split_ifs at member with below
  · exact ⟨below, member⟩
  · cases member

theorem mem_staying : p ∈ staying s q ↔ p ∈ entries s q ∧ (q ≠ 0 → ¬Ages s p) := by
  unfold staying
  split_ifs with first <;> simp [first]

theorem Done.members (h : Done s 5 t) (members : Members s) (spacious : Spacious s) (front : InFront s) :
    Members t := by
  have list (q : Level) : (t.queue q).toList = (staying s q ++ arriving s q).map some := by
    rw [h.toList members spacious q, staying_eq_drop_iff.mpr (front q)]
  have stays {q : Level} {p : Slot} (member : p ∈ staying s q) : t.proc p = s.proc p := by
    obtain ⟨entry, young⟩ := mem_staying.mp member
    refine h.proc p fun l _ leaves => ?_
    obtain ⟨notFirst, here, ages⟩ := mem_leaving leaves
    obtain rfl := members.same_ring entry here
    exact young notFirst ages
  have state (p : Slot) : (t.proc p).state = (s.proc p).state := by
    by_cases leaves : ∃ l, p ∈ leaving s l
    · obtain ⟨l, member⟩ := leaves
      rw [h.moved p l l.isLt member]
    · rw [h.proc p fun l _ member => leaves ⟨l, member⟩]
  constructor
  case nodup =>
    intro q
    rw [list q]
    refine List.Nodup.map (Option.some_injective _) (List.nodup_append.mpr ⟨?_, ?_, ?_⟩)
    · unfold staying
      split_ifs
      · exact members.entries_nodup q
      · exact (members.entries_nodup q).filter _
    · unfold arriving leaving
      split_ifs
      · exact List.nodup_nil
      · exact (members.entries_nodup _).filter _
      · exact List.nodup_nil
    · rintro p first r second rfl
      obtain ⟨below, leaves⟩ := mem_arriving second
      have same := members.same_ring (mem_staying.mp first).1 (mem_leaving leaves).2.1
      have := congrArg Fin.val same
      simp at this
  case entry =>
    intro q x member
    rw [list q] at member
    obtain ⟨p, listed, rfl⟩ := List.mem_map.mp member
    rcases List.mem_append.mp listed with here | there
    · exact ⟨p, rfl, stays here ▸ members.level (mem_staying.mp here).1⟩
    obtain ⟨below, leaves⟩ := mem_arriving there
    obtain ⟨ready, level⟩ := members.level (mem_leaving leaves).2.1
    refine ⟨p, rfl, (state p).trans ready, ?_⟩
    rw [h.moved p _ below leaves, level]
    simp
  case kept =>
    intro p ready
    obtain ⟨q, member⟩ := members.kept p ((state p).symm.trans ready)
    have entry := mem_entries.mpr member
    by_cases stay : q ≠ 0 → ¬Ages s p
    · refine ⟨q, ?_⟩
      rw [list q]
      exact List.mem_map_of_mem (List.mem_append_left _ (mem_staying.mpr ⟨entry, stay⟩))
    obtain ⟨notFirst, ages⟩ := Classical.not_imp.mp stay
    have positive : q.val ≠ 0 := fun zero => notFirst (Fin.ext zero)
    have up : arriving s ⟨q.val - 1, by omega⟩ = leaving s q := by
      unfold arriving
      rw [dif_pos (by simp only; omega)]
      exact congrArg _ (Fin.ext (Nat.succ_pred positive))
    refine ⟨⟨q.val - 1, by omega⟩, ?_⟩
    rw [list, up]
    refine List.mem_map_of_mem (List.mem_append_right _ ?_)
    rw [leaving, if_neg notFirst]
    exact List.mem_filter.mpr ⟨entry, by simpa using not_not.mp ages⟩

/-- The ageing block ends, and it takes exactly the processes that have aged one level up, with everybody else left in
place, if and only if these stand in front of the others in their rings and no ring is given all the processes. -/
theorem ageingBlock_promotes_iff (members : Members s) (mode : (s.cpu c).mode = .ageing 1 (s.queue 1).head) :
    ∃ k t, exec (step .mlfq) s (List.replicate k (c, .go)) = some t ∧
      (∀ e ∈ trace (step .mlfq) s (List.replicate k (c, .go)), InBlock c e) ∧ (t.cpu c).mode = .loop ∧
      ((∀ q, entries t q = staying s q ++ arriving s q) ∧ Members t ↔ InFront s ∧ Spacious s) := by
  obtain ⟨_, _, run₁, done₁, next₁, -⟩ := Done.walks (q := 1) (Done.start (s := s)) members (by decide) mode
  obtain ⟨_, _, run₂, done₂, next₂, -⟩ := Done.walks (q := 2) done₁ members (by decide) (next₁ (by decide))
  obtain ⟨_, _, run₃, done₃, next₃, -⟩ := Done.walks (q := 3) done₂ members (by decide) (next₂ (by decide))
  obtain ⟨_, t, run₄, done, -, last⟩ := Done.walks (q := 4) done₃ members (by decide) (next₃ (by decide))
  have run := run₁.append (run₂.append (run₃.append run₄))
  simp only [List.replicate_append_replicate] at run
  refine ⟨_, t, run.ends, run.meets, last (by decide), fun ⟨moved, after⟩ => ?_, fun ⟨front, spacious⟩ => ?_⟩
  · have spacious : Spacious s := by
      intro q
      have all := congrArg List.length (moved q)
      rw [List.length_append] at all
      rw [← all, ← List.length_map some, ← after.toList q, Ring.length_toList]
      exact Ring.count_lt _
    refine ⟨fun q notFirst => ?_, spacious⟩
    have ends := moved q
    rw [done.entries members spacious q] at ends
    exact staying_eq_drop_iff.mp (List.append_cancel_right ends) notFirst
  · refine ⟨fun q => ?_, done.members members spacious front⟩
    rw [done.entries members spacious q, staying_eq_drop_iff.mpr (front q)]

instance (s : State n) : Decidable (Members s) :=
  decidable_of_iff ((∀ q, (s.queue q).toList.Nodup) ∧
    (∀ q, ∀ x ∈ (s.queue q).toList, ∃ p, x = some p ∧ (s.proc p).state = .runnable ∧ (s.proc p).queue = q.val) ∧
    ∀ p, (s.proc p).state = .runnable → ∃ q, some p ∈ (s.queue q).toList)
    ⟨fun ⟨nodup, entry, kept⟩ => ⟨nodup, entry, kept⟩, fun h => ⟨h.nodup, h.entry, h.kept⟩⟩

def twoWaiting (first second : Slot) : State 1 where
  lock := some 0
  proc := fun p =>
    if p = 0 then { Proc.zero with state := .runnable, queue := 1, lastExecuted := 2000 }
    else if p = 1 then { Proc.zero with state := .runnable, queue := 1 }
    else Proc.zero
  queue := fun q => if q = 1 then ⟨0, 2, fun i => if i = 0 then some first else if i = 1 then some second else none⟩
    else emptyRing
  nextpid := 3
  flag := 1
  initproc := some 0
  ticks := 2000
  cpu := fun _ => Cpu.zero (.ageing 1 0)

theorem ageingBlock_promotes_oldFirst : ∃ k t, exec (step .mlfq) (twoWaiting 1 0) (List.replicate k (0, .go)) = some t ∧
    (t.cpu 0).mode = .loop ∧ entries t 0 = [1] ∧ entries t 1 = [0] ∧ Members t := by
  obtain ⟨k, t, run, -, mode, moves⟩ := ageingBlock_promotes_iff (s := twoWaiting 1 0) (c := 0) (by decide +kernel) rfl
  obtain ⟨lists, members⟩ := moves.mpr (by decide +kernel)
  refine ⟨k, t, run, mode, (lists 0).trans ?_, (lists 1).trans ?_, members⟩ <;> decide +kernel

/-- With the other order process 0 is lost and process 1 is in two rings. -/
theorem ageingBlock_loses_youngFirst : Members (twoWaiting 0 1) ∧
    ∃ t, exec (step .mlfq) (twoWaiting 0 1) (List.replicate 6 (0, .go)) = some t ∧ (t.cpu 0).mode = .loop ∧
      (t.proc 0).state = .runnable ∧ (∀ q, 0 ∉ entries t q) ∧ 1 ∈ entries t 0 ∧ 1 ∈ entries t 1 := by
  decide +kernel

end Xv6.Proof
