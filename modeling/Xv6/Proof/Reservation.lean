import Xv6.Proof.GroupCommit

namespace Xv6.GroupCommit
open Xv6.Library State
open Xv6.Log (Word)

variable {n k : Nat} {s u : State n} {t r : Fin n} {a : Action} {b : Word} {as : List (Fin n × Action)}

def note (used : Fin n → List Word) : Fin n × Action → Fin n → List Word
  | (t, .begin) => Function.update used t []
  | (t, .logWrite b) => Function.update used t (b :: used t)
  | (_, .go) | (_, .finish) | (_, .rouse) => used

def used (as : List (Fin n × Action)) : Fin n → List Word := as.foldl note fun _ => []

theorem used_snoc (as : List (Fin n × Action)) (e : Fin n × Action) : used (as ++ [e]) = note (used as) e :=
  List.foldl_concat ..

def Bounded (k : Nat) (as : List (Fin n × Action)) : Prop := ∀ pre ∈ as.inits, ∀ t, (used pre t).dedup.length ≤ k

instance : Decidable (Bounded k as) := inferInstanceAs (Decidable (∀ pre ∈ as.inits, _))

theorem Bounded.mono {l : Nat} (h : Bounded k as) (le : k ≤ l) : Bounded l as :=
  fun pre member t => (h pre member t).trans le

theorem Bounded.before {bs : List (Fin n × Action)} (h : Bounded k (as ++ bs)) : Bounded k as :=
  fun pre member => h pre ((List.mem_inits ..).mpr (((List.mem_inits ..).mp member).trans (List.prefix_append as bs)))

theorem Bounded.here (h : Bounded k as) (t : Fin n) : (used as t).dedup.length ≤ k :=
  h as ((List.mem_inits ..).mpr List.prefix_rfl) t

inductive Stage where
  | outside
  | waiting
  | inside
  | logging (b : Word)

def stage : Pc → Stage
  | .out | .endWakeup | .commit | .doneAcquire | .doneClear | .doneWakeup => .outside
  | .beginAcquire | .beginTest | .sleepAcquire | .sleepRelease | .falling | .asleep => .waiting
  | .running | .endAcquire | .endDrop => .inside
  | .logAcquire b | .logAbsorb b => .logging b

def due (k : Nat) (lh used : List Word) : Stage → Nat
  | .outside | .waiting => 0
  | .inside => k - used.dedup.length
  | .logging b => k - used.dedup.length + if b ∈ lh then 0 else 1

def Covers (lh used : List Word) : Stage → Prop
  | .outside => True
  | .waiting => used = []
  | .inside => used ⊆ lh
  | .logging b => b ∈ used ∧ ∀ c ∈ used, c = b ∨ c ∈ lh

theorem stage_idle {pc : Pc} (idle : inOp pc = false) : stage pc = .outside ∨ stage pc = .waiting := by
  cases pc <;> simp_all [inOp, stage]

section
variable {lh lh' used' : List Word} {x : Stage}

theorem due_idle {pc : Pc} (idle : inOp pc = false) : due k lh used' (stage pc) = 0 := by
  rcases stage_idle idle with outside | waiting
  · simp [outside, due]
  · simp [waiting, due]

theorem due_logging_le (k : Nat) (lh used : List Word) (b : Word) :
    due k lh used (.logging b) ≤ k - used.dedup.length + 1 := by
  simp only [due]
  split_ifs <;> omega

theorem due_antitone (grows : lh ⊆ lh') (x : Stage) : due k lh' used' x ≤ due k lh used' x := by
  cases x with
  | outside | waiting | inside => exact le_rfl
  | logging b =>
    have more := @grows b
    simp only [due]
    split_ifs <;> simp_all

theorem Covers.mono (grows : lh ⊆ lh') (h : Covers lh used' x) : Covers lh' used' x := by
  cases x with
  | outside => trivial
  | waiting => exact h
  | inside => exact List.Subset.trans h grows
  | logging b => exact ⟨h.1, fun c member => (h.2 c member).imp_right (@grows c)⟩

theorem Covers.due_le (h : Covers lh used' x) (fits : used'.dedup.length ≤ k) : due k lh used' x ≤ k := by
  cases x with
  | outside | waiting => exact Nat.zero_le k
  | inside => exact Nat.sub_le ..
  | logging b =>
    have some : 0 < used'.dedup.length := List.length_pos_of_mem (List.mem_dedup.mpr h.1)
    have one := due_logging_le k lh used' b
    omega

end

structure Reserved (k : Nat) (used : Fin n → List Word) (s : State n) : Prop where
  fits : ∀ t, (used t).dedup.length ≤ k
  covers : ∀ t, Covers s.lh (used t) (stage (s.pc t))
  room : s.lh.length + ∑ t, due k s.lh (used t) (stage (s.pc t)) ≤ LOGSIZE - 2

section
variable {used used' : Fin n → List Word}

theorem Reserved.of (h : Reserved k used s) (same : ∀ r, r ≠ t → used' r = used r ∧ stage (u.pc r) = stage (s.pc r))
    (grows : s.lh ⊆ u.lh) (fits : (used' t).dedup.length ≤ k) (covers : Covers u.lh (used' t) (stage (u.pc t)))
    (room : u.lh.length + due k u.lh (used' t) (stage (u.pc t)) ≤ s.lh.length + due k s.lh (used t) (stage (s.pc t))) :
    Reserved k used' u := by
  refine ⟨fun r => ?_, fun r => ?_, ?_⟩
  · by_cases here : r = t
    · exact here ▸ fits
    · exact (same r here).1 ▸ h.fits r
  · by_cases here : r = t
    · exact here ▸ covers
    · rw [(same r here).1, (same r here).2]
      exact (h.covers r).mono grows
  · have swap := sum_swap_le (i := t) (f := fun r => due k u.lh (used' r) (stage (u.pc r)))
      (g := fun r => due k s.lh (used r) (stage (s.pc r))) fun r other => by
        rw [(same r other).1, (same r other).2]
        exact due_antitone grows _
    have before := h.room
    omega

theorem Reserved.move (h : Reserved k used s) (same : ∀ r, r ≠ t → stage (u.pc r) = stage (s.pc r)) (lh : u.lh = s.lh)
    (next : stage (u.pc t) = stage (s.pc t) ∨ stage (u.pc t) = .outside) : Reserved k used u := by
  refine h.of (t := t) (fun r other => ⟨rfl, same r other⟩) (by simp [lh]) (h.fits t) ?_ ?_
  · rcases next with next | next
    · rw [next, lh]
      exact h.covers t
    · rw [next]
      trivial
  · rcases next with next | next <;> rw [next, lh]
    exact Nat.add_le_add_left (Nat.zero_le _) _

theorem Reserved.enter (h : Reserved k used s) (grouped : Grouped s) (few : k < MAXOPBLOCKS) (pc : s.pc t = .beginTest)
    (idle : s.committing = false) (room : s.lh.length + (s.outstanding + 1) * MAXOPBLOCKS ≤ LOGSIZE) :
    Reserved k used { s.goto t .running with outstanding := s.outstanding + 1, lock := none } := by
  have self : (s.goto t .running).pc t = .running := by simp [State.goto]
  have other {r : Fin n} (other : r ≠ t) : (s.goto t .running).pc r = s.pc r := by simp [State.goto, other]
  have mine : due k s.lh (used t) (stage (s.pc t)) = 0 := by simp [pc, stage, due]
  have total : ∑ r, due k s.lh (used r) (stage (s.pc r)) ≤ ops s.pc * k := by
    rw [ops, Finset.sum_mul]
    refine Finset.sum_le_sum fun r _ => ?_
    by_cases member : inOp (s.pc r)
    · simpa [member] using (h.covers r).due_le (h.fits r)
    · simp [due_idle (by simpa using member)]
  refine ⟨h.fits, fun r => ?_, ?_⟩
  · by_cases same : r = t
    · have empty : used t = [] := by simpa [pc, stage, Covers] using h.covers t
      simp [same, self, stage, Covers, empty]
    · simp only [other same]
      exact h.covers r
  have swap := sum_swap (i := t) (f := fun r => due k s.lh (used r) (stage ((s.goto t .running).pc r)))
    (g := fun r => due k s.lh (used r) (stage (s.pc r))) fun r outside => by rw [other outside]
  have here : due k s.lh (used t) (stage ((s.goto t .running).pc t)) ≤ k := by simp [self, stage, due]
  have count := grouped.count
  change s.lh.length + ∑ r, due k s.lh (used r) (stage ((s.goto t .running).pc r)) ≤ LOGSIZE - 2
  simp only [MAXOPBLOCKS, LOGSIZE] at *
  -- the first operation finds the log empty, and each later one leaves a block unused
  by_cases first : s.outstanding = 0
  · have empty := grouped.empty first idle
    have none : ops s.pc = 0 := by omega
    simp only [none, Nat.zero_mul] at total
    simp only [empty, List.length_nil] at *
    omega
  · have le : ops s.pc * k ≤ ops s.pc * 9 := Nat.mul_le_mul_left _ (by omega)
    omega

theorem Reserved.turn (h : Reserved k used s) (grouped : Grouped s) (few : k < MAXOPBLOCKS) (turn : Turn s t a u)
    (fits : (note used (t, a) t).dedup.length ≤ k) : Reserved k (note used (t, a)) u := by
  have goto {y : Pc} {r : Fin n} (other : r ≠ t) : stage ((s.goto t y).pc r) = stage (s.pc r) := by
    simp [State.goto, other]
  have self {y : Pc} : (s.goto t y).pc t = y := by simp [State.goto]
  cases turn with
  | begin pc =>
    refine h.of (t := t) (fun r other => ⟨by simp [note, other], goto other⟩) (List.Subset.refl _) fits ?_ ?_
    · simp [self, stage, note, Covers]
    · simp [pc, stage, due, State.goto]
  | logWrite b pc =>
    refine h.of (t := t) (fun r other => ⟨by simp [note, other], goto other⟩) (List.Subset.refl _) fits ?_ ?_
    · have covers := h.covers t
      rw [pc] at covers
      simp only [self, stage, note, Function.update_self]
      exact ⟨List.mem_cons_self, fun c member => (List.mem_cons.mp member).imp_right (@covers c)⟩
    have covers : used t ⊆ s.lh := by simpa [pc, stage, Covers] using h.covers t
    simp only [note, Function.update_self] at fits ⊢
    change s.lh.length + due k s.lh (b :: used t) _ ≤ _
    simp only [self, pc, stage]
    refine Nat.add_le_add_left ?_ _
    by_cases old : b ∈ used t
    · simp [due, List.dedup_cons_of_mem old, covers old]
    have one := due_logging_le k s.lh (b :: used t) b
    rw [List.dedup_cons_of_notMem old] at fits one
    simp only [List.length_cons] at fits one
    change _ ≤ k - (used t).dedup.length
    omega
  | finish pc | sleep pc | sleepAcquire pc | sleepRelease pc | fall pc | last pc | drop pc | clear pc | rouse pc =>
    exact h.move (t := t) (fun r => goto) rfl (by simp [State.goto, pc, stage])
  | acquire x y pc _ takes =>
    exact h.move (t := t) (fun r => goto) rfl (by cases takes <;> simp [State.goto, pc, stage])
  | enter pc idle room => exact h.enter grouped few pc idle room
  | absorb b pc =>
    have covers : b ∈ used t ∧ ∀ c ∈ used t, c = b ∨ c ∈ s.lh := by simpa [pc, stage, Covers] using h.covers t
    refine h.of (t := t) (fun r other => ⟨rfl, goto other⟩) ?_ fits ?_ ?_
    · dsimp only
      split_ifs <;> simp
    · simp only [self, stage, Covers, note]
      intro c member
      rcases covers.2 c member with rfl | old <;> split_ifs <;> simp_all
    · simp only [self, pc, stage, due, note]
      split_ifs <;> simp
      omega
  | wakeup pc =>
    refine h.move (t := t) (fun r other => ?_) rfl (.inr (by simp [stage]))
    by_cases asleep : s.pc r = .asleep <;> simp [other, asleep, stage]
  | commit pc =>
    have committing := grouped.commits t (by simp [pc, commits])
    have idle (r : Fin n) : inOp ((s.goto t .doneAcquire).pc r) = false := by
      by_cases same : r = t
      · simp [State.goto, same, inOp]
      · refine Bool.eq_false_iff.mpr fun member => ?_
        simpa [committing] using grouped.quiet (t := r) (by simpa [State.goto, same] using member)
    refine ⟨h.fits, fun r => ?_, ?_⟩
    · have waiting : stage ((s.goto t .doneAcquire).pc r) = .waiting → used r = [] := by
        intro waits
        have covers := h.covers r
        by_cases same : r = t
        · simp [State.goto, same, stage] at waits
        · rw [goto same] at waits
          rwa [waits] at covers
      rcases stage_idle (idle r) with outside | waits
      · simp [outside, Covers]
      · simp only [waits, Covers]
        exact waiting waits
    · simp [due_idle (idle _)]

theorem Reserved.start : Reserved k (fun _ => []) (start : State n) := by
  refine ⟨fun _ => Nat.zero_le k, fun _ => trivial, ?_⟩
  simp [GroupCommit.start, stage, due, LOGSIZE, MAXOPBLOCKS]

end

theorem reserved (run : exec (step LOGSIZE) start as = some s) (few : k < MAXOPBLOCKS) (bounded : Bounded k as) :
    Reserved k (used as) s := by
  refine exec_schedule (I := fun as s => Bounded k as → Reserved k (used as) s) (fun _ => Reserved.start)
    (fun _ s e u run ih action bounded => ?_) run bounded
  have fits := bounded.here e.1
  rw [used_snoc] at fits ⊢
  exact (ih bounded.before).turn (grouped run) few (step_turn action).2 fits

theorem log_write_fits (run : exec (step LOGSIZE) start as = some s) (few : k < MAXOPBLOCKS) (bounded : Bounded k as) :
    s.panic LOGSIZE (t, .logWrite b) ≠ some .tooBig := by
  have room := (reserved run few bounded).room
  have small : ¬ (s.lh.length ≥ LOGSIZE ∨ s.lh.length ≥ LOGSIZE - 1) := by
    simp only [LOGSIZE, MAXOPBLOCKS] at room ⊢
    omega
  simp only [State.panic, small, if_false]
  split_ifs <;> simp

def thirty : List (Fin 3 × Action) :=
  [0, 1, 2].flatMap (fun t => [(t, Action.begin), (t, .go), (t, .go)]) ++
    (List.range 29).flatMap fun b =>
      let t : Fin 3 := if b < 10 then 0 else if b < 20 then 1 else 2
      [(t, Action.logWrite b), (t, .go), (t, .go)]

theorem thirty_panics : ∃ s : State 3, exec (step LOGSIZE) start thirty = some s ∧
    Bounded MAXOPBLOCKS (thirty ++ [(2, .logWrite 29)]) ∧ s.panic LOGSIZE (2, .logWrite 29) = some .tooBig := by
  decide +kernel

theorem log_write_too_big : ¬ ∀ (n : Nat) (as : List (Fin n × Action)) (s : State n) (t : Fin n) (b : Word),
    exec (step LOGSIZE) start as = some s → Bounded MAXOPBLOCKS (as ++ [(t, .logWrite b)]) →
      s.panic LOGSIZE (t, .logWrite b) ≠ some .tooBig := by
  intro safe
  obtain ⟨s, run, bounded, panics⟩ := thirty_panics
  exact safe 3 thirty s 2 29 run bounded panics

theorem reservation_sufficient_iff (k : Nat) :
    (∀ (n : Nat) (as : List (Fin n × Action)) (s : State n) (t : Fin n) (b : Word),
      exec (step LOGSIZE) start as = some s → Bounded k (as ++ [(t, .logWrite b)]) →
        s.panic LOGSIZE (t, .logWrite b) ≠ some .tooBig) ↔ k < MAXOPBLOCKS := by
  refine ⟨fun safe => ?_, fun few n _ s t b run bounded => log_write_fits run few bounded.before⟩
  by_contra many
  obtain ⟨s, run, bounded, panics⟩ := thirty_panics
  exact safe 3 thirty s 2 29 run (bounded.mono (not_lt.mp many)) panics

end Xv6.GroupCommit
