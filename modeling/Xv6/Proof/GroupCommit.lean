import Xv6.Library.Tally
import Xv6.Library.Transition
import Xv6.Kernel.GroupCommit

/-!
# The group-commit protocol

`log.outstanding` is the number of processes between `begin_op` and `end_op`. The last of them alone goes into
`commit`, and until it has set `committing` back nobody gets past `begin_op`. A process sleeps in `begin_op` only while
there is somebody who will wake it.
-/

namespace Xv6.GroupCommit
open Xv6.Library State
open Xv6.Log (Word)

variable {n size : Nat} {s u : State n} {t r : Fin n} {a : Action} {b : Word} {x y : Pc}

def holds : Pc → Bool
  | .beginTest | .sleepAcquire | .sleepRelease | .logAbsorb _ | .endDrop | .endWakeup | .doneClear | .doneWakeup => true
  | .out | .beginAcquire | .falling | .asleep | .running | .logAcquire _ | .endAcquire | .commit | .doneAcquire => false

def falls : Pc → Bool
  | .sleepRelease | .falling => true
  | .out | .beginAcquire | .beginTest | .sleepAcquire | .asleep | .running | .logAcquire _ | .logAbsorb _
  | .endAcquire | .endDrop | .endWakeup | .commit | .doneAcquire | .doneClear | .doneWakeup => false

def sleepy : Pc → Bool
  | .sleepAcquire | .sleepRelease | .falling | .asleep => true
  | .out | .beginAcquire | .beginTest | .running | .logAcquire _ | .logAbsorb _ | .endAcquire | .endDrop
  | .endWakeup | .commit | .doneAcquire | .doneClear | .doneWakeup => false

def inOp : Pc → Bool
  | .running | .logAcquire _ | .logAbsorb _ | .endAcquire | .endDrop => true
  | .out | .beginAcquire | .beginTest | .sleepAcquire | .sleepRelease | .falling | .asleep | .endWakeup | .commit
  | .doneAcquire | .doneClear | .doneWakeup => false

def commits : Pc → Bool
  | .commit | .doneAcquire | .doneClear => true
  | .out | .beginAcquire | .beginTest | .sleepAcquire | .sleepRelease | .falling | .asleep | .running
  | .logAcquire _ | .logAbsorb _ | .endAcquire | .endDrop | .endWakeup | .doneWakeup => false

inductive Takes : Pc → Pc → Prop
  | begin : Takes .beginAcquire .beginTest
  | log (b : Word) : Takes (.logAcquire b) (.logAbsorb b)
  | finish : Takes .endAcquire .endDrop
  | done : Takes .doneAcquire .doneClear

inductive Turn (s : State n) (t : Fin n) : Action → State n → Prop
  | begin (pc : s.pc t = .out) : Turn s t .begin (s.goto t .beginAcquire)
  | rouse (pc : s.pc t = .asleep) : Turn s t .rouse (s.goto t .beginAcquire)
  | logWrite (b : Word) (pc : s.pc t = .running) : Turn s t (.logWrite b) (s.goto t (.logAcquire b))
  | finish (pc : s.pc t = .running) : Turn s t .finish (s.goto t .endAcquire)
  | acquire (x y : Pc) (pc : s.pc t = x) (free : s.lock = none) (takes : Takes x y) :
      Turn s t .go { s.goto t y with lock := some t }
  | sleep (pc : s.pc t = .beginTest)
      (waits : s.committing ∨ s.lh.length + (s.outstanding + 1) * MAXOPBLOCKS > LOGSIZE) :
      Turn s t .go (s.goto t .sleepAcquire)
  | enter (pc : s.pc t = .beginTest) (idle : s.committing = false)
      (room : s.lh.length + (s.outstanding + 1) * MAXOPBLOCKS ≤ LOGSIZE) :
      Turn s t .go { s.goto t .running with outstanding := s.outstanding + 1, lock := none }
  | sleepAcquire (pc : s.pc t = .sleepAcquire) (free : s.ptable = none) :
      Turn s t .go { s.goto t .sleepRelease with ptable := some t }
  | sleepRelease (pc : s.pc t = .sleepRelease) : Turn s t .go { s.goto t .falling with lock := none }
  | fall (pc : s.pc t = .falling) : Turn s t .go { s.goto t .asleep with ptable := none }
  | absorb (b : Word) (pc : s.pc t = .logAbsorb b) :
      Turn s t .go { s.goto t .running with lh := if b ∈ s.lh then s.lh else s.lh ++ [b], lock := none }
  | last (pc : s.pc t = .endDrop) (idle : s.committing = false) (zero : s.outstanding - 1 = 0) :
      Turn s t .go { s.goto t .commit with outstanding := s.outstanding - 1, committing := true, lock := none }
  | drop (pc : s.pc t = .endDrop) (idle : s.committing = false) (more : s.outstanding - 1 ≠ 0) :
      Turn s t .go { s.goto t .endWakeup with outstanding := s.outstanding - 1 }
  | wakeup (pc : s.pc t = .endWakeup ∨ s.pc t = .doneWakeup) (free : s.ptable = none) :
      Turn s t .go { s with
        lock := none
        pc := fun u => if u = t then .out else if s.pc u = .asleep then .beginAcquire else s.pc u }
  | commit (pc : s.pc t = .commit) : Turn s t .go { s.goto t .doneAcquire with lh := [] }
  | clear (pc : s.pc t = .doneClear) : Turn s t .go { s.goto t .doneWakeup with committing := false }

theorem acquire_turn (action : s.acquire t y = some u) (pc : s.pc t = x) (takes : Takes x y) : Turn s t .go u := by
  obtain ⟨free, action⟩ := Option.ite_none_right_eq_some.mp action
  cases action
  exact .acquire x y pc free takes

theorem wakeup_turn (action : s.wakeup t = some u) (pc : s.pc t = .endWakeup ∨ s.pc t = .doneWakeup) :
    Turn s t .go u := by
  obtain ⟨free, action⟩ := Option.ite_none_right_eq_some.mp action
  cases action
  exact .wakeup pc free

theorem go_turn (calm : s.panic size (t, .go) = none) (action : s.go t = some u) : Turn s t .go u := by
  have idle (pc : s.pc t = .endDrop) : s.committing = false := by simpa [State.panic, pc] using calm
  unfold State.go at action
  cases pc : s.pc t <;> simp only [pc] at action
  case out | asleep | running => cases action
  case beginAcquire => exact acquire_turn action pc .begin
  case logAcquire b => exact acquire_turn action pc (.log b)
  case endAcquire => exact acquire_turn action pc .finish
  case doneAcquire => exact acquire_turn action pc .done
  case endWakeup | doneWakeup => exact wakeup_turn action (by simp [pc])
  case beginTest =>
      split_ifs at action with committing full
      · exact Option.some.inj action ▸ .sleep pc (.inl committing)
      · exact Option.some.inj action ▸ .sleep pc (.inr full)
      · exact Option.some.inj action ▸ .enter pc (by simpa using committing) (not_lt.mp full)
  case sleepAcquire =>
      obtain ⟨free, action⟩ := Option.ite_none_right_eq_some.mp action
      exact Option.some.inj action ▸ .sleepAcquire pc free
  case sleepRelease => exact Option.some.inj action ▸ .sleepRelease pc
  case falling => exact Option.some.inj action ▸ .fall pc
  case logAbsorb b => exact Option.some.inj action ▸ .absorb b pc
  case endDrop =>
      split_ifs at action with zero
      · exact Option.some.inj action ▸ .last pc (idle pc) zero
      · exact Option.some.inj action ▸ .drop pc (idle pc) zero
  case commit => exact Option.some.inj action ▸ .commit pc
  case doneClear => exact Option.some.inj action ▸ .clear pc

theorem step_turn (action : step size s (t, a) = some u) : s.panic size (t, a) = none ∧ Turn s t a u := by
  obtain ⟨calm, action⟩ := Option.ite_none_left_eq_some.mp action
  have calm : s.panic size (t, a) = none := by simpa using calm
  refine ⟨calm, ?_⟩
  cases a with
  | go => exact go_turn calm action
  | begin | logWrite b | finish | rouse =>
    cases pc : s.pc t <;> simp only [pc] at action
    all_goals first
      | cases action; done
      | exact Option.some.inj action ▸ .begin pc
      | exact Option.some.inj action ▸ .logWrite b pc
      | exact Option.some.inj action ▸ .finish pc
      | exact Option.some.inj action ▸ .rouse pc

def ops (pc : Fin n → Pc) : Nat := ∑ r, if inOp (pc r) then 1 else 0

theorem ops_update (pc : Fin n → Pc) :
    ops (Function.update pc t y) + (if inOp (pc t) then 1 else 0) = ops pc + if inOp y then 1 else 0 :=
  sum_update (fun pc => if inOp pc then 1 else 0) pc t y

theorem ops_pos {pc : Fin n → Pc} (member : inOp (pc t)) : 0 < ops pc := by
  have le := le_sum (fun r => if inOp (pc r) then 1 else 0) t
  simp only [member, if_true] at le
  exact le

structure Grouped (s : State n) : Prop where
  holds : ∀ t, holds (s.pc t) → s.lock = some t
  falls : ∀ t, falls (s.pc t) → s.ptable = some t
  count : s.outstanding = ops s.pc
  commits : ∀ t, commits (s.pc t) → s.committing
  one : ∀ t r, GroupCommit.commits (s.pc t) → GroupCommit.commits (s.pc r) → t = r
  alone : s.committing → s.outstanding = 0
  empty : s.outstanding = 0 → s.committing = false → s.lh = []
  cleared : ∀ t, s.pc t = .doneAcquire ∨ s.pc t = .doneClear → s.lh = []
  sleeps : ∀ t, sleepy (s.pc t) → s.committing ∨ 1 ≤ s.outstanding ∨ ∃ r, s.pc r = .doneWakeup

theorem cleared_goto (there : (s.goto t y).pc r = .doneAcquire ∨ (s.goto t y).pc r = .doneClear)
    (early : y ≠ .doneAcquire) (late : y ≠ .doneClear) : s.pc r = .doneAcquire ∨ s.pc r = .doneClear := by
  by_cases same : r = t
  · simp [goto, same, early, late] at there
  · simpa [goto, same] using there

section
variable (h : Grouped s)
include h

theorem Grouped.of (pc : u.pc = Function.update s.pc t y)
    (locks : ∀ r, r ≠ t → s.lock = some r → u.lock = some r) (mine : GroupCommit.holds y → u.lock = some t)
    (ptables : ∀ r, r ≠ t → s.ptable = some r → u.ptable = some r) (down : GroupCommit.falls y → u.ptable = some t)
    (count : u.outstanding + (if inOp (s.pc t) then 1 else 0) = s.outstanding + if inOp y then 1 else 0)
    (commits : GroupCommit.commits y → u.committing)
    (others : ∀ r, r ≠ t → GroupCommit.commits (s.pc r) → u.committing ∧ ¬ GroupCommit.commits y)
    (alone : u.committing → u.outstanding = 0) (empty : u.outstanding = 0 → u.committing = false → u.lh = [])
    (cleared : ∀ r, u.pc r = .doneAcquire ∨ u.pc r = .doneClear → u.lh = [])
    (sleeps : ∀ r, sleepy (u.pc r) → u.committing ∨ 1 ≤ u.outstanding ∨ ∃ r, u.pc r = .doneWakeup) : Grouped u := by
  have self : u.pc t = y := by simp [pc]
  have pcs {r : Fin n} (other : r ≠ t) : u.pc r = s.pc r := by simp [pc, other]
  refine ⟨fun r there => ?_, fun r there => ?_, ?_, fun r there => ?_,
    fun q r there there' => ?_, alone, empty, cleared, sleeps⟩
  · by_cases same : r = t
    · subst same
      exact mine (self ▸ there)
    · exact locks r same (h.holds r (pcs same ▸ there))
  · by_cases same : r = t
    · subst same
      exact down (self ▸ there)
    · exact ptables r same (h.falls r (pcs same ▸ there))
  · have swap := ops_update (t := t) (y := y) s.pc
    rw [h.count] at count
    rw [pc]
    split_ifs at count swap <;> omega
  · by_cases same : r = t
    · subst same
      exact commits (self ▸ there)
    · exact (others r same (pcs same ▸ there)).1
  · by_cases first : q = t <;> by_cases second : r = t
    · rw [first, second]
    · subst first
      exact absurd (self ▸ there) (others r second (pcs second ▸ there')).2
    · subst second
      exact absurd (self ▸ there') (others q first (pcs first ▸ there)).2
    · exact h.one q r (pcs first ▸ there) (pcs second ▸ there')

theorem Grouped.move {lock ptable : Option (Fin n)} (same : inOp y = inOp (s.pc t))
    (kind : GroupCommit.commits y → GroupCommit.commits (s.pc t)) (done : y = .doneAcquire ∨ y = .doneClear → s.lh = [])
    (locks : ∀ r, r ≠ t → s.lock = some r → lock = some r) (mine : GroupCommit.holds y → lock = some t)
    (ptables : ∀ r, r ≠ t → s.ptable = some r → ptable = some r) (down : GroupCommit.falls y → ptable = some t)
    (waits : sleepy y → s.committing ∨ 1 ≤ s.outstanding ∨ ∃ r, s.pc r = .doneWakeup) (waker : s.pc t ≠ .doneWakeup) :
    Grouped { s.goto t y with lock := lock, ptable := ptable } := by
  refine h.of rfl locks mine ptables down (by simp [goto, same]) (fun here => h.commits t (kind here))
    (fun r other there => ⟨h.commits r there, fun here => other (h.one r t there (kind here))⟩) h.alone h.empty
    (fun r there => ?_) (fun r there => ?_)
  · by_cases here : r = t
    · exact done (by simpa [goto, here] using there)
    · exact h.cleared r (by simpa [goto, here] using there)
  have still : s.committing ∨ 1 ≤ s.outstanding ∨ ∃ r, s.pc r = .doneWakeup := by
    by_cases here : r = t
    · exact waits (by simpa [goto, here] using there)
    · exact h.sleeps r (by simpa [goto, here] using there)
  refine still.imp_right (Or.imp_right fun ⟨q, woken⟩ => ⟨q, ?_⟩)
  have other : q ≠ t := by
    rintro rfl
    exact waker woken
  simpa [goto, other] using woken

theorem Grouped.relog (lh : List Word) (member : inOp (s.pc t)) : Grouped { s with lh := lh } := by
  have some : s.outstanding ≠ 0 := by
    have := ops_pos member
    rw [h.count]
    omega
  refine { h with empty := fun zero => absurd zero some, cleared := fun r there => ?_ }
  have commits : GroupCommit.commits (s.pc r) := by
    change s.pc r = _ ∨ s.pc r = _ at there
    rcases there with pc | pc <;> simp [pc, GroupCommit.commits]
  exact absurd (h.alone (h.commits r commits)) some

theorem Grouped.wakeup (pc : s.pc t = .endWakeup ∨ s.pc t = .doneWakeup) (free : s.ptable = none) : Grouped { s with
      lock := none
      pc := fun u => if u = t then .out else if s.pc u = .asleep then .beginAcquire else s.pc u } := by
  have mine : s.lock = some t := h.holds t (by rcases pc with pc | pc <;> simp [pc, GroupCommit.holds])
  generalize awake : (fun u => if u = t then .out else if s.pc u = .asleep then .beginAcquire else s.pc u) = pcs
  -- nobody is left in `sleep`, and `t` held the lock
  have places (r : Fin n) : pcs r = .out ∨ pcs r = .beginAcquire ∨ r ≠ t ∧ s.pc r ≠ .asleep ∧ pcs r = s.pc r := by
    by_cases same : r = t
    · exact .inl (by simp [← awake, same])
    · by_cases asleep : s.pc r = .asleep
      · exact .inr (.inl (by simp [← awake, same, asleep]))
      · exact .inr (.inr ⟨same, asleep, by simp [← awake, same, asleep]⟩)
  have unlocked {r : Fin n} (other : r ≠ t) : GroupCommit.holds (s.pc r) = false := by
    refine Bool.eq_false_iff.mpr fun there => other ?_
    exact Option.some.inj ((h.holds r there).symm.trans mine)
  have risen (r : Fin n) : GroupCommit.falls (s.pc r) = false := by
    refine Bool.eq_false_iff.mpr fun there => ?_
    simpa [free] using h.falls r there
  have kinds (r : Fin n) : inOp (pcs r) = inOp (s.pc r) ∧
    GroupCommit.commits (pcs r) = GroupCommit.commits (s.pc r) := by
    by_cases same : r = t
    · rcases pc with pc | pc <;> simp [← awake, same, pc, inOp, GroupCommit.commits]
    · by_cases asleep : s.pc r = .asleep <;> simp [← awake, same, asleep, inOp, GroupCommit.commits]
  refine ⟨fun r there => ?_, fun r there => ?_, ?_, fun r there => h.commits r ((kinds r).2 ▸ there),
    fun q r there there' => h.one q r ((kinds q).2 ▸ there) ((kinds r).2 ▸ there'), h.alone, h.empty,
    fun r there => ?_, fun r there => ?_⟩
  · rcases places r with out | begin | ⟨other, -, same⟩
    · simp [out, GroupCommit.holds] at there
    · simp [begin, GroupCommit.holds] at there
    · simp [same, unlocked other] at there
  · rcases places r with out | begin | ⟨-, -, same⟩
    · simp [out, GroupCommit.falls] at there
    · simp [begin, GroupCommit.falls] at there
    · simp [same, risen r] at there
  · rw [h.count, ops, ops]
    simp only [(kinds _).1]
  · change pcs r = _ ∨ pcs r = _ at there
    rcases places r with out | begin | ⟨-, -, same⟩
    · simp [out] at there
    · simp [begin] at there
    · exact h.cleared r (same ▸ there)
  · rcases places r with out | begin | ⟨other, awake, same⟩
    · simp [out, sleepy] at there
    · simp [begin, sleepy] at there
    · have still := unlocked other
      have up := risen r
      cases place : s.pc r <;> simp_all [GroupCommit.holds, GroupCommit.falls, sleepy]

theorem Grouped.ops_pos (member : inOp (s.pc t)) : 1 ≤ s.outstanding := by
  have := GroupCommit.ops_pos member
  rw [h.count]
  omega

theorem Grouped.quiet (member : inOp (s.pc t)) : s.committing = false := by
  refine Bool.eq_false_iff.mpr fun committing => ?_
  have some := h.ops_pos member
  have zero := h.alone committing
  omega

theorem Grouped.turn (turn : Turn s t a u) : Grouped u := by
  have kept {r : Fin n} {held : Option (Fin n)} : r ≠ t → held = some r → held = some r := fun _ held => held
  have alone {r : Fin n} {held : Option (Fin n)} (mine : held = some t) : r ≠ t → held = some r → none = some r := by
    intro other theirs
    exact absurd (Option.mem_unique theirs mine) other
  have taken {r : Fin n} {held : Option (Fin n)} (free : held = none) : r ≠ t → held = some r → some t = some r := by
    intro _ theirs
    simp [free] at theirs
  have mine {x : Pc} (pc : s.pc t = x) (holds : GroupCommit.holds x) : s.lock = some t := h.holds t (pc ▸ holds)
  have none (idle : s.committing = false) (r : Fin n) (there : GroupCommit.commits (s.pc r)) : False := by
    simpa [idle] using h.commits r there
  cases turn with
  | begin pc | rouse pc | finish pc | logWrite b pc =>
    exact h.move (by simp [pc, inOp]) (by simp [GroupCommit.commits]) (by simp) (fun _ => kept)
      (by simp [GroupCommit.holds]) (fun _ => kept) (by simp [GroupCommit.falls]) (by simp [sleepy]) (by simp [pc])
  | acquire x y pc free takes =>
    refine h.move ?_ ?_ ?_ (fun _ => taken free) (fun _ => rfl) (fun _ => kept) ?_ ?_ ?_
    all_goals cases takes <;> simp [pc, inOp, GroupCommit.commits, GroupCommit.falls, sleepy]
    exact h.cleared t (.inl pc)
  | sleep pc waits =>
    refine h.move (by simp [pc, inOp]) (by simp [GroupCommit.commits]) (by simp) (fun _ => kept) (fun _ => mine pc rfl)
      (fun _ => kept) (by simp [GroupCommit.falls]) (fun _ => ?_) (by simp [pc])
    -- with no operation and no commit the log is empty, and there is room for one
    by_contra idle
    push Not at idle
    obtain ⟨calm, none, -⟩ := idle
    have calm : s.committing = false := by simpa using calm
    have count := h.count
    have zero : s.outstanding = 0 := by omega
    have empty := h.empty zero calm
    simp [calm, zero, empty, MAXOPBLOCKS, LOGSIZE] at waits
  | sleepAcquire pc free =>
    exact h.move (by simp [pc, inOp]) (by simp [GroupCommit.commits]) (by simp) (fun _ => kept) (fun _ => mine pc rfl)
      (fun _ => taken free) (fun _ => rfl) (fun _ => h.sleeps t (by simp [pc, sleepy])) (by simp [pc])
  | sleepRelease pc =>
    have down : s.ptable = some t := h.falls t (by simp [pc, GroupCommit.falls])
    exact h.move (by simp [pc, inOp]) (by simp [GroupCommit.commits]) (by simp) (fun _ => alone (mine pc rfl))
      (by simp [GroupCommit.holds]) (fun _ => kept) (fun _ => down) (fun _ => h.sleeps t (by simp [pc, sleepy]))
      (by simp [pc])
  | fall pc =>
    have down : s.ptable = some t := h.falls t (by simp [pc, GroupCommit.falls])
    exact h.move (by simp [pc, inOp]) (by simp [GroupCommit.commits]) (by simp) (fun _ => kept)
      (by simp [GroupCommit.holds]) (fun _ => alone down) (by simp [GroupCommit.falls])
      (fun _ => h.sleeps t (by simp [pc, sleepy])) (by simp [pc])
  | absorb b pc =>
    have logged := h.relog (t := t) (if b ∈ s.lh then s.lh else s.lh ++ [b]) (by simp [pc, inOp])
    exact logged.move (y := .running) (by simp [pc, inOp]) (by simp [GroupCommit.commits]) (by simp)
      (fun _ => alone (mine pc rfl)) (by simp [GroupCommit.holds]) (fun _ => kept) (by simp [GroupCommit.falls])
      (by simp [sleepy]) (by simp [pc])
  | wakeup pc free => exact h.wakeup pc free
  | enter pc idle =>
    have count := h.count
    refine h.of (t := t) (y := .running) rfl (fun _ => alone (mine pc rfl))
      (by simp [GroupCommit.holds]) (fun _ => kept)
      (by simp [GroupCommit.falls]) (by simp [pc, inOp]) (by simp [GroupCommit.commits])
      (fun r _ there => (none idle r there).elim) (fun committing => ?_) (fun zero _ => ?_) (fun r there => ?_)
      (fun _ _ => .inr (.inl ?_))
    · exact absurd committing (by simp [goto, idle])
    · change s.outstanding + 1 = 0 at zero
      omega
    · exact h.cleared r (cleared_goto there (by simp) (by simp))
    · change 1 ≤ s.outstanding + 1
      omega
  | last pc idle zero =>
    refine h.of (t := t) (y := .commit) rfl (fun _ => alone (mine pc rfl)) (by simp [GroupCommit.holds]) (fun _ => kept)
      (by simp [GroupCommit.falls]) (by simp [pc, inOp]) (fun _ => rfl) (fun r _ there => (none idle r there).elim)
      (fun _ => zero) (fun _ committing => nomatch committing) (fun r there => ?_) (fun _ _ => .inl rfl)
    exact h.cleared r (cleared_goto there (by simp) (by simp))
  | drop pc idle more =>
    have counted := h.ops_pos (t := t) (by simp [pc, inOp])
    refine h.of (t := t) (y := .endWakeup) rfl (fun _ => kept) (fun _ => mine pc rfl) (fun _ => kept)
      (by simp [GroupCommit.falls]) (by simp [pc, inOp]) (by simp [GroupCommit.commits])
      (fun r _ there => (none idle r there).elim) (fun committing => ?_)
      (fun zero _ => absurd zero more) (fun r there => ?_)
      (fun _ _ => .inr (.inl ?_))
    · exact absurd committing (by simp [goto, idle])
    · exact h.cleared r (cleared_goto there (by simp) (by simp))
    · change 1 ≤ s.outstanding - 1
      omega
  | commit pc =>
    have here : GroupCommit.commits (s.pc t) := by simp [pc, GroupCommit.commits]
    have committing := h.commits t here
    exact h.of (t := t) (y := .doneAcquire) rfl (fun _ => kept) (by simp [GroupCommit.holds]) (fun _ => kept)
      (by simp [GroupCommit.falls]) (by simp [pc, inOp, goto]) (fun _ => committing)
      (fun r other there => absurd (h.one r t there here) other) h.alone (fun _ _ => rfl) (fun _ _ => rfl)
      (fun _ _ => .inl committing)
  | clear pc =>
    have here : GroupCommit.commits (s.pc t) := by simp [pc, GroupCommit.commits]
    have cleared := h.cleared t (.inr pc)
    exact h.of (t := t) (y := .doneWakeup) rfl (fun _ => kept) (fun _ => mine pc rfl) (fun _ => kept)
      (by simp [GroupCommit.falls]) (by simp [pc, inOp, goto]) (by simp [GroupCommit.commits])
      (fun r other there => absurd (h.one r t there here) other) (fun committing => nomatch committing)
      (fun _ _ => cleared) (fun _ _ => cleared) (fun _ _ => .inr (.inr ⟨t, by simp [goto]⟩))

end

theorem Grouped.start : Grouped (start : State n) := by
  refine ⟨?_, ?_, ?_, ?_, ?_, ?_, ?_, ?_, ?_⟩
  all_goals simp [GroupCommit.start, GroupCommit.holds, GroupCommit.falls, ops, inOp, GroupCommit.commits, sleepy]

theorem grouped {as : List (Fin n × Action)} (run : exec (step size) start as = some s) : Grouped s :=
  exec_invariant (P := fun _ _ => True)
    (fun _ _ _ h _ action => h.turn (step_turn action).2) Grouped.start run fun _ _ => trivial

theorem commit_protocol {as : List (Fin n × Action)} (run : exec (step size) start as = some s) :
    (s.lock = none →
      (s.committing → s.outstanding = 0) ∧ (s.outstanding = 0 → s.committing = false → s.lh = []) ∧
        ∀ t, sleepy (s.pc t) → s.committing ∨ 1 ≤ s.outstanding) ∧
      (∀ t, s.pc t = .commit → ∀ r, (s.pc r = .commit → r = t) ∧ inOp (s.pc r) = false) ∧
      ∀ t a, s.panic size (t, a) ≠ some .committing := by
  have h := grouped run
  have inside {t : Fin n} (pc : s.pc t = .commit) : commits (s.pc t) := by simp [pc, commits]
  refine ⟨fun free => ⟨h.alone, h.empty, fun t there => ?_⟩, fun t pc r => ⟨fun same => ?_, ?_⟩, fun t a => ?_⟩
  · refine (h.sleeps t there).imp_right (Or.resolve_right · ?_)
    rintro ⟨r, waker⟩
    simpa [free] using h.holds r (by simp [waker, holds])
  · exact h.one r t (inside same) (inside pc)
  · refine Bool.eq_false_iff.mpr fun member => ?_
    simpa [h.quiet member] using h.commits t (inside pc)
  · cases a with
    | begin | finish | rouse => simp [State.panic]
    | logWrite b =>
      simp only [State.panic]
      split_ifs <;> simp
    | go =>
      have calm (pc : s.pc t = .endDrop) : s.committing = false := h.quiet (t := t) (by simp [pc, inOp])
      simp only [State.panic]
      split_ifs with now
      · simp [calm now.1] at now
      · simp

def full : List (Fin 4 × Action) :=
  [0, 1, 2].flatMap (fun t => [(t, Action.begin), (t, .go), (t, .go)]) ++ (3, Action.begin) :: List.replicate 5 (3, .go)

theorem commit_protocol_full : ∃ s : State 4, exec (step LOGSIZE) start full = some s ∧ s.lock = none ∧
    s.pc 3 = .asleep ∧ s.outstanding = 3 ∧ (s.committing ∨ 1 ≤ s.outstanding) := by
  obtain ⟨s, run, free, asleep, three⟩ : ∃ s : State 4, exec (step LOGSIZE) start full = some s ∧ s.lock = none ∧
      s.pc 3 = .asleep ∧ s.outstanding = 3 := by
    decide +kernel
  exact ⟨s, run, free, asleep, three, ((commit_protocol run).1 free).2.2 3 (by simp [asleep, sleepy])⟩

end Xv6.GroupCommit
