import Xv6.Library.Transition
import Xv6.Kernel.Sleep

/-!
# No wakeup is lost

A thread that goes to sleep holds `lk` from its test until it has `ptable.lock`, and `ptable.lock` until it is
SLEEPING. So at the moment a waker has both locks, every thread that tested before is SLEEPING already or will not
sleep without a new test, and the loop of `wakeup1` finds it.
-/

namespace Xv6.Sleep
open Xv6.Library State
open Xv6.Kernel (Slot NPROC)

variable {n : Nat} {lk : Lock} {s t : State n} {c d : Fin n} {a : Action} {p q w : Slot} {i : Nat}

inductive Transition (lk : Lock) (s : State n) (c : Fin n) : Action → State n → Prop
  | take (seat : s.seat c = .loop) (free : s.lock .ptable = none) :
      Transition lk s c .go ((s.setLock .ptable (some c)).sit c .pick)
  | drop (seat : s.seat c = .pick) : Transition lk s c .go ((s.setLock .ptable none).sit c .loop)
  | dispatch (p : Slot) (seat : s.seat c = .pick) (runnable : (s.thread p).state = .runnable) :
      Transition lk s c (.dispatch p)
        ((s.setThread p fun k => { k with state := .running, pc := resume k.pc }).sit c (.on p))
  | acquire (p : Slot) (l : Lock) (before after : Pc) (seat : s.seat c = .on p) (pc : (s.thread p).pc = before)
      (free : s.lock l = none) (place : (before, l, after) ∈ [(.enter, lk, .inside),
        (.sleepAcquire, .ptable, .sleepRelease), (.wakeAcquire, .ptable, .wake 0),
        (.yieldAcquire, .ptable, .yieldState)]) :
      Transition lk s c .go ((s.setLock l (some c)).goto p after)
  | release (p : Slot) (l : Lock) (before after : Pc) (seat : s.seat c = .on p) (pc : (s.thread p).pc = before)
      (held : s.lock l = some c) (place : (before, l, after) ∈ [(.sleepRelease, lk, .sleepChan),
        (.sleepDone, .ptable, .enter), (.wakeRelease, .ptable, .inside), (.returned, .ptable, .out)]) :
      Transition lk s c .go ((s.setLock l none).goto p after)
  | chan (p : Slot) (seat : s.seat c = .on p) (pc : (s.thread p).pc = .sleepChan) :
      Transition lk s c .go (s.setThread p ({ · with onChan := true, pc := .sleepState }))
  | state (p : Slot) (seat : s.seat c = .on p) (pc : (s.thread p).pc = .sleepState) :
      Transition lk s c .go (s.setThread p ({ · with state := .sleeping, pc := .sleepSched }))
  | sched (p : Slot) (before after : Pc) (seat : s.seat c = .on p) (pc : (s.thread p).pc = before)
      (held : s.lock .ptable = some c) (place : (before, after) ∈ [(.sleepSched, .asleep), (.yieldSched, .ready)]) :
      Transition lk s c .go ((s.goto p after).sit c .pick)
  | resumed (p : Slot) (seat : s.seat c = .on p) (pc : (s.thread p).pc = .resumed) :
      Transition lk s c .go (s.setThread p ({ · with
        onChan := false, pc := if lk = .ptable then .inside else .sleepDone }))
  | wakeup1 (p : Slot) (i : Nat) (seat : s.seat c = .on p) (pc : (s.thread p).pc = .wake i) :
      Transition lk s c .go (s.wakeup1 p i (if lk = .ptable then .inside else .wakeRelease))
  | yields (p : Slot) (seat : s.seat c = .on p) (pc : (s.thread p).pc = .yieldState) :
      Transition lk s c .go (s.setThread p ({ · with state := .runnable, pc := .yieldSched }))
  | call (p : Slot) (seat : s.seat c = .on p) (pc : (s.thread p).pc = .out) :
      Transition lk s c .call (s.goto p .enter)
  | yield (p : Slot) (seat : s.seat c = .on p) (pc : (s.thread p).pc = .out) :
      Transition lk s c .yield (s.goto p .yieldAcquire)
  | test (p : Slot) (seat : s.seat c = .on p) (pc : (s.thread p).pc = .inside) :
      Transition lk s c .test (if s.cond then s else s.sleep lk p)
  | change (p : Slot) (value : Bool) (seat : s.seat c = .on p) (pc : (s.thread p).pc = .inside) :
      Transition lk s c (.change value)
        (if value then { s with cond := value }.wakeup lk p else { s with cond := value })
  | leave (p : Slot) (seat : s.seat c = .on p) (pc : (s.thread p).pc = .inside) (held : s.lock lk = some c) :
      Transition lk s c .leave ((s.setLock lk none).goto p .out)

theorem acquire_some {l : Lock} (action : s.acquire l c = some t) : s.lock l = none ∧ t = s.setLock l (some c) := by
  unfold State.acquire at action
  split_ifs at action with free
  exact ⟨free, (Option.some.inj action).symm⟩

theorem release_some {l : Lock} (action : s.release l c = some t) : s.lock l = some c ∧ t = s.setLock l none := by
  unfold State.release at action
  split_ifs at action with held
  exact ⟨held, (Option.some.inj action).symm⟩

theorem go_transition (seat : s.seat c = .on p) (action : s.go lk c p = some t) : Transition lk s c .go t := by
  have acquires {l : Lock} {before after : Pc} (pc : (s.thread p).pc = before)
    (action : (s.acquire l c).map (·.goto p after) = some t)
      (place : (before, l, after) ∈ [(.enter, lk, .inside), (.sleepAcquire, .ptable, .sleepRelease),
        (.wakeAcquire, .ptable, .wake 0), (.yieldAcquire, .ptable, .yieldState)]) : Transition lk s c .go t := by
    obtain ⟨u, taken, rfl⟩ := Option.map_eq_some_iff.mp action
    obtain ⟨free, rfl⟩ := acquire_some taken
    exact .acquire p l before after seat pc free place
  have releases {l : Lock} {before after : Pc} (pc : (s.thread p).pc = before)
    (action : (s.release l c).map (·.goto p after) = some t)
      (place : (before, l, after) ∈ [(.sleepRelease, lk, .sleepChan), (.sleepDone, .ptable, .enter),
        (.wakeRelease, .ptable, .inside), (.returned, .ptable, .out)]) : Transition lk s c .go t := by
    obtain ⟨u, given, rfl⟩ := Option.map_eq_some_iff.mp action
    obtain ⟨held, rfl⟩ := release_some given
    exact .release p l before after seat pc held place
  have leaves {before after : Pc} (pc : (s.thread p).pc = before) (action : s.sched c p after = some t)
      (place : (before, after) ∈ [(.sleepSched, .asleep), (.yieldSched, .ready)]) : Transition lk s c .go t := by
    unfold State.sched at action
    split_ifs at action with held
    exact Option.some.inj action ▸ .sched p before after seat pc held.1 place
  unfold State.go at action
  cases pc : (s.thread p).pc <;> simp only [pc] at action
  case out | inside | asleep | ready => cases action
  case enter | sleepAcquire | wakeAcquire | yieldAcquire => exact acquires pc action (by simp)
  case sleepRelease | sleepDone | wakeRelease | returned => exact releases pc action (by simp)
  case sleepSched | yieldSched => exact leaves pc action (by simp)
  case sleepChan => exact Option.some.inj action ▸ .chan p seat pc
  case sleepState => exact Option.some.inj action ▸ .state p seat pc
  case resumed => exact Option.some.inj action ▸ .resumed p seat pc
  case wake i => exact Option.some.inj action ▸ .wakeup1 p i seat pc
  case yieldState => exact Option.some.inj action ▸ .yields p seat pc

theorem step_transition (action : step lk s (c, a) = some t) : Transition lk s c a t := by
  cases a with
  | go =>
    simp only [step] at action
    cases seat : s.seat c with
    | loop =>
      simp only [seat] at action
      obtain ⟨u, taken, rfl⟩ := Option.map_eq_some_iff.mp action
      obtain ⟨free, rfl⟩ := acquire_some taken
      exact .take seat free
    | pick =>
      simp only [seat] at action
      obtain ⟨u, given, rfl⟩ := Option.map_eq_some_iff.mp action
      obtain ⟨-, rfl⟩ := release_some given
      exact .drop seat
    | on p =>
      simp only [seat] at action
      exact go_transition seat action
  | dispatch p =>
    simp only [step] at action
    split_ifs at action with ready
    exact Option.some.inj action ▸ .dispatch p ready.1 ready.2
  | call | yield | test | change value | leave =>
    simp only [step] at action
    cases seat : s.seat c with
    | loop | pick => simp [seat] at action
    | on p =>
      cases pc : (s.thread p).pc <;> simp [seat, pc] at action
      first
      | exact action ▸ .call p seat pc
      | exact action ▸ .yield p seat pc
      | exact action ▸ .test p seat pc
      | exact action ▸ .change p value seat pc
      | obtain ⟨u, given, rfl⟩ := action
        obtain ⟨held, rfl⟩ := release_some given
        exact .leave p seat pc held

def held (lk : Lock) : Pc → List Lock
  | .inside | .sleepAcquire | .wakeAcquire => [lk]
  | .sleepRelease | .wake _ | .wakeRelease => [lk, .ptable]
  | .sleepChan | .sleepState | .sleepSched | .resumed | .sleepDone => [.ptable]
  | .yieldState | .yieldSched | .returned => [.ptable]
  | .out | .enter | .asleep | .yieldAcquire | .ready => []

def twoLocks : Pc → Bool
  | .sleepAcquire | .sleepRelease | .sleepDone | .wakeAcquire | .wakeRelease => true
  | _ => false

def Busy (k : Thread) : Prop := k.state = .running ∨ k.pc = .sleepSched ∨ k.pc = .yieldSched

structure Locks (lk : Lock) (s : State n) : Prop where
  pick : ∀ c, s.seat c = .pick → s.lock .ptable = some c
  holds : ∀ c p, s.seat c = .on p → ∀ l ∈ held lk (s.thread p).pc, s.lock l = some c
  inj : ∀ c d p, s.seat c = .on p → s.seat d = .on p → c = d
  off : ∀ p, (∀ c, s.seat c ≠ .on p) → (s.thread p).pc = .asleep ∨ (s.thread p).pc = .ready
  busy : ∀ c p, s.seat c = .on p → Busy (s.thread p)
  apart : ∀ p, twoLocks (s.thread p).pc → lk ≠ .ptable

section Fields
variable (s : State n) (p r : Slot) (c d : Fin n) (l : Lock)
    (f : Thread → Thread) (x : Seat) (o : Option (Fin n)) (pc : Pc)

@[simp] theorem setThread_lock : (s.setThread p f).lock = s.lock := rfl
@[simp] theorem setThread_seat : (s.setThread p f).seat = s.seat := rfl
@[simp] theorem setThread_self : (s.setThread p f).thread p = f (s.thread p) := by simp [setThread]
@[simp] theorem setThread_ne {r : Slot} (other : r ≠ p) : (s.setThread p f).thread r = s.thread r := by
  simp [setThread, other]
@[simp] theorem goto_lock : (s.goto p pc).lock = s.lock := rfl
@[simp] theorem goto_seat : (s.goto p pc).seat = s.seat := rfl
@[simp] theorem goto_self : (s.goto p pc).thread p = { s.thread p with pc := pc } := by simp [goto]
@[simp] theorem goto_ne {r : Slot} (other : r ≠ p) : (s.goto p pc).thread r = s.thread r := by simp [goto, other]
@[simp] theorem sit_lock : (s.sit c x).lock = s.lock := rfl
@[simp] theorem sit_thread : (s.sit c x).thread = s.thread := rfl
@[simp] theorem sit_self : (s.sit c x).seat c = x := by simp [sit]
@[simp] theorem sit_ne {d : Fin n} (other : d ≠ c) : (s.sit c x).seat d = s.seat d := by simp [sit, other]
@[simp] theorem setLock_thread : (s.setLock l o).thread = s.thread := rfl
@[simp] theorem setLock_seat : (s.setLock l o).seat = s.seat := rfl
@[simp] theorem setLock_self : (s.setLock l o).lock l = o := by simp [setLock]
@[simp] theorem setLock_ne {m : Lock} (other : m ≠ l) : (s.setLock l o).lock m = s.lock m := by simp [setLock, other]

end Fields

section
variable (h : Locks lk s)
include h

theorem Locks.move (seat : s.seat c = .on p) (seats : t.seat = s.seat)
    (threads : ∀ r, r ≠ p → (t.thread r).pc = (s.thread r).pc ∧
      ((t.thread r).state = (s.thread r).state ∨ ∀ d, s.seat d ≠ .on r))
    (locks : ∀ l d, d ≠ c → s.lock l = some d → t.lock l = some d)
    (mine : ∀ l ∈ held lk (t.thread p).pc, t.lock l = some c) (busy : Busy (t.thread p))
    (apart : twoLocks (t.thread p).pc → lk ≠ .ptable) : Locks lk t := by
  refine ⟨fun d pick => ?_, fun d r there l holds => ?_, ?_, fun r gone => ?_, fun d r there => ?_, fun r two => ?_⟩
  · rw [seats] at pick
    have other : d ≠ c := by
      rintro rfl
      simp [seat] at pick
    exact locks _ d other (h.pick d pick)
  · rw [seats] at there
    by_cases same : r = p
    · subst same
      obtain rfl := h.inj d c r there seat
      exact mine l holds
    rw [(threads r same).1] at holds
    have other : d ≠ c := by
      rintro rfl
      exact same (Seat.on.inj (there.symm.trans seat))
    exact locks l d other (h.holds d r there l holds)
  · rw [seats]
    exact h.inj
  · rw [seats] at gone
    have same : r ≠ p := by
      rintro rfl
      exact gone c seat
    rw [(threads r same).1]
    exact h.off r gone
  · rw [seats] at there
    by_cases same : r = p
    · subst same
      exact busy
    have before := h.busy d r there
    unfold Busy at before ⊢
    rw [(threads r same).1, (threads r same).2.resolve_right fun away => away d there]
    exact before
  · by_cases same : r = p
    · subst same
      exact apart two
    · exact h.apart r ((threads r same).1 ▸ two)

theorem Locks.goto (seat : s.seat c = .on p) {f : Thread → Thread}
    (mine : ∀ l ∈ held lk (f (s.thread p)).pc, l ∈ held lk (s.thread p).pc) (busy : Busy (f (s.thread p)))
    (apart : twoLocks (f (s.thread p)).pc → lk ≠ .ptable) : Locks lk (s.setThread p f) := by
  refine h.move seat rfl (fun r other => by simp [other]) (fun l d _ there => there) (fun l holds => ?_) ?_ ?_
  · rw [setThread_self] at holds
    exact h.holds c p seat l (mine l holds)
  · rw [setThread_self]
    exact busy
  · rw [setThread_self]
    exact apart

theorem Locks.alone (seat : s.seat c = .on w) {l : Lock} (mine : l ∈ held lk (s.thread w).pc)
    (other : p ≠ w) : l ∉ held lk (s.thread p).pc := by
  intro holds
  by_cases there : ∃ d, s.seat d = .on p
  · obtain ⟨d, there⟩ := there
    have same := (h.holds d p there l holds).symm.trans (h.holds c w seat l mine)
    cases same
    exact other (Seat.on.inj (there.symm.trans seat))
  · rcases h.off p (fun d here => there ⟨d, here⟩) with asleep | ready
    · simp [asleep, held] at holds
    · simp [ready, held] at holds

theorem Locks.running (seat : s.seat c = .on p) (sleeps : (s.thread p).pc ≠ .sleepSched)
    (yields : (s.thread p).pc ≠ .yieldSched) : (s.thread p).state = .running :=
  (h.busy c p seat).resolve_right fun other => other.elim sleeps yields

theorem Locks.away (lock : s.lock .ptable = some c) (stopped : (s.thread p).state ≠ .running)
    (here : s.seat c ≠ .on p) : ∀ d, s.seat d ≠ .on p := by
  intro d seat
  have holds : Lock.ptable ∈ held lk (s.thread p).pc := by
    rcases (h.busy d p seat).resolve_left stopped with sleeps | yields
    · simp [sleeps, held]
    · simp [yields, held]
  obtain rfl := Option.some.inj ((h.holds d p seat _ holds).symm.trans lock)
  exact here seat

theorem Locks.acquire (seat : s.seat c = .on p) {l : Lock} {pc : Pc} (free : s.lock l = none)
    (mine : ∀ m ∈ held lk pc, m = l ∨ m ∈ held lk (s.thread p).pc) (state : (s.thread p).state = .running)
    (apart : twoLocks pc → lk ≠ .ptable) : Locks lk ((s.setLock l (some c)).goto p pc) := by
  refine h.move seat rfl (fun r other => by simp [other]) (fun m d _ there => ?_) (fun m holds => ?_) ?_ ?_
  · have differs : m ≠ l := by
      rintro rfl
      simp [free] at there
    simpa [differs] using there
  · by_cases same : m = l
    · subst same
      simp
    · have before := (mine m (by simpa using holds)).resolve_left same
      simpa [same] using h.holds c p seat m before
  · exact .inl (by simpa using state)
  · simpa using apart

theorem Locks.release (seat : s.seat c = .on p) {l : Lock} {pc : Pc} (there : s.lock l = some c)
    (mine : ∀ m ∈ held lk pc, m ≠ l ∧ m ∈ held lk (s.thread p).pc) (state : (s.thread p).state = .running)
    (apart : twoLocks pc → lk ≠ .ptable) : Locks lk ((s.setLock l none).goto p pc) := by
  refine h.move seat rfl (fun r other => by simp [other]) (fun m d other holds => ?_) (fun m holds => ?_) ?_ ?_
  · have differs : m ≠ l := by
      rintro rfl
      exact other (Option.mem_unique holds there)
    simpa [differs] using holds
  · obtain ⟨differs, before⟩ := mine m (by simpa using holds)
    simpa [differs] using h.holds c p seat m before
  · exact .inl (by simpa using state)
  · simpa using apart

theorem Locks.idle {x : Seat} {o : Option (Fin n)} (before : ∀ p, s.seat c ≠ .on p)
    (after : ∀ p, x ≠ .on p) (locks : ∀ d, d ≠ c → s.lock .ptable = some d → o = some d)
    (pick : x = .pick → o = some c) :
    Locks lk ((s.setLock .ptable o).sit c x) := by
  have seats {d : Fin n} {p : Slot} (there : ((s.setLock .ptable o).sit c x).seat d = .on p) : d ≠ c ∧
    s.seat d = .on p := by
    by_cases same : d = c
    · subst same
      exact absurd (by simpa using there) (after p)
    · exact ⟨same, by simpa [same] using there⟩
  refine ⟨fun d picks => ?_, fun d p there l holds => ?_, fun d e p there there' => ?_, fun p gone => ?_,
    fun d p there => h.busy d p (seats there).2, h.apart⟩
  · by_cases same : d = c
    · subst same
      simpa using pick (by simpa using picks)
    · simpa using locks d same (h.pick d (by simpa [same] using picks))
  · obtain ⟨other, there⟩ := seats there
    have lock := h.holds d p there l holds
    cases l with
    | ptable => simpa using locks d other lock
    | other => simpa using lock
  · exact h.inj d e p (seats there).2 (seats there').2
  · refine h.off p fun d there => gone d ?_
    have other : d ≠ c := by
      rintro rfl
      exact before p there
    simpa [other] using there

theorem Locks.dispatch (seat : s.seat c = .pick) (runnable : (s.thread p).state = .runnable) :
    Locks lk ((s.setThread p fun k => { k with state := .running, pc := resume k.pc }).sit c (.on p)) := by
  have lock := h.pick c seat
  have gone := h.away (p := p) lock (by simp [runnable]) (by simp [seat])
  have waits := h.off p gone
  have seats {d : Fin n} {r : Slot} (there : ((s.setThread p fun k => { k with
      state := .running, pc := resume k.pc }).sit c (.on p)).seat d = .on r) : d = c ∧
        r = p ∨ r ≠ p ∧ s.seat d = .on r := by
    by_cases same : d = c
    · subst same
      exact .inl ⟨rfl, (Seat.on.inj (by simpa using there)).symm⟩
    have before : s.seat d = .on r := by simpa [same] using there
    refine .inr ⟨?_, before⟩
    rintro rfl
    exact gone d before
  refine ⟨fun d picks => ?_, fun d r there l holds => ?_, fun d e r there there' => ?_, fun r away => ?_,
    fun d r there => ?_, fun r two => ?_⟩
  · have other : d ≠ c := by
      rintro rfl
      simp at picks
    exact h.pick d (by simpa [other] using picks)
  · rcases seats there with ⟨rfl, rfl⟩ | ⟨other, there⟩
    · have same : l = .ptable := by
        rcases waits with asleep | ready
        · simpa [asleep, resume, held] using holds
        · simpa [ready, resume, held] using holds
      exact same ▸ lock
    · exact h.holds d r there l (by simpa [other] using holds)
  · rcases seats there with ⟨rfl, rfl⟩ | ⟨other, there⟩ <;> rcases seats there' with ⟨rfl, same⟩ | ⟨other', there'⟩
    · rfl
    · exact absurd rfl other'
    · exact absurd same other
    · exact h.inj d e r there there'
  · have other : r ≠ p := by
      rintro rfl
      exact away c (by simp)
    have before : ∀ d, s.seat d ≠ .on r := by
      intro d there
      have apart : d ≠ c := by
        rintro rfl
        simp [seat] at there
      exact away d (by simpa [apart] using there)
    simpa [other] using h.off r before
  · rcases seats there with ⟨rfl, rfl⟩ | ⟨other, there⟩
    · exact .inl (by simp)
    · simpa [other] using h.busy d r there
  · by_cases same : r = p
    · subst same
      rcases waits with asleep | ready
      · simp [asleep, resume, twoLocks] at two
      · simp [ready, resume, twoLocks] at two
    · exact h.apart r (by simpa [same] using two)

theorem Locks.sched (seat : s.seat c = .on p) (lock : s.lock .ptable = some c) {pc : Pc}
    (gone : pc = .asleep ∨ pc = .ready) : Locks lk ((s.goto p pc).sit c .pick) := by
  have seats {d : Fin n} {r : Slot} (there : ((s.goto p pc).sit c .pick).seat d = .on r) : r ≠ p ∧
    s.seat d = .on r := by
    have other : d ≠ c := by
      rintro rfl
      simp at there
    have before : s.seat d = .on r := by simpa [other] using there
    refine ⟨?_, before⟩
    rintro rfl
    exact other (h.inj d c r before seat)
  refine ⟨fun d picks => ?_, fun d r there l holds => ?_, fun d e r there there' => ?_, fun r away => ?_,
    fun d r there => ?_, fun r two => ?_⟩
  · by_cases same : d = c
    · rw [same]
      exact lock
    · exact h.pick d (by simpa [same] using picks)
  · obtain ⟨other, there⟩ := seats there
    exact h.holds d r there l (by simpa [other] using holds)
  · exact h.inj d e r (seats there).2 (seats there').2
  · by_cases same : r = p
    · subst same
      simpa using gone
    have before : ∀ d, s.seat d ≠ .on r := by
      intro d there
      have apart : d ≠ c := by
        rintro rfl
        exact same (Seat.on.inj (there.symm.trans seat))
      exact away d (by simpa [apart] using there)
    simpa [same] using h.off r before
  · obtain ⟨other, there⟩ := seats there
    simpa [other] using h.busy d r there
  · by_cases same : r = p
    · subst same
      rcases gone with rfl | rfl <;> simp [twoLocks] at two
    · exact h.apart r (by simpa [same] using two)

theorem Locks.wakeup1 (seat : s.seat c = .on p) (pc : (s.thread p).pc = .wake i) :
    Locks lk (s.wakeup1 p i (if lk = .ptable then .inside else .wakeRelease)) := by
  have state := h.running seat (by simp [pc]) (by simp [pc])
  have lock : s.lock .ptable = some c := h.holds c p seat _ (by simp [pc, held])
  simp only [State.wakeup1]
  split_ifs with within asleep same
  · have other : (⟨i, within⟩ : Slot) ≠ p := by
      rintro rfl
      simp [state] at asleep
    have gone := h.away lock (by simp [asleep.1]) fun there => other (Seat.on.inj (seat.symm.trans there)).symm
    refine h.move seat rfl (fun r differs => ?_) (fun l d _ there => there) (fun l holds => ?_) ?_ ?_
    · by_cases same : r = ⟨i, within⟩
      · subst same
        exact ⟨by simp [differs], .inr gone⟩
      · simp [differs, same]
    · exact h.holds c p seat l (by simpa [pc, held, other.symm] using holds)
    · exact .inl (by simpa [other.symm] using state)
    · simp [twoLocks]
  · exact h.goto seat (by simp [pc, held]) (.inl state) (by simp [twoLocks])
  · exact h.goto seat (by simp [pc, held]) (.inl state) (by simp [twoLocks])
  · exact h.goto seat (by simp [pc, held]) (.inl state) (by simp [same])

theorem Locks.transition (transition : Transition lk s c a t) : Locks lk t := by
  cases transition with
  | take seat free => exact h.idle (by simp [seat]) (by simp) (by simp [free]) (by simp)
  | drop seat =>
    refine h.idle (by simp [seat]) (by simp) (fun d other there => ?_) (by simp)
    exact absurd (Option.some.inj (there.symm.trans (h.pick c seat))) other
  | dispatch p seat runnable => exact h.dispatch seat runnable
  | acquire p l _ _ seat pc free place =>
    simp only [List.mem_cons, List.not_mem_nil, or_false, Prod.mk.injEq] at place
    have two := h.apart p
    rw [pc] at two
    rcases place with ⟨rfl, rfl, rfl⟩ | ⟨rfl, rfl, rfl⟩ | ⟨rfl, rfl, rfl⟩ | ⟨rfl, rfl, rfl⟩ <;>
      refine h.acquire seat free ?_ (h.running seat (by simp [pc]) (by simp [pc])) ?_
    all_goals simp [pc, held, twoLocks] at *
    · exact two
  | release p l _ _ seat pc there place =>
    simp only [List.mem_cons, List.not_mem_nil, or_false, Prod.mk.injEq] at place
    have two := h.apart p
    rw [pc] at two
    rcases place with ⟨rfl, rfl, rfl⟩ | ⟨rfl, rfl, rfl⟩ | ⟨rfl, rfl, rfl⟩ | ⟨rfl, rfl, rfl⟩ <;>
      refine h.release seat there ?_ (h.running seat (by simp [pc]) (by simp [pc])) (by simp [twoLocks])
    all_goals simp [pc, held, twoLocks] at *
    all_goals first | exact two | exact fun same => two same.symm
  | chan p seat pc =>
    exact h.goto seat (by simp [pc, held]) (.inl (h.running seat (by simp [pc]) (by simp [pc]))) (by simp [twoLocks])
  | state p seat pc => exact h.goto seat (by simp [pc, held]) (.inr (.inl rfl)) (by simp [twoLocks])
  | sched p _ _ seat _ there place =>
    simp only [List.mem_cons, List.not_mem_nil, or_false, Prod.mk.injEq] at place
    exact h.sched seat there (place.imp (·.2) (·.2))
  | resumed p seat pc =>
    have state := h.running seat (by simp [pc]) (by simp [pc])
    refine h.goto seat ?_ (.inl state) ?_
    · split_ifs with same <;> simp [pc, held, same]
    · split_ifs with same
      · simp [twoLocks]
      · exact fun _ => same
  | wakeup1 p i seat pc => exact h.wakeup1 seat pc
  | yields p seat pc => exact h.goto seat (by simp [pc, held]) (.inr (.inr rfl)) (by simp [twoLocks])
  | call p seat pc | yield p seat pc =>
    exact h.goto seat (by simp [held]) (.inl (h.running seat (by simp [pc]) (by simp [pc]))) (by simp [twoLocks])
  | test p seat pc =>
    have state := h.running seat (by simp [pc]) (by simp [pc])
    split_ifs
    · exact h
    refine h.goto (f := ({ · with pc := _ })) seat ?_ (.inl state) ?_
    · split_ifs with same <;> simp [pc, held, same]
    · split_ifs with same
      · simp [twoLocks]
      · exact fun _ => same
  | change p value seat pc =>
    have state := h.running seat (by simp [pc]) (by simp [pc])
    have changed : Locks lk { s with cond := value } := ⟨h.pick, h.holds, h.inj, h.off, h.busy, h.apart⟩
    split_ifs
    · refine changed.goto (f := ({ · with pc := _ })) seat ?_ (.inl state) ?_
      · split_ifs with same <;> simp [pc, held, same]
      · split_ifs with same
        · simp [twoLocks]
        · exact fun _ => same
    · exact changed
  | leave p seat pc there =>
    exact h.release seat there (by simp [held]) (h.running seat (by simp [pc]) (by simp [pc])) (by simp [twoLocks])

end

theorem Locks.start (live : Slot → Bool) : Locks lk (start live : State n) := by
  refine ⟨?_, ?_, ?_, fun p _ => .inr rfl, ?_, ?_⟩ <;> simp [Sleep.start, twoLocks]

theorem locks {live : Slot → Bool} {as : List (Fin n × Action)} (run : exec (step lk) (start live) as = some s) :
    Locks lk s := by
  refine exec_invariant (P := fun _ _ => True) (fun _ _ _ h _ action => ?_) (Locks.start live) run fun _ _ => trivial
  exact h.transition (step_transition action)

def SleepingOn (s : State n) (p : Slot) : Prop := (s.thread p).state = .sleeping ∧ (s.thread p).onChan

def toSleep : Pc → Bool
  | .sleepAcquire | .sleepRelease | .sleepChan | .sleepState => true
  | _ => false

def Tests (e : State n × (Fin n × Action)) (p : Slot) : Prop :=
  e.2.2 = .test ∧ e.1.seat e.2.1 = .on p ∧ e.1.cond = false

def Changes (e : State n × (Fin n × Action)) (w : Slot) : Prop := e.2.2 = .change true ∧ e.1.seat e.2.1 = .on w

def WokeUp (e : State n × (Fin n × Action)) (w : Slot) : Prop :=
  e.2.2 = .go ∧ e.1.seat e.2.1 = .on w ∧ ∃ i, NPROC ≤ i ∧ (e.1.thread w).pc = .wake i

/-- Some waker has changed the condition after the last test of `p` that failed, and has finished its wakeup. -/
def Answered (es : List (State n × (Fin n × Action))) (p : Slot) : Prop :=
  ∃ w before change mid wake later, es = before ++ change :: mid ++ wake :: later ∧ Changes change w ∧ WokeUp wake w ∧
    ∀ e ∈ change :: mid ++ wake :: later, ¬ Tests e p

section
variable (transition : Transition lk s c a t)
include transition

theorem Transition.elsewhere (seat : s.seat c ≠ .on p) :
    t.thread p = s.thread p ∨ t.thread p = { s.thread p with state := .runnable } ∨
      t.thread p = { s.thread p with state := .running, pc := resume (s.thread p).pc } := by
  have differs {r : Slot} (there : s.seat c = .on r) : p ≠ r := by
    rintro rfl
    exact seat there
  cases transition with
  | take | drop => exact .inl rfl
  | dispatch r =>
    by_cases same : p = r
    · subst same
      exact .inr (.inr (by simp))
    · exact .inl (by simp [same])
  | acquire r _ _ _ there | release r _ _ _ there | sched r _ _ there | leave r there =>
    exact .inl (by simp [differs there])
  | chan r there | state r there | resumed r there | yields r there | call r there | yield r there =>
    exact .inl (by simp [differs there])
  | wakeup1 r i there =>
    simp only [State.wakeup1]
    split_ifs with within asleep
    · by_cases same : p = ⟨i, within⟩
      · subst same
        exact .inr (.inl (by simp [differs there]))
      · exact .inl (by simp [differs there, same])
    all_goals exact .inl (by simp [differs there])
  | test r there =>
    split_ifs
    · exact .inl rfl
    · exact .inl (by simp [State.sleep, differs there])
  | change r _ there =>
    split_ifs
    · exact .inl (by simp [State.wakeup, differs there])
    · exact .inl rfl

theorem Transition.here (h : Locks lk s) (seat : s.seat c = .on p) :
    (SleepingOn t p → (s.thread p).pc = .sleepState ∨ SleepingOn s p) ∧
      (toSleep (t.thread p).pc → toSleep (s.thread p).pc ∨ Tests (s, (c, a)) p) := by
  have same {r : Slot} (there : s.seat c = .on r) : r = p := Seat.on.inj (there.symm.trans seat)
  cases transition with
  | take there | drop there | dispatch _ there => simp [there] at seat
  | acquire r l _ _ there pc _ place | release r l _ _ there pc _ place =>
    obtain rfl := same there
    refine ⟨fun asleep => .inr (by simpa [SleepingOn] using asleep), ?_⟩
    simp only [List.mem_cons, List.not_mem_nil, or_false, Prod.mk.injEq] at place
    rcases place with ⟨rfl, rfl, rfl⟩ | ⟨rfl, rfl, rfl⟩ | ⟨rfl, rfl, rfl⟩ | ⟨rfl, rfl, rfl⟩ <;> simp [pc, toSleep]
  | sched r _ _ there _ _ place =>
    obtain rfl := same there
    refine ⟨fun asleep => .inr (by simpa [SleepingOn] using asleep), ?_⟩
    simp only [List.mem_cons, List.not_mem_nil, or_false, Prod.mk.injEq] at place
    rcases place with ⟨rfl, rfl⟩ | ⟨rfl, rfl⟩ <;> simp [toSleep]
  | chan r there pc =>
    obtain rfl := same there
    have running := h.running seat (by simp [pc]) (by simp [pc])
    exact ⟨by simp [SleepingOn, running], by simp [pc, toSleep]⟩
  | state r there pc =>
    obtain rfl := same there
    exact ⟨fun _ => .inl pc, by simp [toSleep]⟩
  | resumed r there =>
    obtain rfl := same there
    refine ⟨by simp [SleepingOn], ?_⟩
    by_cases ptable : lk = .ptable <;> simp [ptable, toSleep]
  | wakeup1 r i there pc =>
    obtain rfl := same there
    have running := h.running seat (by simp [pc]) (by simp [pc])
    simp only [State.wakeup1]
    split_ifs with within asleep
    · have other : r ≠ ⟨i, within⟩ := by
        rintro rfl
        simp [running] at asleep
      exact ⟨by simp [SleepingOn, other, running], by simp [toSleep]⟩
    all_goals exact ⟨by simp [SleepingOn, running], by simp [toSleep]⟩
  | yields r there =>
    obtain rfl := same there
    exact ⟨by simp [SleepingOn], by simp [toSleep]⟩
  | call r there | yield r there | leave r there =>
    obtain rfl := same there
    exact ⟨fun asleep => .inr (by simpa [SleepingOn] using asleep), by simp [toSleep]⟩
  | test r there =>
    obtain rfl := same there
    split_ifs with cond
    · exact ⟨.inr, .inl⟩
    · refine ⟨fun asleep => .inr (by simpa [SleepingOn, State.sleep] using asleep), fun _ => .inr ?_⟩
      exact ⟨rfl, seat, by simpa using cond⟩
  | change r _ there =>
    obtain rfl := same there
    split_ifs
    · refine ⟨fun asleep => .inr (by simpa [SleepingOn, State.wakeup] using asleep), ?_⟩
      by_cases ptable : lk = .ptable <;> simp [State.wakeup, ptable, toSleep]
    · exact ⟨.inr, .inl⟩

theorem Transition.falls (h : Locks lk s) (asleep : SleepingOn t p) :
    (s.thread p).pc = .sleepState ∨ SleepingOn s p := by
  by_cases seat : s.seat c = .on p
  · exact (transition.here h seat).1 asleep
  · rcases transition.elsewhere seat with same | same | same
    · exact .inr (by simpa [SleepingOn, same] using asleep)
    all_goals simp [SleepingOn, same] at asleep

theorem Transition.toSleep (h : Locks lk s) (goes : toSleep (t.thread p).pc) :
    Sleep.toSleep (s.thread p).pc ∨ Tests (s, (c, a)) p := by
  by_cases seat : s.seat c = .on p
  · exact (transition.here h seat).2 goes
  rcases transition.elsewhere seat with same | same | same <;> rw [same] at goes
  · exact .inl goes
  · exact .inl goes
  · cases pc : (s.thread p).pc <;> simp [pc, resume, Sleep.toSleep] at goes ⊢

end

def Awake (s : State n) (p : Slot) : Prop := ¬ SleepingOn s p ∧ toSleep (s.thread p).pc = false

theorem Awake.transition (awake : Awake s p) (h : Locks lk s) (transition : Transition lk s c a t)
    (quiet : ¬ Tests (s, (c, a)) p) : Awake t p := by
  obtain ⟨up, stays⟩ := awake
  refine ⟨fun asleep => ?_, ?_⟩
  · rcases transition.falls h asleep with pc | asleep
    · simp [pc, toSleep] at stays
    · exact up asleep
  refine Bool.eq_false_iff.mpr fun goes => ?_
  rcases transition.toSleep h goes with goes | tests
  · simp [goes] at stays
  · exact quiet tests

theorem Locks.seated (h : Locks lk s) (asleep : (s.thread p).pc ≠ .asleep) (ready : (s.thread p).pc ≠ .ready) :
    ∃ c, s.seat c = .on p := by
  by_contra gone
  exact (h.off p fun c there => gone ⟨c, there⟩).elim asleep ready

theorem Locks.unmoved (h : Locks lk s) (pc : (s.thread w).pc = .wake i) : toSleep (s.thread p).pc = false := by
  obtain ⟨c, seat⟩ := h.seated (p := w) (by simp [pc]) (by simp [pc])
  by_cases same : p = w
  · simp [same, pc, toSleep]
  · have outer := h.alone seat (l := lk) (by simp [pc, held]) same
    have inner := h.alone seat (l := .ptable) (by simp [pc, held]) same
    cases place : (s.thread p).pc <;> simp [place, held, toSleep] at outer inner ⊢

inductive Heeds (s : State n) (w p : Slot) : Prop
  | locks (pc : (s.thread w).pc = .wakeAcquire)
  | loop (i : Nat) (pc : (s.thread w).pc = .wake i) (ahead : SleepingOn s p → i ≤ p.val)
  | awake (awake : Awake s p)

theorem step_go (action : step lk s (c, a) = some t) (seat : s.seat c = .on p) (outside : (s.thread p).pc ≠ .out)
    (inside : (s.thread p).pc ≠ .inside) : s.go lk c p = some t := by
  cases a with
  | go => simpa [step, seat] using action
  | dispatch q => simp [step, seat] at action
  | call | test | change | leave | yield =>
    simp only [step, seat] at action
    cases pc : (s.thread p).pc <;> simp_all

theorem Transition.pc (transition : Transition lk s c a t)
    (seat : s.seat c ≠ .on p) (asleep : (s.thread p).pc ≠ .asleep)
    (ready : (s.thread p).pc ≠ .ready) : (t.thread p).pc = (s.thread p).pc := by
  rcases transition.elsewhere seat with same | same | same <;> rw [same]
  cases pc : (s.thread p).pc <;> simp_all [resume]

theorem Locks.passes (h : Locks lk s) (seat : s.seat c = .on w) (pc : (s.thread w).pc = .wake i)
    (ahead : SleepingOn s p → i ≤ p.val) (awake : ¬ SleepingOn s p → Awake t p) {next : Pc}
    (turn : s.wakeup1 w i next = t) : Heeds t w p := by
  have running := h.running seat (by simp [pc]) (by simp [pc])
  have onward (later : SleepingOn t p → SleepingOn s p ∧ p.val ≠ i)
    (next : (t.thread w).pc = .wake (i + 1)) : Heeds t w p := by
    refine .loop (i + 1) next fun asleep => ?_
    obtain ⟨before, other⟩ := later asleep
    have := ahead before
    omega
  simp only [State.wakeup1] at turn
  split_ifs at turn with within found <;> subst turn
  · have other : w ≠ ⟨i, within⟩ := by
      rintro rfl
      simp [running] at found
    refine onward (fun asleep => ?_) (by simp)
    by_cases same : p = ⟨i, within⟩
    · subst same
      simp [SleepingOn, other.symm] at asleep
    refine ⟨?_, fun here => same (Fin.ext here)⟩
    by_cases self : p = w
    · subst self
      simp [SleepingOn, same, running] at asleep
    · simpa [SleepingOn, same, self] using asleep
  · refine onward (fun asleep => ?_) (by simp)
    have before : SleepingOn s p := by
      by_cases self : p = w
      · subst self
        simpa [SleepingOn] using asleep
      · simpa [SleepingOn, self] using asleep
    refine ⟨before, ?_⟩
    rintro rfl
    exact found before
  · refine .awake (awake fun asleep => ?_)
    have := ahead asleep
    omega

theorem Heeds.next (heeds : Heeds s w p) (h : Locks lk s) (action : step lk s (c, a) = some t)
    (quiet : ¬ Tests (s, (c, a)) p) : Heeds t w p := by
  have transition := step_transition action
  cases heeds with
  | awake awake => exact .awake (awake.transition h transition quiet)
  | locks pc =>
    by_cases seat : s.seat c = .on w
    · have going := step_go action seat (by simp [pc]) (by simp [pc])
      simp only [State.go, pc, Option.map_eq_some_iff] at going
      obtain ⟨u, -, rfl⟩ := going
      exact .loop 0 (by simp) fun _ => Nat.zero_le _
    · exact .locks ((transition.pc seat (by simp [pc]) (by simp [pc])).trans pc)
  | loop i pc ahead =>
    have still : toSleep (s.thread p).pc = false := h.unmoved pc
    by_cases seat : s.seat c = .on w
    · have going := step_go action seat (by simp [pc]) (by simp [pc])
      simp only [State.go, pc, Option.some.injEq] at going
      exact h.passes seat pc ahead (fun up => Awake.transition ⟨up, still⟩ h transition quiet) going
    · refine .loop i ((transition.pc seat (by simp [pc]) (by simp [pc])).trans pc) fun asleep => ahead ?_
      exact (transition.falls h asleep).resolve_left fun falls => by simp [falls, toSleep] at still

theorem Heeds.woke (heeds : Heeds s w p) (h : Locks lk s) (action : step lk s (c, a) = some t)
    (woke : WokeUp (s, (c, a)) w) (quiet : ¬ Tests (s, (c, a)) p) : Awake t p := by
  obtain ⟨-, -, i, _, place⟩ := woke
  have up : Awake s p := by
    cases heeds with
    | awake awake => exact awake
    | locks pc => simp [pc] at place
    | loop j pc ahead =>
      obtain rfl : j = i := by simpa [pc] using place
      refine ⟨fun asleep => ?_, h.unmoved pc⟩
      have := ahead asleep
      omega
  exact up.transition h (step_transition action) quiet

theorem changes_heeds (action : step lk s (c, a) = some t) (changes : Changes (s, (c, a)) w) : Heeds t w p := by
  obtain ⟨rfl, seat⟩ := changes
  cases step_transition action with
  | change r _ there =>
    obtain rfl := Seat.on.inj (there.symm.trans seat)
    by_cases ptable : lk = .ptable
    · exact .loop 0 (by simp [State.wakeup, ptable]) fun _ => Nat.zero_le _
    · exact .locks (by simp [State.wakeup, ptable])

theorem sleep_wakeup {live : Slot → Bool} {as : List (Fin n × Action)} (run : exec (step lk) (start live) as = some s)
    (answered : Answered (trace (step lk) (start live) as) p) : ¬ SleepingOn s p := by
  obtain ⟨w, _, _, _, wake, _, history, changes, woke, quiet⟩ := answered
  rw [List.append_assoc] at history
  obtain ⟨_, _, u, -, toChange, changed, run, -, history⟩ := exec_split run history
  obtain ⟨ys, zs, v, -, toWake, woken, run, rfl, rfl⟩ := exec_split run history
  have silent : (∀ e ∈ trace (step lk) u ys, ¬ Tests e p) ∧
    ¬ Tests wake p ∧ ∀ e ∈ trace (step lk) v zs, ¬ Tests e p := by
    simp only [List.cons_append, List.forall_mem_cons, List.forall_mem_append] at quiet
    exact quiet.2
  have start := locks toChange
  have heeds : Locks lk wake.1 ∧ Heeds wake.1 w p := by
    refine exec_invariant (I := fun s => Locks lk s ∧ Heeds s w p)
      (P := fun s a => ¬ Tests (s, a) p) ?_ ?_ toWake silent.1
    · intro s a t h quiet action
      exact ⟨h.1.transition (step_transition action), h.2.next h.1 action quiet⟩
    · exact ⟨start.transition (step_transition changed), changes_heeds changed changes⟩
  have awake : Locks lk s ∧ Awake s p := by
    refine exec_invariant (I := fun s => Locks lk s ∧ Awake s p) (P := fun s a => ¬ Tests (s, a) p) ?_ ?_ run silent.2.2
    · intro s a t h quiet action
      exact ⟨h.1.transition (step_transition action), h.2.transition h.1 (step_transition action) quiet⟩
    · exact ⟨heeds.1.transition (step_transition woken), heeds.2.woke heeds.1 woken woke silent.2.1⟩
  exact awake.2.1

def sleeps : List (Fin 2 × Action) :=
  [(0, .go), (0, .dispatch 0), (0, .go), (0, .call), (0, .go), (0, .test), (0, .go), (0, .go), (0, .go), (0, .go),
    (0, .go), (0, .go), (1, .go), (1, .dispatch 1), (1, .go), (1, .call), (1, .go)]

def wakes : List (Fin 2 × Action) :=
  (1, .change true) :: (List.replicate (NPROC + 1) (1, Action.go) ++ [(1, Action.go)])

theorem sleep_wakeup_second : ∃ u s : State 2, exec (step .other) (start (· < 2)) sleeps = some u ∧ SleepingOn u 0 ∧
    exec (step .other) u wakes = some s ∧ ¬ SleepingOn s 0 := by
  obtain ⟨u, first, asleep, onChan, seat, v, change, y, loop, seat', pc, quiet, s, last⟩ :
      ∃ u : State 2, exec (step .other) (start (· < 2)) sleeps = some u ∧
        (u.thread 0).state = .sleeping ∧ (u.thread 0).onChan ∧
        u.seat 1 = .on 1 ∧ ∃ v, step .other u (1, .change true) = some v ∧
        ∃ y, exec (step .other) v (List.replicate (NPROC + 1) (1, .go)) = some y ∧ y.seat 1 = .on 1 ∧
          (y.thread 1).pc = .wake NPROC ∧
          (∀ e ∈ trace (step .other) v (List.replicate (NPROC + 1) (1, .go)), e.2.2 ≠ .test) ∧
          ∃ s, step .other y (1, .go) = some s := by
    decide +kernel
  have second : exec (step .other) u wakes = some s := exec_cons_iff.mpr ⟨v, change, exec_snoc loop last⟩
  refine ⟨u, s, first, ⟨asleep, onChan⟩, second, sleep_wakeup (exec_append first second) ?_⟩
  refine ⟨1, trace (step .other) (start (· < 2)) sleeps, (u, (1, .change true)),
    trace (step .other) v (List.replicate (NPROC + 1) (1, .go)), (y, (1, .go)), [], ?_, ⟨rfl, seat⟩,
    ⟨rfl, seat', NPROC, le_rfl, pc⟩, ?_⟩
  · rw [trace_append first, wakes, trace_cons _ change, trace_snoc loop last, List.append_assoc, List.cons_append]
  intro e member tests
  simp only [List.cons_append, List.mem_cons, List.mem_append, List.not_mem_nil, or_false] at member
  rcases member with rfl | earlier | rfl
  · cases tests.1
  · exact quiet e earlier tests.1
  · cases tests.1

end Xv6.Sleep
