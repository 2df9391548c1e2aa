import Xv6.Kernel.Pipe
import Xv6.Library.Transition

/-!
# Pipes are FIFO channels

The bytes stored so far are the bytes copied out followed by the unread ones, which the counters delimit also after they
have wrapped.
-/

namespace Xv6.Pipes
open Xv6.Library

variable {n : Nat} {s u : State n} {t : Fin n} {p : Pipe}

def stored : State n × Action n → List Byte
  | (s, .go t) =>
    match (s.proc t).pc with
    | .writeLoop (b :: _) => if s.pipe.full then [] else [b]
    | _ => []
  | _ => []

def taken : State n × Action n → List Byte
  | (s, .go t) =>
    match (s.proc t).pc with
    | .readCopy (_ + 1) _ => if s.pipe.empty then [] else [s.pipe.next]
    | _ => []
  | _ => []

def returned : State n × Action n → List Byte
  | (s, .go t) =>
    match (s.proc t).pc with
    | .readRelease (some dst) => dst
    | _ => []
  | _ => []

def Pipe.count (p : Pipe) : Nat := gap p.nread p.nwrite

def Pipe.unread (p : Pipe) : List Byte := window p.data p.nread p.count

theorem pipesize_dvd : PIPESIZE ∣ 2 ^ 32 := by decide

theorem Pipe.full_iff : p.full ↔ p.count = PIPESIZE := by
  unfold Pipe.full Pipe.count
  constructor
  · intro same
    rw [same]
    exact gap_add (by decide)
  · intro all
    rw [← all]
    exact gap_spec _ _

theorem Pipe.count_put (room : p.count < PIPESIZE) {b : Byte} : (p.put b).count = p.count + 1 :=
  gap_succ (lt_of_lt_of_le (Nat.succ_lt_succ room) (by decide))

theorem Pipe.unread_put (room : p.count < PIPESIZE) {b : Byte} : (p.put b).unread = p.unread ++ [b] := by
  unfold Pipe.unread
  rw [Pipe.count_put room]
  have last : (p.put b).data = Function.update p.data (slot PIPESIZE (p.nread + UInt32.ofNat p.count)) b := by
    unfold Pipe.count
    rw [← gap_spec]
    rfl
  rw [last]
  exact window_push pipesize_dvd room

theorem Pipe.unread_get (notEmpty : ¬p.empty) : p.count = p.get.count + 1 ∧ p.unread = p.next :: p.get.unread := by
  have more : p.count = p.get.count + 1 := gap_pred notEmpty
  refine ⟨more, ?_⟩
  unfold Pipe.unread
  rw [more]
  exact window_cons ..

inductive Moved (s : State n) (t : Fin n) : State n → Prop where
  | lockWrite (src : List Byte)
    (now : (s.proc t).pc = .writeAcquire src ∨ (s.proc t).pc = .writeWoken src) (free : s.lock = none) :
      Moved s t { s.goto t (.writeLoop src) with lock := some t }
  | lockRead (k : Nat) (now : (s.proc t).pc = .readAcquire k ∨ (s.proc t).pc = .readWoken k) (free : s.lock = none) :
      Moved s t { s.goto t (.readTest k) with lock := some t }
  | lockClose (w : Bool) (now : (s.proc t).pc = .closeAcquire w) (free : s.lock = none) :
      Moved s t { s.goto t (.closeEnd w) with lock := some t }
  | written (now : (s.proc t).pc = .writeLoop []) : Moved s t (s.goto t .writeEnd)
  | findFull (b : Byte) (src : List Byte) (now : (s.proc t).pc = .writeLoop (b :: src)) (full : s.pipe.full) :
      Moved s t (s.goto t (.writeFull (b :: src)))
  | put (b : Byte) (src : List Byte) (now : (s.proc t).pc = .writeLoop (b :: src)) (room : ¬s.pipe.full) :
      Moved s t { s.goto t (.writeLoop src) with pipe := s.pipe.put b }
  | giveUp (src : List Byte) (now : (s.proc t).pc = .writeFull src)
    (why : s.pipe.readopen = false ∨ (s.proc t).killed = true) :
      Moved s t (s.goto t (.writeRelease false))
  | stay (src : List Byte) (now : (s.proc t).pc = .writeFull src) (opened : s.pipe.readopen = true) :
      Moved s t (s.goto t (.writeWakeup src))
  | callReaders (src : List Byte) (now : (s.proc t).pc = .writeWakeup src) :
      Moved s t ({ s with proc := wakeup Pc.wakeRead s.proc }.goto t (.writeSleep src))
  | sleepWrite (src : List Byte) (now : (s.proc t).pc = .writeSleep src) : Moved s t (s.release t (.writeAsleep src))
  | endWrite (now : (s.proc t).pc = .writeEnd) :
      Moved s t ({ s with proc := wakeup Pc.wakeRead s.proc }.goto t (.writeRelease true))
  | unlockWrite (ok : Bool) (now : (s.proc t).pc = .writeRelease ok) : Moved s t (s.release t .idle)
  | findEmpty (k : Nat) (now : (s.proc t).pc = .readTest k) (empty : s.pipe.empty) (opened : s.pipe.writeopen = true) :
      Moved s t (s.goto t (.readEmpty k))
  | startCopy (k : Nat) (now : (s.proc t).pc = .readTest k) : Moved s t (s.goto t (.readCopy k []))
  | abandon (k : Nat) (now : (s.proc t).pc = .readEmpty k) : Moved s t (s.goto t (.readRelease none))
  | wait (k : Nat) (now : (s.proc t).pc = .readEmpty k) : Moved s t (s.goto t (.readSleep k))
  | sleepRead (k : Nat) (now : (s.proc t).pc = .readSleep k) : Moved s t (s.release t (.readAsleep k))
  | copied (k : Nat) (dst : List Byte) (now : (s.proc t).pc = .readCopy k dst) (last : k = 0 ∨ s.pipe.empty) :
      Moved s t (s.goto t (.readEnd dst))
  | get (k : Nat) (dst : List Byte) (now : (s.proc t).pc = .readCopy (k + 1) dst) (some : ¬s.pipe.empty) :
      Moved s t { s.goto t (.readCopy k (dst ++ [s.pipe.next])) with pipe := s.pipe.get }
  | endRead (dst : List Byte) (now : (s.proc t).pc = .readEnd dst) :
      Moved s t ({ s with proc := wakeup Pc.wakeWrite s.proc }.goto t (.readRelease (some dst)))
  | unlockRead (dst : Option (List Byte)) (now : (s.proc t).pc = .readRelease dst) : Moved s t (s.release t .idle)
  | shut (w : Bool) (now : (s.proc t).pc = .closeEnd w) :
    Moved s t { s.goto t (.closeWakeup w) with pipe := s.pipe.shut w }
  | endClose (w : Bool) (now : (s.proc t).pc = .closeWakeup w) :
      Moved s t ({ s with proc := wakeup (if w then Pc.wakeRead else Pc.wakeWrite) s.proc }.goto t .closeRelease)
  | unlockClose (now : (s.proc t).pc = .closeRelease) : Moved s t (s.release t .idle)

theorem acquire_eq {pc : Pc} (action : s.acquire t pc = some u) :
    s.lock = none ∧ { s.goto t pc with lock := some t } = u := by
  obtain ⟨free, same⟩ := Option.ite_none_right_eq_some.mp action
  exact ⟨free, Option.some.inj same⟩

theorem go_moved (action : go s t = some u) : Moved s t u := by
  unfold go at action
  cases now : (s.proc t).pc <;> rw [now] at action
  case idle | writeAsleep | readAsleep => cases action
  case writeAcquire src =>
    obtain ⟨free, rfl⟩ := acquire_eq action
    exact .lockWrite src (.inl now) free
  case writeWoken src =>
    obtain ⟨free, rfl⟩ := acquire_eq action
    exact .lockWrite src (.inr now) free
  case readAcquire k =>
    obtain ⟨free, rfl⟩ := acquire_eq action
    exact .lockRead k (.inl now) free
  case readWoken k =>
    obtain ⟨free, rfl⟩ := acquire_eq action
    exact .lockRead k (.inr now) free
  case closeAcquire w =>
    obtain ⟨free, rfl⟩ := acquire_eq action
    exact .lockClose w now free
  case writeLoop src =>
    cases src with
    | nil =>
      cases action
      exact .written now
    | cons b src =>
      simp only at action
      split_ifs at action with full <;> obtain rfl := Option.some.inj action
      · exact .findFull b src now full
      · exact .put b src now full
  case writeFull src =>
    simp only at action
    split_ifs at action with why <;> obtain rfl := Option.some.inj action
    · exact .giveUp src now why
    · exact .stay src now (by simpa using (not_or.mp why).1)
  case readTest k =>
    simp only at action
    split_ifs at action with empty <;> obtain rfl := Option.some.inj action
    · exact .findEmpty k now empty.1 empty.2
    · exact .startCopy k now
  case readEmpty k =>
    simp only at action
    split_ifs at action <;> obtain rfl := Option.some.inj action
    · exact .abandon k now
    · exact .wait k now
  case readCopy k dst =>
    cases k with
    | zero =>
      cases action
      exact .copied 0 dst now (.inl rfl)
    | succ k =>
      simp only at action
      split_ifs at action with empty <;> obtain rfl := Option.some.inj action
      · exact .copied (k + 1) dst now (.inr empty)
      · exact .get k dst now empty
  all_goals obtain rfl := Option.some.inj action
  case writeWakeup src => exact .callReaders src now
  case writeSleep src => exact .sleepWrite src now
  case writeEnd => exact .endWrite now
  case writeRelease ok => exact .unlockWrite ok now
  case readSleep k => exact .sleepRead k now
  case readEnd dst => exact .endRead dst now
  case readRelease dst => exact .unlockRead dst now
  case closeEnd w => exact .shut w now
  case closeWakeup w => exact .endClose w now
  case closeRelease => exact .unlockClose now

theorem shut_count {w : Bool} : (p.shut w).count = p.count ∧ (p.shut w).unread = p.unread := by
  cases w <;> exact ⟨rfl, rfl⟩

inductive Effect (s u : State n) (e : State n × Action n) : Prop where
  | none (stored : stored e = []) (taken : taken e = []) (count : u.pipe.count = s.pipe.count)
      (unread : u.pipe.unread = s.pipe.unread)
  | put (b : Byte) (room : ¬s.pipe.full) (stored : stored e = [b]) (taken : taken e = []) (pipe : u.pipe = s.pipe.put b)
  | get (some : ¬s.pipe.empty) (stored : stored e = []) (taken : taken e = [s.pipe.next]) (pipe : u.pipe = s.pipe.get)

theorem Effect.same {e : State n × Action n} (stored : Pipes.stored e = [])
    (taken : Pipes.taken e = []) (pipe : u.pipe = s.pipe) :
    Effect s u e :=
  .none stored taken (by rw [pipe]) (by rw [pipe])

theorem go_effect (action : go s t = some u) : Effect s u (s, .go t) := by
  cases go_moved action
  case put b src now room => exact .put b room (by simp [stored, now, room]) (by simp [taken, now]) rfl
  case get k dst now some => exact .get some (by simp [stored, now]) (by simp [taken, now, some]) rfl
  case shut w now => exact .none (by simp [stored, now]) (by simp [taken, now]) shut_count.1 shut_count.2
  case findFull b src now full => exact .same (by simp [stored, now, full]) (by simp [taken, now]) rfl
  case copied k dst now last =>
    refine .same (by simp [stored, now]) ?_ rfl
    cases last with
    | inl last => simp [taken, now, last]
    | inr empty => cases k <;> simp [taken, now, empty]
  case lockWrite src now free | lockRead k now free =>
    exact .same (by cases now <;> simp [stored, *]) (by cases now <;> simp [taken, *]) rfl
  all_goals
    rename_i now
    exact .same (by simp [stored, *]) (by simp [taken, *]) rfl

theorem step_effect {a : Action n} (action : step s a = some u) : Effect s u (s, a) := by
  cases a with
  | go t => exact go_effect action
  | kill t =>
    cases action
    exact .same rfl rfl rfl
  | write t | read t k | close t w | fork t =>
    obtain ⟨_, same⟩ := Option.ite_none_right_eq_some.mp action
    cases same
    exact .same rfl rfl rfl

structure Fifo (es : List (State n × Action n)) (s : State n) : Prop where
  count : s.pipe.count ≤ PIPESIZE
  bytes : es.flatMap stored = es.flatMap taken ++ s.pipe.unread

theorem Fifo.step {es : List (State n × Action n)} {a : Action n} (h : Fifo es s) (action : step s a = some u) :
    Fifo (es ++ [(s, a)]) u := by
  have bytes := h.bytes
  cases step_effect action with
  | none noneStored noneTaken count unread =>
    refine ⟨count ▸ h.count, ?_⟩
    simp [noneStored, noneTaken, unread, bytes]
  | put b room isStored noneTaken pipe =>
    have less : s.pipe.count < PIPESIZE := lt_of_le_of_ne h.count fun all => room (Pipe.full_iff.mpr all)
    constructor
    · rw [pipe, Pipe.count_put less]
      exact less
    · simp [isStored, noneTaken, pipe, Pipe.unread_put less, bytes]
  | get some noneStored isTaken pipe =>
    obtain ⟨count, unread⟩ := Pipe.unread_get some
    constructor
    · have := h.count
      rw [pipe]
      omega
    · simp [noneStored, isTaken, pipe, bytes, unread]

def Pc.locked : Pc → Bool
  | .writeLoop _ | .writeFull _ | .writeWakeup _ | .writeSleep _ | .writeEnd | .writeRelease _ => true
  | .readTest _ | .readEmpty _ | .readSleep _ | .readCopy _ _ | .readEnd _ | .readRelease _ => true
  | .closeEnd _ | .closeWakeup _ | .closeRelease => true
  | .idle | .writeAcquire _ | .writeAsleep _ | .writeWoken _ => false
  | .readAcquire _ | .readAsleep _ | .readWoken _ | .closeAcquire _ => false

def Held (s : State n) : Prop := ∀ r, (s.proc r).pc.locked = true ↔ s.lock = some r

theorem Held.mine {pc : Pc} (h : Held s) (now : (s.proc t).pc = pc) (locked : pc.locked = true) : s.lock = some t := by
  rw [← h t, now, locked]

theorem wakeRead_locked (pc : Pc) : pc.wakeRead.locked = pc.locked := by cases pc <;> rfl

theorem wakeWrite_locked (pc : Pc) : pc.wakeWrite.locked = pc.locked := by cases pc <;> rfl

theorem Held.wakeup {wake : Pc → Pc} (h : Held s) (same : ∀ pc, (wake pc).locked = pc.locked) :
    Held { s with proc := wakeup wake s.proc } := by
  intro r
  change (wake (s.proc r).pc).locked = true ↔ s.lock = some r
  rw [same]
  exact h r

theorem Held.goto {p : Pc} (h : Held s) (mine : s.lock = some t) (locked : p.locked = true) : Held (s.goto t p) := by
  intro r
  by_cases same : r = t
  · subst same
    simp [State.goto, State.setProc, mine, locked]
  · simpa [State.goto, State.setProc, same] using h r

theorem Held.acquire {pc : Pc} (h : Held s) (free : s.lock = none) (locked : pc.locked = true) :
    Held { s.goto t pc with lock := some t } := by
  intro r
  by_cases same : r = t
  · subst same
    simp [State.goto, State.setProc, locked]
  have none : (s.proc r).pc.locked = false := by
    rw [← Bool.not_eq_true, h r, free]
    simp
  simp [State.goto, State.setProc, same, none, Ne.symm same]

theorem Held.release {pc : Pc} (h : Held s) (mine : s.lock = some t) (unlocked : pc.locked = false) :
    Held (s.release t pc) := by
  intro r
  by_cases same : r = t
  · subst same
    simp [State.release, State.goto, State.setProc, unlocked]
  have none : (s.proc r).pc.locked = false := by
    rw [← Bool.not_eq_true, h r, mine]
    simpa using Ne.symm same
  simp [State.release, State.goto, State.setProc, same, none]

theorem Held.setProc {p : Proc} (h : Held s) (same : p.pc.locked = (s.proc t).pc.locked) : Held (s.setProc t p) := by
  intro r
  by_cases this : r = t
  · subst this
    simpa [State.setProc, same] using h r
  · simpa [State.setProc, this] using h r

theorem Held.go (h : Held s) (action : go s t = some u) : Held u := by
  cases go_moved action
  case lockWrite free | lockRead free | lockClose free => exact h.acquire free rfl
  case callReaders now | endWrite now => exact (h.wakeup wakeRead_locked).goto (h.mine now rfl) rfl
  case endRead now => exact (h.wakeup wakeWrite_locked).goto (h.mine now rfl) rfl
  case endClose w now =>
    refine (h.wakeup ?_).goto (h.mine now rfl) rfl
    cases w
    · exact wakeWrite_locked
    · exact wakeRead_locked
  case sleepWrite now | unlockWrite now | sleepRead now | unlockRead now | unlockClose now =>
    exact h.release (h.mine now rfl) rfl
  case put src now _ => exact h.goto (p := .writeLoop src) (h.mine now rfl) rfl
  case get k dst now _ => exact h.goto (p := .readCopy k (dst ++ [s.pipe.next])) (h.mine now rfl) rfl
  case shut w now => exact h.goto (p := .closeWakeup w) (h.mine now rfl) rfl
  case written now | startCopy now | abandon now | wait now => exact h.goto (h.mine now rfl) rfl
  case findFull now _ | giveUp now _ | stay now _ | copied now _ => exact h.goto (h.mine now rfl) rfl
  case findEmpty now _ _ => exact h.goto (h.mine now rfl) rfl

theorem Held.step {a : Action n} (h : Held s) (action : step s a = some u) : Held u := by
  cases a with
  | go t => exact h.go action
  | kill t =>
    cases action
    exact h.setProc ((wakeWrite_locked _).trans (wakeRead_locked _))
  | write t | read t k =>
    obtain ⟨⟨idle, _⟩, same⟩ := Option.ite_none_right_eq_some.mp action
    cases same
    exact h.setProc (by rw [idle]; rfl)
  | close t w =>
    obtain ⟨⟨idle, _⟩, same⟩ := Option.ite_none_right_eq_some.mp action
    cases same
    refine h.setProc ?_
    rw [idle]
    dsimp only
    split_ifs <;> rfl
  | fork t =>
    obtain ⟨⟨idle, idleNew, _⟩, same⟩ := Option.ite_none_right_eq_some.mp action
    cases same
    exact h.setProc (by rw [idle, idleNew])

def Pc.hand : Pc → List Byte
  | .readCopy _ dst | .readEnd dst | .readRelease (some dst) => dst
  | _ => []

def State.hand (s : State n) : List Byte := s.lock.elim [] fun t => (s.proc t).pc.hand

theorem hand_mine (mine : s.lock = some t) : s.hand = (s.proc t).pc.hand := by simp [State.hand, mine]

theorem hand_free (free : s.lock = none) : s.hand = [] := by simp [State.hand, free]

@[simp] theorem hand_release {pc : Pc} : (s.release t pc).hand = [] := rfl

@[simp] theorem goto_pc {pc : Pc} : ((s.goto t pc).proc t).pc = pc := by simp [State.goto, State.setProc]

theorem go_hand (h : Held s) (action : go s t = some u) :
    s.hand ++ taken (s, .go t) = returned (s, .go t) ++ u.hand := by
  have keep {p q : Pc} {u : State n} (now : (s.proc t).pc = p) (locked : p.locked = true) (lock : u.lock = s.lock)
      (next : (u.proc t).pc = q) (same : p.hand ++ taken (s, .go t) = returned (s, .go t) ++ q.hand) :
      s.hand ++ taken (s, .go t) = returned (s, .go t) ++ u.hand := by
    rw [hand_mine (h.mine now locked), hand_mine (lock.trans (h.mine now locked)), now, next]
    exact same
  cases go_moved action
  case lockWrite src now free | lockRead k now free =>
    rw [hand_free free, hand_mine (t := t) rfl]
    rcases now with now | now <;> simp [now, taken, returned, Pc.hand]
  case lockClose w now free =>
    rw [hand_free free, hand_mine (t := t) rfl]
    simp [now, taken, returned, Pc.hand]
  case unlockRead dst now =>
    rw [hand_mine (h.mine now rfl)]
    cases dst <;> simp [now, taken, returned, Pc.hand]
  case sleepWrite now | unlockWrite now | sleepRead now | unlockClose now =>
    rw [hand_mine (h.mine now rfl)]
    simp [now, taken, returned, Pc.hand]
  case copied k dst now last =>
    have none : taken (s, .go t) = [] := by
      cases last with
      | inl last => simp [taken, now, last]
      | inr empty => cases k <;> simp [taken, now, empty]
    exact keep now rfl rfl goto_pc (by simp [none, now, returned, Pc.hand])
  case get k dst now some => exact keep now rfl rfl goto_pc (by simp [now, taken, some, returned, Pc.hand])
  case put now _ | findFull now _ | giveUp now _ | stay now _ | findEmpty now _ _ =>
    exact keep now rfl rfl goto_pc (by simp [now, taken, returned, Pc.hand])
  all_goals
    rename_i now
    exact keep now rfl rfl goto_pc (by simp [now, taken, returned, Pc.hand])

theorem hand_setProc {p : Proc} (same : p.pc.hand = (s.proc t).pc.hand) : (s.setProc t p).hand = s.hand := by
  unfold State.hand
  cases held : s.lock with
  | none => simp [State.setProc, held]
  | some r =>
    by_cases this : r = t
    · subst this
      simpa [State.setProc, held] using same
    · simp [State.setProc, held, this]

theorem step_hand {a : Action n} (h : Held s) (action : step s a = some u) :
    s.hand ++ taken (s, a) = returned (s, a) ++ u.hand := by
  cases a with
  | go t => exact go_hand h action
  | kill t =>
    cases action
    rw [hand_setProc]
    · simp [taken, returned]
    · cases (s.proc t).pc <;> rfl
  | write t | read t k =>
    obtain ⟨⟨idle, _⟩, same⟩ := Option.ite_none_right_eq_some.mp action
    cases same
    unfold State.goto
    rw [hand_setProc]
    · simp [taken, returned]
    · rw [idle]
      rfl
  | close t w =>
    obtain ⟨⟨idle, _⟩, same⟩ := Option.ite_none_right_eq_some.mp action
    cases same
    rw [hand_setProc]
    · simp [taken, returned]
    · rw [idle]
      dsimp only
      split_ifs <;> rfl
  | fork t =>
    obtain ⟨⟨idle, idleNew, _⟩, same⟩ := Option.ite_none_right_eq_some.mp action
    cases same
    rw [hand_setProc]
    · simp [taken, returned]
    · rw [idle, idleNew]

theorem pipealloc_held {creator : Fin n} {data : Fin PIPESIZE → Byte} {counter : UInt32} :
    Held (pipealloc creator data counter) := by
  intro r
  simp [pipealloc, Pc.locked]

/-- The bytes that `piperead` has returned, those in a reader's hand and those unread in the pipe are, in this order,
the bytes that `pipewrite` has stored. -/
theorem pipe_fifo {creator : Fin n} {data : Fin PIPESIZE → Byte} {counter : UInt32} {as : List (Action n)}
    (run : exec step (pipealloc creator data counter) as = some s) :
    let es := trace step (pipealloc creator data counter) as
    es.flatMap returned <+: es.flatMap stored ∧
      es.flatMap stored = es.flatMap returned ++ s.hand ++ s.pipe.unread ∧
      s.pipe.unread.length = (s.pipe.nwrite - s.pipe.nread).toNat ∧
      (s.pipe.nwrite - s.pipe.nread).toNat ≤ PIPESIZE := by
  intro es
  have sound : Held s ∧ Fifo es s ∧ es.flatMap taken = es.flatMap returned ++ s.hand := by
    refine exec_induction
      (I := fun es s => Held s ∧ Fifo es s ∧ es.flatMap taken = es.flatMap returned ++ s.hand) ?_ ?_ run
    · refine ⟨pipealloc_held, ⟨?_, ?_⟩, rfl⟩
      · simp [pipealloc, Pipe.count, gap_self]
      · simp [pipealloc, Pipe.unread, Pipe.count, gap_self, window_zero]
    intro es s a u ⟨held, fifo, hand⟩ action
    refine ⟨held.step action, fifo.step action, ?_⟩
    have step := step_hand held action
    simp [hand, step]
  obtain ⟨_, fifo, hand⟩ := sound
  have all : es.flatMap stored = es.flatMap returned ++ s.hand ++ s.pipe.unread := by rw [fifo.bytes, hand]
  refine ⟨?_, all, length_window .., fifo.count⟩
  rw [all, List.append_assoc]
  exact List.prefix_append ..

def wrapped : List (Action 1) :=
  Action.write 0 [7, 8] :: List.replicate 6 (.go 0) ++ Action.read 0 1 :: List.replicate 6 (.go 0)

theorem pipe_fifo_wrapped :
    ∃ s, exec step (pipealloc 0 (fun _ => 0) 0xffffffff) wrapped = some s ∧ s.pipe.nread = 0 ∧ s.pipe.nwrite = 1 ∧
      [7, 8] = [7] ++ s.hand ++ s.pipe.unread := by
  obtain ⟨s, reached, read, written⟩ : ∃ s, exec step (pipealloc (0 : Fin 1) (fun _ => 0) 0xffffffff) wrapped = some s ∧
      s.pipe.nread = 0 ∧ s.pipe.nwrite = 1 := by
    decide +kernel
  have bytes := (pipe_fifo reached).2.1
  have stores : (trace step (pipealloc (0 : Fin 1) (fun _ => 0) 0xffffffff) wrapped).flatMap stored = [7, 8] := by
    decide +kernel
  have returns : (trace step (pipealloc (0 : Fin 1) (fun _ => 0) 0xffffffff) wrapped).flatMap returned = [7] := by
    decide +kernel
  rw [stores, returns] at bytes
  exact ⟨s, reached, read, written, bytes⟩

end Xv6.Pipes
