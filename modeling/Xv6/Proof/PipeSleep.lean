import Xv6.Proof.Pipe

namespace Xv6.Pipes
open Xv6.Library

variable {n : Nat} {s u : State n} {t : Fin n} {p q pc : Pc} {wake : Pc → Pc} {pipe : Pipe}

def Pc.settled (pipe : Pipe) : Pc → Prop
  | .readAsleep _ => pipe.empty ∧ pipe.writeopen = true
  | .writeAsleep _ => pipe.full ∧ pipe.readopen = true
  | _ => True

def Pc.knows (pipe : Pipe) : Pc → Prop
  | .readEmpty _ | .readSleep _ => pipe.empty ∧ pipe.writeopen = true
  | .writeFull _ => pipe.full
  | .writeWakeup _ | .writeSleep _ => pipe.full ∧ pipe.readopen = true
  | _ => True

def Pc.callsReaders : Pc → Bool
  | .writeLoop _ | .writeFull _ | .writeWakeup _ | .writeEnd | .closeWakeup true => true
  | _ => false

def Pc.callsWriters : Pc → Bool
  | .readCopy _ _ | .readEnd _ | .closeWakeup false => true
  | _ => false

def Pc.calls (pc : Pc) : Pc → Bool
  | .readAsleep _ => pc.callsReaders
  | .writeAsleep _ => pc.callsWriters
  | _ => false

def Pc.reading : Pc → Bool
  | .readAcquire _ | .readTest _ | .readEmpty _ | .readSleep _ | .readAsleep _ | .readWoken _ => true
  | .readCopy _ _ | .readEnd _ | .readRelease _ => true
  | _ => false

def Pc.shutsRead : Pc → Bool
  | .closeAcquire false | .closeEnd false => true
  | _ => false

structure Calm (s : State n) : Prop where
  held : Held s
  knows : ∀ r, (s.proc r).pc.knows s.pipe
  waits : ∀ r, (s.proc r).pc.settled s.pipe ∨ ∃ t, s.lock = some t ∧ (s.proc t).pc.calls (s.proc r).pc = true
  reader : ∀ r, (s.proc r).pc.reading = true → (s.proc r).reads = true
  unread : s.pipe.readopen = false ∨ (∃ r, (s.proc r).pc.shutsRead = true) → ∀ r, (s.proc r).reads = false

structure Goes (s : State n) (t : Fin n) (wake : Pc → Pc) (pc : Pc) (u : State n) : Prop where
  own : u.proc t = { s.proc t with pc := pc }
  other : ∀ r, r ≠ t → u.proc r = { s.proc r with pc := wake (s.proc r).pc }

theorem goes_goto (same : u.proc = (s.goto t pc).proc) : Goes s t id pc u where
  own := by simp [same, State.goto, State.setProc]
  other := by
    intro r ne
    simp [same, State.goto, State.setProc, ne]

theorem goes_wakeup : Goes s t wake pc ({ s with proc := wakeup wake s.proc }.goto t pc) where
  own := by simp [State.goto, State.setProc, wakeup]
  other := by
    intro r ne
    simp [State.goto, State.setProc, ne, wakeup]

theorem knows_unlocked (unlocked : pc.locked = false) : pc.knows pipe := by cases pc <;> trivial

theorem settled_locked (locked : pc.locked = true) : pc.settled pipe := by
  cases pc <;> trivial

theorem calls_none (readers : p.callsReaders = false) (writers : p.callsWriters = false) (pc : Pc) :
    p.calls pc = false := by
  cases pc <;> first | exact readers | exact writers | rfl

theorem wakeRead_settled (writers : p.callsWriters = false) (pc : Pc) (called : p.calls pc = true) :
    pc.wakeRead.settled pipe := by
  cases pc
  case writeAsleep => cases writers.symm.trans called
  all_goals trivial

theorem wakeWrite_settled (readers : p.callsReaders = false) (pc : Pc) (called : p.calls pc = true) :
    pc.wakeWrite.settled pipe := by
  cases pc
  case readAsleep => cases readers.symm.trans called
  all_goals trivial

inductive Wake : (Pc → Pc) → Prop where
  | none : Wake id
  | read : Wake Pc.wakeRead
  | write : Wake Pc.wakeWrite

theorem Wake.knows (h : Wake wake) (known : pc.knows pipe) : (wake pc).knows pipe := by
  cases h
  · exact known
  all_goals cases pc <;> exact known

theorem Wake.reading (h : Wake wake) : (wake pc).reading = pc.reading := by
  cases h
  · rfl
  all_goals cases pc <;> rfl

theorem Wake.shutsRead (h : Wake wake) : (wake pc).shutsRead = pc.shutsRead := by
  cases h
  · rfl
  all_goals cases pc <;> rfl

theorem Wake.settled (h : Wake wake) (known : pc.settled pipe) : (wake pc).settled pipe := by
  cases h
  · exact known
  all_goals cases pc <;> first | exact known | trivial

section Goes
variable (goes : Goes s t wake q u)
include goes

theorem Goes.knows (h : Calm s) (w : Wake wake) (own : q.knows u.pipe)
    (pipe : s.lock = some t ∨ u.pipe = s.pipe) (r : Fin n) :
    (u.proc r).pc.knows u.pipe := by
  by_cases same : r = t
  · rw [same, goes.own]
    exact own
  rw [goes.other r same]
  rcases pipe with mine | pipe
  · have unlocked : (s.proc r).pc.locked = false := by
      rw [← Bool.not_eq_true, h.held r, mine]
      simpa using Ne.symm same
    exact w.knows (knows_unlocked unlocked)
  · rw [pipe]
    exact w.knows (h.knows r)

theorem Goes.reader (h : Calm s) (w : Wake wake) (now : (s.proc t).pc = p)
    (came : q.reading = true → p.reading = true) (r : Fin n)
    (reading : (u.proc r).pc.reading = true) : (u.proc r).reads = true := by
  by_cases same : r = t
  · rw [same, goes.own] at reading ⊢
    exact h.reader t (now ▸ came reading)
  · rw [goes.other r same] at reading ⊢
    exact h.reader r (w.reading ▸ reading)

theorem Goes.unread (h : Calm s) (w : Wake wake) (now : (s.proc t).pc = p)
    (came : u.pipe.readopen = false ∨ q.shutsRead = true → s.pipe.readopen = false ∨ p.shutsRead = true)
    (shut : u.pipe.readopen = false ∨ ∃ r, (u.proc r).pc.shutsRead = true) (r : Fin n) : (u.proc r).reads = false := by
  have here (shut : u.pipe.readopen = false ∨ q.shutsRead = true) : s.pipe.readopen = false ∨
    ∃ r, (s.proc r).pc.shutsRead = true :=
    (came shut).imp id fun shuts => ⟨t, now ▸ shuts⟩
  have before : s.pipe.readopen = false ∨ ∃ r, (s.proc r).pc.shutsRead = true := by
    rcases shut with closed | ⟨x, shuts⟩
    · exact here (.inl closed)
    by_cases this : x = t
    · rw [this, goes.own] at shuts
      exact here (.inr shuts)
    · rw [goes.other x this] at shuts
      exact .inr ⟨x, w.shutsRead ▸ shuts⟩
  have none := h.unread before r
  by_cases this : r = t
  · rw [this, goes.own]
    exact this ▸ none
  · rw [goes.other r this]
    exact none

theorem Goes.waits (own : q.settled u.pipe)
    (rest : ∀ r, r ≠ t → (wake (s.proc r).pc).settled u.pipe ∨ u.lock = some t ∧ q.calls (wake (s.proc r).pc) = true)
    (r : Fin n) :
    (u.proc r).pc.settled u.pipe ∨ ∃ t, u.lock = some t ∧ (u.proc t).pc.calls (u.proc r).pc = true := by
  by_cases same : r = t
  · rw [same, goes.own]
    exact .inl own
  rw [goes.other r same]
  refine (rest r same).imp id fun called => ⟨t, called.1, ?_⟩
  rw [goes.own]
  exact called.2

end Goes

section
variable (h : Calm s)
include h

theorem Calm.moves (held : Held u) (now : (s.proc t).pc = p) (locked : p.locked = true) (goes : Goes s t wake q u)
    (w : Wake wake) (knows : q.knows u.pipe) (settled : q.settled u.pipe)
    (reading : q.reading = true → p.reading = true)
    (shuts : u.pipe.readopen = false ∨ q.shutsRead = true → s.pipe.readopen = false ∨ p.shutsRead = true)
    (rest : ∀ r, (s.proc r).pc.settled s.pipe ∨ p.calls (s.proc r).pc = true →
      (wake (s.proc r).pc).settled u.pipe ∨ u.lock = some t ∧ q.calls (wake (s.proc r).pc) = true) :
    Calm u := by
  have mine := h.held.mine now locked
  refine ⟨held, goes.knows h w knows (.inl mine), goes.waits settled fun r _ => rest r ?_, goes.reader h w now reading,
    goes.unread h w now shuts⟩
  refine (h.waits r).imp id ?_
  rintro ⟨x, lock, called⟩
  obtain rfl := Option.mem_unique mine lock
  exact now ▸ called

theorem Calm.goto (now : (s.proc t).pc = p) (locked : p.locked = true) (stays : q.locked = true)
    (knows : q.knows s.pipe) (reading : q.reading = true → p.reading = true) (shuts : q.shutsRead = false)
    (calls : ∀ r, p.calls (s.proc r).pc = true → q.calls (s.proc r).pc = true) : Calm (s.goto t q) := by
  have mine := h.held.mine now locked
  refine h.moves (h.held.goto mine stays) now locked (goes_goto rfl) .none knows (settled_locked stays) reading ?_ ?_
  · rintro (closed | shut)
    · exact .inl closed
    · rw [shuts] at shut
      cases shut
  · exact fun r => Or.imp id fun called => ⟨mine, calls r called⟩

theorem Calm.release (now : (s.proc t).pc = p) (locked : p.locked = true) (leaves : q.locked = false)
    (settled : q.settled s.pipe) (reading : q.reading = true → p.reading = true) (shuts : q.shutsRead = false)
    (calls : ∀ pc, p.calls pc = false) : Calm (s.release t q) := by
  have mine := h.held.mine now locked
  refine h.moves (h.held.release mine leaves) now locked
    (goes_goto rfl) .none (knows_unlocked leaves) settled reading ?_ ?_
  · rintro (closed | shut)
    · exact .inl closed
    · rw [shuts] at shut
      cases shut
  rintro r (settled | called)
  · exact .inl settled
  · rw [calls] at called
    cases called

theorem Calm.acquire (free : s.lock = none) (now : (s.proc t).pc = p) (takes : q.locked = true)
    (knows : q.knows s.pipe) (reading : q.reading = true → p.reading = true)
    (shuts : q.shutsRead = true → p.shutsRead = true) :
    Calm { s.goto t q with lock := some t } := by
  have goes : Goes s t id q { s.goto t q with lock := some t } := goes_goto rfl
  refine ⟨h.held.acquire free takes, goes.knows h .none knows (.inr rfl),
    goes.waits (settled_locked takes) fun r _ => .inl ?_,
    goes.reader h .none now reading, goes.unread h .none now (Or.imp id shuts)⟩
  rcases h.waits r with settled | ⟨x, lock, _⟩
  · exact settled
  · rw [free] at lock
    cases lock

theorem Calm.wakeup (held : Held ({ s with proc := Pipes.wakeup wake s.proc }.goto t q)) (now : (s.proc t).pc = p)
    (locked : p.locked = true) (w : Wake wake) (knows : q.knows s.pipe) (stays : q.locked = true)
    (reading : q.reading = true → p.reading = true) (shuts : q.shutsRead = false)
    (woken : ∀ pc, p.calls pc = true → (wake pc).settled s.pipe) :
    Calm ({ s with proc := Pipes.wakeup wake s.proc }.goto t q) := by
  refine h.moves held now locked goes_wakeup w knows (settled_locked stays) reading ?_ ?_
  · rintro (closed | shut)
    · exact .inl closed
    · rw [shuts] at shut
      cases shut
  · rintro r (settled | called)
    · exact .inl (w.settled settled)
    · exact .inl (woken _ called)

def Pc.testsFull : Pc → Bool
  | .writeFull _ => true
  | _ => false

def Pc.sleepsRead : Pc → Bool
  | .readAsleep _ => true
  | _ => false

/-- A writer that was killed leaves `pipewrite` by the test for a full pipe only if nobody sleeps in `piperead`. -/
def Unheard : State n × Action n → Prop
  | (s, .go t) => (s.proc t).pc.testsFull = true ∧ (s.proc t).killed = true ∧ s.pipe.readopen = true →
      ∀ r, (s.proc r).pc.sleepsRead = false
  | _ => True

instance : DecidablePred (Unheard (n := n)) := fun e =>
  match e with
  | (_, .go _) => inferInstanceAs (Decidable (_ → _))
  | (_, .write _ _) | (_, .read _ _) | (_, .close _ _) | (_, .fork _ _) | (_, .kill _) => .isTrue trivial

theorem Calm.nobodyReads (closed : s.pipe.readopen = false) (r : Fin n) {k : Nat} : (s.proc r).pc ≠ .readAsleep k := by
  intro asleep
  have has := h.reader r (by rw [asleep]; rfl)
  rw [h.unread (.inl closed) r] at has
  cases has

theorem Calm.go (unheard : Unheard (s, .go t)) (action : go s t = some u) : Calm u := by
  have held := h.held.go action
  have known {p : Pc} (now : (s.proc t).pc = p) : p.knows s.pipe := now ▸ h.knows t
  cases go_moved action
  case lockWrite src now free => rcases now with now | now <;> exact h.acquire free now rfl trivial nofun nofun
  case lockRead k now free => rcases now with now | now <;> exact h.acquire free now rfl trivial (fun _ => rfl) nofun
  case lockClose w now free => exact h.acquire free now rfl trivial nofun (by cases w <;> exact id)
  case written now => exact h.goto now rfl rfl trivial nofun rfl fun r => id
  case findFull b src now full => exact h.goto now rfl rfl full nofun rfl fun r => id
  case put b src now room =>
    refine h.moves held now rfl (goes_goto rfl) .none trivial trivial nofun (Or.imp id nofun) fun r => ?_
    have mine := h.held.mine now rfl
    cases (s.proc r).pc <;> first | exact fun _ => .inl trivial | exact fun _ => .inr ⟨mine, rfl⟩ | skip
    exact fun sleeps => absurd (sleeps.resolve_right nofun).1 room
  case giveUp src now why =>
    refine h.goto now rfl rfl trivial nofun rfl fun r called => ?_
    cases asleep : (s.proc r).pc <;> rw [asleep] at called <;> try cases called
    rcases why with closed | killed
    · exact absurd asleep (h.nobodyReads closed r)
    by_cases closed : s.pipe.readopen = false
    · exact absurd asleep (h.nobodyReads closed r)
    · have awake := unheard ⟨by rw [now]; rfl, killed, Bool.not_eq_false _ ▸ closed⟩ r
      rw [asleep] at awake
      cases awake
  case stay src now opened => exact h.goto now rfl rfl ⟨known now, opened⟩ nofun rfl fun r => id
  case callReaders src now =>
    exact h.wakeup held now rfl .read (known (p := .writeWakeup src) now) rfl nofun rfl (wakeRead_settled rfl)
  case sleepWrite src now => exact h.release now rfl rfl (known now) nofun rfl (calls_none rfl rfl)
  case endWrite now => exact h.wakeup held now rfl .read trivial rfl nofun rfl (wakeRead_settled rfl)
  case unlockWrite ok now | unlockRead dst now | unlockClose now =>
    exact h.release now rfl rfl trivial nofun rfl (calls_none rfl rfl)
  case findEmpty k now empty opened => exact h.goto now rfl rfl ⟨empty, opened⟩ (fun _ => rfl) rfl fun r => id
  case startCopy k now =>
    refine h.goto now rfl rfl trivial (fun _ => rfl) rfl fun r called => ?_
    rw [calls_none rfl rfl] at called
    cases called
  case abandon k now => exact h.goto now rfl rfl trivial (fun _ => rfl) rfl fun r => id
  case wait k now => exact h.goto now rfl rfl (known (p := .readEmpty k) now) (fun _ => rfl) rfl fun r => id
  case sleepRead k now => exact h.release now rfl rfl (known now) (fun _ => rfl) rfl (calls_none rfl rfl)
  case copied k dst now last => exact h.goto now rfl rfl trivial (fun _ => rfl) rfl fun r => id
  case get k dst now some =>
    refine h.moves held now rfl (goes_goto rfl) .none trivial trivial (fun _ => rfl) (Or.imp id nofun) fun r => ?_
    have mine := h.held.mine now rfl
    cases (s.proc r).pc <;> first | exact fun _ => .inl trivial | exact fun _ => .inr ⟨mine, rfl⟩ | skip
    exact fun sleeps => absurd (sleeps.resolve_right nofun).1 some
  case endRead dst now => exact h.wakeup held now rfl .write trivial rfl (fun _ => rfl) rfl (wakeWrite_settled rfl)
  case shut w now =>
    have mine := h.held.mine now rfl
    refine h.moves held now rfl (goes_goto rfl) .none trivial trivial nofun ?_ fun r => ?_
    · cases w
      · exact fun _ => .inr rfl
      · exact Or.imp id nofun
    · cases w <;> cases (s.proc r).pc <;> first | exact fun _ => .inl trivial | exact fun _ => .inr ⟨mine, rfl⟩ | skip
      · exact fun sleeps => .inl (sleeps.resolve_right nofun)
      · exact fun sleeps => .inl (sleeps.resolve_right nofun)
  case endClose w now =>
    cases w
    · exact h.wakeup held now rfl .write trivial rfl nofun rfl (wakeWrite_settled rfl)
    · exact h.wakeup held now rfl .read trivial rfl nofun rfl (wakeRead_settled rfl)

theorem Calm.setProc {p : Proc} (locked : (s.proc t).pc.locked = false) (unlocked : p.pc.locked = false)
    (settled : ∀ pipe, p.pc.settled pipe) (reader : p.pc.reading = true → p.reads = true)
    (unread : s.pipe.readopen = false ∨ p.pc.shutsRead = true ∨ (∃ r, (s.proc r).pc.shutsRead = true) →
      p.reads = false ∧ ∀ r, r ≠ t → (s.proc r).reads = false) : Calm (s.setProc t p) := by
  have own : (s.setProc t p).proc t = p := by simp [State.setProc]
  have other (r : Fin n) (ne : r ≠ t) : (s.setProc t p).proc r = s.proc r := by simp [State.setProc, ne]
  constructor
  case held => exact h.held.setProc (unlocked.trans locked.symm)
  case knows =>
    intro r
    by_cases same : r = t
    · rw [same, own]
      exact knows_unlocked unlocked
    · rw [other r same]
      exact h.knows r
  case waits =>
    intro r
    by_cases same : r = t
    · rw [same, own]
      exact .inl (settled _)
    rw [other r same]
    refine (h.waits r).imp id ?_
    rintro ⟨x, lock, called⟩
    have ne : x ≠ t := by
      rintro rfl
      rw [(h.held x).mpr lock] at locked
      cases locked
    exact ⟨x, lock, other x ne ▸ called⟩
  case reader =>
    intro r
    by_cases same : r = t
    · rw [same, own]
      exact reader
    · rw [other r same]
      exact h.reader r
  case unread =>
    intro shut r
    have before : s.pipe.readopen = false ∨ p.pc.shutsRead = true ∨ ∃ r, (s.proc r).pc.shutsRead = true := by
      refine shut.imp id ?_
      rintro ⟨x, shuts⟩
      by_cases same : x = t
      · exact .inl (own ▸ same ▸ shuts)
      · exact .inr ⟨x, other x same ▸ shuts⟩
    by_cases same : r = t
    · rw [same, own]
      exact (unread before).1
    · rw [other r same]
      exact (unread before).2 r same

theorem Calm.enters (idle : (s.proc t).pc = .idle) (unlocked : q.locked = false) (settled : ∀ pipe, q.settled pipe)
    (reader : q.reading = true → (s.proc t).reads = true) (shuts : q.shutsRead = false) : Calm (s.goto t q) := by
  refine h.setProc (by rw [idle]; rfl) unlocked settled reader fun shut => ?_
  have none := h.unread (shut.imp id fun shut => shut.resolve_left (by simp [shuts]))
  exact ⟨none t, fun r _ => none r⟩

theorem Calm.close {w : Bool} (idle : (s.proc t).pc = .idle) (action : step s (.close t w) = some u) : Calm u := by
  obtain ⟨_, same⟩ := Option.ite_none_right_eq_some.mp action
  cases same
  have unlocked : (s.proc t).pc.locked = false := by rw [idle]; rfl
  have closes (r : Fin n) (none : (s.proc r).reads = false) : ((s.proc r).closed w).reads = false := by
    cases w
    · rfl
    · exact none
  have before (shut : s.pipe.readopen = false ∨ ∃ r, (s.proc r).pc.shutsRead = true) :
      ((s.proc t).closed w).reads = false ∧ ∀ r, r ≠ t → (s.proc r).reads = false := by
    have none := h.unread shut
    exact ⟨closes t (none t), fun r _ => none r⟩
  dsimp only
  by_cases last : ∀ r, r ≠ t → (s.proc r).has w = false
  · rw [if_pos last]
    refine h.setProc unlocked rfl (fun _ => trivial) nofun fun shut => ?_
    cases w with
    | false => exact ⟨rfl, last⟩
    | true => exact before (shut.imp id fun shut => shut.resolve_left nofun)
  · rw [if_neg last]
    exact h.setProc unlocked rfl
      (fun _ => trivial) nofun fun shut => before (shut.imp id fun shut => shut.resolve_left nofun)

theorem Calm.fork {np : Fin n} (idle : (s.proc t).pc = .idle) (idleNew : (s.proc np).pc = .idle) :
    Calm (s.setProc np { s.proc t with killed := false }) := by
  refine h.setProc (by rw [idleNew]; rfl) (by simp [idle, Pc.locked])
    (by simp [idle, Pc.settled]) (by simp [idle, Pc.reading]) ?_
  intro shut
  have none := h.unread (shut.imp id fun shut => shut.resolve_left (by simp [idle, Pc.shutsRead]))
  exact ⟨none t, fun r _ => none r⟩

theorem Calm.mark : Calm (s.setProc t { s.proc t with killed := true }) := by
  have pcs (r : Fin n) : ((s.setProc t { s.proc t with killed := true }).proc r).pc = (s.proc r).pc := by
    by_cases same : r = t <;> simp [State.setProc, same]
  have reads (r : Fin n) : ((s.setProc t { s.proc t with killed := true }).proc r).reads = (s.proc r).reads := by
    by_cases same : r = t <;> simp [State.setProc, same]
  constructor
  case held => exact h.held.setProc rfl
  case knows =>
    intro r
    rw [pcs]
    exact h.knows r
  case waits =>
    intro r
    simp only [pcs]
    exact h.waits r
  case reader =>
    intro r
    rw [pcs, reads]
    exact h.reader r
  case unread =>
    simp only [pcs, reads]
    exact h.unread

theorem Calm.kill : Calm (s.setProc t { s.proc t with killed := true, pc := (s.proc t).pc.wakeRead.wakeWrite }) := by
  have woken {p : Proc} (locked : (s.proc t).pc.locked = false)
    (unlocked : p.pc.locked = false) (settled : ∀ pipe, p.pc.settled pipe)
      (reading : p.pc.reading = (s.proc t).pc.reading)
      (shuts : p.pc.shutsRead = false) (reads : p.reads = (s.proc t).reads) :
      Calm (s.setProc t p) := by
    refine h.setProc locked unlocked settled (reading ▸ reads ▸ h.reader t) fun shut => ?_
    have none := h.unread (shut.imp id fun shut => shut.resolve_left (by simp [shuts]))
    exact ⟨reads ▸ none t, fun r _ => none r⟩
  cases now : (s.proc t).pc
  case readAsleep k | writeAsleep src =>
    exact woken (by rw [now]; rfl) rfl (fun _ => trivial) (by rw [now]; rfl) rfl rfl
  -- otherwise kill() only sets the flag
  all_goals
    have same := h.mark (t := t)
    dsimp only at same
    rw [now] at same
    exact same

theorem Calm.step {a : Action n} (unheard : Unheard (s, a)) (action : step s a = some u) : Calm u := by
  cases a with
  | go t => exact h.go unheard action
  | kill t =>
    cases action
    exact h.kill
  | write t =>
    obtain ⟨⟨idle, _⟩, same⟩ := Option.ite_none_right_eq_some.mp action
    cases same
    exact h.enters idle rfl (fun _ => trivial) nofun rfl
  | read t k =>
    obtain ⟨⟨idle, has⟩, same⟩ := Option.ite_none_right_eq_some.mp action
    cases same
    exact h.enters idle rfl (fun _ => trivial) (fun _ => has) rfl
  | close t w =>
    obtain ⟨⟨idle, _⟩, _⟩ := Option.ite_none_right_eq_some.mp action
    exact h.close idle action
  | fork t =>
    obtain ⟨⟨idle, idleNew, _⟩, same⟩ := Option.ite_none_right_eq_some.mp action
    cases same
    exact h.fork idle idleNew

end

end Xv6.Pipes
