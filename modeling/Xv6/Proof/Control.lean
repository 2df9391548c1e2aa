import Xv6.Kernel.Step
import Xv6.Library.Transition

namespace Xv6.Proof
open Xv6.Library Xv6.Kernel State

variable {n : Nat} {pol : Policy} {s t : State n} {c d : Fin n} {p : Slot}

def Idle (s : State n) (d : Fin n) : Prop := (s.cpu d).stack = none ∧ (s.cpu d).proc = none

def Runs (s : State n) (d : Fin n) : Prop :=
  ∃ p, (s.cpu d).stack = some p ∧ (s.cpu d).proc = some p ∧ (s.cpu d).p = some p ∧
    (s.proc p).state = .running

def Leaves (s : State n) (d : Fin n) : Prop :=
  ∃ p, (s.cpu d).proc = some p ∧ (s.cpu d).p = some p ∧ (s.proc p).state ≠ .running

def ModeOk (s : State n) (d : Fin n) : Mode → Prop
  | .back => s.lock = some d ∧ Leaves s d ∧ (s.cpu d).stack = none
  | .sched _ => s.lock = some d ∧ Leaves s d ∧ (s.cpu d).stack = (s.cpu d).proc
  | .ageing q _ => q ≠ 0 ∧ s.lock = some d ∧ Idle s d
  | .resumed | .waiting _ | .reparent _ => s.lock = some d ∧ Runs s d
  | .wakeup1 _ _ r => s.lock = some d ∧ (Runs s d ∨ Idle s d ∧ ∀ j, r ≠ .reparent j)
  | .tick | .account => s.lock ≠ some d ∧ (Runs s d ∨ Idle s d)
  | .trapEnd | .thread => s.lock ≠ some d ∧ Runs s d
  | .halted _ => s.lock = some d ∨ Runs s d ∨ Idle s d
  | _ => s.lock ≠ some d ∧ Idle s d

structure Control (s : State n) : Prop where
  cpu : ∀ d, ModeOk s d (s.cpu d).mode
  running : ∀ p, (s.proc p).state = .running → ∃ d, (s.cpu d).proc = some p
  inj : ∀ d e p, (s.cpu d).proc = some p → (s.cpu e).proc = some p → d = e

theorem Control.ok (h : Control s) {m : Mode} (mode : (s.cpu d).mode = m) : ModeOk s d m := mode ▸ h.cpu d

theorem ModeOk.proc_running {m : Mode} (ok : ModeOk s d m) (unlocked : s.lock ≠ some d)
    (h : (s.cpu d).proc = some p) : (s.proc p).state = .running := by
  have runs : Runs s d → (s.proc p).state = .running := by
    rintro ⟨r, -, hr, -, state⟩
    rw [hr, Option.some.injEq] at h
    exact h ▸ state
  have idle : ¬ Idle s d := fun idle => by simp [idle.2] at h
  cases m <;> simp only [ModeOk] at ok <;> grind

theorem ModeOk.frame {m : Mode} (ok : ModeOk s d m) (stack : (t.cpu d).stack = (s.cpu d).stack)
    (proc : (t.cpu d).proc = (s.cpu d).proc) (p : (t.cpu d).p = (s.cpu d).p)
    (lock : t.lock = some d ↔ s.lock = some d)
    (state : ∀ r, (s.cpu d).proc = some r → ((t.proc r).state = .running ↔ (s.proc r).state = .running)) :
    ModeOk t d m := by
  have runs : Runs s d → Runs t d := by
    rintro ⟨r, hs, hp, hl, hr⟩
    exact ⟨r, stack.trans hs, proc.trans hp, p.trans hl, (state r hp).mpr hr⟩
  have idle : Idle s d → Idle t d := fun ⟨hs, hp⟩ => ⟨stack.trans hs, proc.trans hp⟩
  have leaves : Leaves s d → Leaves t d := by
    rintro ⟨r, hp, hl, hr⟩
    exact ⟨r, proc.trans hp, p.trans hl, fun h => hr ((state r hp).mp h)⟩
  cases m <;> simp only [ModeOk, lock, stack, proc] at ok ⊢ <;> grind

section
variable (h : Control s)
include h

theorem Control.update (c : Fin n) (cpu : ∀ d, d ≠ c → t.cpu d = s.cpu d)
    (lock : ∀ d, d ≠ c → (t.lock = some d ↔ s.lock = some d))
    (state : ∀ d p, d ≠ c → (s.cpu d).proc = some p → ((t.proc p).state = .running ↔ (s.proc p).state = .running))
    (running : ∀ p, (t.proc p).state = .running → (t.cpu c).proc = some p ∨
      (s.proc p).state = .running ∧ (s.cpu c).proc ≠ some p)
    (inj : ∀ p, (t.cpu c).proc = some p → ∀ d, d ≠ c → (s.cpu d).proc ≠ some p)
    (ok : ModeOk t c (t.cpu c).mode) : Control t where
  cpu d := by
    by_cases same : d = c
    · rwa [same]
    · rw [cpu d same]
      exact (h.cpu d).frame (by rw [cpu d same]) (by rw [cpu d same])
        (by rw [cpu d same]) (lock d same) (fun p => state d p same)
  running p hp := by
    rcases running p hp with here | ⟨before, elsewhere⟩
    · exact ⟨c, here⟩
    · obtain ⟨d, hd⟩ := h.running p before
      have other : d ≠ c := fun same => elsewhere (same ▸ hd)
      exact ⟨d, by rw [cpu d other, hd]⟩
  inj d e p hd he := by
    by_cases hdc : d = c <;> by_cases hec : e = c
    · rw [hdc, hec]
    · subst hdc
      rw [cpu e hec] at he
      exact absurd he (inj p hd e hec)
    · subst hec
      rw [cpu d hdc] at hd
      exact absurd hd (inj p he d hdc)
    · rw [cpu d hdc] at hd
      rw [cpu e hec] at he
      exact h.inj d e p hd he

theorem Control.move (c : Fin n) (cpu : ∀ d, d ≠ c → t.cpu d = s.cpu d)
    (lock : ∀ d, d ≠ c → (t.lock = some d ↔ s.lock = some d))
    (state : ∀ p, (t.proc p).state = .running ↔ (s.proc p).state = .running)
    (proc : (t.cpu c).proc = (s.cpu c).proc) (ok : ModeOk t c (t.cpu c).mode) : Control t := by
  refine h.update c cpu lock (fun _ p _ _ => state p) ?_ ?_ ok
  · intro p hp
    by_cases here : (s.cpu c).proc = some p
    · exact .inl (proc.trans here)
    · exact .inr ⟨(state p).mp hp, here⟩
  · intro p hp d other hd
    exact other (h.inj d c p hd (proc ▸ hp))

theorem Control.others_running (lock : s.lock = none ∨ s.lock = some c)
    (other : d ≠ c) (hd : (s.cpu d).proc = some p) : (s.proc p).state = .running := by
  refine (h.cpu d).proc_running ?_ hd
  rcases lock with free | held
  · simp [free]
  · simpa [held] using Ne.symm other

theorem Control.start (c : Fin n) (lock : s.lock = none ∨ s.lock = some c) (ready : (s.proc p).state ≠ .running)
    (away : ∀ r, (s.cpu c).proc = some r → (s.proc r).state ≠ .running)
    (cpu : ∀ d, d ≠ c → t.cpu d = s.cpu d) (held : t.lock = some c)
    (state : (t.proc p).state = .running)
    (states : ∀ r, r ≠ p → ((t.proc r).state = .running ↔ (s.proc r).state = .running))
    (proc : (t.cpu c).proc = some p) (ok : ModeOk t c (t.cpu c).mode) : Control t := by
  have idle : ∀ d, d ≠ c → (s.cpu d).proc ≠ some p := by
    intro d other hd
    exact ready (h.others_running lock other hd)
  refine h.update c cpu ?_ ?_ ?_ ?_ ok
  · intro d other
    rcases lock with free | locked
    · simpa [held, free] using Ne.symm other
    · simp [held, locked]
  · intro d r other hd
    refine states r ?_
    rintro rfl
    exact idle d other hd
  · intro r hr
    by_cases same : r = p
    · exact .inl (same ▸ proc)
    · have before := (states r same).mp hr
      exact .inr ⟨before, fun here => away r here before⟩
  · intro r hr
    rw [proc, Option.some.injEq] at hr
    exact hr ▸ idle

theorem Control.stop (c : Fin n) (lock : s.lock = none ∨ s.lock = some c)
    (own : (s.cpu c).proc = some p) (cpu : ∀ d, d ≠ c → t.cpu d = s.cpu d) (held : t.lock = some c)
    (state : (t.proc p).state ≠ .running)
    (states : ∀ r, r ≠ p → ((t.proc r).state = .running ↔ (s.proc r).state = .running))
    (proc : (t.cpu c).proc = some p) (ok : ModeOk t c (t.cpu c).mode) : Control t := by
  refine h.update c cpu ?_ ?_ ?_ ?_ ok
  · intro d other
    rcases lock with free | locked
    · simpa [held, free] using Ne.symm other
    · simp [held, locked]
  · intro d r other hd
    refine states r ?_
    rintro rfl
    exact other (h.inj d c r hd own)
  · intro r hr
    have other : r ≠ p := fun same => state (same ▸ hr)
    refine .inr ⟨(states r other).mp hr, fun here => other ?_⟩
    exact Option.mem_unique here own
  · intro r hr d other hd
    rw [proc, ← own] at hr
    exact other (h.inj d c r hd hr)

theorem Control.leave (c : Fin n) (lock : s.lock = none ∨ s.lock = some c)
    (away : ∀ r, (s.cpu c).proc = some r → (s.proc r).state ≠ .running)
    (cpu : ∀ d, d ≠ c → t.cpu d = s.cpu d) (held : t.lock = none ∨ t.lock = some c)
    (states : ∀ r, (t.proc r).state = .running ↔ (s.proc r).state = .running)
    (proc : (t.cpu c).proc = none) (ok : ModeOk t c (t.cpu c).mode) : Control t := by
  refine h.update c cpu ?_ (fun _ r _ _ => states r) ?_ ?_ ok
  · intro d other
    have apart {l : Option (Fin n)} (hl : l = none ∨ l = some c) : l ≠ some d := by
      rcases hl with rfl | rfl
      · simp
      · simpa using Ne.symm other
    simp [apart held, apart lock]
  · intro r hr
    have before := (states r).mp hr
    exact .inr ⟨before, fun here => away r here before⟩
  · simp [proc]

theorem Control.goto {m : Mode} (ok : ModeOk s c m) : Control (s.goto c m) := by
  refine h.move c (fun d other => by simp [other]) (fun _ _ => Iff.rfl) (fun _ => Iff.rfl) (by simp) ?_
  rw [goto_cpu_self]
  exact ok.frame (by simp) (by simp) (by simp) Iff.rfl fun _ _ => Iff.rfl

theorem Control.inert (cpu : t.cpu = s.cpu) (lock : t.lock = s.lock)
    (state : ∀ p, (t.proc p).state = .running ↔ (s.proc p).state = .running) : Control t := by
  refine ⟨fun d => ?_, fun p hp => ?_, fun d e p => ?_⟩
  · rw [cpu]
    exact (h.cpu d).frame (by rw [cpu]) (by rw [cpu]) (by rw [cpu]) (by rw [lock]) fun r _ => state r
  · obtain ⟨d, hd⟩ := h.running p ((state p).mp hp)
    exact ⟨d, by rw [cpu, hd]⟩
  · rw [cpu]
    exact h.inj d e p

end

theorem Control.inert_goto {m : Mode} (h : Control s) (cpu : t.cpu = s.cpu) (lock : t.lock = s.lock)
    (state : ∀ p, (t.proc p).state = .running ↔ (s.proc p).state = .running)
    (ok : ModeOk s c m) : Control (t.goto c m) := by
  refine (h.inert cpu lock state).goto ?_
  exact ok.frame (by rw [cpu]) (by rw [cpu]) (by rw [cpu]) (by rw [lock]) fun r _ => state r

structure Body (s u : State n) (c : Fin n) : Prop where
  start : s.lock = none ∨ s.lock = some c
  lock : u.lock = some c
  cpu : ∀ d, d ≠ c → u.cpu d = s.cpu d
  state : ∀ r, (u.proc r).state = .running ↔ (s.proc r).state = .running

section Body
variable {u : State n} {q : Level} {f : Proc → Proc} {g : Cpu → Cpu} {m : Mode}

theorem Body.acquire (free : s.lock = none) : Body s (s.acquire c) c :=
  ⟨.inl free, rfl, fun _ _ => rfl, fun _ => Iff.rfl⟩

theorem Body.refl (held : s.lock = some c) : Body s s c :=
  ⟨.inr held, held, fun _ _ => rfl, fun _ => Iff.rfl⟩

section
variable (body : Body s u c)
include body

theorem Body.setProc (state : (f (u.proc p)).state = .running ↔ (u.proc p).state = .running) :
    Body s (u.setProc p f) c := by
  refine ⟨body.start, body.lock, body.cpu, fun r => ?_⟩
  rw [← body.state, setProc_proc]
  split_ifs with same
  · rw [same, state]
  · rfl

theorem Body.setCur (state : ∀ k, (f k).state = .running ↔ k.state = .running) : Body s (u.setCur c f) c := by
  unfold State.setCur
  split
  · exact body.setProc (state _)
  · exact body

theorem Body.setCpu : Body s (u.setCpu c g) c :=
  ⟨body.start, body.lock, fun d other => by rw [setCpu_cpu_ne _ _ _ other, body.cpu d other], body.state⟩

theorem Body.drop : Body s (u.drop q) c :=
  ⟨body.start, body.lock, body.cpu, body.state⟩

theorem Body.push : Body s (u.push q p) c :=
  ⟨body.start, body.lock, body.cpu, fun r => by rw [push_state, body.state]⟩

theorem Body.lock_ne {d : Fin n} (other : d ≠ c) : s.lock ≠ some d := by
  rcases body.start with free | held
  · simp [free]
  · simpa [held] using Ne.symm other

theorem Body.runs (cpu : u.cpu = s.cpu) (h : Runs s c) : Runs u c := by
  obtain ⟨p, stack, proc, saved, running⟩ := h
  exact ⟨p, by rw [cpu, stack], by rw [cpu, proc], by rw [cpu, saved], (body.state p).mpr running⟩

end

theorem Body.idle (_ : Body s u c) (cpu : u.cpu = s.cpu) (h : Idle s c) : Idle u c := by
  rwa [Idle, cpu]

theorem Body.goto (body : Body s u c) (h : Control s) (own : (u.cpu c).proc = (s.cpu c).proc)
    (ok : ModeOk u c m) : Control (u.goto c m) := by
  refine h.move c (fun d other => by simp [other, body.cpu d other]) ?_ body.state (by simpa using own) ?_
  · intro d other
    simpa [body.lock, body.lock_ne other] using Ne.symm other
  · rw [goto_cpu_self]
    exact ok.frame (by simp) (by simp) (by simp) Iff.rfl fun _ _ => Iff.rfl

theorem Body.release_goto (body : Body s u c) (h : Control s) (own : (u.cpu c).proc = (s.cpu c).proc)
    (ok : ModeOk u.release c m) : Control (u.release.goto c m) := by
  refine h.move c (fun d other => by simp [other, body.cpu d other]) ?_ body.state (by simpa using own) ?_
  · intro d other
    simp [body.lock_ne other]
  · rw [goto_cpu_self]
    exact ok.frame (by simp) (by simp) (by simp) Iff.rfl fun _ _ => Iff.rfl

theorem Body.release (body : Body s u c) (h : Control s) (free : s.lock = none) (own : u.cpu = s.cpu) :
    Control u.release :=
  h.inert own free.symm body.state

end Body

theorem control_mpmain (h : Control s) (mode : (s.cpu c).mode = .mpenter ∨ (s.cpu c).mode = .mpmain) :
    Control (s.mpmain c) := by
  have ok := h.cpu c
  refine h.move c (fun d other => by simp [mpmain, other]) (fun _ _ => Iff.rfl) (fun _ => Iff.rfl) (by simp [mpmain]) ?_
  rcases mode with mode | mode <;> rw [mode] at ok <;> simpa [ModeOk, Idle, mpmain] using ok

theorem control_startothers (h : Control s) {k : Nat} (mode : (s.cpu c).mode = .startothers k) :
    Control (s.startothers c k) := by
  have ok := h.ok mode
  simp only [State.startothers]
  split_ifs with within same off
  · exact h.goto ok
  · have woken : Control (s.goto ⟨k, within⟩ .mpenter) := by
      have out := h.cpu ⟨k, within⟩
      rw [off] at out
      exact h.goto out
    refine woken.goto (m := .started k) ?_
    simpa [ModeOk, Idle, Ne.symm same] using ok
  · exact h.goto ok
  · exact h.goto ok

theorem allocproc_some (h : s.allocproc = some (p, t)) : (s.proc p).state = .unused ∧ t.cpu = s.cpu ∧ t.lock = s.lock ∧
      t.proc = Function.update s.proc p
        { s.proc p with state := .embryo, pid := s.nextpid, priority := 60, queue := 0 } ∧
      t.queue = s.queue ∧ t.ticks = s.ticks ∧ t.nextpid = int32 (s.nextpid + 1) ∧
      t.flag = s.flag ∧ t.initproc = s.initproc := by
  obtain ⟨q, found, same⟩ := Option.map_eq_some_iff.mp h
  cases same
  exact ⟨by simpa using List.find?_some found, rfl, rfl, rfl, rfl, rfl, rfl, rfl, rfl⟩

theorem control_userinit (h : Control s) (mode : (s.cpu c).mode = .userinit) (free : s.lock = none) :
    Control ((s.acquire c).userinit c).release := by
  have ok := h.ok mode
  unfold State.userinit
  split
  · rename_i p t found
    obtain ⟨_, cpu, -, proc, -⟩ := allocproc_some found
    refine h.move c (fun d other => by simp [other, cpu]) (by simp [free]) ?_
      (by simp [cpu]) (by simpa [ModeOk, Idle, cpu, free] using ok)
    intro r
    by_cases same : r = p
    · subst same
      simp_all
    · simp [proc, same]
  · refine h.move c (fun d other => by simp [other]) (by simp [free])
      (fun _ => Iff.rfl) (by simp) (by simpa [ModeOk, Idle] using .inr ok.2)

theorem allocEnd_state (s : State n) (p r : Slot) (kalloc : Bool) : ((s.allocEnd p kalloc).proc r).state =
      if r = p ∧ kalloc = false then .unused else (s.proc r).state := by
  by_cases same : r = p
  · subst same
    cases kalloc <;> simp [allocEnd, resetTimes]
  · simp [allocEnd, resetTimes, same]

@[simp] theorem allocEnd_cpu (s : State n) (p : Slot) (kalloc : Bool) : (s.allocEnd p kalloc).cpu = s.cpu := rfl

@[simp] theorem allocEnd_lock (s : State n) (p : Slot) (kalloc : Bool) : (s.allocEnd p kalloc).lock = s.lock := rfl

theorem control_userFill (h : Control s) (ok : Bool)
    (mode : (s.cpu c).mode = .userAllocated p) (embryo : (s.proc p).state = .embryo) :
    Control (s.userFill c p ok) := by
  have okc := h.cpu c
  rw [mode] at okc
  unfold State.userFill
  split_ifs with kalloc
  · refine h.move c (fun d other => by simp [other])
      (fun _ _ => Iff.rfl) ?_ (by simp) (by simpa [ModeOk, Idle] using okc)
    intro r
    simp [allocEnd_state]
  refine h.move c (fun d other => by simp [other]) (fun _ _ => Iff.rfl) ?_
    (by simp) (by simpa [ModeOk, Idle] using .inr (.inr okc.2))
  intro r
  by_cases same : r = p <;> simp [allocEnd_state, same, embryo]

theorem control_userCopy (h : Control s) (ok : Bool) (mode : (s.cpu c).mode = .userFilled p) :
    Control (s.userCopy c p ok) := by
  have okc := h.cpu c
  rw [mode] at okc
  unfold State.userCopy
  split_ifs
  · exact h.goto okc
  · exact h.goto (.inr (.inr okc.2))

theorem Body.publish {u : State n} (body : Body s u c) {np : Slot}
    {next : State n → State n} (embryo : (u.proc np).state = .embryo)
    (ok : ∀ v, Body s v c → v.cpu = u.cpu → (∀ r, r ≠ np → (v.proc r).state = (u.proc r).state) → Control (next v)) :
    Control (u.publish c np next) := by
  unfold State.publish
  refine enqueue_cases ?_ ?_
  · intro out
    simp [level?] at out
  intro q _
  refine ok _ (Body.push (body.setProc ?_)) rfl fun r other => ?_
  · simp [embryo]
  · simp [other]

theorem control_userPublish (h : Control s) (mode : (s.cpu c).mode = .userCopied p)
    (free : s.lock = none) (embryo : (s.proc p).state = .embryo) :
    Control ((s.acquire c).userPublish c p) := by
  have ok := h.ok mode
  refine (Body.acquire free).publish embryo fun v body cpu _ => ?_
  refine body.release_goto h (by rw [cpu]; rfl) ?_
  simpa [ModeOk, Idle, cpu] using ok.2

theorem control_enterLoop (h : Control s) (ok : s.lock ≠ some c ∧ Idle s c) : Control (s.enterLoop c) := by
  refine h.move c (fun d other => by simp [enterLoop, other])
    (fun _ _ => Iff.rfl) (fun _ => Iff.rfl) (by simp [enterLoop, ok.2.2]) ?_
  simpa [ModeOk, Idle, enterLoop] using ⟨ok.1, ok.2.1⟩

theorem control_enter (h : Control s) (mode : (s.cpu c).mode = .enter) : Control (s.enter c) := by
  have ok := h.ok mode
  unfold State.enter
  split_ifs
  · exact h.goto ok
  · exact control_enterLoop h ok

theorem control_resetHead (h : Control s) {i : Nat} (mode : (s.cpu c).mode = .resetHead i) :
    Control (s.resetHead c i) := by
  have ok := h.ok mode
  simp only [State.resetHead]
  split_ifs with within
  · refine h.inert_goto rfl rfl (fun _ => Iff.rfl) ?_
    exact ok
  · exact control_enterLoop (h.inert rfl rfl fun _ => Iff.rfl) ok

theorem control_resetTail (h : Control s) {q : Level} (mode : (s.cpu c).mode = .resetTail q) :
    Control (s.resetTail c q) := by
  have ok := h.ok mode
  refine h.inert_goto rfl rfl (fun _ => Iff.rfl) ?_
  exact ok

/-- The scheduler thread of `c` may go on: the process of `c`, if any, is not RUNNING. -/
structure Ready (s : State n) (c : Fin n) : Prop where
  control : Control s
  away : ∀ r, (s.cpu c).proc = some r → (s.proc r).state ≠ .running

section Ready
variable {u : State n} {a : Nat} {q : Level} {i : Fin NPROC} {m : Mode}

theorem Ready.dispatch (h : Ready s c) (body : Body s u c) (ready : (u.proc p).state = .runnable) :
    Control (u.dispatch c p a) := by
  refine h.control.start c body.start (p := p) (by simp [← body.state, ready]) h.away ?_ body.lock ?_ ?_ ?_ ?_
  · intro d other
    simp [State.dispatch, other, body.cpu d other]
  · simp [State.dispatch]
  · intro r other
    simp [State.dispatch, other, body.state]
  · simp [State.dispatch]
  · simp [ModeOk, Runs, State.dispatch, body.lock]

theorem Ready.settle (h : Ready s c) (body : Body s u c) (idle : Idle u c)
    (locked : ∀ v, v.lock = some c → Idle v c → ModeOk v c m) : Control (u.goto c m) := by
  refine h.control.leave c body.start h.away (fun d other => by simp [other, body.cpu d other])
    (.inr body.lock) (fun r => by simp [body.state]) (by simpa using idle.2) ?_
  rw [goto_cpu_self]
  exact locked _ body.lock ⟨by simpa using idle.1, by simpa using idle.2⟩

theorem Ready.toAgeing (h : Ready s c) (body : Body s u c) (idle : Idle u c) (low : q ≠ 0) :
    Control (u.goto c (.ageing q i)) :=
  h.settle body idle fun _ held idle => ⟨low, held, idle⟩

theorem Ready.halt {why : Halt} (h : Ready s c) (body : Body s u c) (idle : Idle u c) : Control (u.halt c why) :=
  h.settle body idle fun _ held _ => .inl held

theorem Ready.toLoop (h : Ready s c) (body : Body s u c) (idle : Idle u c) : Control (u.release.goto c .loop) := by
  refine h.control.leave c body.start h.away (fun d other => by simp [other, body.cpu d other])
    (.inl rfl) (fun r => by simp [body.state]) (by simpa using idle.2) ?_
  simpa [ModeOk, Idle] using idle

theorem Ready.ageingCheck (h : Ready s c) (body : Body s u c) (idle : Idle u c) : Control (u.ageingCheck c) := by
  unfold State.ageingCheck
  split_ifs
  · exact h.toAgeing body idle (by decide)
  · exact h.toLoop body idle

theorem Ready.afterSlice (h : Ready s c) (body : Body s u c) (idle : Idle u c) : Control (u.afterSlice c p) := by
  simp only [State.afterSlice]
  split_ifs with runnable low
  · have demoted : Body s (u.setProc p fun k => { k with queue := k.queue + 1 }) c := body.setProc Iff.rfl
    exact enqueue_cases (fun _ => h.halt demoted idle) fun q _ => h.ageingCheck demoted.push idle
  · exact enqueue_cases (fun _ => h.halt body idle) fun q _ => h.ageingCheck body.push idle
  · exact h.ageingCheck body idle

theorem Ready.sliceLoop (h : Ready s c) (body : Body s u c) (idle : Idle u c) : Control (u.sliceLoop c p a) := by
  unfold State.sliceLoop
  split_ifs with turn runnable
  · exact h.dispatch (body.setProc Iff.rfl) (by simpa using runnable)
  · exact h.afterSlice body.setCpu (by simpa [Idle] using idle.1)
  · exact h.afterSlice body idle

theorem control_pass (h : Control s) (mode : (s.cpu c).mode = .loop) (free : s.lock = none) :
    Control ((s.acquire c).pass pol c) := by
  have ok := h.ok mode
  have idle : Idle (s.acquire c) c := ok.2
  have ready : Ready s c := ⟨h, by simp [ok.2.2]⟩
  have body : Body s (s.acquire c) c := Body.acquire free
  have released : Control (s.acquire c).release := body.release h free rfl
  cases pol with
  | default =>
    unfold State.pass
    cases found : (s.acquire c).firstRunnable with
    | some p => exact ready.dispatch body (firstRunnable_runnable found)
    | none =>
      simp only
      split_ifs
      · exact ready.halt body idle
      · exact released
  | pbs =>
    unfold State.pass
    cases (s.acquire c).highP.or ((s.acquire c).cpu c).p with
    | some p =>
      dsimp only
      split_ifs with runnable
      · exact ready.dispatch (body.setProc Iff.rfl) (by simpa using runnable)
      · exact released
    | none => exact released
  | fcfs =>
    unfold State.pass
    cases ((s.acquire c).minP.filter _).or ((s.acquire c).cpu c).p with
    | some p =>
      dsimp only
      split_ifs with runnable
      · exact ready.dispatch body runnable
      · exact released
    | none => exact released
  | mlfq =>
    unfold State.pass State.mlfqPass
    cases (s.acquire c).pick with
    | some p =>
      dsimp only
      split_ifs with sleeping
      · exact ready.halt body idle
      · exact dequeue_cases (fun _ => ready.halt body idle) fun q _ => ready.sliceLoop body.drop idle
    | none => exact ready.ageingCheck body idle

theorem control_back (h : Control s) (mode : (s.cpu c).mode = .back) : Control (s.back pol c) := by
  obtain ⟨held, ⟨p, own, saved, stopped⟩, stack⟩ := h.ok mode
  have ready : Ready s c := by
    refine ⟨h, fun r hr => ?_⟩
    obtain rfl : p = r := Option.mem_unique own hr
    exact stopped
  -- `c->proc = 0` comes first in all four variants
  have body : Body s (s.setCpu c fun k => { k with proc := none }) c := (Body.refl held).setCpu
  have idle : Idle (s.setCpu c fun k => { k with proc := none }) c := by simpa [Idle] using stack
  cases pol with
  | default | pbs | fcfs => exact ready.toLoop body idle
  | mlfq =>
    simp only [State.back, State.mlfqBack, saved]
    split_ifs
    · exact ready.afterSlice body idle
    · exact ready.sliceLoop body idle

theorem Ready.ageingNext (h : Ready s c) (held : s.lock = some c) (idle : Idle s c) : Control (s.ageingNext c q) := by
  have still : Idle (s.setCpu c fun k => { k with ageingUpdate := int32 s.ticks }) c := by
    simpa [Idle] using idle
  simp only [State.ageingNext]
  split_ifs
  · refine h.toAgeing (Body.refl held).setCpu still ?_
    exact Fin.ne_of_val_ne (Nat.succ_ne_zero _)
  · exact h.toLoop (Body.refl held).setCpu still

theorem control_ageing (h : Control s) (mode : (s.cpu c).mode = .ageing q i) : Control (s.ageing c q i) := by
  obtain ⟨low, held, idle⟩ := h.ok mode
  have ready : Ready s c := ⟨h, by simp [idle.2]⟩
  unfold State.ageing
  by_cases done : i = (s.queue q).tail
  · rw [if_pos done]
    exact ready.ageingNext held idle
  rw [if_neg done]
  cases (s.queue q).cells i with
  | none => exact ready.halt (Body.refl held) idle
  | some p =>
    have body : Body s (s.setCpu c fun k => { k with p := some p }) c := (Body.refl held).setCpu
    have still : Idle (s.setCpu c fun k => { k with p := some p }) c := by simpa [Idle] using idle
    simp only
    split_ifs
    · refine dequeue_cases (fun _ => ready.halt body still) fun l _ => ?_
      exact enqueue_cases (fun _ => ready.halt body.drop still) fun m _ =>
        ready.toAgeing body.drop.push still low
    · exact ready.toAgeing body still low

end Ready

end Xv6.Proof
