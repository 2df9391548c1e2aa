import Xv6.Proof.Control

namespace Xv6.Proof
open Xv6.Library Xv6.Kernel State

variable {n : Nat} {pol : Policy} {s t u : State n} {c d : Fin n} {p np : Slot} {i : Nat}
  {context : Context} {chan : Option Chan}

theorem modeOk_resume (lock : s.lock ≠ some c) (here : Runs s c ∨ Idle s c) :
    ModeOk s c (if (s.cpu c).stack.isSome then .thread else .loop) := by
  rcases here with runs | idle
  · obtain ⟨p, stack, -⟩ := id runs
    rw [stack]
    exact ⟨lock, runs⟩
  · rw [idle.1]
    exact ⟨lock, idle⟩

section
variable (h : Control s)
include h

theorem Control.resume (lock : s.lock ≠ some c) (here : Runs s c ∨ Idle s c) : Control (s.resume c) :=
  h.goto (modeOk_resume lock here)

theorem Control.halt (here : Runs s c ∨ Idle s c) {why : Halt} : Control (s.halt c why) :=
  h.goto (m := .halted why) (.inr here)

theorem Body.release_resume (body : Body s u c) (own : (u.cpu c).proc = (s.cpu c).proc) (here : Runs u c ∨ Idle u c) :
    Control (u.release.resume c) :=
  body.release_goto h own (modeOk_resume (s := u.release) (by simp) here)

theorem Control.interrupted (mode : (s.cpu c).mode = .loop ∨ (s.cpu c).mode = .thread) :
    s.lock ≠ some c ∧ (Runs s c ∨ Idle s c) := by
  have ok := h.cpu c
  rcases mode with mode | mode <;> rw [mode] at ok
  · exact ⟨ok.1, .inr ok.2⟩
  · exact ⟨ok.1, .inl ok.2⟩

theorem control_timer (mode : (s.cpu c).mode = .loop ∨ (s.cpu c).mode = .thread) : Control (s.timer c) := by
  have ok := h.interrupted mode
  unfold State.timer
  split_ifs
  · refine h.inert_goto rfl rfl (fun _ => Iff.rfl) ?_
    exact ok
  · exact h.goto ok

theorem control_tick (mode : (s.cpu c).mode = .tick) (free : s.lock = none) :
    Control ((s.acquire c).goto c (.wakeup1 (some .ticks) 0 .account)) := by
  have ok := h.ok mode
  refine (Body.acquire free).goto h rfl ⟨rfl, ?_⟩
  exact ok.2.imp id fun idle => ⟨idle, by simp⟩

theorem control_account (mode : (s.cpu c).mode = .account) : Control (s.account c) := by
  have ok := h.ok mode
  unfold State.account
  cases own : s.myproc c with
  | none => exact h.resume ok.1 ok.2
  | some p =>
    have runs : Runs s c := ok.2.resolve_right fun idle => by simp [idle.2] at own
    dsimp only
    cases level? (s.proc p).queue with
    | none => exact h.halt (.inl runs)
    | some q =>
      refine h.inert_goto rfl rfl (fun r => ?_) ?_
      · rw [setProc_proc]
        split_ifs with same
        · rw [same]
          rfl
        · rfl
      · exact ⟨ok.1, runs⟩

theorem Body.stop (body : Body s u c) (own : u.cpu c = s.cpu c) (runs : Runs s c)
    {f : Proc → Proc} (hp : (s.cpu c).proc = some p)
    (stopped : ∀ k, (f k).state ≠ .running) : Control ((u.setProc p f).goto c (.sched context)) := by
  obtain ⟨r, stack, proc, saved, -⟩ := runs
  obtain rfl : r = p := Option.mem_unique proc hp
  refine h.stop c body.start (p := r) proc
    (fun d other => by simp [other, body.cpu d other]) body.lock ?_ ?_ (by simpa [own] using proc) ?_
  · simpa using stopped _
  · intro q other
    simpa [other] using body.state q
  · simp [ModeOk, Leaves, body.lock, own, stack, proc, saved, stopped]

theorem control_yield (mode : (s.cpu c).mode = .trapEnd) (free : s.lock = none) : Control ((s.acquire c).yield c) := by
  have ok := h.ok mode
  obtain ⟨p, -, proc, -⟩ := id ok.2
  simp only [State.yield, myproc, acquire_cpu, proc]
  exact (Body.acquire free).stop h rfl ok.2 proc (by simp)

theorem control_trapEnd (mode : (s.cpu c).mode = .trapEnd) : Control (s.resume c) := by
  have ok := h.ok mode
  exact h.resume ok.1 (.inl ok.2)

theorem control_wakeup (mode : (s.cpu c).mode = .loop ∨ (s.cpu c).mode = .thread) (free : s.lock = none) :
    Control ((s.acquire c).goto c (.wakeup1 chan 0 .caller)) :=
  (Body.acquire free).goto h rfl ⟨rfl, (h.interrupted mode).2.imp id fun idle => ⟨idle, by simp⟩⟩

theorem Body.wake (body : Body s u c) {next : State n → State n}
    (asleep : (u.proc p).state = .sleeping) (own : u.cpu = s.cpu)
    (ok : ∀ v, Body s v c → v.cpu = s.cpu → Control (next v)) :
    Control ((u.setProc p fun k => { k with state := .runnable }).orPanic c
      ((u.setProc p fun k => { k with state := .runnable }).enqueue
        ((u.setProc p fun k => { k with state := .runnable }).proc p).queue p) next) := by
  have woken : Body s (u.setProc p fun k => { k with state := .runnable }) c :=
    body.setProc (by simp [asleep])
  exact enqueue_cases (fun _ => woken.goto h (by simp [own]) (.inl woken.lock)) fun q _ =>
    ok _ woken.push (by simp [own])

theorem control_wakeup1 {r : Ret} (mode : (s.cpu c).mode = .wakeup1 chan i r) : Control (s.wakeup1 c chan i r) := by
  obtain ⟨held, here⟩ := h.ok mode
  simp only [State.wakeup1]
  split_ifs with within asleep
  · refine (Body.refl held).wake h asleep.1 rfl fun v body cpu => ?_
    refine body.goto h (by rw [cpu]) ⟨body.lock, ?_⟩
    exact here.imp (fun runs => body.runs cpu runs) fun ⟨idle, away⟩ => ⟨body.idle cpu idle, away⟩
  · exact h.goto ⟨held, here⟩
  · cases r with
    | caller => exact (Body.refl held).release_resume h rfl (here.imp id And.left)
    | account => exact (Body.refl held).release_goto h rfl ⟨by simp, here.imp id And.left⟩
    | reparent j =>
      refine h.goto ⟨held, here.resolve_right ?_⟩
      rintro ⟨-, away⟩
      exact away j rfl

theorem Control.thread (mode : (s.cpu c).mode = .thread) (stack : (s.cpu c).stack = some p) :
    s.lock ≠ some c ∧ Runs s c ∧ (s.cpu c).proc = some p ∧ (s.proc p).state = .running := by
  have ok := h.ok mode
  obtain ⟨r, same, proc, -, running⟩ := id ok.2
  obtain rfl : r = p := Option.mem_unique same stack
  exact ⟨ok.1, ok.2, proc, running⟩

end

@[simp] theorem ret_cpu (s : State n) (value : Int) : (s.ret c value).cpu = s.cpu := setCur_cpu ..

theorem Body.ret {value : Int} (body : Body s u c) : Body s (u.ret c value) c :=
  body.setCur fun _ => Iff.rfl

section
variable (h : Control s)
include h

theorem control_kill (free : s.lock = none) (pid : Int) : Control ((s.acquire c).kill c pid) := by
  have body : Body s (s.acquire c) c := Body.acquire free
  unfold State.kill
  cases (List.finRange NPROC).find? _ with
  | none => exact body.ret.release h free (by simp)
  | some p =>
    have killed : Body s ((s.acquire c).setProc p fun k => { k with killed := true }) c :=
      body.setProc Iff.rfl
    dsimp only
    split_ifs with asleep
    · exact killed.wake h asleep rfl fun v woken cpu => woken.ret.release h free (by simp [cpu])
    · exact killed.ret.release h free (by simp)

theorem control_chpr (mode : (s.cpu c).mode = .thread)
    (stack : (s.cpu c).stack = some p) (free : s.lock = none) (priority : Int) :
    Control ((s.acquire c).chpr c priority) := by
  obtain ⟨-, -, proc, -⟩ := h.thread mode stack
  have body : Body s (s.acquire c) c := Body.acquire free
  unfold State.chpr
  rw [myproc, acquire_cpu, proc]
  dsimp only
  cases (List.finRange NPROC).find? _ with
  | none => exact body.ret.release h free (by simp)
  | some r => exact (Body.ret (body.setProc Iff.rfl)).release h free (by simp)

theorem control_badTrap : Control (s.badTrap c) := by
  refine h.inert (by simp [badTrap]) (by simp [badTrap]) fun r => ?_
  rw [badTrap, setCur_proc]
  split_ifs <;> rfl

theorem control_fork (free : s.lock = none) : Control ((s.acquire c).fork c).release := by
  have body : Body s (s.acquire c) c := Body.acquire free
  unfold State.fork
  cases found : (s.acquire c).allocproc with
  | none => exact body.ret.release h free (by simp)
  | some taken =>
    obtain ⟨np, t⟩ := taken
    obtain ⟨_, cpu, lock, proc, -⟩ := allocproc_some found
    have allocated : Body s t c := by
      refine ⟨body.start, lock, fun d _ => by rw [cpu]; rfl, fun r => ?_⟩
      rw [proc]
      by_cases same : r = np
      · subst same
        simp_all
      · simp [same]
    refine Body.release (Body.setCur allocated fun _ => ?_) h free (by simp [cpu])
    rfl

theorem control_forkFill (embryo : (s.proc np).state = .embryo) (ok : Bool) : Control (s.forkFill c np ok) := by
  unfold State.forkFill
  split_ifs with kalloc
  · refine h.inert (by simp) (by simp) fun r => ?_
    rw [setCur_proc]
    split_ifs <;> simp [allocEnd_state]
  · refine h.inert (by simp [forkRet]) (by simp [forkRet]) fun r => ?_
    rw [forkRet, setCur_proc]
    by_cases same : r = np <;> split_ifs <;> simp [allocEnd_state, same, embryo]

theorem control_forkCopy (embryo : (s.proc np).state = .embryo) (ok : Bool) : Control (s.forkCopy c np ok) := by
  unfold State.forkCopy
  split_ifs with copyuvm
  · refine h.inert (by simp) (by simp) fun r => ?_
    rw [setCur_proc]
    by_cases same : r = np <;> split_ifs <;> simp [same]
  · refine h.inert (by simp [forkRet]) (by simp [forkRet]) fun r => ?_
    rw [forkRet, setCur_proc]
    by_cases same : r = np <;> split_ifs <;> simp [same, embryo]

theorem control_forkPublish (free : s.lock = none) (embryo : (s.proc np).state = .embryo) :
    Control ((s.acquire c).forkPublish c np) :=
  (Body.acquire free).publish embryo fun v body cpu _ =>
    Body.release (body.setCur fun _ => Iff.rfl) h free (by simp [forkRet, cpu])

theorem control_exit (mode : (s.cpu c).mode = .thread ∨ (s.cpu c).mode = .trapEnd) : Control (s.exit c) := by
  have ok : s.lock ≠ some c ∧ Runs s c := by
    have ok := h.cpu c
    rcases mode with mode | mode <;> rwa [mode] at ok
  unfold State.exit
  cases s.myproc c with
  | none => exact h.halt (.inl ok.2)
  | some p =>
    dsimp only
    split_ifs
    · exact h.halt (.inl ok.2)
    refine h.inert_goto rfl rfl (fun r => ?_) ok
    rw [setProc_proc]
    split_ifs with same
    · rw [same]
    · rfl

theorem control_exitLock (mode : (s.cpu c).mode = .thread)
    (stack : (s.cpu c).stack = some p) (free : s.lock = none) : Control ((s.acquire c).exitLock c) := by
  obtain ⟨-, runs, -⟩ := h.thread mode stack
  unfold State.exitLock
  rw [acquire_cpu, stack]
  exact (Body.acquire free).goto h rfl ⟨rfl, .inl runs⟩

theorem control_reparent (mode : (s.cpu c).mode = .reparent i) : Control (s.reparent c i) := by
  obtain ⟨held, runs⟩ := h.ok mode
  obtain ⟨_, stack, proc, -⟩ := id runs
  have body : Body s s c := Body.refl held
  simp only [State.reparent, stack]
  split_ifs with within child zombie
  · have moved : Body s (s.setProc ⟨i, within⟩ fun k => { k with parent := s.initproc }) c :=
      body.setProc Iff.rfl
    exact moved.goto h rfl ⟨held, .inl (moved.runs rfl runs)⟩
  · have moved : Body s (s.setProc ⟨i, within⟩ fun k => { k with parent := s.initproc }) c :=
      body.setProc Iff.rfl
    exact moved.goto h rfl ⟨held, moved.runs rfl runs⟩
  · exact h.goto ⟨held, runs⟩
  · exact body.stop h rfl runs proc (by simp)

theorem control_wait (mode : (s.cpu c).mode = .thread)
    (stack : (s.cpu c).stack = some p) (free : s.lock = none) (kind : WaitKind) :
    Control ((s.acquire c).goto c (.waiting kind)) := by
  obtain ⟨-, runs, -⟩ := h.thread mode stack
  exact (Body.acquire free).goto h rfl ⟨rfl, runs⟩

end

theorem Body.sleep {chan : Chan} {caller : Context} (body : Body s u c) (h : Control s) (own : u.cpu c = s.cpu c)
    (runs : Runs s c) : Control (u.sleep c chan caller) := by
  obtain ⟨p, -, proc, -⟩ := id runs
  unfold State.sleep
  rw [myproc, own, proc]
  exact body.stop h own runs proc (by simp)

theorem zombieChild_zombie {me : Slot} (found : s.zombieChild me = some p) : (s.proc p).state = .zombie := by
  have both := List.find?_some found
  simp only [decide_eq_true_eq] at both
  exact both.2

theorem reap_state (kind : WaitKind) (k : Proc) : (reap kind k).state = .unused := by
  cases kind <;> rfl

theorem control_waiting (h : Control s) {kind : WaitKind} (mode : (s.cpu c).mode = .waiting kind) :
    Control (s.waiting c kind) := by
  obtain ⟨held, runs⟩ := h.ok mode
  obtain ⟨me, stack, -⟩ := id runs
  have body : Body s s c := Body.refl held
  unfold State.waiting
  rw [stack]
  dsimp only
  cases found : s.zombieChild me with
  | some p =>
    have reaped : Body s (s.setProc p (reap kind)) c :=
      body.setProc (by simp [reap_state, zombieChild_zombie found])
    dsimp only
    split_ifs
    · have told : Body s ((s.setProc p (reap kind)).setProc me fun k =>
          { k with out := reported (s.proc p) }) c := reaped.setProc Iff.rfl
      exact (told.ret).release_resume h (by simp) (.inl (told.ret.runs (by simp) runs))
    · exact (reaped.ret).release_resume h (by simp) (.inl (reaped.ret.runs (by simp) runs))
  | none =>
    dsimp only
    split_ifs
    · exact (body.ret).release_resume h (by simp) (.inl (body.ret.runs (by simp) runs))
    · exact body.sleep h rfl runs

theorem control_sched (h : Control s) (mode : (s.cpu c).mode = .sched context) : Control (s.sched c context) := by
  obtain ⟨held, ⟨p, proc, saved, stopped⟩, -⟩ := h.ok mode
  simp only [State.sched, myproc, proc, held, ne_eq, not_true_eq_false, stopped, if_false]
  refine h.move c (fun d other => by simp [other]) (fun _ _ => Iff.rfl) (fun r => ?_) (by simp) ?_
  · by_cases same : r = p <;> simp [same]
  · simp [ModeOk, Leaves, held, proc, saved, stopped]

theorem control_resumed (h : Control s) (mode : (s.cpu c).mode = .resumed) : Control (s.resumed c) := by
  obtain ⟨held, runs⟩ := h.ok mode
  obtain ⟨p, stack, -⟩ := id runs
  have body : Body s s c := Body.refl held
  have woken : Body s (s.setProc p fun k => { k with chan := none }) c := body.setProc Iff.rfl
  unfold State.resumed
  rw [stack]
  dsimp only
  cases (s.proc p).context with
  | forkret | yield => exact body.release_goto h rfl ⟨by simp, runs⟩
  | sleep => exact woken.release_goto h rfl ⟨by simp, woken.runs rfl runs⟩
  | wait => exact woken.goto h rfl ⟨held, woken.runs rfl runs⟩
  | exit => exact h.halt (.inl runs)

end Xv6.Proof
