import Xv6.Proof.Table

namespace Xv6.Proof
open Xv6.Library Xv6.Kernel State

variable {n : Nat} {pol : Policy} {s t : State n} {c : Fin n} {p np : Slot} {a : Action}
  {P : State n → Prop} {i : Nat} {chan : Option Chan} {u : State n}

section Boot

theorem deed_mpmain (mode : (s.cpu c).mode = .mpenter ∨ (s.cpu c).mode = .mpmain) : Deed s (s.mpmain c) c a := by
  refine .rest (table_setCpu_self s c ?_)
  rcases mode with mode | mode <;> simp [errand, mode]

theorem deed_startothers {k : Nat} (mode : (s.cpu c).mode = .startothers k) : Deed s (s.startothers c k) c a := by
  refine .rest ?_
  simp only [State.startothers]
  split_ifs with within same off
  · exact table_goto_self s c (by simp [errand, mode])
  · rw [table_goto_self _ _ (by simp [errand, Ne.symm same, mode])]
    exact table_goto_self s _ (by simp [errand, off])
  · exact table_goto_self s c (by simp [errand, mode])
  · exact table_goto_self s c (by simp [errand, mode])

theorem table_allocproc (found : s.allocproc = some (p, t)) :
    table t = { (table s).set p ({ · with state := .embryo, pid := s.nextpid }) with
      nextpid := int32 (s.nextpid + 1) } := by
  obtain ⟨-, cpu, -, proc, -, ticks, nextpid, -, initproc⟩ := allocproc_some found
  simp only [table, Table.set, cpu, ticks, nextpid, initproc, Table.mk.injEq, and_true]
  funext r
  by_cases h : r = p
  · subst h
    simp [proc, life]
  · simp [proc, h]

theorem deed_userinit (mode : (s.cpu c).mode = .userinit) : Deed s ((s.acquire c).userinit c).release c a := by
  unfold State.userinit
  cases found : (s.acquire c).allocproc with
  | none =>
    refine .halt (by simp [errand, mode, Errand.leaver]) ?_
    rw [table_release]
    exact table_halt ..
  | some taken =>
    obtain ⟨p, t⟩ := taken
    refine .alloc none p (.inl rfl) (.ofBoot (by simp [errand, mode])) (allocproc_some found).1 ?_
    rw [table_release, table_goto, table_allocproc found]
    rfl

theorem table_allocEnd (s : State n) (p : Slot) :
    table (s.allocEnd p true) = (table s).set p fun k => { k.reset s.ticks with work := .run } := by
  unfold State.allocEnd State.resetTimes
  rw [table_setProc (g := ({ · with work := .run })) _ _ (by simp [life]),
    table_setProc (g := Life.reset s.ticks) _ _ (by simp [life, Life.reset]), Table.set_set]

theorem table_allocEnd_fail (s : State n) (p : Slot) :
    table (s.allocEnd p false) = (table s).set p fun k => { k.reset s.ticks with state := .unused } := by
  unfold State.allocEnd State.resetTimes
  rw [table_setProc (g := ({ · with state := .unused })) _ _ (by simp [life]),
    table_setProc (g := Life.reset s.ticks) _ _ (by simp [life, Life.reset]), Table.set_set]

theorem deed_userFill (h : WellFormed s) (mode : (s.cpu c).mode = .userAllocated p) (ok : Bool) :
    Deed s (s.userFill c p ok) c (.fill ok) := by
  have owns : (view s).Owns (.inl c) p := by simp [View.Owns, view, turn, stage, mode]
  have maker : Maker s c (.fill ok) none (.allocated p) (.boots p false) := .ofBoot (by simp [errand, mode])
  unfold State.userFill
  split_ifs with kalloc
  · refine .fill none p (by rw [kalloc]) maker (h.owned.embryo _ _ owns) ?_
    rw [table_goto]
    exact congrArg (fun v : Table n => { v.send c (.boots p true) with initproc := some p }) (table_allocEnd s p)
  · refine .fillFail none p (by simpa using kalloc) maker (h.owned.embryo _ _ owns) ?_
    rw [table_halt]
    exact congrArg (fun v : Table n => { v.send c .none with initproc := none }) (table_allocEnd_fail s p)

theorem deed_userCopy (mode : (s.cpu c).mode = .userFilled p) (ok : Bool) : Deed s (s.userCopy c p ok) c a := by
  unfold State.userCopy
  split_ifs
  · exact .rest (table_goto_self s c (by simp [errand, mode]))
  · exact .halt (by simp [errand, mode, Errand.leaver]) (table_halt ..)

theorem table_publish {next : State n → State n}
    (ok : ∀ u, table u = (table s).set np ({ · with state := .runnable }) → u.cpu = s.cpu → P (next u)) :
    P (s.publish c np next) := by
  unfold State.publish
  refine enqueue_cases (fun out => ?_) fun q level => ok _ ?_ rfl
  · simp [level?] at out
  · rw [table_push, table_setProc (g := ({ · with state := .runnable })) _ _ rfl]

theorem deed_userPublish (h : WellFormed s) (mode : (s.cpu c).mode = .userCopied p) :
    Deed s ((s.acquire c).userPublish c p) c a := by
  have owns : (view s).Owns (.inl c) p := by simp [View.Owns, view, turn, stage, mode]
  refine .publish none p (.ofBoot (by simp [errand, mode])) (h.owned.embryo _ _ owns) ?_
  refine table_publish (P := fun t => table t = _) fun u published _ => ?_
  rw [table_goto, table_release, published]
  rfl

theorem deed_enter (mode : (s.cpu c).mode = .enter) : Deed s (s.enter c) c a := by
  unfold State.enter
  split_ifs
  · exact .rest (table_goto_self s c (by simp [errand, mode]))
  · exact .rest (table_setCpu_self s c (by simp [errand, mode]))

theorem deed_resetHead (mode : (s.cpu c).mode = .resetHead i) : Deed s (s.resetHead c i) c a := by
  refine .rest ?_
  simp only [State.resetHead]
  split_ifs with within
  · rw [table_goto_self _ _ (by simp [errand, mode])]
    rfl
  · exact table_setCpu_self { s with flag := int32 (s.flag + 1) } c (by simp [errand, mode])

theorem deed_resetTail {q : Level} (mode : (s.cpu c).mode = .resetTail q) : Deed s (s.resetTail c q) c a := by
  refine .rest ?_
  rw [State.resetTail, table_goto_self _ _ (by simp [errand, mode])]
  rfl

end Boot

section Scheduler

theorem table_ageingCheck (calm : errand (s.cpu c) = .none) : table (s.ageingCheck c) = table s := by
  unfold State.ageingCheck
  split_ifs
  · exact table_goto_self s c calm
  · exact table_goto_self s.release c calm

theorem table_afterSlice (calm : errand (s.cpu c) = .none) : table (s.afterSlice c p) = table s := by
  have put {u : State n} (same : table u = table s) (cpu : u.cpu = s.cpu) :
      table (u.orPanic c (u.enqueue (u.proc p).queue p) fun v => v.ageingCheck c) = table s := by
    refine enqueue_cases (P := fun t => table t = table s) (fun _ => ?_) fun q _ => ?_
    · rw [State.panic, table_halt, same]
      exact Table.send_self calm
    · rw [table_ageingCheck (by rw [push_cpu, cpu, calm]), table_push, same]
  unfold State.afterSlice
  split_ifs
  · exact put (table_setProc_self s p rfl) rfl
  · exact put rfl rfl
  · exact table_ageingCheck calm

theorem table_disengage (calm : errand (s.cpu c) = .none) :
    table (s.setCpu c fun k => { k with proc := none }) = table s ∧
      errand ((s.setCpu c fun k => { k with proc := none }).cpu c) = .none := by
  have same : errand { s.cpu c with proc := none } = .none := by
    unfold errand at calm ⊢
    split at calm <;> simp_all
  exact ⟨table_setCpu_self s c (calm.trans same.symm), by rw [setCpu_cpu_self]; exact same⟩

theorem table_sliceLoop (a : Nat) (calm : errand (s.cpu c) = .none) :
    table (s.sliceLoop c p a) = table s ∨ (s.proc p).state = .runnable ∧
      table (s.sliceLoop c p a) = (table s).set p ({ · with state := .running }) := by
  unfold State.sliceLoop
  split_ifs with more runnable
  · refine .inr ⟨runnable, ?_⟩
    refine (table_dispatch _ c p a (by exact calm)).trans ?_
    rw [table_setProc_self _ _ (by rfl)]
  · refine .inl ?_
    obtain ⟨same, still⟩ := table_disengage calm
    rw [table_afterSlice still, same]
  · exact .inl (table_afterSlice calm)

theorem deed_pass (mode : (s.cpu c).mode = .loop) : Deed s ((s.acquire c).pass pol c) c a := by
  have calm : errand (s.cpu c) = .none := by simp [errand, mode]
  have stops (why : Halt) : Deed s ((s.acquire c).halt c why) c a :=
    .halt (by simp [calm, Errand.leaver]) (table_halt ..)
  have takes {p : Slot} {u : State n} (runnable : (s.proc p).state = .runnable) (same : table u = table s)
      (cpu : u.cpu = s.cpu) : Deed s (u.dispatch c p 0) c a := by
    refine .dispatch p runnable ?_
    refine (table_dispatch u c p 0 (by rw [cpu, calm])).trans ?_
    rw [same]
  cases pol with
  | default =>
    rcases selection_cases (s.acquire c) with nobody | ⟨⟨p, first⟩, -, -⟩
    · rw [pass_default_none nobody]
      split_ifs
      · exact stops _
      · exact .rest rfl
    · rw [pass_default first]
      exact takes first.1 rfl rfl
  | pbs =>
    rcases selection_cases (s.acquire c) with nobody | ⟨-, ⟨p, least⟩, -⟩
    · rw [pass_pbs_none nobody]
      exact .rest rfl
    · rw [pass_pbs least]
      exact takes least.1 (table_setProc_self _ _ (by simp only [life])) rfl
  | fcfs =>
    rcases selection_cases (s.acquire c) with nobody | ⟨-, -, ⟨p, least⟩⟩
    · rw [pass_fcfs_none nobody]
      exact .rest rfl
    · rw [pass_fcfs least]
      exact takes least.1 rfl rfl
  | mlfq =>
    unfold State.pass State.mlfqPass
    cases (s.acquire c).pick with
    | none => exact .rest (table_ageingCheck (s := s.acquire c) calm)
    | some p =>
      dsimp only
      split_ifs with asleep
      · exact stops _
      refine dequeue_cases (P := fun t => Deed s t c a) (fun _ => stops _) fun q _ => ?_
      rcases table_sliceLoop (s := (s.acquire c).drop q) (c := c) (p := p) 0 calm with same | ⟨runnable, taken⟩
      · exact .rest same
      · exact .dispatch p runnable taken

theorem deed_back (h : WellFormed s) (mode : (s.cpu c).mode = .back) : Deed s (s.back pol c) c a := by
  have calm : errand (s.cpu c) = .none := by simp [errand, mode]
  obtain ⟨same, still⟩ := table_disengage calm
  obtain ⟨-, ⟨p, -, saved, -⟩, -⟩ := h.control.ok mode
  cases pol with
  | default | pbs | fcfs =>
    refine .rest (Eq.trans ?_ same)
    exact table_goto_self _ c still
  | mlfq =>
    simp only [State.back, State.mlfqBack, saved]
    split_ifs
    · exact .rest ((table_afterSlice still).trans same)
    · rcases table_sliceLoop (p := p) ((s.cpu c).a + 1) still with rest | ⟨runnable, taken⟩
      · exact .rest (rest.trans same)
      · exact .dispatch p runnable (taken.trans (by rw [same]))

theorem deed_ageing {q : Level} {i : Fin NPROC} (mode : (s.cpu c).mode = .ageing q i) :
    Deed s (s.ageing c q i) c a := by
  have calm : errand (s.cpu c) = .none := by simp [errand, mode]
  have noted : table (s.setCpu c fun k => { k with ageingUpdate := int32 s.ticks }) = table s :=
    table_setCpu_self s c (by simp [errand, mode])
  unfold State.ageing
  by_cases done : i = (s.queue q).tail
  · rw [if_pos done]
    refine .rest ?_
    simp only [State.ageingNext]
    split_ifs
    · rw [table_goto_self _ _ (by simp [errand, mode]), noted]
    · rw [table_goto_self _ _ (by simp [errand, mode]), table_release, noted]
  rw [if_neg done]
  cases (s.queue q).cells i with
  | none => exact .halt (by simp [calm, Errand.leaver]) (table_halt ..)
  | some p =>
    have same : table (s.setCpu c fun k => { k with p := some p }) = table s :=
      table_setCpu_self s c (by simp [errand, mode])
    have halts {u : State n} (why : Halt) (before : table u = table s) : Deed s (u.halt c why) c a :=
      .halt (by simp [calm, Errand.leaver]) (by rw [table_halt, before])
    dsimp only
    split_ifs
    · refine dequeue_cases (P := fun t => Deed s t c a) (fun _ => halts _ same) fun l _ => ?_
      refine enqueue_cases (P := fun t => Deed s t c a) (fun _ => halts _ same) fun m _ => ?_
      refine .rest ?_
      rw [table_goto_self _ _ (by simp [errand, mode]), table_push, table_drop, same]
    · refine .rest ?_
      rw [table_goto_self _ _ (by simp [errand, mode]), same]

end Scheduler

section Trap

theorem deed_timer (mode : (s.cpu c).mode = .loop ∨
    (s.cpu c).mode = .thread ∧ s.working c ≠ some (.exiting true)) : Deed s (s.timer c) c .timer := by
  have calm : errand (s.cpu c) = .none := by rcases mode with mode | ⟨mode, -⟩ <;> simp [errand, mode]
  refine .timer rfl calm mode ?_
  unfold State.timer
  split_ifs
  · rw [table_goto]
    rfl
  · rw [table_goto]
    rfl

theorem deed_account (h : WellFormed s) (mode : (s.cpu c).mode = .account) : Deed s (s.account c) c .go := by
  have ok := h.control.ok mode
  unfold State.account
  cases own : (s.cpu c).proc with
  | none =>
    refine .timerDone mode own ?_
    rw [myproc, own]
    unfold State.resume
    split_ifs
    · exact table_goto ..
    · exact table_goto ..
  | some p =>
    obtain ⟨q, level⟩ := h.level p
    refine .charge p q rfl mode own ((h.control.cpu c).proc_running ok.1 own) level ?_
    rw [myproc, own]
    dsimp only
    rw [level, level?_val]
    dsimp only
    rw [table_goto, table_setProc (g := Life.charge q) _ _ (by simp only [life, State.charge, Life.charge])]
    rfl

theorem deed_yield (h : WellFormed s) (mode : (s.cpu c).mode = .trapEnd) : Deed s ((s.acquire c).yield c) c a := by
  obtain ⟨p, -, own, -, running⟩ := (h.control.ok mode).2
  unfold State.yield
  rw [myproc, acquire_cpu, own]
  refine .yield p own running ?_
  rw [table_goto_self _ _ (by simp [errand, mode])]
  exact table_setProc _ _ rfl

theorem deed_wakeup {r : Ret} (same : errand (s.cpu c) = errand { s.cpu c with mode := .wakeup1 chan 0 r }) :
    Deed s ((s.acquire c).goto c (.wakeup1 chan 0 r)) c a :=
  .rest (table_goto_self _ c same)

theorem table_wake (h : WellFormed s) {next : State n → State n} (queue : (u.proc p).queue = (s.proc p).queue)
    (ok : ∀ v, v.cpu = u.cpu → table v = (table u).set p ({ · with state := .runnable }) → P (next v)) :
    P ((u.setProc p fun k => { k with state := .runnable }).orPanic c
      ((u.setProc p fun k => { k with state := .runnable }).enqueue
        ((u.setProc p fun k => { k with state := .runnable }).proc p).queue p) next) := by
  obtain ⟨q, level⟩ := h.level p
  refine enqueue_cases (fun out => ?_) fun l _ => ok _ rfl ?_
  · rw [setProc_proc_self, queue, level, level?_val] at out
    cases out
  · rw [table_push, table_setProc (g := ({ · with state := .runnable })) _ _ rfl]

theorem deed_wakeup1 (h : WellFormed s) {r : Ret} (mode : (s.cpu c).mode = .wakeup1 chan i r) :
    Deed s (s.wakeup1 c chan i r) c a := by
  simp only [State.wakeup1]
  split_ifs with within asleep
  · refine table_wake (P := fun t => Deed s t c a) h rfl fun v cpu woken => ?_
    refine .wake ⟨i, within⟩ chan r mode asleep.1 asleep.2 ?_
    rw [table_goto, woken, cpu]
  · exact .scan chan i r mode within asleep (table_goto ..)
  · cases r with
    | caller => exact .rest (table_resume s.release c (by simp [errand, mode]))
    | account => exact .rest (table_goto_self s.release c (by simp [errand, mode]))
    | reparent j => exact .scanned chan i j mode (not_lt.mp within) (table_goto ..)

end Trap

section Call
variable (h : WellFormed s)
include h

theorem WellFormed.calls {w : Work} (here : At s c p w) (call : a.isCall) : Calls s c a p w := by
  obtain ⟨-, -, own, running⟩ := h.control.thread here.mode here.stack
  exact ⟨own, here.stack, running, here.work, by simp [errand, here.mode], call⟩

theorem deed_kill (pid : Int) : Deed s ((s.acquire c).kill c pid) c (.kill pid) := by
  unfold State.kill
  cases found : (List.finRange NPROC).find? fun p => decide (((s.acquire c).proc p).pid = pid) with
  | none => exact .rest (table_ret ..)
  | some p =>
    have marked : table ((s.acquire c).setProc p fun k => { k with killed := true }) =
        (table s).set p ({ · with killed := true }) := table_setProc _ _ rfl
    dsimp only
    split_ifs with asleep
    · refine table_wake (P := fun t => Deed s t c _) h (by simp) fun v _ woken => ?_
      refine .kill p pid rfl found ?_
      rw [table_release, table_ret, woken, marked, Table.set_set]
      have before : ((table s).life p).state = .sleeping := by simpa [table, life] using asleep
      exact Table.set_congr (by simp [Life.rouse, before])
    · refine .kill p pid rfl found ?_
      rw [table_release, table_ret, marked]
      have before : ((table s).life p).state ≠ .sleeping := by simpa [table, life] using asleep
      exact Table.set_congr (by simp [Life.rouse, before])

theorem deed_chpr (here : At s c p .run) (priority : Int) : Deed s ((s.acquire c).chpr c priority) c a := by
  obtain ⟨-, -, own, -⟩ := h.control.thread here.mode here.stack
  unfold State.chpr
  rw [myproc, acquire_cpu, own]
  dsimp only
  cases (List.finRange NPROC).find? _ with
  | none => exact .rest (table_ret ..)
  | some r => exact .rest ((table_ret ..).trans (table_setProc_self _ _ rfl))

theorem deed_badTrap (here : At s c p .run) : Deed s (s.badTrap c) c .badTrap := by
  obtain ⟨-, -, own, running⟩ := h.control.thread here.mode here.stack
  exact .badTrap p rfl own running (table_setCur s c p here.stack rfl)

theorem deed_fork (here : At s c p .run) : Deed s ((s.acquire c).fork c).release c .fork := by
  unfold State.fork
  cases found : (s.acquire c).allocproc with
  | none => exact .rest (table_ret ..)
  | some taken =>
    obtain ⟨np, t⟩ := taken
    obtain ⟨unused, cpu, -⟩ := allocproc_some found
    refine .alloc (some p) np (.inr rfl) (.ofThread (h.calls here rfl)) unused ?_
    refine (table_setCur (g := ({ · with work := .allocated np })) t c p (by rw [cpu]; exact here.stack) rfl).trans ?_
    rw [table_allocproc found]
    rfl

theorem embryo_of_owns {w : Work} (here : At s c p w) (takes : owns w = some np) : (s.proc np).state = .embryo :=
  h.owned.embryo (.inr p) np (by simpa [View.Owns, view, core, here.work] using takes)

theorem deed_forkFill (here : At s c p (.allocated np)) (ok : Bool) : Deed s (s.forkFill c np ok) c (.fill ok) := by
  have embryo := embryo_of_owns h here rfl
  unfold State.forkFill
  cases ok with
  | true =>
    rw [if_pos rfl]
    refine .fill (some p) np rfl (.ofThread (h.calls here rfl)) embryo ?_
    refine (table_setCur (g := ({ · with work := .filled np })) (s.allocEnd np true) c p here.stack
      (by simp only [life])).trans ?_
    rw [table_allocEnd, if_neg (by simp), Table.initproc_self (by simp [table])]
    rfl
  | false =>
    rw [if_neg (by decide)]
    refine .fillFail (some p) np rfl (.ofThread (h.calls here rfl)) embryo ?_
    refine (table_setCur (g := ({ · with work := .run })) (s.allocEnd np false) c p here.stack
      (by simp only [life])).trans ?_
    rw [table_allocEnd_fail, if_neg (by simp), Table.initproc_self (by simp [table])]
    rfl

theorem deed_forkCopy (here : At s c p (.filled np)) (ok : Bool) : Deed s (s.forkCopy c np ok) c (.copy ok) := by
  have embryo := embryo_of_owns h here rfl
  unfold State.forkCopy
  cases ok with
  | true =>
    rw [if_pos rfl]
    refine .copy p np (.ofThread (h.calls here rfl)) embryo ?_
    refine (table_setCur (g := ({ · with work := .copied np })) (s.setProc np _) c p here.stack rfl).trans ?_
    rw [table_setProc (g := ({ · with parent := some p })) _ _ (by simp [life, here.stack])]
  | false =>
    rw [if_neg (by decide)]
    refine .copyFail p np rfl (.ofThread (h.calls here rfl)) embryo ?_
    refine (table_setCur (g := ({ · with work := .run })) (s.setProc np _) c p here.stack rfl).trans ?_
    rw [table_setProc (g := ({ · with state := .unused })) _ _ rfl]

theorem deed_forkPublish (here : At s c p (.copied np)) : Deed s ((s.acquire c).forkPublish c np) c .publish := by
  refine .publish (some p) np (.ofThread (h.calls here rfl)) (embryo_of_owns h here rfl) ?_
  refine table_publish (P := fun t => table t = _) fun u published cpu => ?_
  refine (table_setCur (g := ({ · with work := .run })) u c p (by rw [cpu]; exact here.stack) rfl).trans ?_
  rw [published]
  rfl

theorem deed_exit (mode : (s.cpu c).mode = .thread ∨ (s.cpu c).mode = .trapEnd)
    (run : ∀ p, (s.cpu c).proc = some p → (s.cpu c).stack = some p → (s.proc p).work = .run) :
    Deed s (s.exit c) c .exit := by
  have runs : Runs s c := by
    have ok := h.control.cpu c
    rcases mode with mode | mode <;> rw [mode] at ok <;> exact ok.2
  obtain ⟨p, stack, own, -, running⟩ := runs
  unfold State.exit
  rw [myproc, own]
  dsimp only
  have calm : errand (s.cpu c) = .none := by rcases mode with mode | mode <;> simp [errand, mode]
  split_ifs with init
  · exact .halt (by simp [calm, Errand.leaver]) (table_halt ..)
  · refine .exit p (decide ((s.cpu c).mode = .trapEnd)) ⟨own, stack, running, run p own stack, calm, rfl⟩ init ?_
    rw [table_goto_self _ _ calm]
    exact table_setProc _ _ rfl

theorem deed_exitLock {masked : Bool} (here : At s c p (.exiting masked)) (free : s.lock = none) :
    Deed s ((s.acquire c).exitLock c) c a := by
  obtain ⟨-, -, own, running⟩ := h.control.thread here.mode here.stack
  unfold State.exitLock
  rw [acquire_cpu, here.stack]
  refine .exitLock p masked own here.stack running here.work free ?_
  rw [table_goto, acquire_cpu]
  simp [errand, here.stack]

theorem deed_reparent (mode : (s.cpu c).mode = .reparent i) : Deed s (s.reparent c i) c a := by
  obtain ⟨me, stack, _, -, running⟩ := (h.control.ok mode).2
  simp only [State.reparent, stack]
  split_ifs with within child zombie
  · refine .pass ⟨i, within⟩ me mode stack running child ?_
    rw [if_pos zombie, table_goto, table_setProc (g := ({ · with parent := s.initproc })) _ _ rfl]
    simp [errand, stack]
  · refine .pass ⟨i, within⟩ me mode stack running child ?_
    rw [if_neg zombie, table_goto, table_setProc (g := ({ · with parent := s.initproc })) _ _ rfl]
    simp [errand, stack]
  · refine .skip ⟨i, within⟩ me mode stack child ?_
    rw [table_goto]
    simp [errand, stack]
  · refine .zombie me i mode (not_lt.mp within) stack running ?_
    rw [table_goto, table_setProc (g := ({ · with state := .zombie })) _ _ rfl]
    rfl

omit h in
theorem deed_sleep {chan : Chan} {caller : Context} (calm : errand (s.cpu c) = .none)
    (own : (s.cpu c).proc = some p) (running : (s.proc p).state = .running)
    (held : s.lock = none ∨ s.lock = some c) (wait : ∀ r, chan = .proc r → r = p ∧ s.zombieChild p = none)
    (same : table u = table s) (cpu : u.cpu = s.cpu) : Deed s (u.sleep c chan caller) c a := by
  unfold State.sleep
  rw [myproc, cpu, own]
  refine .sleep p chan own running calm held wait ?_
  rw [table_goto_self _ _ (by rw [setProc_cpu, cpu, calm]; rfl),
    table_setProc (g := ({ · with state := .sleeping, chan := some chan })) _ _ rfl, same]

theorem deed_waiting {kind : WaitKind} (mode : (s.cpu c).mode = .waiting kind) : Deed s (s.waiting c kind) c a := by
  have ok := h.control.ok mode
  obtain ⟨me, stack, own, -, running⟩ := ok.2
  have calm : errand (s.cpu c) = .none := by simp [errand, mode]
  unfold State.waiting
  rw [stack]
  dsimp only
  cases found : s.zombieChild me with
  | none =>
    dsimp only
    split_ifs
    · refine .rest ?_
      rw [table_resume _ _ (by simpa using calm), table_release, table_ret]
    · exact deed_sleep calm own running (.inr ok.1) (fun r same => ⟨(Chan.proc.inj same).symm, found⟩) rfl rfl
  | some p =>
    refine .reap me p kind mode own found ?_
    have reaped : table (s.setProc p (reap kind)) = (table s).set p (Life.reap kind) :=
      table_setProc _ _ (by cases kind <;> rfl)
    dsimp only
    split_ifs
    · rw [table_resume _ _ (by simpa using calm), table_release, table_ret, table_setProc_self _ _ (by rfl), reaped]
    · rw [table_resume _ _ (by simpa using calm), table_release, table_ret, reaped]

theorem deed_sched {context : Context} (mode : (s.cpu c).mode = .sched context) : Deed s (s.sched c context) c a := by
  obtain ⟨held, ⟨p, own, -, stopped⟩, -⟩ := h.control.ok mode
  simp only [State.sched, myproc, own, held, ne_eq, not_true_eq_false, stopped, if_false]
  refine .rest ?_
  rw [table_setCpu_self _ _ (by simp [errand, mode])]
  exact table_setProc_self _ _ rfl

theorem deed_resumed (mode : (s.cpu c).mode = .resumed) : Deed s (s.resumed c) c a := by
  obtain ⟨p, stack, own, -, running⟩ := (h.control.ok mode).2
  have cleared : table (s.setProc p fun k => { k with chan := none }) = (table s).set p ({ · with chan := none }) :=
    table_setProc _ _ rfl
  unfold State.resumed
  rw [stack]
  dsimp only
  cases (s.proc p).context with
  | forkret | yield => exact .rest (table_goto_self s.release c (by simp [errand, mode]))
  | sleep | wait =>
    refine .resumed p own running ?_
    rw [table_goto_self _ _ (by simp [errand, mode])]
    exact cleared
  | exit => exact .halt (by simp [errand, mode, Errand.leaver]) (table_halt ..)

end Call

theorem stage_boots {k : Cpu} {b : Bool} (boots : errand k = .boots p b) : stage k.mode = .boots p := by
  cases mode : k.mode with
  | wakeup1 _ i ret =>
    cases ret with
    | reparent j => cases j <;> simp [errand, mode] at boots
    | _ => simp [errand, mode] at boots
  | userAllocated | userFilled | userCopied => simp_all [errand, stage]
  | _ => simp [errand, mode] at boots

theorem step_deed (h : WellFormed s) (action : step pol s (c, a) = some t) : Deed s t c a := by
  cases step_transition action with
  | mpmain mode => exact deed_mpmain mode
  | startothers k mode => exact deed_startothers mode
  | started k mode => exact .rest (table_goto_self s c (by simp [errand, mode]))
  | userinit mode => exact deed_userinit mode
  | userFill p ok mode => exact deed_userFill h mode ok
  | userCopy p ok mode => exact deed_userCopy mode ok
  | userPublish p mode => exact deed_userPublish h mode
  | enter mode => exact deed_enter mode
  | resetHead i mode => exact deed_resetHead mode
  | resetTail q mode => exact deed_resetTail mode
  | pass mode => exact deed_pass mode
  | back mode => exact deed_back h mode
  | ageing q i mode => exact deed_ageing mode
  | timer mode => exact deed_timer mode
  | tick mode => exact deed_wakeup (by simp [errand, mode])
  | account mode => exact deed_account h mode
  | yield mode => exact deed_yield h mode
  | trapEnd mode stopped =>
    obtain ⟨p, -, own, -, running⟩ := (h.control.ok mode).2
    exact absurd running (stopped p own)
  | wakeup _ mode =>
    refine deed_wakeup ?_
    rcases mode with mode | mode <;> simp [errand, mode]
  | wakeup1 _ i r mode => exact deed_wakeup1 h mode
  | kill p pid => exact deed_kill h pid
  | chpr p priority here => exact deed_chpr h here priority
  | badTrap p here => exact deed_badTrap h here
  | fork p here => exact deed_fork h here
  | forkFill p _ ok here => exact deed_forkFill h here ok
  | forkCopy p _ ok here => exact deed_forkCopy h here ok
  | forkPublish p _ here => exact deed_forkPublish h here
  | exit mode run => exact deed_exit h mode run
  | exitLock p _ here free => exact deed_exitLock h here free
  | reparent i mode => exact deed_reparent h mode
  | wait p _ here => exact .rest (table_goto_self _ c (by simp [errand, here.mode]))
  | waiting _ mode => exact deed_waiting h mode
  | sleep p _ mode stack _ free other =>
    obtain ⟨-, -, own, running⟩ := h.control.thread mode stack
    exact deed_sleep (by simp [errand, mode]) own running (.inl free) (fun r same => absurd same (other r)) rfl rfl
  | sched _ mode => exact deed_sched h mode
  | resumed mode => exact deed_resumed h mode

end Xv6.Proof
