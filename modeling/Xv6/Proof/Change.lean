import Xv6.Proof.View

namespace Xv6.Proof
open Xv6.Library Xv6.Kernel State

variable {n : Nat} {t u : State n} {i : Nat} {q : Level} {chan : Option Chan} {context : Context}

structure Owned (v : View n) : Prop where
  embryo : ∀ o p, v.Owns o p → (v.core p).state = .embryo
  inj : ∀ o o' p, v.Owns o p → v.Owns o' p → o = o'

def Bounded (v : View n) : Prop := ∀ p, 0 ≤ (v.core p).queue ∧ (v.core p).queue ≤ 4

structure WellFormed (s : State n) : Prop where
  control : Control s
  owned : Owned (view s)
  bounded : Bounded (view s)

variable {pol : Policy} {s : State n} {c : Fin n} {p np : Slot} {a : Action}

theorem WellFormed.level (h : WellFormed s) (p : Slot) : ∃ q : Level, (s.proc p).queue = q.val := by
  have bounds : 0 ≤ (s.proc p).queue ∧ (s.proc p).queue ≤ 4 := h.bounded p
  exact ⟨⟨(s.proc p).queue.toNat, by omega⟩, by simp [bounds.1]⟩

theorem WellFormed.away (h : WellFormed s) (lock : s.lock = none ∨ s.lock = some c ∧ (Runs s c ∨ Idle s c))
    (stopped : (s.proc p).state ≠ .running) (d : Fin n) : (s.cpu d).proc ≠ some p := by
  intro own
  rcases lock with free | ⟨held, here⟩
  · exact stopped ((h.control.cpu d).proc_running (by simp [free]) own)
  by_cases same : d = c
  · subst same
    rcases here with ⟨r, -, proc, -, running⟩ | idle
    · obtain rfl : r = p := Option.mem_unique proc own
      exact stopped running
    · rw [idle.2] at own
      cases own
  · exact stopped (h.control.others_running (.inr held) same own)

theorem WellFormed.parent (h : WellFormed s) {w : Work} (here : At s c p w) (names : owns w = some np) :
    (s.cpu c).proc = some p ∧ (s.proc p).state = .running ∧
      (view s).Owns (.inr p) np ∧ (s.proc np).state = .embryo ∧ p ≠ np := by
  obtain ⟨-, -, own, running⟩ := h.control.thread here.mode here.stack
  have owner : (view s).Owns (.inr p) np := (congrArg owns here.work).trans names
  have embryo : (s.proc np).state = .embryo := h.owned.embryo _ _ owner
  refine ⟨own, running, owner, embryo, ?_⟩
  rintro rfl
  rw [running] at embryo
  cases embryo

section Boot

theorem change_mpmain (mode : (s.cpu c).mode = .mpenter ∨ (s.cpu c).mode = .mpmain) :
    Change pol s (s.mpmain c) c a := by
  refine .quiet (view_setCpu_self s c ?_)
  rcases mode with mode | mode <;> simp [turn, stage, mode]

theorem change_startothers {k : Nat} (mode : (s.cpu c).mode = .startothers k) :
    Change pol s (s.startothers c k) c a := by
  refine .quiet ?_
  simp only [State.startothers]
  split_ifs with within same off
  · exact view_goto_self s c (by simp [stage, mode])
  · rw [view_goto_self _ _ (by simp [stage, Ne.symm same, mode])]
    exact view_goto_self s _ (by simp [stage, off])
  · exact view_goto_self s c (by simp [stage, mode])
  · exact view_goto_self s c (by simp [stage, mode])

theorem view_allocproc (found : s.allocproc = some (p, t)) : view t = { (view s).setCore p ({ · with
        state := .embryo, pid := s.nextpid, priority := 60, queue := 0 }) with
      nextpid := int32 (s.nextpid + 1) } := by
  obtain ⟨-, cpu, -, proc, queue, ticks, nextpid, flag, -⟩ := allocproc_some found
  simp only [view, View.setCore, cpu, queue, ticks, nextpid, flag, View.mk.injEq, and_true]
  funext r
  by_cases h : r = p
  · subst h
    simp [proc, core]
  · simp [proc, h]

theorem change_userinit (h : WellFormed s) (mode : (s.cpu c).mode = .userinit) (free : s.lock = none) :
    Change pol s ((s.acquire c).userinit c).release c a := by
  unfold State.userinit
  cases found : (s.acquire c).allocproc with
  | none =>
    refine .halt ?_
    rw [view_release]
    exact view_halt _ _ (by simp [processIsSleeping])
  | some taken =>
    obtain ⟨p, t⟩ := taken
    have unused : (s.proc p).state = .unused := (allocproc_some found).1
    refine .alloc (.inl c) p rfl (fun _ => mode) (fun _ same => by cases same) unused
      (h.away (c := c) (.inl free) (by simp [unused])) ?_
    rw [view_release, view_goto, view_allocproc found]
    rfl

theorem view_allocEnd (s : State n) (p : Slot) : view (s.allocEnd p true) = (view s).setCore p ({ · with
      ctime := int32 s.ticks, lastExecuted := 0, ticks := fun _ => 0, owns := none, raw := false,
      masked := false }) := by
  unfold State.allocEnd State.resetTimes
  rw [view_setProc (g := ({ · with owns := none, raw := false, masked := false })) _ _
    (by simp [core, owns, raw, masked])]
  rw [view_setProc (g := ({ · with
    ctime := int32 s.ticks, lastExecuted := 0, ticks := fun _ => 0 })) _ _ (by simp [core]), View.setCore_setCore]

theorem view_allocEnd_fail (s : State n) (p : Slot) : view (s.allocEnd p false) = (view s).setCore p ({ · with
      ctime := int32 s.ticks, lastExecuted := 0, ticks := fun _ => 0, state := .unused }) := by
  unfold State.allocEnd State.resetTimes
  rw [view_setProc (g := ({ · with state := .unused })) _ _ (by simp [core])]
  rw [view_setProc (g := ({ · with
    ctime := int32 s.ticks, lastExecuted := 0, ticks := fun _ => 0 })) _ _ (by simp [core]), View.setCore_setCore]

theorem change_userFill (h : WellFormed s) (mode : (s.cpu c).mode = .userAllocated p) (ok : Bool) :
    Change pol s (s.userFill c p ok) c (.fill ok) := by
  have owns : (view s).Owns (.inl c) p := by simp [View.Owns, view, turn, stage, mode]
  unfold State.userFill
  split_ifs with kalloc
  · refine .fill (.inl c) p rfl (by rw [kalloc]) (by simp [fills, mode]) owns (h.owned.embryo _ _ owns) ?_
    rw [view_goto_self _ _ (by simp [stage, mode])]
    exact view_allocEnd s p
  refine .bootFail p ({ · with
    ctime := int32 s.ticks, lastExecuted := 0, ticks := fun _ => 0, state := .unused }) owns
    (h.owned.embryo _ _ owns) (fun k => ⟨rfl, rfl, rfl, rfl, rfl, .inr (.inl rfl)⟩) ?_
  rw [view_halt _ _ (by simp [processIsSleeping]), ← view_allocEnd_fail]
  rfl

theorem change_userCopy (mode : (s.cpu c).mode = .userFilled p) (ok : Bool) : Change pol s (s.userCopy c p ok) c a := by
  unfold State.userCopy
  split_ifs
  · exact .quiet (view_goto_self s c (by simp [stage, mode]))
  · exact .halt (view_halt s c (by simp [processIsSleeping]))

theorem view_publish {next : State n → State n} {P : State n → Prop}
    (ok : ∀ u, view u = ((view s).setCore np ({ · with state := .runnable })).push 0 np →
      u.cpu = s.cpu → (∀ r, (u.proc r).work = (s.proc r).work) → P (next u)) :
    P (s.publish c np next) := by
  unfold State.publish
  refine enqueue_cases ?_ ?_
  · intro out
    simp [level?] at out
  intro q level
  obtain rfl : q = 0 := Fin.ext (Int.ofNat.inj level).symm
  refine ok _ ?_ rfl ?_
  · rw [view_push, view_setProc (g := ({ · with state := .runnable })) _ _ rfl]
  · intro r
    by_cases same : r = np <;> simp [push_proc, same]

theorem change_userPublish (h : WellFormed s) (mode : (s.cpu c).mode = .userCopied p)
    (free : s.lock = none) : Change pol s ((s.acquire c).userPublish c p) c .go := by
  have owns : (view s).Owns (.inl c) p := by simp [View.Owns, view, turn, stage, mode]
  have embryo : (s.proc p).state = .embryo := h.owned.embryo _ _ owns
  refine .publish (.inl c) p rfl (fun _ => ⟨rfl, mode⟩)
    (fun _ same => by cases same) owns embryo (h.away (c := c) (.inl free) (by simp [embryo])) ?_
  refine view_publish (P := fun t => view t = _) fun u published _ _ => ?_
  rw [view_goto, view_release, published]
  rfl

theorem view_enterLoop (idle : (s.cpu c).proc = none) :
    view (s.enterLoop c) = (view s).setTurn c ({ · with stage := .plain }) :=
  view_setCpu s c (by simp [turn, stage, idle])

theorem change_enter (h : WellFormed s) (mode : (s.cpu c).mode = .enter) : Change pol s (s.enter c) c a := by
  have ok := h.control.ok mode
  unfold State.enter
  split_ifs with first
  · exact .enterReset mode first (view_goto ..)
  · refine .quiet ?_
    rw [view_enterLoop ok.2.2]
    exact View.setTurn_self (by simp [view, turn, stage, mode])

theorem change_resetHead (h : WellFormed s) (mode : (s.cpu c).mode = .resetHead i) :
    Change pol s (s.resetHead c i) c a := by
  have ok := h.control.ok mode
  simp only [State.resetHead]
  split_ifs with within
  · refine .resetHead ⟨i, within⟩ mode ?_
    rw [view_goto_self _ _ (by simp [stage, mode])]
    rfl
  · refine .resetDone (by simp [stage, mode]) ?_
    rw [view_enterLoop (s := { s with flag := int32 (s.flag + 1) }) ok.2.2]
    rfl

theorem change_resetTail (mode : (s.cpu c).mode = .resetTail q) : Change pol s (s.resetTail c q) c a := by
  refine .resetTail q mode ?_
  rw [State.resetTail, view_goto_self _ _ (by simp [stage, mode])]
  rfl

end Boot

section Scheduler

theorem change_dispatch (mode : (s.cpu c).mode = .loop) (free : s.lock = none) (selects : Selects pol s p)
    (before : view u = (view s).setCore p fun k => { k with
      lastExecuted := if pol = .pbs then int32 s.ticks else k.lastExecuted }) :
    Change pol s (u.dispatch c p 0) c .go := by
  refine .dispatch p rfl mode free selects ?_
  rw [view_dispatch, before, View.setCore_setCore]

theorem view_afterSlice_blocked (blocked : (u.proc p).state ≠ .runnable) :
    view (u.afterSlice c p) = (view u).setTurn c ({ · with stage := .plain }) := by
  simp only [State.afterSlice, if_neg blocked]
  exact view_ageingCheck u c

theorem view_afterSlice (runnable : (u.proc p).state = .runnable) (bound : 0 ≤ (u.proc p).queue ∧ (u.proc p).queue ≤ 4)
    (level : q.val = min ((u.proc p).queue + 1) 4) :
    view (u.afterSlice c p) = ((view u).push q p).setTurn c ({ · with stage := .plain }) := by
  have accepted {x : Int} (low : 0 ≤ x) (high : x ≤ 4) : level? x ≠ none := by
    unfold level?
    rw [dif_neg (by omega)]
    simp
  simp only [State.afterSlice, if_pos runnable]
  split_ifs with low
  · refine enqueue_cases (P := fun t => view t = _) (fun out => ?_) fun l hl => ?_
    · rw [setProc_proc_self] at out
      exact absurd out (accepted (by dsimp only; omega) (by dsimp only; omega))
    rw [setProc_proc_self] at hl
    obtain rfl : l = q := Fin.ext (by dsimp only at hl; omega)
    rw [view_ageingCheck, view_push, view_setProc (g := fun k => { k with queue := k.queue + 1 }) _ _ rfl]
    congr 1
    simp [View.push, View.setRing, View.setCore]
  · refine enqueue_cases (P := fun t => view t = _) (fun out => ?_) fun l _ => ?_
    · exact absurd out (accepted bound.1 bound.2)
    · obtain rfl : l = q := Fin.ext (by omega)
      rw [view_ageingCheck, view_push]

theorem sliceOf_pos (q : Level) : 0 < sliceOf q.val := by
  revert q
  decide

theorem view_pass_mlfq (picked : s.pick = some p)
    (runnable : (s.proc p).state = .runnable) (level : (s.proc p).queue = q.val) :
    view (s.pass .mlfq c) = (((view s).drop q).setCore p ({ · with state := .running })).setTurn c
      ({ · with proc := some p, a := 0, stage := .plain }) := by
  have first : 0 < sliceOf (s.proc p).queue := level ▸ sliceOf_pos q
  unfold State.pass State.mlfqPass
  rw [picked]
  dsimp only
  rw [if_neg (not_not.mpr runnable)]
  refine dequeue_cases (P := fun t => view t = _) (fun out => ?_) fun l _ => ?_
  · rw [level, level?_val] at out
    cases out
  obtain rfl : l = q := Fin.ext (by omega)
  rw [State.sliceLoop, drop_proc, if_pos first, if_pos runnable, view_dispatch, view_setProc_self _ _ (by rfl)]
  rfl

theorem view_pass_mlfq_none (mode : (s.cpu c).mode = .loop) (nobody : s.pick = none) :
    view (s.pass .mlfq c) = view s := by
  unfold State.pass State.mlfqPass
  rw [nobody]
  dsimp only
  rw [view_ageingCheck]
  exact View.setTurn_self (by simp [view, turn, stage, mode])

theorem view_disengage (s : State n) (c : Fin n) : view (s.setCpu c fun k => { k with proc := none }) =
    (view s).setTurn c ({ · with proc := none }) :=
  view_setCpu s c rfl

section Back
variable (saved : (s.cpu c).p = some p)
include saved

theorem view_back_blocked (blocked : (s.proc p).state ≠ .runnable) :
    view (s.back .mlfq c) = (view s).setTurn c ({ · with proc := none, stage := .plain }) := by
  simp only [State.back, State.mlfqBack, saved, if_pos blocked]
  rw [view_afterSlice_blocked (by simpa using blocked), view_disengage, View.setTurn_setTurn]

theorem view_back_again (runnable : (s.proc p).state = .runnable) (more : (s.cpu c).a + 1 < sliceOf (s.proc p).queue) :
    view (s.back .mlfq c) = ((view s).setCore p ({ · with state := .running })).setTurn c
      ({ · with proc := some p, a := (s.cpu c).a + 1, stage := .plain }) := by
  simp only [State.back, State.mlfqBack, saved, if_neg (not_not.mpr runnable)]
  rw [State.sliceLoop, setCpu_proc, if_pos more, if_pos runnable,
    view_dispatch, view_setProc_self _ _ (by rfl), view_disengage]
  simp [View.setTurn, View.setCore]

theorem view_back_requeue (bound : 0 ≤ (s.proc p).queue ∧ (s.proc p).queue ≤ 4)
    (runnable : (s.proc p).state = .runnable) (done : sliceOf (s.proc p).queue ≤ (s.cpu c).a + 1)
    (level : q.val = min ((s.proc p).queue + 1) 4) :
    view (s.back .mlfq c) = ((view s).push q p).setTurn c ({ · with proc := none, stage := .plain }) := by
  simp only [State.back, State.mlfqBack, saved, if_neg (not_not.mpr runnable)]
  rw [State.sliceLoop, setCpu_proc, if_neg (not_lt.mpr done),
    view_afterSlice (u := s.setCpu c _) runnable bound level, view_disengage]
  simp [View.setTurn, View.push, View.setRing, View.setCore]

end Back

theorem change_pass (h : WellFormed s) (mode : (s.cpu c).mode = .loop) (free : s.lock = none) :
    Change pol s ((s.acquire c).pass pol c) c .go := by
  have released : Change pol s (s.acquire c).release c .go := .quiet rfl
  have plainly {p : Slot} (other : pol ≠ .pbs) : view (s.acquire c) = (view s).setCore p fun k => { k with
      lastExecuted := if pol = .pbs then int32 s.ticks else k.lastExecuted } :=
    (View.setCore_self (by simp [other])).symm
  cases pol with
  | default =>
    rcases selection_cases (s.acquire c) with nobody | ⟨⟨p, first⟩, -, -⟩
    · rw [pass_default_none nobody]
      split_ifs
      · exact .halt (view_halt _ c (by simp [processIsSleeping]))
      · exact released
    · rw [pass_default first]
      have selects : Selects .default s p := first
      exact change_dispatch mode free selects (plainly (by decide))
  | pbs =>
    rcases selection_cases (s.acquire c) with nobody | ⟨-, ⟨p, least⟩, -⟩
    · rw [pass_pbs_none nobody]
      exact released
    · rw [pass_pbs least]
      have selects : Selects .pbs s p := least
      exact change_dispatch mode free selects (view_setProc _ _ (by simp [core]))
  | fcfs =>
    rcases selection_cases (s.acquire c) with nobody | ⟨-, -, ⟨p, least⟩⟩
    · rw [pass_fcfs_none nobody]
      exact released
    · rw [pass_fcfs least]
      have selects : Selects .fcfs s p := least
      exact change_dispatch mode free selects (plainly (by decide))
  | mlfq =>
    cases found : (s.acquire c).pick with
    | some p =>
      by_cases runnable : (s.proc p).state = .runnable
      · obtain ⟨q, level⟩ := h.level p
        exact .pick p q rfl rfl mode free found runnable level (view_pass_mlfq found runnable level)
      refine .asleep p rfl found runnable ?_
      have stops : (s.acquire c).pass .mlfq c = (s.acquire c).panic c "process is sleeping" := by
        unfold State.pass State.mlfqPass
        rw [found]
        exact if_pos runnable
      rw [stops, State.panic, halt, view_goto]
      simp [stage, processIsSleeping]
    | none => exact .quiet (view_pass_mlfq_none (s := s.acquire c) mode found)

theorem change_back (h : WellFormed s) (mode : (s.cpu c).mode = .back) : Change pol s (s.back pol c) c .go := by
  obtain ⟨_, ⟨p, own, saved, stopped⟩, _⟩ := h.control.ok mode
  cases pol with
  | default | pbs | fcfs =>
    refine .leave p rfl mode own stopped (fun same => absurd same (by decide)) ?_
    refine (view_goto _ c .loop).trans ?_
    rw [view_disengage, View.setTurn_setTurn]
    rfl
  | mlfq =>
    by_cases runnable : (s.proc p).state = .runnable
    · by_cases more : (s.cpu c).a + 1 < sliceOf (s.proc p).queue
      · exact .again p rfl rfl mode own runnable more (view_back_again saved runnable more)
      have bounds : 0 ≤ (s.proc p).queue ∧ (s.proc p).queue ≤ 4 := h.bounded p
      obtain ⟨q, level⟩ : ∃ q : Level, q.val = min ((s.proc p).queue + 1) 4 :=
        ⟨⟨(min ((s.proc p).queue + 1) 4).toNat, by omega⟩, by simp only; omega⟩
      exact .requeue p q rfl rfl mode own runnable (not_lt.mp more) level
        (view_back_requeue saved bounds runnable (not_lt.mp more) level)
    · exact .leave p rfl mode own stopped (fun _ => runnable) (view_back_blocked saved runnable)

theorem view_ageingNext (mode : stage (s.cpu c).mode = .plain) : view (s.ageingNext c q) = view s := by
  have noted : view (s.setCpu c fun k => { k with ageingUpdate := int32 s.ticks }) = view s :=
    view_setCpu_self s c (by simp [turn])
  simp only [State.ageingNext]
  split_ifs
  · rw [view_goto_plain _ _ (by rfl) (by simpa using mode), noted]
  · rw [view_goto_plain _ _ (by rfl) (by simpa using mode), view_release, noted]

theorem change_ageing (h : WellFormed s) {i : Fin NPROC} (mode : (s.cpu c).mode = .ageing q i) :
    Change pol s (s.ageing c q i) c .go := by
  have plain : stage (s.cpu c).mode = .plain := by simp [stage, mode]
  have low : q ≠ 0 := by
    exact (h.control.ok mode).1
  unfold State.ageing
  by_cases done : i = (s.queue q).tail
  · rw [if_pos done]
    exact .quiet (view_ageingNext plain)
  rw [if_neg done]
  cases cell : (s.queue q).cells i with
  | none => exact .halt (view_halt s c (by simp [processIsSleeping]))
  | some p =>
    have same : view (s.setCpu c fun k => { k with p := some p }) = view s := view_setCpu_self s c rfl
    dsimp only
    split_ifs with old
    · have aged : s.aged q i = some p := by
        simp only [State.aged, cell] at old ⊢
        split_ifs at old ⊢ with late
        · rfl
        · cases old
      refine dequeue_cases (P := fun t => Change pol s t c .go) (fun out => ?_) fun l _ => ?_
      · simp at out
      obtain rfl : l = q := Fin.ext (by omega)
      refine enqueue_cases (P := fun t => Change pol s t c .go) (fun out => ?_) fun m hm => ?_
      · refine .ageingPanic l i p low mode aged out ?_
        rw [State.panic, view_halt _ _ (by simp [processIsSleeping]), view_drop, same]
      · refine .promote l m i p rfl low mode aged hm.symm ?_
        rw [view_goto_plain _ _ (by rfl) (by simpa using plain), view_push, view_drop, same]
    · refine .quiet ?_
      rw [view_goto_plain _ _ (by rfl) (by simpa using plain), same]

end Scheduler

section Trap

theorem view_resume (plain : stage (s.cpu c).mode = .plain) : view (s.resume c) = view s := by
  unfold State.resume
  split_ifs <;> exact view_goto_plain s c rfl plain

theorem change_timer (h : WellFormed s) (mode : (s.cpu c).mode = .loop ∨
    (s.cpu c).mode = .thread ∧ s.working c ≠ some (.exiting true)) : Change pol s (s.timer c) c .timer := by
  have plain : stage (s.cpu c).mode = .plain := by rcases mode with mode | ⟨mode, -⟩ <;> simp [stage, mode]
  refine .timer rfl plain (fun p own => ?_) ?_
  · have ok := h.control.cpu c
    rcases mode with mode | ⟨mode, enabled⟩ <;> rw [mode] at ok
    · rw [ok.2.2] at own
      cases own
    obtain ⟨r, stack, proc, -, -⟩ := ok.2
    obtain rfl : r = p := Option.mem_unique proc own
    rw [State.working, if_pos mode, stack] at enabled
    cases work : (s.proc r).work with
    | exiting masked => cases masked <;> simp_all [Proof.masked]
    | _ => rfl
  · unfold State.timer
    split_ifs with zero <;> rw [view_goto] <;> rfl

theorem view_account (own : (s.cpu c).proc = some p) (level : (s.proc p).queue = q.val) :
    view (s.account c) = ((view s).setCore p fun k => { k with
        lastExecuted := int32 s.ticks
        ticks := Function.update k.ticks q (int32 (k.ticks q + 1)) }).setTurn c
      ({ · with stage := .late }) := by
  unfold State.account
  rw [myproc, own]
  dsimp only
  rw [level, level?_val]
  dsimp only
  rw [view_goto, view_setProc (g := fun k => { k with
    lastExecuted := int32 s.ticks
    ticks := Function.update k.ticks q (int32 (k.ticks q + 1)) }) _ _ (by simp only [core, charge])]
  rfl

theorem change_account (h : WellFormed s) (mode : (s.cpu c).mode = .account) : Change pol s (s.account c) c .go := by
  have ok := h.control.ok mode
  cases own : (s.cpu c).proc with
  | none =>
    refine .timerDone mode own ?_
    unfold State.account
    rw [myproc, own]
    unfold State.resume
    split_ifs <;> exact view_goto ..
  | some p =>
    obtain ⟨q, level⟩ := h.level p
    have running := (h.control.cpu c).proc_running ok.1 own
    exact .charge p q rfl mode own running level (view_account own level)

theorem change_yield (h : WellFormed s) (mode : (s.cpu c).mode = .trapEnd) :
    Change pol s ((s.acquire c).yield c) c a := by
  obtain ⟨p, -, own, -, running⟩ := (h.control.ok mode).2
  unfold State.yield
  rw [myproc, acquire_cpu, own]
  refine .yield p mode own running ?_
  rw [view_goto, view_setProc (g := ({ · with state := .runnable })) _ _ rfl]
  rfl

theorem change_wakeup {r : Ret} (same : stage (.wakeup1 chan 0 r) = stage (s.cpu c).mode) :
    Change pol s ((s.acquire c).goto c (.wakeup1 chan 0 r)) c a :=
  .quiet (view_goto_self _ c same)

theorem change_wake (h : WellFormed s) (lock : s.lock = none ∨ s.lock = some c ∧ (Runs s c ∨ Idle s c))
    (asleep : (s.proc p).state = .sleeping) {next : State n → State n}
    (same : view u = view s) (ok : ∀ v, v.cpu = u.cpu → view (next v) = view v) :
    Change pol s ((u.setProc p fun k => { k with state := .runnable }).orPanic c
      ((u.setProc p fun k => { k with state := .runnable }).enqueue
        ((u.setProc p fun k => { k with state := .runnable }).proc p).queue p) next) c a := by
  obtain ⟨q, level⟩ := h.level p
  have queue : (u.proc p).queue = (s.proc p).queue := congrArg (fun v => (v.core p).queue) same
  refine enqueue_cases (P := fun t => Change pol s t c a) (fun out => ?_) fun l hl => ?_
  · rw [setProc_proc_self, queue, level, level?_val] at out
    cases out
  rw [setProc_proc_self, queue, level] at hl
  obtain rfl : l = q := Fin.ext (by omega)
  refine .wake p l asleep (h.away lock (by simp [asleep])) level ?_
  rw [ok _ (by rfl), view_push, view_setProc (g := ({ · with state := .runnable })) _ _ rfl, same]

theorem change_wakeup1 (h : WellFormed s) {r : Ret}
    (mode : (s.cpu c).mode = .wakeup1 chan i r) : Change pol s (s.wakeup1 c chan i r) c a := by
  have next : stage (.wakeup1 chan (i + 1) r) = stage (s.cpu c).mode := by cases r <;> simp [stage, mode]
  have ok := h.control.ok mode
  simp only [State.wakeup1]
  split_ifs with within asleep
  · exact change_wake h (.inr ⟨ok.1, ok.2.imp id And.left⟩) asleep.1 rfl fun v cpu =>
      view_goto_self v c (by rw [cpu, next])
  · exact .quiet (view_goto_self s c next)
  · cases r with
    | caller => exact .quiet (view_resume (s := s.release) (by simp [stage, mode]))
    | account => exact .quiet (view_goto_self s.release c (by simp [stage, mode]))
    | reparent j => exact .quiet (view_goto_self s c (by simp [stage, mode]))

end Trap

section Call

variable (h : WellFormed s)
include h

theorem change_kill (free : s.lock = none) (pid : Int) : Change pol s ((s.acquire c).kill c pid) c a := by
  unfold State.kill
  cases (List.finRange NPROC).find? _ with
  | none => exact .quiet (view_ret ..)
  | some p =>
    have same : view ((s.acquire c).setProc p fun k => { k with killed := true }) = view s :=
      view_setProc_self _ _ rfl
    dsimp only
    split_ifs with asleep
    · exact change_wake h (.inl free) (by simpa using asleep) same fun v _ => view_ret ..
    · exact .quiet ((view_ret ..).trans same)

theorem change_chpr (here : At s c p .run) (priority : Int) :
    Change pol s ((s.acquire c).chpr c priority) c (.chpr priority) := by
  obtain ⟨-, -, own, -⟩ := h.control.thread here.mode here.stack
  unfold State.chpr
  rw [myproc, acquire_cpu, own]
  dsimp only
  cases (List.finRange NPROC).find? _ with
  | none => exact .quiet (view_ret ..)
  | some r => exact .chpr r priority rfl ((view_ret ..).trans (view_setProc _ _ rfl))

omit h in
theorem change_badTrap : Change pol s (s.badTrap c) c a :=
  .quiet (view_setCur_self s c fun _ => rfl)

theorem change_fork (here : At s c p .run) (free : s.lock = none) :
    Change pol s ((s.acquire c).fork c).release c a := by
  obtain ⟨-, -, own, running⟩ := h.control.thread here.mode here.stack
  unfold State.fork
  cases found : (s.acquire c).allocproc with
  | none => exact .quiet (view_ret ..)
  | some taken =>
    obtain ⟨np, t⟩ := taken
    obtain ⟨unused, cpu, -, proc, -⟩ := allocproc_some found
    have other : p ≠ np := by
      rintro rfl
      rw [acquire_proc, running] at unused
      cases unused
    have fresh (me : Slot) (same : Sum.inr p = (Sum.inr me : Fin n ⊕ Slot)) : ((view s).core me).owns = none := by
      obtain rfl : p = me := Sum.inr.inj same
      simp [view, core, owns, here.work]
    refine .alloc (.inr p) np ⟨own, running⟩ (fun same => by cases same) fresh unused
      (h.away (c := c) (.inl free) (by rw [← acquire_proc s c, unused]; decide)) ?_
    refine (view_setCur (g := ({ · with owns := some np, raw := true })) t c p (by rw [cpu]; exact here.stack) ?_).trans
      ?_
    · rw [proc, Function.update_of_ne other, acquire_proc]
      simp [core, owns, raw, masked, here.work]
    · rw [view_allocproc found]
      rfl

omit h in
theorem view_forkFill (here : At s c p (.allocated np)) (other : p ≠ np) :
    view (s.forkFill c np true) = ((view s).setCore np ({ · with
      ctime := int32 s.ticks, lastExecuted := 0, ticks := fun _ => 0, owns := none, raw := false,
      masked := false })).filled (.inr p) := by
  unfold State.forkFill
  rw [if_pos rfl]
  refine (view_setCur (g := ({ · with raw := false })) (s.allocEnd np true) c p here.stack ?_).trans ?_
  · simp [allocEnd, resetTimes, other, core, owns, raw, masked, here.work]
  · rw [view_allocEnd]
    rfl

theorem change_forkFill (here : At s c p (.allocated np)) (ok : Bool) :
    Change pol s (s.forkFill c np ok) c (.fill ok) := by
  obtain ⟨own, running, owner, embryo, other⟩ := h.parent here rfl
  cases ok with
  | true =>
    exact .fill (.inr p) np ⟨own, running⟩ rfl
      (by simp [fills, State.working, here.mode, here.stack, here.work]) owner embryo (view_forkFill here other)
  | false =>
    unfold State.forkFill
    rw [if_neg (by decide)]
    refine .discard p np ({ · with
      ctime := int32 s.ticks, lastExecuted := 0, ticks := fun _ => 0, state := .unused }) own owner embryo
      (fun k => ⟨rfl, rfl, rfl, rfl, rfl, .inr (.inl rfl)⟩) ?_
    refine (view_setCur (g := ({ · with owns := none, raw := false })) (s.allocEnd np false) c p here.stack ?_).trans ?_
    · simp [allocEnd, resetTimes, other, core, owns, raw, masked, here.work]
    · rw [view_allocEnd_fail]
      rfl

theorem change_forkCopy (here : At s c p (.filled np)) (ok : Bool) : Change pol s (s.forkCopy c np ok) c a := by
  obtain ⟨own, _, owner, embryo, other⟩ := h.parent here rfl
  unfold State.forkCopy
  split_ifs
  · refine .quiet ((view_setCur (g := id) (s.setProc np _) c p here.stack ?_).trans ?_)
    · simp [core, owns, raw, masked, other, here.work]
    · rw [View.setCore_self rfl, view_setProc_self _ _ rfl]
  refine .discard p np ({ · with state := .unused }) own owner embryo
    (fun k => ⟨rfl, rfl, rfl, rfl, rfl, .inl rfl⟩) ?_
  refine (view_setCur (g := ({ · with owns := none, raw := false })) (s.setProc np _) c p here.stack ?_).trans ?_
  · simp [core, owns, raw, masked, other, here.work]
  · rw [view_setProc (g := ({ · with state := .unused })) _ _ rfl]
    rfl

theorem change_forkPublish (here : At s c p (.copied np)) (free : s.lock = none) :
    Change pol s ((s.acquire c).forkPublish c np) c a := by
  obtain ⟨own, running, owner, embryo, -⟩ := h.parent here rfl
  have ready (me : Slot) (same : Sum.inr p = (Sum.inr me : Fin n ⊕ Slot)) : ((view s).core me).raw = false := by
    obtain rfl : p = me := Sum.inr.inj same
    simp [view, core, raw, here.work]
  refine .publish (.inr p) np ⟨own, running⟩ (fun same => by cases same) ready owner embryo
    (h.away (c := c) (.inl free) (by simp [embryo])) ?_
  refine view_publish (P := fun t => view t = _) fun u published cpu work => ?_
  refine (view_setCur (g := ({ · with owns := none, raw := false })) u c p (by rw [cpu]; exact here.stack) ?_).trans ?_
  · have copied : (u.proc p).work = .copied np := (work p).trans here.work
    simp [core, owns, raw, masked, copied]
  · rw [published]
    rfl

theorem change_exit (mode : (s.cpu c).mode = .thread ∨ (s.cpu c).mode = .trapEnd)
    (run : ∀ p, (s.cpu c).proc = some p → (s.cpu c).stack = some p → (s.proc p).work = .run) :
    Change pol s (s.exit c) c a := by
  have runs : Runs s c := by
    have ok := h.control.cpu c
    rcases mode with mode | mode <;> rw [mode] at ok <;> exact ok.2
  obtain ⟨p, stack, own, -, running⟩ := runs
  have work := run p own stack
  unfold State.exit
  rw [myproc, own]
  dsimp only
  split_ifs
  · exact .halt (view_halt s c (by simp [processIsSleeping]))
  rcases mode with mode | mode
  · refine .quiet ?_
    rw [view_goto_self _ _ (by simp [stage, mode])]
    exact view_setProc_self _ _ (by simp [core, owns, raw, masked, work, mode])
  · refine .exit p mode own running ?_
    rw [view_goto, view_setProc (g := ({ · with masked := true })) _ _ (by simp [core, owns, raw, masked, work, mode])]
    rfl

omit h in
theorem change_exitLock {masked : Bool} (here : At s c p (.exiting masked)) :
    Change pol s ((s.acquire c).exitLock c) c a := by
  unfold State.exitLock
  rw [acquire_cpu, here.stack]
  exact .quiet (view_goto_self _ c (by simp [stage, here.mode]))

omit h in
theorem change_block {f : Proc → Proc} (plain : stage (s.cpu c).mode = .plain)
    (own : (s.cpu c).proc = some p) (running : (s.proc p).state = .running) {state : ProcState}
    (blocked : state = .sleeping ∨ state = .zombie) (same : view u = view s)
    (cpu : u.cpu = s.cpu) (proc : u.proc = s.proc)
    (hf : core (f (s.proc p)) = { core (s.proc p) with state := state }) :
    Change pol s ((u.setProc p f).goto c (.sched context)) c a := by
  refine .block p state own running blocked ?_
  rw [view_goto_plain _ _ (by rfl) (by rw [setProc_cpu, cpu, plain]),
    view_setProc (g := ({ · with state := state })) _ _ (by rw [proc, hf]), same]

theorem change_reparent (mode : (s.cpu c).mode = .reparent i) : Change pol s (s.reparent c i) c a := by
  obtain ⟨_, stack, own, -, running⟩ := (h.control.ok mode).2
  have plain : stage (s.cpu c).mode = .plain := by simp [stage, mode]
  simp only [State.reparent, stack]
  split_ifs with within child zombie
  · refine .quiet ?_
    rw [view_goto_plain _ _ (by rfl) (by exact plain)]
    exact view_setProc_self _ _ rfl
  · refine .quiet ?_
    rw [view_goto_plain _ _ (by rfl) (by exact plain)]
    exact view_setProc_self _ _ rfl
  · exact .quiet (view_goto_plain s c rfl plain)
  · exact change_block plain own running (.inr rfl) rfl rfl rfl rfl

omit h in
theorem change_sleep {chan : Chan} {caller : Context} (plain : stage (s.cpu c).mode = .plain)
    (own : (s.cpu c).proc = some p) (running : (s.proc p).state = .running)
    (same : view u = view s) (cpu : u.cpu = s.cpu) (proc : u.proc = s.proc) :
    Change pol s (u.sleep c chan caller) c a := by
  unfold State.sleep
  rw [myproc, cpu, own]
  exact change_block plain own running (.inl rfl) same cpu proc rfl

theorem change_waiting {kind : WaitKind} (mode : (s.cpu c).mode = .waiting kind) :
    Change pol s (s.waiting c kind) c a := by
  obtain ⟨me, stack, own, -, running⟩ := (h.control.ok mode).2
  have plain : stage (s.cpu c).mode = .plain := by simp [stage, mode]
  unfold State.waiting
  rw [stack]
  dsimp only
  cases found : s.zombieChild me with
  | none =>
    dsimp only
    split_ifs
    · refine .quiet ?_
      rw [view_resume (by simpa using plain), view_release, view_ret]
    · exact change_sleep plain own running rfl rfl rfl
  | some p =>
    obtain ⟨f, reaped, unused⟩ : ∃ f : Core →
      Core, core (reap kind (s.proc p)) = f (core (s.proc p)) ∧ ∀ k, Freed s.ticks k (f k) := by
      cases kind with
      | wait => exact ⟨({ · with pid := 0, state := .unused }), rfl, fun k => ⟨rfl, rfl, rfl, rfl, rfl, .inl rfl⟩⟩
      | waitx =>
        exact ⟨({ · with pid := 0, state := .unused, ctime := 0 }), rfl, fun k =>
          ⟨rfl, rfl, rfl, rfl, rfl, .inr (.inr rfl)⟩⟩
    refine .reap p f (zombieChild_zombie found) unused ?_
    dsimp only
    split_ifs
    · rw [view_resume (by simpa using plain), view_release, view_ret, view_setProc_self _ _ (by rfl)]
      exact view_setProc s p reaped
    · rw [view_resume (by simpa using plain), view_release, view_ret]
      exact view_setProc s p reaped

theorem change_sched (mode : (s.cpu c).mode = .sched context) : Change pol s (s.sched c context) c a := by
  obtain ⟨held, ⟨p, own, -, stopped⟩, -⟩ := h.control.ok mode
  simp only [State.sched, myproc, own, held, ne_eq, not_true_eq_false, stopped, if_false]
  refine .quiet ?_
  rw [view_setCpu_self _ _ (by simp [turn, stage, mode])]
  exact view_setProc_self _ _ rfl

theorem change_resumed (mode : (s.cpu c).mode = .resumed) : Change pol s (s.resumed c) c a := by
  obtain ⟨p, stack, -⟩ := (h.control.ok mode).2
  have plain : stage (s.cpu c).mode = .plain := by simp [stage, mode]
  have same : view (s.setProc p fun k => { k with chan := none }) = view s := view_setProc_self _ _ rfl
  unfold State.resumed
  rw [stack]
  dsimp only
  cases (s.proc p).context with
  | forkret | yield => exact .quiet (view_goto_self s.release c (by simp [stage, mode]))
  | sleep =>
    refine .quiet ?_
    rw [view_goto_plain _ _ (by rfl) (by exact plain), view_release, same]
  | wait =>
    refine .quiet ?_
    rw [view_goto_plain _ _ (by rfl) (by exact plain), same]
  | exit => exact .halt (view_halt s c (by simp [processIsSleeping]))

end Call

theorem transition_change (h : WellFormed s) (taken : Transition pol s c a t) : Change pol s t c a := by
  cases taken with
  | mpmain mode => exact change_mpmain mode
  | startothers k mode => exact change_startothers mode
  | started k mode => exact .quiet (view_goto_self s c (by simp [stage, mode]))
  | userinit mode free => exact change_userinit h mode free
  | userFill p ok mode => exact change_userFill h mode ok
  | userCopy p ok mode => exact change_userCopy mode ok
  | userPublish p mode free => exact change_userPublish h mode free
  | enter mode => exact change_enter h mode
  | resetHead i mode => exact change_resetHead h mode
  | resetTail q mode => exact change_resetTail mode
  | pass mode free => exact change_pass h mode free
  | back mode => exact change_back h mode
  | ageing q i mode => exact change_ageing h mode
  | timer mode => exact change_timer h mode
  | tick mode => exact change_wakeup (by simp [stage, mode])
  | account mode => exact change_account h mode
  | yield mode => exact change_yield h mode
  | trapEnd mode stopped =>
    obtain ⟨p, -, own, -, running⟩ := (h.control.ok mode).2
    exact absurd running (stopped p own)
  | wakeup _ mode =>
    refine change_wakeup ?_
    rcases mode with mode | mode <;> simp [stage, mode]
  | wakeup1 _ i r mode => exact change_wakeup1 h mode
  | kill p pid _ free => exact change_kill h free pid
  | chpr p priority here => exact change_chpr h here priority
  | badTrap => exact change_badTrap
  | fork p here free => exact change_fork h here free
  | forkFill p _ ok here => exact change_forkFill h here ok
  | forkCopy p _ ok here => exact change_forkCopy h here ok
  | forkPublish p _ here free => exact change_forkPublish h here free
  | exit mode run => exact change_exit h mode run
  | exitLock p _ here => exact change_exitLock here
  | reparent i mode => exact change_reparent h mode
  | wait p _ here => exact .quiet (view_goto_self _ c (by simp [stage, here.mode]))
  | waiting _ mode => exact change_waiting h mode
  | sleep p _ mode stack =>
    obtain ⟨-, -, own, running⟩ := h.control.thread mode stack
    exact change_sleep (by simp [stage, mode]) own running rfl rfl rfl
  | sched _ mode => exact change_sched h mode
  | resumed mode => exact change_resumed h mode

theorem step_change (h : WellFormed s) (action : step pol s (c, a) = some t) : Change pol s t c a :=
  transition_change h (step_transition action)

theorem transition_control (h : WellFormed s) (taken : Transition pol s c a t) : Control t := by
  have owned {p np : Slot} {w : Work} (here : At s c p w) (takes : owns w = some np) : (s.proc np).state = .embryo :=
    h.owned.embryo (.inr p) np (by simpa [View.Owns, view, core, here.work] using takes)
  have booted {p : Slot} (booting : stage (s.cpu c).mode = .boots p) : (s.proc p).state = .embryo :=
    h.owned.embryo (.inl c) p booting
  cases taken with
  | mpmain mode => exact control_mpmain h.control mode
  | startothers k mode => exact control_startothers h.control mode
  | started k mode =>
    have ok := h.control.ok mode
    exact h.control.goto ok
  | userinit mode free => exact control_userinit h.control mode free
  | userFill p ok mode => exact control_userFill h.control ok mode (booted (by simp [stage, mode]))
  | userCopy p ok mode => exact control_userCopy h.control ok mode
  | userPublish p mode free =>
    exact control_userPublish h.control mode free (booted (by simp [stage, mode]))
  | enter mode => exact control_enter h.control mode
  | resetHead i mode => exact control_resetHead h.control mode
  | resetTail q mode => exact control_resetTail h.control mode
  | pass mode free => exact control_pass h.control mode free
  | back mode => exact control_back h.control mode
  | ageing q i mode => exact control_ageing h.control mode
  | timer mode => exact control_timer h.control (mode.imp id And.left)
  | tick mode free => exact control_tick h.control mode free
  | account mode => exact control_account h.control mode
  | yield mode free => exact control_yield h.control mode free
  | trapEnd mode => exact control_trapEnd h.control mode
  | wakeup _ mode free => exact control_wakeup h.control mode free
  | wakeup1 _ i r mode => exact control_wakeup1 h.control mode
  | kill p pid _ free => exact control_kill h.control free pid
  | chpr p priority here free => exact control_chpr h.control here.mode here.stack free priority
  | badTrap => exact control_badTrap h.control
  | fork p _ free => exact control_fork h.control free
  | forkFill p _ ok here => exact control_forkFill h.control (owned here rfl) ok
  | forkCopy p _ ok here => exact control_forkCopy h.control (owned here rfl) ok
  | forkPublish p _ here free => exact control_forkPublish h.control free (owned here rfl)
  | exit mode => exact control_exit h.control mode
  | exitLock p _ here free => exact control_exitLock h.control here.mode here.stack free
  | reparent i mode => exact control_reparent h.control mode
  | wait p kind here free => exact control_wait h.control here.mode here.stack free kind
  | waiting _ mode => exact control_waiting h.control mode
  | sleep p _ mode stack _ free =>
    exact (Body.acquire free).sleep h.control rfl (h.control.thread mode stack).2.1
  | sched _ mode => exact control_sched h.control mode
  | resumed mode => exact control_resumed h.control mode

end Xv6.Proof
