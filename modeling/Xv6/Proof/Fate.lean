import Xv6.Proof.Exclusion

namespace Xv6.Proof
open Xv6.Library Xv6.Kernel State

variable {n : Nat} {pol : Policy} {s t : State n} {c : Fin n} {a : Action} {p : Slot}

def live : ProcState → Bool
  | .unused | .embryo => false
  | _ => true

structure Record where
  pid : Int
  ctime : Int
  lastExecuted : Int
  ticks : Level → Int

def Core.record (k : Core) : Record := ⟨k.pid, k.ctime, k.lastExecuted, k.ticks⟩

def record (s : State n) (p : Slot) : Record := (core (s.proc p)).record

inductive Fate (pol : Policy) (s t : State n) (c : Fin n) (a : Action) (p : Slot) : Prop
  | keep (state : (t.proc p).state = (s.proc p).state) (record : record t p = record s p)
  | take (unused : (s.proc p).state = .unused) (embryo : (t.proc p).state = .embryo)
      (record : record t p = { record s p with pid := s.nextpid })
      (taker : (s.cpu c).mode = .userinit ∧ stage (t.cpu c).mode = .boots p ∨
        ∃ me, (s.cpu c).proc = some me ∧ (s.proc me).state = .running)
  | fill (action : a = .fill true) (embryo : (s.proc p).state = .embryo)
      (still : (t.proc p).state = .embryo)
      (record : record t p = { record s p with ctime := int32 s.ticks, lastExecuted := 0, ticks := fun _ => 0 })
      (target : fills s c = some p)
  | free (old : (s.proc p).state = .embryo ∨ (s.proc p).state = .zombie)
      (unused : (t.proc p).state = .unused) (ctime : (t.proc p).ctime = (s.proc p).ctime ∨
        (t.proc p).ctime = int32 s.ticks ∨ (t.proc p).ctime = 0)
  | publish (embryo : (s.proc p).state = .embryo) (runnable : (t.proc p).state = .runnable)
      (record : record t p = record s p)
      (maker : (∃ me, ((view s).core me).owns = some p ∧ ((view s).core me).raw = false) ∨
        a = .go ∧ (view s).Owns (.inl c) p)
  | dispatch (action : a = .go) (runnable : (s.proc p).state = .runnable)
      (running : (t.proc p).state = .running) (selects : pol ≠ .mlfq → Selects pol s p)
      (record : record t p = { record s p with
        lastExecuted := if pol = .pbs then int32 s.ticks else (s.proc p).lastExecuted })
  | charge (q : Level) (due : a = .go ∧ (s.cpu c).mode = .account ∧ (s.cpu c).proc = some p)
      (running : (s.proc p).state = .running) (still : (t.proc p).state = .running)
      (record : record t p = { record s p with
        lastExecuted := int32 s.ticks
        ticks := Function.update (s.proc p).ticks q (int32 ((s.proc p).ticks q + 1)) })
  | yield (mode : (s.cpu c).mode = .trapEnd) (running : (s.proc p).state = .running)
      (runnable : (t.proc p).state = .runnable) (record : record t p = record s p)
  | block (running : (s.proc p).state = .running)
      (blocked : (t.proc p).state = .sleeping ∨ (t.proc p).state = .zombie)
      (record : record t p = record s p)
  | wake (asleep : (s.proc p).state = .sleeping) (runnable : (t.proc p).state = .runnable)
      (record : record t p = record s p)

section Owners
variable {v : View n} {o : Fin n ⊕ Slot} {r : Slot}

theorem own_alike : ((v.own o p).core r).state = (v.core r).state ∧
    ((v.own o p).core r).record = (v.core r).record := by
  rw [View.own_core]
  split_ifs <;> exact ⟨rfl, rfl⟩

theorem disown_alike : ((v.disown o).core r).state = (v.core r).state ∧
    ((v.disown o).core r).record = (v.core r).record := by
  rw [View.disown_core]
  split_ifs <;> exact ⟨rfl, rfl⟩

theorem filled_alike : ((v.filled o).core r).state = (v.core r).state ∧
    ((v.filled o).core r).record = (v.core r).record := by
  rw [View.filled_core]
  split_ifs <;> exact ⟨rfl, rfl⟩

theorem push_alike {q : Level} :
    ((v.push q p).core r).state = (v.core r).state ∧ ((v.push q p).core r).record = (v.core r).record := by
  rw [View.push_core]
  split_ifs with same
  · subst same
    exact ⟨rfl, rfl⟩
  · exact ⟨rfl, rfl⟩

end Owners

theorem Change.fate (change : Change pol s t c a) (p : Slot) : Fate pol s t c a p := by
  have keep (alike : ((view t).core p).state = ((view s).core p).state ∧
      ((view t).core p).record = ((view s).core p).record) : Fate pol s t c a p := .keep alike.1 alike.2
  have touch {r : Slot} {f : Core → Core} (alike : ((view t).core p).state =
      (((view s).setCore r f).core p).state ∧ ((view t).core p).record = (((view s).setCore r f).core p).record)
      (here : p = r → (t.proc p).state = (f (core (s.proc p))).state →
        record t p = (f (core (s.proc p))).record → Fate pol s t c a p) : Fate pol s t c a p := by
    by_cases same : p = r
    · subst same
      rw [View.setCore_core_self] at alike
      exact here rfl alike.1 alike.2
    · rw [View.setCore_core_ne _ _ _ same] at alike
      exact keep alike
  have ctimes {f : Core → Core} (unused : ∀ k, Freed s.ticks k (f k))
      (kept : record t p = (f (core (s.proc p))).record) : (t.proc p).ctime = (s.proc p).ctime ∨
        (t.proc p).ctime = int32 s.ticks ∨ (t.proc p).ctime = 0 := by
    have same : (t.proc p).ctime = (f (core (s.proc p))).ctime := congrArg Record.ctime kept
    rw [same]
    exact (unused (core (s.proc p))).ctime
  cases change with
  | quiet view | halt view | timer _ _ _ view | timerDone _ _ view | enterReset _ _ view | resetDone _ view
  | resetHead _ _ view | resetTail _ _ view | asleep _ _ _ _ view | leave _ _ _ _ _ _ view
  | ageingPanic _ _ _ _ _ _ _ view =>
    exact keep (by rw [view]; exact ⟨rfl, rfl⟩)
  | requeue _ _ _ _ _ _ _ _ _ view | promote _ _ _ _ _ _ _ _ _ view =>
    exact keep (by rw [view]; exact push_alike)
  | chpr r priority _ view =>
    exact touch (f := ({ · with priority := priority })) (by rw [view]; exact ⟨rfl, rfl⟩)
      fun same state record => .keep state record
  | exit r _ _ _ view =>
    exact touch (f := ({ · with masked := true })) (by rw [view]; exact ⟨rfl, rfl⟩)
      fun same state record => .keep state record
  | bootFail r f _ embryo unused view =>
    exact touch (by rw [view]; exact ⟨rfl, rfl⟩) fun same state record =>
      .free (.inl (same ▸ embryo)) (state.trans (unused _).state) (ctimes unused record)
  | alloc o r acts early _ unused _ view =>
    refine touch (f := ({ · with state := .embryo, pid := s.nextpid, priority := 60, queue := 0 }))
      (by rw [view]; exact own_alike) fun same state record => .take (same ▸ unused) state record ?_
    cases o with
    | inl d =>
      obtain rfl : d = c := acts
      refine .inl ⟨early rfl, ?_⟩
      change ((Proof.view t).turn d).stage = _
      simp [view, View.own, same]
    | inr me => exact .inr ⟨me, acts⟩
  | fill o r _ action target owns embryo view =>
    exact touch (f := ({ · with
      ctime := int32 s.ticks, lastExecuted := 0, ticks := fun _ => 0, owns := none, raw := false,
      masked := false })) (by rw [view]; exact filled_alike) fun same state record =>
        .fill action (same ▸ embryo) (state.trans (same ▸ embryo))
          (by rw [record]; simp only [Core.record, core, Proof.record])
          (same ▸ target)
  | discard _ r f _ _ embryo unused view =>
    exact touch (by rw [view]; exact disown_alike) fun same state record =>
      .free (.inl (same ▸ embryo)) (state.trans (unused _).state) (ctimes unused record)
  | publish o r acts last ready owns embryo _ view =>
    refine touch (f := ({ · with state := .runnable })) ?_ fun same state record =>
      .publish (same ▸ embryo) state record ?_
    · rw [view]
      exact ⟨disown_alike.1.trans push_alike.1, disown_alike.2.trans push_alike.2⟩
    · subst same
      cases o with
      | inl d =>
        obtain rfl : d = c := acts
        exact .inr ⟨(last rfl).1, owns⟩
      | inr me => exact .inl ⟨me, owns, ready me rfl⟩
  | reap r f zombie unused view =>
    exact touch (by rw [view]; exact ⟨rfl, rfl⟩) fun same state record =>
      .free (.inr (same ▸ zombie)) (state.trans (unused _).state) (ctimes unused record)
  | dispatch r action _ _ selects view =>
    refine touch (f := fun k => { k with
      state := .running
      lastExecuted := if pol = .pbs then int32 s.ticks else k.lastExecuted }) ?_ fun same state record =>
        .dispatch action (same ▸ selects.runnable) state (fun _ => same ▸ selects) record
    rw [view]
    exact ⟨rfl, rfl⟩
  | pick r _ mlfq action _ _ _ runnable _ view | again r mlfq action _ _ runnable _ view =>
    refine touch (f := ({ · with state := .running })) ?_ fun same state record =>
      .dispatch action (same ▸ runnable) state (fun other => absurd mlfq other) ?_
    · rw [view]
      exact ⟨rfl, rfl⟩
    · rw [record, if_neg (by simp [mlfq])]
      rfl
  | charge r q action mode own running _ view =>
    refine touch (f := fun k => { k with
      lastExecuted := int32 s.ticks
      ticks := Function.update k.ticks q (int32 (k.ticks q + 1)) }) ?_ fun same state record =>
        .charge q ⟨action, mode, same ▸ own⟩ (same ▸ running) (state.trans (same ▸ running))
          (by rw [record]; simp only [Core.record, core, Proof.record])
    rw [view]
    exact ⟨rfl, rfl⟩
  | yield r mode _ running view =>
    refine touch (f := ({ · with state := .runnable })) ?_ fun same state record =>
      .yield mode (same ▸ running) state record
    rw [view]
    exact ⟨rfl, rfl⟩
  | block r state _ running blocked view =>
    refine touch (f := ({ · with state := state })) ?_ fun same next record =>
      .block (same ▸ running) (blocked.imp next.trans next.trans) record
    rw [view]
    exact ⟨rfl, rfl⟩
  | wake r q asleep _ _ view =>
    refine touch (f := ({ · with state := .runnable })) ?_ fun same state record =>
      .wake (same ▸ asleep) state record
    rw [view]
    exact push_alike

theorem int32_tick {k : Nat} (small : k < 2 ^ 31) : int32 k = k := by
  unfold int32
  rw [Int.bmod_def]
  split_ifs <;> omega

theorem Change.ticks (change : Change pol s t c a) : t.ticks = s.ticks ∨ t.ticks = (s.ticks + 1) % 2 ^ 32 := by
  change (view t).ticks = (view s).ticks ∨ (view t).ticks = _
  cases change
  case timer action plain unmasked view =>
    rw [view]
    dsimp only
    split_ifs
    · exact .inr rfl
    · exact .inl rfl
  all_goals
    rename view t = _ => view
    exact .inl (by simp [view])

theorem Dispatches.selects (h : Dispatches pol (s, (c, a)) p) (wf : WellFormed s) (other : pol ≠ .mlfq) :
    Selects pol s p := by
  obtain ⟨_, t, action, _⟩ := h
  cases (step_change wf action).fate p with
  | dispatch _ _ _ selects => exact selects other
  | keep => simp_all
  | take => simp_all
  | fill => simp_all
  | free => simp_all
  | publish => simp_all
  | charge => simp_all
  | yield => simp_all
  | block => simp_all
  | wake => simp_all

end Xv6.Proof
