import Xv6.Proof.Lifetime

namespace Xv6.Proof
open Xv6.Library Xv6.Kernel State

variable {n : Nat} {pol : Policy} {s t : State n} {v : Table n} {bsp c d : Fin n} {a : Action} {p q r me : Slot}
  {f : Life → Life} {x : Errand} {k : ProcState} {o : Option Slot} {w : Work} {chan : Option Chan}

section Headed

def Nobody (v : Table n) : Prop := ∀ p, live (v.life p).state = false

structure Headed (bsp : Fin n) (v : Table n) : Prop where
  only : ∀ d, (v.errand d).booting → d = bsp
  start : ∀ d, (v.errand d).booting → Nobody v
  named : ∀ d p, v.errand d = .boots p true → v.initproc = some p
  head : Nobody v ∨ ∃ q, v.initproc = some q ∧ alive (v.life q).state
  stays : ∀ p, v.initproc = some p → exiting (v.life p).work = false

theorem Nobody.set (h : Nobody v) (state : live (f (v.life p)).state → live (v.life p).state) : Nobody (v.set p f) := by
  intro r
  rw [Table.set_life]
  split_ifs
  · exact Bool.eq_false_iff.mpr fun alive => by simp [h p] at state; simp [state] at alive
  · exact h r

theorem not_nobody (running : (s.proc p).state = .running) : ¬ Nobody (table s) := by
  intro nobody
  have none := nobody p
  have here : ((table s).life p).state = .running := running
  rw [here] at none
  cases none

theorem Deed.initproc (deed : Deed s t c a) : t.initproc = s.initproc ∨ (∃ r, (table s).errand c = .boots r false) ∧
    (∀ p, live (t.proc p).state → live (s.proc p).state) ∧
    ∀ p, t.initproc = some p → exiting ((table t).life p).work = false := by
  cases deed
  case fill o r _ maker _ table =>
    cases o with
    | none =>
      have life : (Proof.table t).life =
        ((Proof.table s).set r fun k => { k.reset s.ticks with work := .run }).life := by
        rw [table]; rfl
      refine .inr ⟨⟨r, maker.boot rfl⟩, fun p here => ?_, fun p init => ?_⟩
      · rw [← table_state, life, Table.set_keeps (·.state) rfl] at here
        exact here
      · obtain rfl : r = p := Option.some.inj ((congrArg Table.initproc table).symm.trans init)
        rw [life, Table.set_life_self]
        rfl
    | some => exact .inl ((congrArg Table.initproc table).trans (by simp))
  case fillFail o r _ maker _ table =>
    cases o with
    | none =>
      have life : (Proof.table t).life =
        ((Proof.table s).set r fun k => { k.reset s.ticks with state := .unused }).life := by
        rw [table]; rfl
      refine .inr ⟨⟨r, maker.boot rfl⟩, fun p here => ?_, fun p init => ?_⟩
      · rw [← table_state, life, Table.set_life] at here
        split_ifs at here
        · cases here
        · exact here
      · cases (congrArg Table.initproc table).symm.trans init
    | some => exact .inl ((congrArg Table.initproc table).trans (by simp))
  all_goals
    rename table t = _ => same
    exact .inl ((congrArg Table.initproc same).trans (by simp [Proof.table]))

theorem Headed.deed (h : Headed bsp (table s)) (leaving : Leaving (table s)) (deed : Deed s t c a) :
    Headed bsp (table t) := by
  have boots {d : Fin n} (after : ((table t).errand d).booting) : ((table s).errand d).booting := by
    rcases deed.errand d with same | ⟨rfl, next⟩
    · exact same ▸ after
    · exact next.booting after
  have unique {d : Fin n} {x : Errand} (first : ((table s).errand d).booting)
    (second : (table s).errand c = x) (booting : x.booting) : d = c :=
    (h.only d first).trans (h.only c (second ▸ booting)).symm
  -- a process that appears where there was none is the first one
  have appears {p : Slot} (nobody : Nobody (table s)) (here : live (t.proc p).state) : (t.proc p).state = .runnable ∧
      (table s).errand c = .boots p true ∧ (table t).errand c = .none := by
    rcases (deed.lot p).live here with before | ⟨runnable, ⟨me, running, -⟩ | booted⟩
    · exact absurd before (Bool.eq_false_iff.mp (nobody p))
    · exact absurd nobody (not_nobody running)
    · exact ⟨runnable, booted⟩
  refine ⟨fun d after => h.only d (boots after), fun d after p => ?_, fun d p after => ?_, ?_, fun p init => ?_⟩
  · refine Bool.eq_false_iff.mpr fun here => ?_
    obtain ⟨-, booted, done⟩ := appears (h.start d (boots after)) here
    obtain rfl := unique (boots after) booted rfl
    rw [done] at after
    cases after
  · rcases deed.errand d with same | ⟨rfl, next⟩
    · rcases deed.initproc with init | ⟨⟨r, booted⟩, -⟩
      · exact init.trans (h.named d p (same ▸ after))
      · obtain rfl := unique (boots (by rw [after]; rfl)) booted rfl
        cases booted.symm.trans (same.symm.trans after)
    · exact (next.named p after).1
  · rcases h.head with nobody | ⟨q, init, here⟩
    · by_cases some : ∃ p, live (t.proc p).state
      · obtain ⟨p, here⟩ := some
        obtain ⟨runnable, booted, -⟩ := appears nobody here
        rcases deed.initproc with same | ⟨⟨r, other⟩, -⟩
        · exact .inr ⟨p, same.trans (h.named c p booted), by rw [table_state, runnable]; rfl⟩
        · cases booted.symm.trans other
      · exact .inl fun p => Bool.eq_false_iff.mpr fun here => some ⟨p, here⟩
    · rcases deed.initproc with same | ⟨⟨r, booted⟩, -⟩
      · rcases (deed.lot q).alive here with after | zombie
        · exact .inr ⟨q, same.trans init, after⟩
        · have run := h.stays q init
          rcases (deed.lot q).exited zombie with ⟨-, before | ⟨i, mode, -, stack, -⟩⟩
          · simp [table_state, before, alive] at here
          · simp [leaving.leaver c q (by simp [table, errand, mode, Errand.leaver, stack])] at run
      · have none := h.start c (by rw [booted]; rfl) q
        simp [live_of_alive here] at none
  · rcases deed.initproc with same | ⟨-, -, stays⟩
    · rcases (deed.lot p).work with work | ⟨-, work⟩ | ⟨_, w, -, -, work, keeps, -⟩
      · rw [work]
        exact h.stays p (same.symm.trans init)
      · rw [work]
        rfl
      · rw [work]
        exact keeps (same.symm.trans init)
    · exact stays p init

end Headed

section Family

def Errand.past : Errand → Option (Slot × Nat)
  | .passes (some me) i => some (me, i)
  | .hands (some me) _ _ i => some (me, i + 1)
  | _ => Option.none

theorem Errand.leaver_of_past {k : Nat} (past : x.past = some (me, k)) : x.leaver = some me := by
  cases x with
  | passes m i => cases m <;> simp_all [Errand.past, Errand.leaver]
  | hands m _ _ i => cases m <;> simp_all [Errand.past, Errand.leaver]
  | _ => cases past

structure Family (v : Table n) : Prop where
  unused : ∀ p, (v.life p).state = .unused → (v.life p).parent = none
  embryo : ∀ p me, (v.life p).state = .embryo → (v.life p).parent = some me → (v.life me).work = .copied p
  copied : ∀ p me, (v.life me).work = .copied p → (v.life p).parent = some me
  busy : ∀ p me, (v.life me).work = .copied p → alive (v.life me).state
  alone : ∀ p, v.initproc = some p → (v.life p).parent = none
  other : ∀ p, (v.life p).parent ≠ some p
  parent : ∀ p, live (v.life p).state → v.initproc ≠ some p → ∃ q, (v.life p).parent = some q ∧ alive (v.life q).state
  passed : ∀ d me k, (v.errand d).past = some (me, k) → ∀ r : Slot, r.val < k → (v.life r).parent ≠ some me

section
variable (h : Family v)
include h

theorem Family.set (parent : (f (v.life p)).parent = (v.life p).parent)
    (state : (f (v.life p)).state = (v.life p).state ∨ alive (v.life p).state ∧ alive (f (v.life p)).state)
    (old : ∀ r, (v.life p).work = .copied r → (f (v.life p)).work = .copied r ∨ (v.life r).state ≠ .embryo)
    (new : ∀ r, (f (v.life p)).work = .copied r → (v.life r).parent = some p ∧ alive (v.life p).state) :
    Family (v.set p f) := by
  have parents (r : Slot) : ((v.set p f).life r).parent = (v.life r).parent :=
    Table.set_keeps (·.parent) parent r
  have states (r : Slot) : ((v.set p f).life r).state = (v.life r).state ∨
    alive (v.life r).state ∧ alive ((v.set p f).life r).state := by
    rw [Table.set_life]
    split_ifs with same
    · exact same ▸ state
    · exact .inl rfl
  refine ⟨fun r unused => ?_, fun r me embryo child => ?_, fun r me work => ?_, fun r me work => ?_, fun r init => ?_,
    fun r => ?_, fun r here other => ?_, fun d me k past r below => ?_⟩
  · rw [parents]
    rcases states r with same | ⟨-, here⟩
    · exact h.unused r (same ▸ unused)
    · simp [unused, alive] at here
  · rw [parents] at child
    have before : (v.life r).state = .embryo := by
      rcases states r with same | ⟨-, here⟩
      · exact same ▸ embryo
      · simp [embryo, alive] at here
    have work := h.embryo r me before child
    rw [Table.set_life]
    split_ifs with same
    · subst same
      exact (old r work).resolve_right fun gone => gone before
    · exact work
  · rw [parents]
    rw [Table.set_life] at work
    split_ifs at work with same
    · exact same ▸ (new r work).1
    · exact h.copied r me work
  · have before : alive (v.life me).state := by
      rw [Table.set_life] at work
      split_ifs at work with same
      · exact same ▸ (new r work).2
      · exact h.busy r me work
    rcases states me with same | ⟨-, here⟩
    · exact same ▸ before
    · exact here
  · rw [parents]
    exact h.alone r init
  · rw [parents]
    exact h.other r
  · have before : live (v.life r).state := by
      rcases states r with same | ⟨here, -⟩
      · exact same ▸ here
      · exact live_of_alive here
    obtain ⟨q, child, up⟩ := h.parent r before other
    refine ⟨q, (parents r).trans child, ?_⟩
    rcases states q with same | ⟨-, up⟩
    · exact same ▸ up
    · exact up
  · rw [parents]
    exact h.passed d me k past r below

theorem Family.keep (parent : (f (v.life p)).parent = (v.life p).parent) (work : (f (v.life p)).work = (v.life p).work)
    (state : (f (v.life p)).state = (v.life p).state ∨ alive (v.life p).state ∧ alive (f (v.life p)).state) :
    Family (v.set p f) :=
  h.set parent state (fun _ copied => .inl (work ▸ copied)) fun r copied =>
    ⟨h.copied r p (work ▸ copied), h.busy r p (work ▸ copied)⟩

theorem Family.send (passed : ∀ me k, x.past = some (me, k) → ∀ r : Slot, r.val < k → (v.life r).parent ≠ some me) :
    Family (v.send c x) := by
  refine ⟨h.unused, h.embryo, h.copied, h.busy, h.alone, h.other, h.parent, fun d me k past => ?_⟩
  rw [Table.send_errand] at past
  split_ifs at past
  · exact passed me k past
  · exact h.passed d me k past

theorem Family.rest (past : x.past = none) : Family (v.send c x) :=
  h.send fun me k here => by rw [past] at here; cases here

theorem Family.goOn (past : x.past = none)
    (old : ∀ me r, o = some me → (v.life me).work = .copied r → (v.life r).state ≠ .embryo)
    (new : ∀ r, w ≠ .copied r) : Family (v.goOn c o w x) := by
  cases o with
  | none => exact h.rest past
  | some me =>
    exact h.set (f := ({ · with work := w })) rfl (.inl rfl) (fun r work => .inr (old me r rfl work))
      fun r work => absurd work (new r)

theorem Family.crown (nobody : Nobody v) (alone : ∀ p, o = some p → (v.life p).parent = none) :
    Family { v with initproc := o } where
  unused := h.unused
  embryo := h.embryo
  copied := h.copied
  busy := h.busy
  alone := alone
  other := h.other
  parent p here := by
    have none := nobody p
    rw [here] at none
    cases none
  passed := h.passed

theorem Family.recycle (dead : alive (v.life p).state = false) (unborn : live (f (v.life p)).state = false)
    (work : (f (v.life p)).work = (v.life p).work) (parent : (f (v.life p)).parent = none)
    (free : ∀ me, (v.life me).work ≠ .copied p) : Family (v.set p f) := by
  have works (r : Slot) : ((v.set p f).life r).work = (v.life r).work :=
    Table.set_keeps (·.work) work r
  have parents (r : Slot) {q : Slot} (child : ((v.set p f).life r).parent = some q) : r ≠ p ∧
    (v.life r).parent = some q := by
    rw [Table.set_life] at child
    split_ifs at child with same
    · rw [parent] at child
      cases child
    · exact ⟨same, child⟩
  refine ⟨fun r unused => ?_, fun r me embryo child => ?_,
    fun r me copied => ?_, fun r me copied => ?_, fun r init => ?_,
    fun r child => ?_, fun r here other => ?_, fun d me k past r below child => ?_⟩
  · rw [Table.set_life] at unused ⊢
    split_ifs at unused ⊢
    · exact parent
    · exact h.unused r unused
  · obtain ⟨same, child⟩ := parents r child
    rw [Table.set_life_ne _ _ _ same] at embryo
    rw [works]
    exact h.embryo r me embryo child
  · rw [works] at copied
    have same : r ≠ p := by
      rintro rfl
      exact free me copied
    rw [Table.set_life_ne _ _ _ same]
    exact h.copied r me copied
  · rw [works] at copied
    have before := h.busy r me copied
    have same : me ≠ p := by
      rintro rfl
      simp [dead] at before
    rw [Table.set_life_ne _ _ _ same]
    exact before
  · rw [Table.set_life]
    split_ifs
    · exact parent
    · exact h.alone r init
  · exact h.other r (parents r child).2
  · have same : r ≠ p := by
      rintro rfl
      simp [unborn] at here
    rw [Table.set_life_ne _ _ _ same] at here ⊢
    obtain ⟨q, child, up⟩ := h.parent r here other
    refine ⟨q, child, ?_⟩
    have upper : q ≠ p := by
      rintro rfl
      simp [dead] at up
    rw [Table.set_life_ne _ _ _ upper]
    exact up
  · exact h.passed d me k past r below (parents r child).2

theorem Family.adopt (init : v.initproc ≠ some p) (self : o ≠ some p)
    (unused : (v.life p).state ≠ .unused)
    (embryo : ∀ me, (v.life p).state = .embryo → o = some me → (v.life me).work = .copied p)
    (copied : ∀ me, (v.life me).work = .copied p → o = some me)
    (parent : live (v.life p).state → ∃ q, o = some q ∧ alive (v.life q).state)
    (passed : ∀ d me k, (v.errand d).past = some (me, k) → p.val < k → o ≠ some me) :
    Family (v.set p ({ · with parent := o })) := by
  have states (r : Slot) : ((v.set p ({ · with parent := o })).life r).state = (v.life r).state :=
    Table.set_keeps (·.state) rfl r
  have works (r : Slot) : ((v.set p ({ · with parent := o })).life r).work = (v.life r).work :=
    Table.set_keeps (·.work) rfl r
  have parents (r : Slot) :
    ((v.set p ({ · with parent := o })).life r).parent = if r = p then o else (v.life r).parent := by
    rw [Table.set_life]
    split_ifs <;> rfl
  refine ⟨fun r state => ?_, fun r me state child => ?_, fun r me work => ?_, fun r me work => ?_, fun r first => ?_,
    fun r child => ?_, fun r here other => ?_, fun d me k past r below child => ?_⟩ <;>
    simp only [states, works, parents] at * <;> try split_ifs at * with same
  · exact absurd (same ▸ state) unused
  · exact h.unused r state
  · subst same
    exact embryo me state child
  · exact h.embryo r me state child
  · subst same
    exact copied me work
  · exact h.copied r me work
  · exact h.busy r me work
  · exact absurd (same ▸ first) init
  · exact h.alone r first
  · exact self (same ▸ child)
  · exact h.other r child
  · exact parent (same ▸ here)
  · exact h.parent r here other
  · exact passed d me k past (same ▸ below) child
  · exact h.passed d me k past r below child

theorem Family.become (published : live k)
    (kept : alive k ∨ (∀ r, (v.life r).parent ≠ some p) ∧ ∀ r, (v.life p).work ≠ .copied r)
    (parent : v.initproc ≠ some p → ∃ q, (v.life p).parent = some q ∧ alive (v.life q).state) :
    Family (v.set p ({ · with state := k })) := by
  have works (r : Slot) : ((v.set p ({ · with state := k })).life r).work = (v.life r).work :=
    Table.set_keeps (·.work) rfl r
  have parents (r : Slot) : ((v.set p ({ · with state := k })).life r).parent = (v.life r).parent :=
    Table.set_keeps (·.parent) rfl r
  have states (r : Slot) : ((v.set p ({ · with state := k })).life r).state =
    if r = p then k else (v.life r).state := by
    rw [Table.set_life]
    split_ifs <;> rfl
  have upper {r q : Slot} (child : (v.life r).parent = some q) (up : alive (v.life q).state) :
      alive (if q = p then k else (v.life q).state) := by
    split_ifs with same
    · exact kept.resolve_right fun none => none.1 r (same ▸ child)
    · exact up
  refine ⟨fun r unused => ?_, fun r me embryo child => ?_, fun r me work => ?_, fun r me work => ?_, fun r first => ?_,
    fun r child => ?_, fun r here other => ?_, fun d me i past r below child => ?_⟩ <;>
    simp only [states, works, parents] at *
  · split_ifs at unused with same
    · simp [unused, live] at published
    · exact h.unused r unused
  · split_ifs at embryo with same
    · simp [embryo, live] at published
    · exact h.embryo r me embryo child
  · exact h.copied r me work
  · split_ifs with same
    · exact kept.resolve_right fun none => none.2 r (same ▸ work)
    · exact h.busy r me work
  · exact h.alone r first
  · exact h.other r child
  · split_ifs at here with same
    · obtain ⟨q, child, up⟩ := parent (same ▸ other)
      exact ⟨q, same ▸ child, upper child up⟩
    · obtain ⟨q, child, up⟩ := h.parent r here other
      exact ⟨q, child, upper child up⟩
  · exact h.passed d me i past r below child

theorem Family.copy (init : v.initproc ≠ some p) (self : me ≠ p) (embryo : (v.life p).state = .embryo)
    (here : alive (v.life me).state) (idle : ∀ r, (v.life me).work ≠ .copied r)
    (free : ∀ m, (v.life m).work ≠ .copied p)
    (stays : ∀ d k, (v.errand d).past ≠ some (me, k)) :
    Family ((v.set p ({ · with parent := some me })).set me ({ · with work := .copied p })) := by
  have states
    (r : Slot) : (((v.set p ({ · with parent := some me })).set me ({ · with work := .copied p })).life r).state =
      (v.life r).state := by
    simp only [Table.set_life]
    split_ifs <;> simp_all
  have works
    (r : Slot) : (((v.set p ({ · with parent := some me })).set me ({ · with work := .copied p })).life r).work =
      if r = me then .copied p else (v.life r).work := by
    simp only [Table.set_life]
    split_ifs <;> simp_all
  have parents (r : Slot) :
    (((v.set p ({ · with parent := some me })).set me ({ · with work := .copied p })).life r).parent =
      if r = p then some me else (v.life r).parent := by
    simp only [Table.set_life]
    split_ifs <;> simp_all
  refine ⟨fun r state => ?_, fun r m state child => ?_, fun r m work => ?_, fun r m work => ?_, fun r first => ?_,
    fun r child => ?_, fun r there other => ?_, fun d m k past r below child => ?_⟩ <;>
    simp only [states, works, parents] at *
  · have same : r ≠ p := by
      rintro rfl
      simp [embryo] at state
    rw [if_neg same]
    exact h.unused r state
  · split_ifs at child with same
    · rw [if_pos (Option.some.inj child).symm, same]
    have work := h.embryo r m state child
    have differs : m ≠ me := by
      rintro rfl
      exact idle r work
    rw [if_neg differs]
    exact work
  · split_ifs at work with same
    · rw [if_pos (Work.copied.inj work).symm, same]
    have differs : r ≠ p := by
      rintro rfl
      exact free m work
    rw [if_neg differs]
    exact h.copied r m work
  · split_ifs at work with same
    · exact same ▸ here
    · exact h.busy r m work
  · have differs : r ≠ p := by
      rintro rfl
      exact init first
    rw [if_neg differs]
    exact h.alone r first
  · split_ifs at child with same
    · exact self ((Option.some.inj child).trans same)
    · exact h.other r child
  · split_ifs with same
    · exact ⟨me, rfl, here⟩
    · exact h.parent r there other
  · split_ifs at child
    · exact stays d k (Option.some.inj child ▸ past)
    · exact h.passed d m k past r below child

end

theorem past_wakeup1 {k : Cpu} {i j : Nat} {ret : Ret} (mode : k.mode = .wakeup1 chan i ret) :
    (errand { k with mode := .wakeup1 chan j ret }).past = (errand k).past := by
  cases ret with
  | reparent m =>
    cases m with
    | zero => simp [errand, mode, Errand.past]
    | succ m => cases stack : k.stack <;> simp [errand, mode, stack, Errand.past]
  | _ => simp [errand, mode, Errand.past]

theorem Maker.sole (wf : WellFormed s) {b : Bool} (maker : Maker s c a o w (.boots p b))
    (owner : owns w = some p) (uncopied : w ≠ .copied p) :
    ∀ me, ((table s).life me).work ≠ .copied p := by
  intro me copied
  have other : (view s).Owns (.inr me) p := by
    change owns (s.proc me).work = some p
    have work : (s.proc me).work = .copied p := copied
    rw [work]
    rfl
  cases o with
  | none =>
    have boots : (view s).Owns (.inl c) p := stage_boots (b := b) (maker.boot rfl)
    cases wf.owned.inj _ _ p other boots
  | some you =>
    have calls := maker.thread you rfl
    have mine : (view s).Owns (.inr you) p := by
      change owns (s.proc you).work = some p
      rw [calls.work]
      exact owner
    obtain rfl : me = you := Sum.inr.inj (wf.owned.inj _ _ p other mine)
    have work : (s.proc me).work = .copied p := copied
    exact uncopied (calls.work.symm.trans work)

theorem WellFormed.uncopied (wf : WellFormed s) (state : (s.proc p).state ≠ .embryo) :
    ∀ me, ((table s).life me).work ≠ .copied p := by
  intro me copied
  refine state (wf.owned.embryo (.inr me) p ?_)
  have work : (s.proc me).work = .copied p := copied
  change owns (s.proc me).work = some p
  rw [work]
  rfl

/-- A slot that is created or given up has no parent. -/
theorem Family.orphan (h : Family (table s)) (embryo : (s.proc r).state = .embryo)
    (free : ∀ me, ((table s).life me).work ≠ .copied r) : ((table s).life r).parent = none := by
  cases parent : ((table s).life r).parent with
  | none => rfl
  | some me => exact absurd (h.embryo r me embryo parent) (free me)

theorem Maker.before {y : Errand} (maker : Maker s c a o w y)
    (other : (s.proc r).state ≠ .running) (same : o = some me) :
    (((table s).set r f).life me).work = w := by
  have calls := maker.thread me same
  have apart : me ≠ r := by
    rintro rfl
    exact other calls.running
  rw [Table.set_life_ne _ _ _ apart]
  exact calls.work

theorem Family.made {y : Errand} {j : Work} (kept : Family ((table s).set r f)) (maker : Maker s c a o w y)
    (embryo : (s.proc r).state ≠ .running) (old : ∀ q, w ≠ .copied q)
    (new : ∀ q, j ≠ .copied q) (past : x.past = none) :
    Family (((table s).set r f).goOn c o j x) := by
  refine kept.goOn past (fun me q same work => ?_) new
  rw [maker.before embryo same] at work
  exact absurd work (old q)

/-- `userinit` also sets `initproc`, when there are no processes. -/
theorem Family.crowned {job : Work} {init : Option Slot} (made : Family (((table s).set r f).goOn c o job x))
    (headed : Headed bsp (table s)) (maker : Maker s c a o w (.boots r false))
    (state : live (f ((table s).life r)).state → live ((table s).life r).state)
    (alone : ∀ p, init = some p → (((table s).set r f).life p).parent = none) :
    Family { ((table s).set r f).goOn c o job x with initproc := if o = none then init else s.initproc } := by
  cases o with
  | none =>
    have boots : (table s).errand c = .boots r false := maker.boot rfl
    have nobody : Nobody (table s) := headed.start c (by rw [boots]; rfl)
    exact made.crown (nobody.set state) alone
  | some =>
    rw [if_neg (by simp), Table.initproc_self (by simp [table])]
    exact made

section Deed
variable (h : Family (table s)) (wf : WellFormed s) (leaving : Leaving (table s)) (headed : Headed bsp (table s))
include h

theorem Family.scan {i : Nat} {ret : Ret} (mode : (s.cpu c).mode = .wakeup1 chan i ret) :
    Family ((table s).send c (errand { s.cpu c with mode := .wakeup1 chan (i + 1) ret })) :=
  h.send fun me k past r below => h.passed c me k ((past_wakeup1 mode).symm.trans past) r below

theorem Family.scanned {i j : Nat} (mode : (s.cpu c).mode = .wakeup1 chan i (.reparent j)) :
    Family ((table s).send c (.passes (s.cpu c).stack j)) := by
  refine h.send fun me k past r below => ?_
  cases stack : (s.cpu c).stack with
  | none => simp [stack, Errand.past] at past
  | some m =>
    obtain ⟨rfl, rfl⟩ : m = me ∧ j = k := by simpa [stack, Errand.past] using past
    cases j with
    | zero => cases below
    | succ j => exact h.passed c m (j + 1) (by simp [table, errand, mode, stack, Errand.past]) r below

theorem Family.skip (mode : (s.cpu c).mode = .reparent r.val) (stack : (s.cpu c).stack = some me)
    (other : (s.proc r).parent ≠ some me) : Family ((table s).send c (.passes (some me) (r.val + 1))) := by
  refine h.send fun m k past q below => ?_
  obtain ⟨rfl, rfl⟩ : me = m ∧ r.val + 1 = k := by simpa [Errand.past] using past
  rcases Nat.lt_succ_iff_lt_or_eq.mp below with lower | same
  · exact h.passed c me r.val (by simp [table, errand, mode, stack, Errand.past]) q lower
  · rw [Fin.ext same]
    exact other

theorem Family.die {i : Nat} (leaving : Leaving (table s)) (mode : (s.cpu c).mode = .reparent i) (done : NPROC ≤ i)
    (stack : (s.cpu c).stack = some me) (running : (s.proc me).state = .running) :
    Family (((table s).set me ({ · with state := .zombie })).send c .none) := by
  have past : ((table s).errand c).past = some (me, i) := by simp [table, errand, mode, stack, Errand.past]
  have out := leaving.leaver c me (Errand.leaver_of_past past)
  have childless (r : Slot) : ((table s).life r).parent ≠ some me := h.passed c me i past r (by omega)
  have dead := h.become (p := me) (k := .zombie) rfl
    (.inr ⟨childless, fun r work => by simp [work, exiting] at out⟩)
    (h.parent me (by simp [table_state, running, live]))
  exact dead.rest rfl

include leaving headed

theorem Family.pass (mode : (s.cpu c).mode = .reparent r.val) (stack : (s.cpu c).stack = some me)
    (running : (s.proc me).state = .running) (child : (s.proc r).parent = some me) {b : Prop} [Decidable b] :
    Family (((table s).set r ({ · with parent := s.initproc })).send c
      (if b then .hands (some me) (s.initproc.map .proc) 0 r.val else .passes (some me) (r.val + 1))) := by
  have past : ((table s).errand c).past = some (me, r.val) := by simp [table, errand, mode, stack, Errand.past]
  have busy {d : Fin n} {m : Slot} {k : Nat}
    (past : ((table s).errand d).past = some (m, k)) : exiting ((table s).life m).work :=
    leaving.leaver d m (Errand.leaver_of_past past)
  have uncopied (m : Slot) (parent : ((table s).life r).parent = some m) : ((table s).life m).work ≠ .copied r := by
    obtain rfl : m = me := Option.mem_unique parent child
    intro work
    have out := busy past
    simp [work, exiting] at out
  have stays {d : Fin n} {m : Slot} {k : Nat}
    (past : ((table s).errand d).past = some (m, k)) : (table s).initproc ≠ some m := by
    intro init
    have out := busy past
    simp [headed.stays m init] at out
  have init : (table s).initproc ≠ some r := fun init => absurd ((h.alone r init).symm.trans child) (by simp)
  obtain ⟨q, first, here⟩ := headed.head.resolve_left (not_nobody running)
  have adopted := h.adopt (p := r) (o := s.initproc) init init
    (fun unused => absurd ((h.unused r unused).symm.trans child) (by simp))
    (fun m embryo _ => absurd (h.embryo r me embryo child) (uncopied me child))
    (fun m work => absurd work (uncopied m (h.copied r m work)))
    (fun _ => ⟨q, first, here⟩) fun d m k past _ => stays past
  refine adopted.send fun m k later p below => ?_
  obtain ⟨rfl, rfl⟩ : me = m ∧ r.val + 1 = k := by
    split_ifs at later <;> simpa [Errand.past] using later
  rw [Table.set_life]
  split_ifs with same
  · exact stays past
  · exact h.passed c me r.val past p (lt_of_le_of_ne (Nat.le_of_lt_succ below) fun same' => same (Fin.ext same'))

include wf

theorem Family.fork {y : Errand} (maker : Maker s c a (some me) (.filled r) y) (embryo : (s.proc r).state = .embryo) :
    Family (((table s).set r ({ · with parent := some me })).set me ({ · with work := .copied r })) := by
  have calls := maker.thread me rfl
  have work : ((table s).life me).work = .filled r := calls.work
  have state : ((table s).life r).state = .embryo := embryo
  obtain ⟨q, first, here⟩ := headed.head.resolve_left (not_nobody calls.running)
  have self : me ≠ r := by
    rintro rfl
    simp [table_state, calls.running] at state
  refine h.copy (fun init => ?_) self embryo (by simp [table_state, calls.running, alive]) (by simp [work])
    (Maker.sole (b := true) wf (.ofThread calls) rfl (by simp)) fun d k past => ?_
  · obtain rfl : r = q := Option.mem_unique init first
    simp [state, alive] at here
  · have out := leaving.leaver d me (Errand.leaver_of_past past)
    rw [work] at out
    cases out

theorem Family.deed (deed : Deed s t c a) : Family (table t) := by
  cases deed with
  | rest table => exact table ▸ h
  | halt _ table | timerDone _ _ table | exitLock _ _ _ _ _ _ _ table => exact table ▸ h.rest rfl
  | timer _ _ _ table =>
    obtain ⟨unused, embryo, copied, busy, alone, other, parent, passed⟩ :=
      h.rest (c := c) (x := .trap (s.cpu c).proc) rfl
    exact table ▸ ⟨unused, embryo, copied, busy, alone, other, parent, passed⟩
  | alloc o r _ maker unused table =>
    have taken := h.recycle (p := r) (f := ({ · with state := .embryo, pid := s.nextpid }))
      (by simp [table_state, unused, alive]) rfl rfl
      (h.unused r unused) (wf.uncopied (by simp [unused]))
    obtain ⟨unused, embryo, copied, busy, alone, other, parent, passed⟩ :=
      taken.made (j := .allocated r) (x := .boots r false) maker
      (by simp [unused]) (by simp) (by simp) rfl
    exact table ▸ ⟨unused, embryo, copied, busy, alone, other, parent, passed⟩
  | fill o r _ maker embryo table =>
    have filled := h.set (p := r) (f := fun k => { k.reset s.ticks with work := .run }) rfl (.inl rfl)
      (fun q work => absurd (h.busy q r work) (by simp [table_state, embryo, alive])) (by simp)
    refine table ▸ (filled.made maker (by simp [embryo]) (by simp) (by simp) rfl).crowned headed maker
      (by simp [Life.reset]) fun q same => ?_
    obtain rfl : r = q := Option.some.inj same
    rw [Table.set_life_self]
    exact h.orphan embryo (maker.sole wf rfl (by simp))
  | fillFail o r _ maker embryo table =>
    have free := maker.sole wf rfl (by simp)
    have freed := h.recycle (p := r) (f := fun k => { k.reset s.ticks with state := .unused })
      (by simp [table_state, embryo, alive]) rfl rfl
      (h.orphan embryo free) free
    exact table ▸ (freed.made maker (by simp [embryo]) (by simp) (by simp) rfl).crowned headed maker
      (by simp [live]) (by simp)
  | copy me r maker embryo table => exact table ▸ h.fork wf leaving headed maker embryo
  | copyFail me r _ maker embryo table =>
    have free := Maker.sole (b := true) wf (.ofThread (maker.thread me rfl)) rfl (by simp)
    have freed := h.recycle (p := r) (f := ({ · with state := .unused })) (by simp [table_state, embryo, alive]) rfl rfl
      (h.orphan embryo free) free
    exact table ▸ freed.made (x := .none) maker (by simp [embryo]) (by simp) (by simp) rfl
  | publish o r maker embryo table =>
    have published := h.become (p := r) (k := .runnable) rfl (.inl rfl) fun other => by
      cases o with
      | none => exact absurd (headed.named c r (maker.boot rfl)) other
      | some me =>
        have calls := maker.thread me rfl
        exact ⟨me, h.copied r me calls.work, by simp [table_state, calls.running, alive]⟩
    refine table ▸ published.goOn (c := c) (o := o) (x := .none) rfl (fun me q same work => ?_) (by simp)
    rw [maker.before (by simp [embryo]) same] at work
    simp [← Work.copied.inj work]
  | reap _ r kind _ _ found table =>
    have zombie := zombieChild_zombie found
    refine table ▸ h.recycle (by simp [table_state, zombie, alive]) ?_ ?_ ?_ (wf.uncopied (by simp [zombie])) <;>
      cases kind <;> rfl
  | charge r q _ _ _ _ _ table => exact table ▸ (h.keep (f := Life.charge q) rfl rfl (.inl rfl)).rest rfl
  | wake r _ _ mode asleep _ table =>
    exact table ▸ (h.scan mode).keep (f := ({ · with state := .runnable })) rfl rfl
      (.inr ⟨by simp [table_state, asleep, alive], rfl⟩)
  | dispatch r runnable table =>
    exact table ▸ h.keep rfl rfl (.inr ⟨by simp [table_state, runnable, alive], rfl⟩)
  | yield r _ running table | sleep r _ _ running _ _ _ table =>
    exact table ▸ h.keep rfl rfl (.inr ⟨by simp [table_state, running, alive], rfl⟩)
  | resumed r _ _ table | badTrap r _ _ _ table => exact table ▸ h.keep rfl rfl (.inl rfl)
  | kill r _ _ _ table =>
    refine table ▸ h.keep rfl rfl ?_
    by_cases asleep : ((Proof.table s).life r).state = .sleeping
    · exact .inr ⟨by simp [asleep, alive], by simp [Life.rouse, asleep, alive]⟩
    · exact .inl (by simp [Life.rouse, asleep])
  | exit r _ calls _ table =>
    exact table ▸ h.set rfl (.inl rfl) (by simp [table_work, calls.work]) (by simp)
  | scan _ _ _ mode _ _ table => exact table ▸ h.scan mode
  | scanned _ i j mode _ table => exact table ▸ h.scanned mode
  | skip r me mode stack other table => exact table ▸ h.skip mode stack other
  | pass r me mode stack running child table => exact table ▸ h.pass leaving headed mode stack running child
  | zombie me i mode done stack running table => exact table ▸ h.die leaving mode done stack running

end Deed

end Family

end Xv6.Proof
