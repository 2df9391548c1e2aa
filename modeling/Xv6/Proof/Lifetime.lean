import Xv6.Proof.Lot
import Xv6.Proof.RoundRobin

namespace Xv6.Proof
open Xv6.Library Xv6.Kernel State

variable {n : Nat} {pol : Policy}

theorem live_of_alive {k : ProcState} (here : alive k) : live k := by cases k <;> first | rfl | cases here

theorem live_rouse (k : Life) : live k.rouse.state = live k.state := by
  unfold Life.rouse
  split_ifs with asleep <;> simp [asleep, live]

theorem Lot.live {s t : State n} {c : Fin n} {a : Action} {p : Slot}
    (lot : Lot s t c a p) (here : Proof.live (t.proc p).state) :
    Proof.live (s.proc p).state ∨ (t.proc p).state = .runnable ∧
      ((∃ me, (s.proc me).state = .running ∧ (s.proc me).work = .copied p) ∨
        errand (s.cpu c) = .boots p true ∧ errand (t.cpu c) = .none) := by
  change Proof.live (face ((table t).life p)).state at here
  cases lot with
  | publish _ face maker => exact .inr ⟨congrArg Face.state face, maker⟩
  | alloc _ face | drop _ _ face | reap _ face => rw [face] at here; cases here
  | keep face | fill _ face | busy _ _ _ _ _ _ face | name _ _ face | badTrap _ _ _ face | pass _ _ face =>
    rw [face] at here; exact .inl here
  | move _ before => exact .inl (live_of_alive before)
  | kill _ _ _ face => rw [face] at here; exact .inl ((live_rouse _).symm.trans here)
  | zombie _ _ _ _ running => exact .inl (by rw [running]; rfl)

section Leaving
variable {s t : State n} {v w : Table n} {c d : Fin n} {a : Action} {p me : Slot}

structure Leaving (v : Table n) : Prop where
  leaver : ∀ d me, (v.errand d).leaver = some me → exiting (v.life me).work
  zombie : ∀ p, (v.life p).state = .zombie → exiting (v.life p).work

theorem WellFormed.leaver (h : WellFormed s) (leaves : (errand (s.cpu d)).leaver = some me) :
    (s.cpu d).proc = some me ∧ (s.proc me).state = .running := by
  have runs (stack : (s.cpu d).stack = some me) (here : Runs s d) : (s.cpu d).proc = some me ∧
    (s.proc me).state = .running := by
    obtain ⟨r, same, own, -, running⟩ := here
    obtain rfl : r = me := Option.mem_unique same stack
    exact ⟨own, running⟩
  have ok := h.control.cpu d
  cases mode : (s.cpu d).mode with
  | reparent i =>
    rw [mode] at ok
    exact runs (by simpa [errand, mode, Errand.leaver] using leaves) ok.2
  | wakeup1 _ i r =>
    rw [mode] at ok
    cases r with
    | reparent j =>
      refine runs ?_ (ok.2.resolve_right fun idle => idle.2 j rfl)
      cases j <;> simpa [errand, mode, Errand.leaver] using leaves
    | _ => simp [errand, mode, Errand.leaver] at leaves
  | _ => simp [errand, mode, Errand.leaver] at leaves

theorem Maker.busy {o : Option Slot} {w : Work} {x : Errand} (maker : Maker s c a o w x) (run : exiting w = false) :
    ∀ me, o = some me → exiting ((table s).life me).work = false := by
  intro me same
  have work : ((table s).life me).work = w := (maker.thread me same).work
  rw [work, run]

theorem Maker.apart {o : Option Slot} {w : Work} {x : Errand} {r : Slot} {f : Life → Life}
    (maker : Maker s c a o w x) (run : exiting w = false) (other : (s.proc r).state ≠ .running) :
    ∀ me, o = some me → exiting ((((table s).set r f).life me).work) = false := by
  intro me same
  have differs : me ≠ r := by
    rintro rfl
    exact other (maker.thread me same).running
  rw [Table.set_life_ne _ _ _ differs]
  exact maker.busy run me same

theorem Leaving.deed (h : Leaving (table s)) (wf : WellFormed s) (deed : Deed s t c a) : Leaving (table t) := by
  have stays {p : Slot} (out : exiting ((table s).life p).work)
    (other : (s.proc p).state ≠ .embryo) : exiting ((table t).life p).work := by
    rcases (deed.lot p).work with same | ⟨embryo, -⟩ | ⟨w, w', calls, stays, -⟩
    · rwa [same]
    · exact absurd embryo other
    · rw [table_work, calls.work, stays] at out
      cases out
  refine ⟨fun d me leaves => ?_, fun p zombie => ?_⟩
  · have before {d : Fin n} (leaves : ((table s).errand d).leaver = some me) : exiting ((table t).life me).work :=
      stays (h.leaver d me leaves) (by simp [(wf.leaver leaves).2])
    rcases deed.errand d with same | ⟨rfl, next⟩
    · exact before (same ▸ leaves)
    · rcases next.leaver me leaves with leaves | ⟨running, work⟩
      · exact before (d := d) leaves
      · exact stays work (by simp [running])
  · rcases (deed.lot p).exited zombie with ⟨-, before | ⟨i, mode, -, stack, running⟩⟩
    · exact stays (h.zombie p before) (by simp [before])
    · exact stays (h.leaver c p (by simp [table, errand, mode, Errand.leaver, stack])) (by simp [running])

theorem leaving_boot (bsp : Fin n) : Leaving (table (boot bsp)) where
  leaver d me leaves := by
    change (errand (Cpu.zero _)).leaver = some me at leaves
    split_ifs at leaves <;> cases leaves
  zombie p zombie := by cases zombie

end Leaving

theorem int32_small {x : Int} (low : 0 ≤ x) (high : x < 2 ^ 31) : int32 x = x := by
  obtain ⟨k, rfl⟩ := Int.eq_ofNat_of_zero_le low
  exact int32_tick (by omega)

section Metered
variable {s t : State 1} {v w : Table 1} {c : Fin 1} {a : Action} {p : Slot} {as : List (Fin 1 × Action)}

def Table.last (v : Table 1) (p : Slot) : Int :=
  if exiting (v.life p).work then (v.life p).etime
  else v.ticks - if v.errand 0 = .trap (some p) then 1 else 0

structure Metes (v : Table 1) (p : Slot) : Prop where
  ctime : 0 ≤ (v.life p).ctime
  rtime : 0 ≤ (v.life p).rtime
  fits : (v.life p).ctime + (v.life p).rtime ≤ v.last p
  past : v.last p ≤ v.ticks

structure Metered (v : Table 1) : Prop where
  clock : v.ticks < 2 ^ 31
  spared : ∀ p, v.errand 0 = .trap (some p) → exiting (v.life p).work = false
  fits : ∀ p, Metes v p

def Alike (k l : Life) : Prop :=
  l.ctime = k.ctime ∧ l.etime = k.etime ∧ l.rtime = k.rtime ∧ exiting l.work = exiting k.work

theorem Metered.frame (h : Metered v) (ticks : w.ticks = v.ticks)
    (errand : ∀ p, w.errand 0 = .trap (some p) → v.errand 0 = .trap (some p))
    (life : ∀ p, Alike (v.life p) (w.life p)) : Metered w := by
  have last (p : Slot) : v.last p ≤ w.last p ∧ w.last p ≤ max (v.last p) v.ticks := by
    obtain ⟨-, etime, -, out⟩ := life p
    have later := errand p
    unfold Table.last
    rw [out, etime, ticks]
    split_ifs <;> first | omega | simp_all
  refine ⟨ticks ▸ h.clock, fun p trap => ?_, fun p => ?_⟩
  · exact (life p).2.2.2.trans (h.spared p (errand p trap))
  obtain ⟨ctime, -, rtime, -⟩ := life p
  obtain ⟨early, charged, fits, _⟩ := h.fits p
  have bounds := last p
  exact ⟨ctime ▸ early, rtime ▸ charged, by rw [ctime, rtime]; omega, by rw [ticks]; omega⟩

theorem Metered.set (h : Metered v) {f : Life → Life} (calm : v.errand 0 ≠ .trap (some p))
    (fits : Metes (v.set p f) p) : Metered (v.set p f) := by
  refine ⟨h.clock, fun r trap => ?_, fun r => ?_⟩
  · have other : r ≠ p := by
      rintro rfl
      exact calm trap
    rw [Table.set_life_ne _ _ _ other]
    exact h.spared r trap
  by_cases same : r = p
  · exact same ▸ fits
  · obtain ⟨_, _, before, past⟩ := h.fits r
    unfold Table.last at before past
    constructor <;> simpa [Table.last, same]

theorem alike_set {f : Life → Life} (same : Alike (v.life p) (f (v.life p))) (r : Slot) :
    Alike (v.life r) ((v.set p f).life r) := by
  rw [Table.set_life]
  split_ifs with here
  · exact here ▸ same
  · exact ⟨rfl, rfl, rfl, rfl⟩

theorem alike_goOn {o : Option Slot} {work : Work} {x : Errand}
    (thread : ∀ me, o = some me → exiting (v.life me).work = false) (run : exiting work = false) (r : Slot) :
    Alike (v.life r) ((v.goOn c o work x).life r) := by
  rw [Table.goOn_life]
  split_ifs with here
  · exact ⟨rfl, rfl, rfl, run.trans (thread r here).symm⟩
  · exact ⟨rfl, rfl, rfl, rfl⟩

/-- The clock stays below `2 ^ 31`, and no timer interrupt hits a process that has written its `etime`. -/
def Spares (e : State 1 × (Fin 1 × Action)) : Prop :=
  e.2.2 = .timer → e.1.ticks + 1 < 2 ^ 31 ∧ ∀ masked, e.1.working e.2.1 ≠ some (.exiting masked)

theorem Metered.renew (h : Metered v) {f : Life → Life} {x : Int} (early : 0 ≤ x) (past : x ≤ v.ticks)
    (times : (f (v.life p)).ctime = x ∧ (f (v.life p)).etime = x ∧ (f (v.life p)).rtime = 0)
    (calm : v.errand 0 ≠ .trap (some p)) : Metered (v.set p f) := by
  obtain ⟨ctime, etime, rtime⟩ := times
  refine h.set calm ⟨?_, ?_, ?_, ?_⟩ <;> simp only [Table.last, Table.set_life_self, Table.set_errand, Table.set_ticks,
    ctime, etime, rtime, calm, if_false]
  · exact early
  · exact le_rfl
  · split_ifs <;> omega
  · split_ifs <;> omega

theorem Metered.tick (h : Metered v) (calm : v.errand 0 = .none) (more : v.ticks + 1 < 2 ^ 31) {o : Option Slot}
    (spared : ∀ p, o = some p → exiting (v.life p).work = false) :
    Metered { v.send 0 (.trap o) with ticks := v.ticks + 1 } := by
  refine ⟨more, fun p trap => ?_, fun p => ?_⟩
  · exact spared p (by simpa using trap)
  obtain ⟨early, charged, fits, past⟩ := h.fits p
  have last : v.last p ≤ Table.last { v.send 0 (.trap o) with ticks := v.ticks + 1 } p ∧
      Table.last { v.send 0 (.trap o) with ticks := v.ticks + 1 } p ≤ v.ticks + 1 := by
    unfold Table.last at past ⊢
    simp only [calm, Table.send_life, Table.send_errand_self, reduceCtorEq, if_false] at past ⊢
    split_ifs at past ⊢ <;> omega
  exact ⟨early, charged, fits.trans last.1, by simpa using last.2⟩

theorem Metered.charge (h : Metered v) {q : Level} (trap : v.errand 0 = .trap (some p)) :
    Metered ((v.set p (Life.charge q)).send 0 .none) := by
  have run := h.spared p trap
  have clock := h.clock
  refine ⟨clock, fun r here => by simp at here, fun r => ?_⟩
  obtain ⟨_, _, fits, past⟩ := h.fits r
  by_cases same : r = p
  · subst same
    unfold Table.last at fits
    simp only [run, trap, if_true, Bool.false_eq_true, if_false] at fits
    have one : int32 ((v.life r).rtime + 1) = (v.life r).rtime + 1 := int32_small (by omega) (by omega)
    constructor <;> simp [Table.last, Life.charge, run, one] <;> omega
  · have other : Errand.trap (some p) ≠ .trap (some r) := by simpa using Ne.symm same
    unfold Table.last at fits past
    constructor <;> simp [Table.last, same] <;> simp_all

theorem Metered.exit (h : Metered v) {masked : Bool} (calm : v.errand 0 = .none) :
    Metered (v.set p ({ · with etime := int32 v.ticks, work := .exiting masked })) := by
  have now : int32 v.ticks = v.ticks := int32_tick h.clock
  obtain ⟨early, charged, fits, _⟩ := h.fits p
  refine h.set (by simp [calm]) ⟨?_, ?_, ?_, ?_⟩ <;>
    simp only [Table.last, Table.set_life_self, Table.set_ticks, exiting, if_true, now]
  · exact early
  · exact charged
  · omega
  · exact le_rfl

theorem Metered.deed (h : Metered (table s)) (wf : WellFormed s) (spares : Spares (s, (c, a)))
    (deed : Deed s t c a) : Metered (table t) := by
  obtain rfl : c = 0 := Subsingleton.elim c 0
  have now : int32 s.ticks = s.ticks := int32_tick h.clock
  have stay {p : Slot} {f : Life → Life}
    (same : Alike ((table s).life p) (f ((table s).life p))) : Metered ((table s).set p f) :=
    h.frame rfl (fun _ trap => trap) (alike_set same)
  have quiet {v : Table 1} (h : Metered v) {x : Errand} (calm : ∀ r, x = .trap (some r) → v.errand 0 = .trap (some r)) :
      Metered (v.send 0 x) :=
    h.frame rfl (fun r trap => calm r (by simpa using trap)) fun r => ⟨rfl, rfl, rfl, rfl⟩
  have makes {o : Option Slot} {r : Slot} {f : Life → Life} {w w' : Work} {x y : Errand} (maker : Maker s 0 a o w x)
      (other : (s.proc r).state ≠ .running) (run : exiting w = false) (busy : exiting w' = false)
      (calm : ∀ p, y ≠ .trap p) (before : Metered ((table s).set r f)) :
      Metered (((table s).set r f).goOn 0 o w' y) := by
    refine before.frame (by simp) (fun p trap => ?_) (alike_goOn (maker.apart run other) busy)
    rw [Table.goOn_errand] at trap
    split_ifs at trap
    · exact absurd trap (calm _)
    · exact trap
  have idle {o : Option Slot} {w : Work} {r : Slot} {filled : Bool}
    (maker : Maker s 0 a o w (.boots r filled)) (p : Slot) :
      (table s).errand 0 ≠ .trap (some p) := by
    change errand (s.cpu 0) ≠ _
    cases o with
    | none => rw [maker.boot rfl]; simp
    | some me => rw [(maker.thread me rfl).calm]; simp
  have onward {chan : Option Chan} {i : Nat} {r : Ret} (mode : (s.cpu 0).mode = .wakeup1 chan i r) (p : Slot)
      (trap : errand { s.cpu 0 with mode := .wakeup1 chan (i + 1) r } = .trap (some p)) :
      (table s).errand 0 = .trap (some p) := by
    cases r with
    | caller => simp [errand] at trap
    | account => simpa [table, errand, mode] using trap
    | reparent m => cases m <;> simp [errand] at trap
  cases deed with
  | rest table => exact table ▸ h
  | halt _ table | timerDone _ _ table => exact table ▸ quiet h (fun r trap => by cases trap)
  | timer action calm mode table =>
    obtain ⟨more, other⟩ := spares action
    dsimp only at more other
    have ticks : (s.ticks + 1) % 2 ^ 32 = s.ticks + 1 := Nat.mod_eq_of_lt (by omega)
    rw [if_pos (by simp), ticks] at table
    refine table ▸ h.tick calm more fun p own => ?_
    have ok := wf.control.cpu 0
    rcases mode with mode | ⟨mode, -⟩ <;> rw [mode] at ok
    · rw [ok.2.2] at own
      cases own
    obtain ⟨r, stack, proc, -, -⟩ := ok.2
    obtain rfl : r = p := Option.mem_unique proc own
    change exiting (s.proc r).work = false
    cases work : (s.proc r).work with
    | exiting masked => exact absurd (by simp [State.working, mode, stack, work]) (other masked)
    | _ => rfl
  | alloc o r _ maker unused table =>
    exact table ▸ (makes maker (by simp [unused]) rfl rfl (by simp) (stay ⟨rfl, rfl, rfl, rfl⟩)).frame rfl
      (fun _ trap => trap) fun _ => ⟨rfl, rfl, rfl, rfl⟩
  | fill o r _ maker embryo table =>
    have new := h.renew (p := r) (f := fun k => { k.reset s.ticks with work := .run }) (x := s.ticks) (by omega) le_rfl
      ⟨now, now, rfl⟩ (idle maker r)
    exact table ▸ (makes maker (by simp [embryo]) rfl rfl (by simp) new).frame rfl
      (fun _ trap => trap) fun _ => ⟨rfl, rfl, rfl, rfl⟩
  | fillFail o r _ maker embryo table =>
    have new := h.renew (p := r) (f := fun k => { k.reset s.ticks with state := .unused }) (x := s.ticks) (by omega)
      le_rfl ⟨now, now, rfl⟩ (idle maker r)
    exact table ▸ (makes maker (by simp [embryo]) rfl rfl (by simp) new).frame rfl
      (fun _ trap => trap) fun _ => ⟨rfl, rfl, rfl, rfl⟩
  | copy _ r maker embryo table | copyFail _ r _ maker embryo table =>
    exact table ▸ makes (y := .none) maker (by simp [embryo]) rfl rfl (by simp) (stay ⟨rfl, rfl, rfl, rfl⟩)
  | publish o r maker embryo table =>
    exact table ▸ makes maker (by simp [embryo]) rfl rfl (by simp) (stay ⟨rfl, rfl, rfl, rfl⟩)
  | reap _ r kind mode _ _ table =>
    cases kind with
    | wait => exact table ▸ stay ⟨rfl, rfl, rfl, rfl⟩
    | waitx =>
      exact table ▸ h.renew (f := Life.reap .waitx) le_rfl (by omega)
        ⟨rfl, rfl, rfl⟩ (by simp [Proof.table, errand, mode])
  | charge r q _ mode own _ _ table => exact table ▸ h.charge (by simp [Proof.table, errand, mode, own])
  | exit r _ calls _ table => exact table ▸ h.exit calls.calm
  | dispatch r _ table | yield r _ _ table | sleep r _ _ _ _ _ _ table | resumed r _ _ table | badTrap r _ _ _ table
  | kill r _ _ _ table => exact table ▸ stay ⟨rfl, rfl, rfl, rfl⟩
  | exitLock r _ _ _ _ _ _ table => exact table ▸ quiet h fun r trap => by cases trap
  | wake r _ _ mode _ _ table => exact table ▸ quiet (stay ⟨rfl, rfl, rfl, rfl⟩) (onward mode)
  | scan _ _ _ mode _ _ table => exact table ▸ quiet h (onward mode)
  | scanned _ _ j _ _ table | skip r _ _ _ _ table => exact table ▸ quiet h fun r trap => by cases trap
  | pass r _ _ _ _ _ table =>
    exact table ▸ quiet (stay ⟨rfl, rfl, rfl, rfl⟩) fun r trap => by split_ifs at trap
  | zombie _ _ _ _ _ _ table =>
    exact table ▸ quiet (stay ⟨rfl, rfl, rfl, rfl⟩) fun r trap => by cases trap

theorem metered_boot : Metered (table (boot 0)) := by
  refine ⟨by simp [table, boot], fun p trap => by simp [table, boot, Cpu.zero, errand] at trap, fun p => ?_⟩
  constructor <;> simp [Table.last, table, life, boot, Proc.zero, Cpu.zero, errand, exiting]

def Reports (e : State n × (Fin n × Action)) (p : Slot) : Prop :=
  e.2.2 = .go ∧ (e.1.cpu e.2.1).mode = .waiting .waitx ∧
    ∃ me, (e.1.cpu e.2.1).stack = some me ∧ e.1.zombieChild me = some p

def AddsUp (k : Proc) : Prop :=
  0 ≤ (reported k).2 ∧ 0 ≤ (reported k).1 ∧ (reported k).2 + (reported k).1 = k.etime - k.ctime

theorem Metered.addsUp (h : Metered (table s)) (leaving : Leaving (table s)) (zombie : (s.proc p).state = .zombie) :
    AddsUp (s.proc p) := by
  have out : exiting ((table s).life p).work := leaving.zombie p zombie
  obtain ⟨early, charged, fits, past⟩ := h.fits p
  have clock := h.clock
  unfold Table.last at fits past
  rw [if_pos out] at fits past
  change 0 ≤ (s.proc p).ctime at early
  change 0 ≤ (s.proc p).rtime at charged
  change (s.proc p).ctime + (s.proc p).rtime ≤ (s.proc p).etime at fits
  change (s.proc p).etime ≤ (table s).ticks at past
  have span : int32 ((s.proc p).etime - (s.proc p).ctime) = (s.proc p).etime - (s.proc p).ctime :=
    int32_small (by omega) (by omega)
  have rest : (reported (s.proc p)).1 = (s.proc p).etime - (s.proc p).ctime - (s.proc p).rtime := by
    rw [reported, span]
    exact int32_small (by omega) (by omega)
  have same : (reported (s.proc p)).2 = (s.proc p).rtime := rfl
  refine ⟨by rw [same]; exact charged, by rw [rest]; omega, by rw [rest, same]; omega⟩

theorem waitx_addsUp (run : exec (step pol) (boot 0) as = some t)
    (spares : ∀ e ∈ trace (step pol) (boot 0) as, Spares e) :
    ∀ e ∈ trace (step pol) (boot 0) as, ∀ p, Reports e p → AddsUp (e.1.proc p) := by
  rintro e member p ⟨-, -, _, -, found⟩
  obtain ⟨_, _, u, -, before, -, -, split⟩ := exec_to_event run member
  have reached : WellFormed e.1 ∧ Leaving (table e.1) ∧ Metered (table e.1) := by
    refine exec_invariant (P := fun s ca => Spares (s, ca))
      (I := fun s => WellFormed s ∧ Leaving (table s) ∧ Metered (table s)) ?_
      ⟨(quiet_boot 0).wellFormed, leaving_boot 0, metered_boot⟩ before
      fun e earlier => spares e (by simp [split, earlier])
    rintro s ⟨c, a⟩ t ⟨wf, leaving, metered⟩ spares action
    have deed := step_deed wf action
    exact ⟨wf.step action, leaving.deed wf deed, metered.deed wf spares deed⟩
  exact reached.2.2.addsUp reached.2.1 (zombieChild_zombie found)

def childRuns : List (Fin 1 × Action) := firstProcess ++ forks 0 ++ (0, Action.wait .waitx) :: List.replicate 5 (0, .go)

def childYields : List (Fin 1 × Action) := tickHandled ++ List.replicate 6 (0, .go)

def childReaped : List (Fin 1 × Action) := List.replicate 135 (0, .go)

instance (e : State 1 × (Fin 1 × Action)) : Decidable (Spares e) :=
  decidable_of_iff (e.2.2 = .timer → e.1.ticks + 1 < 2 ^ 31 ∧ e.1.working e.2.1 ≠ some (.exiting false) ∧
    e.1.working e.2.1 ≠ some (.exiting true)) (by simp [Spares])

theorem waitx_addsUp_child :
    ∃ s t, exec (step .default) (boot 0) (childRuns ++ childYields ++ (0, .exit) :: childReaped) =
    some s ∧ step .default s (0, .go) = some t ∧ (t.proc 0).out = (0, 1) ∧ Reports (s, (0, .go)) 1 ∧
    AddsUp (s.proc 1) := by
  obtain ⟨s, run, mode, stack, found, t, action, out, spares⟩ :
      ∃ s, exec (step .default) (boot 0) (childRuns ++ childYields ++ (0, .exit) :: childReaped) = some s ∧
        (s.cpu 0).mode = .waiting .waitx ∧ (s.cpu 0).stack = some 0 ∧ s.zombieChild 0 = some 1 ∧
        ∃ t, step .default s (0, .go) = some t ∧ (t.proc 0).out = (0, 1) ∧
          ∀ e ∈ trace (step .default) (boot 0) (childRuns ++ childYields ++ (0, .exit) :: childReaped ++ [(0, .go)]),
          Spares e := by
    decide +kernel
  have reports : Reports (s, (0, .go)) 1 := ⟨rfl, mode, 0, stack, found⟩
  have whole := exec_append run (exec_singleton action)
  refine ⟨s, t, run, action, out, reports, waitx_addsUp whole spares (s, (0, .go)) ?_ 1 reports⟩
  rw [trace_append run, trace_cons _ action]
  simp

theorem waitx_negative : ∃ s t, exec (step .default) (boot 0)
    (childRuns ++ (0, .exit) :: (childYields ++ childReaped)) =
    some s ∧ Reports (s, (0, .go)) 1 ∧ step .default s (0, .go) = some t ∧ (t.proc 0).out = (-1, 1) ∧
    ¬ AddsUp (s.proc 1) := by
  obtain ⟨s, run, mode, stack, found, negative, t, action, out⟩ :
      ∃ s, exec (step .default) (boot 0) (childRuns ++ (0, .exit) :: (childYields ++ childReaped)) = some s ∧
        (s.cpu 0).mode = .waiting .waitx ∧ (s.cpu 0).stack = some 0 ∧ s.zombieChild 0 = some 1 ∧
        reported (s.proc 1) = (-1, 1) ∧ ∃ t, step .default s (0, .go) = some t ∧ (t.proc 0).out = (-1, 1) := by
    decide +kernel
  refine ⟨s, t, run, ⟨rfl, mode, 0, stack, found⟩, action, out, fun sound => ?_⟩
  have waited := sound.2.1
  rw [negative] at waited
  cases waited

end Metered

end Xv6.Proof
