import Xv6.Proof.Heard

namespace Xv6.Proof
open Xv6.Library Xv6.Kernel State

variable {n : Nat} {pol : Policy} {s t : State n} {v w : Table n} {bsp c d : Fin n} {a : Action} {p q r me : Slot}
  {f : Life → Life} {x : Errand} {u : State n} {value : Int}

section Numbered

def serial (pid : Int) : Nat := ((pid - 1) % 2 ^ 32).toNat

theorem serial_next {pid : Int} (room : serial pid + 1 < 2 ^ 32) : serial (int32 (pid + 1)) = serial pid + 1 := by
  unfold int32 serial at *
  rw [Int.bmod_def]
  split_ifs <;> omega

def taken (v : Table n) (p : Slot) : Prop := (v.life p).state ≠ .unused

inductive Naming (v w : Table n) (c : Fin n) (a : Action) : Prop
  | keep (nextpid : w.nextpid = v.nextpid) (early : ∀ d, w.errand d = .early → v.errand d = .early)
      (pid : ∀ p, taken w p → taken v p ∧ (w.life p).pid = (v.life p).pid)
  | give (r : Slot) (unused : ¬ taken v r) (nextpid : w.nextpid = int32 (v.nextpid + 1))
      (early : ∀ d, w.errand d = .early → v.errand d = .early) (new : (w.life r).pid = v.nextpid)
      (who : a = .fork ∨ v.errand c = .early ∧ w.errand c ≠ .early)
      (pid : ∀ p, p ≠ r → taken w p → taken v p ∧ (w.life p).pid = (v.life p).pid)

theorem int32_succ_ne (x : Int) : int32 (x + 1) ≠ x := by
  unfold int32
  rw [Int.bmod_def]
  split_ifs <;> omega

theorem Deed.naming (deed : Deed s t c a) : Naming (table s) (table t) c a := by
  have early (d : Fin n) (first : (table t).errand d = .early) : (table s).errand d = .early := by
    rcases deed.errand d with same | ⟨-, next⟩
    · exact same.symm.trans first
    · exact absurd first next.early
  by_cases fresh : t.nextpid = s.nextpid
  · refine .keep fresh early fun p here => ?_
    change (face ((table t).life p)).state ≠ .unused at here
    change _ ∧ (face ((table t).life p)).pid = _
    cases deed.lot p with
    | alloc _ _ nextpid => exact absurd (nextpid.symm.trans fresh) (int32_succ_ne _)
    | drop _ _ face | reap _ face => rw [face] at here; exact absurd rfl here
    | keep face | fill _ face | busy _ _ _ _ _ _ face | badTrap _ _ _ face | pass _ _ face =>
      rw [face] at here ⊢; exact ⟨here, rfl⟩
    | name _ embryo face | publish embryo face => rw [face]; exact ⟨by simp [taken, table_state, embryo], rfl⟩
    | move _ before _ face =>
      rw [face]
      refine ⟨fun free => ?_, rfl⟩
      rw [← table_state, free] at before
      cases before
    | kill _ _ _ face => rw [face] at here ⊢; exact ⟨fun free => here (by simp [Proof.face, Life.rouse, free]), rfl⟩
    | zombie _ _ _ _ running face => rw [face]; exact ⟨by simp [taken, table_state, running], rfl⟩
  · cases deed
    case alloc o r action maker unused table =>
      have kept (p : Slot) : ((Proof.table t).life p).state =
        (((Proof.table s).set r ({ · with state := .embryo, pid := s.nextpid })).life p).state ∧
          ((Proof.table t).life p).pid =
          (((Proof.table s).set r ({ · with state := .embryo, pid := s.nextpid })).life p).pid := by
        rw [table]
        simp only [Table.goOn_life]
        split_ifs <;> exact ⟨rfl, rfl⟩
      refine .give r (by simp [taken, table_state, unused])
        (congrArg Table.nextpid table) early ?_ ?_ fun p other here => ?_
      · exact (kept r).2.trans (by simp [Proof.table])
      · rcases action with rfl | fork
        · refine .inr ⟨maker.boot rfl, ?_⟩
          rw [table]
          change (Table.send _ c (.boots r false)).errand c ≠ .early
          simp
        · exact .inl fork
      · obtain ⟨state, pid⟩ := kept p
        rw [Table.set_life_ne _ _ _ other] at state pid
        exact ⟨fun free => here (state.trans free), pid⟩
    all_goals
      rename table t = _ => same
      exact absurd ((congrArg Table.nextpid same).trans (by simp [Proof.table])) fresh

structure Numbered (forks : Nat) (v : Table n) : Prop where
  bound : serial v.nextpid ≤ forks + 1
  early : ∀ d, v.errand d = .early → serial v.nextpid ≤ forks
  past : ∀ p, taken v p → serial (v.life p).pid < serial v.nextpid
  distinct : ∀ p q, taken v p → taken v q → (v.life p).pid = (v.life q).pid → p = q

theorem Naming.avoid (naming : Naming v w c a) (room : serial v.nextpid + 1 < 2 ^ 32) {pid : Int}
    (old : serial pid < serial v.nextpid) (away : ∀ q, taken w q → taken v q → (v.life q).pid ≠ pid) :
    serial pid < serial w.nextpid ∧ ∀ q, taken w q → (w.life q).pid ≠ pid := by
  cases naming with
  | keep nextpid _ same =>
    refine ⟨nextpid ▸ old, fun q here => ?_⟩
    rw [(same q here).2]
    exact away q here (same q here).1
  | give r _ nextpid _ new _ same =>
    rw [nextpid, serial_next room]
    refine ⟨old.trans (Nat.lt_succ_self _), fun q here => ?_⟩
    by_cases first : q = r
    · rw [first, new]
      rintro rfl
      exact lt_irrefl _ old
    · rw [(same q first here).2]
      exact away q here (same q first here).1

def forked (a : Action) : Nat := if a = .fork then 1 else 0

theorem Numbered.naming {forks : Nat} (h : Numbered forks v)
    (few : forks + 2 < 2 ^ 32) (only : ∀ d, v.errand d = .early → d = bsp)
    (naming : Naming v w c a) : Numbered (forks + forked a) w := by
  cases naming with
  | keep nextpid early pid =>
    refine ⟨?_, fun d first => ?_, fun p here => ?_, fun p q here there same => ?_⟩
    · rw [nextpid]
      exact h.bound.trans (by omega)
    · rw [nextpid]
      exact (h.early d (early d first)).trans (by omega)
    · obtain ⟨before, same⟩ := pid p here
      rw [nextpid, same]
      exact h.past p before
    · obtain ⟨before, name⟩ := pid p here
      obtain ⟨before', name'⟩ := pid q there
      exact h.distinct p q before before' (name ▸ name' ▸ same)
  | give r _ nextpid early new who pid =>
    have bound := h.bound
    have next : serial w.nextpid = serial v.nextpid + 1 := by
      rw [nextpid]
      exact serial_next (by omega)
    -- the pid of a slot that was in use is older than the new one
    have older (p : Slot) (other : p ≠ r) (here : taken w p) : serial (w.life p).pid < serial v.nextpid := by
      obtain ⟨before, same⟩ := pid p other here
      rw [same]
      exact h.past p before
    have apart (p : Slot) (other : p ≠ r) (here : taken w p) : (w.life p).pid ≠ (w.life r).pid := by
      intro same
      have lower := older p other here
      rw [same, new] at lower
      exact lt_irrefl _ lower
    refine ⟨?_, fun d first => ?_, fun p here => ?_, fun p q here there same => ?_⟩
    · rw [next]
      rcases who with rfl | ⟨first, -⟩
      · simp [forked]
        exact bound
      · have lower := h.early c first
        omega
    · rw [next]
      have lower := h.early d (early d first)
      rcases who with rfl | ⟨here, gone⟩
      · simp [forked]
        exact lower
      · obtain rfl : d = c := (only d (early d first)).trans (only c here).symm
        exact absurd first gone
    · rw [next]
      by_cases same : p = r
      · rw [same, new]
        exact Nat.lt_succ_self _
      · exact (older p same here).trans (Nat.lt_succ_self _)
    · by_cases first : p = r <;> by_cases second : q = r
      · rw [first, second]
      · exact absurd (first ▸ same).symm (apart q second there)
      · exact absurd (second ▸ same) (apart p first here)
      · obtain ⟨before, name⟩ := pid p first here
        obtain ⟨before', name'⟩ := pid q second there
        exact h.distinct p q before before' (name ▸ name' ▸ same)

end Numbered

section History
variable {as : List (Fin n × Action)} {es : List (State n × (Fin n × Action))}

def Reaps (e : State n × (Fin n × Action)) (me p : Slot) : Prop :=
  e.2.2 = .go ∧ (∃ kind, (e.1.cpu e.2.1).mode = .waiting kind) ∧ (e.1.cpu e.2.1).stack = some me ∧
    e.1.zombieChild me = some p

def Forks (e : State n × (Fin n × Action)) (me np : Slot) : Prop := e.2.2 = .publish ∧ At e.1 e.2.1 me (.copied np)

def Exits (e : State n × (Fin n × Action)) (p : Slot) : Prop :=
  ∃ i, (e.1.cpu e.2.1).mode = .reparent i ∧ NPROC ≤ i ∧ (e.1.cpu e.2.1).stack = some p

theorem ret_eax (stack : (u.cpu c).stack = some me) : ((u.ret c value).proc me).eax = value := by
  simp [State.ret, State.setCur, stack]

theorem ret_state : ((u.ret c value).proc p).state = (u.proc p).state :=
  congrArg (fun v : Table n => (v.life p).state) (table_ret ..)

theorem wait_returns (reaps : Reaps (s, (c, a)) me p) (action : step pol s (c, a) = some t) :
    (t.proc p).state = .unused ∧ (t.proc me).eax = (s.proc p).pid := by
  obtain ⟨go, ⟨kind, mode⟩, stack, found⟩ := reaps
  dsimp only at go mode stack found
  subst go
  have waits : t = s.waiting c kind := by
    simpa [step, State.go, mode, eq_comm] using action
  subst waits
  unfold State.waiting
  rw [stack]
  dsimp only
  rw [found]
  dsimp only
  rw [State.resume, goto_proc, release_proc]
  refine ⟨?_, ret_eax ?_⟩
  · rw [ret_state]
    split_ifs
    · rw [setProc_proc]
      split_ifs with same
      · subst same
        simp [reap_state]
      · simp [reap_state]
    · simp [reap_state]
  · split_ifs <;> exact stack

theorem fork_returns (forks : Forks (s, (c, a)) me p) (action : step pol s (c, a) = some t) :
    (t.proc me).eax = (s.proc p).pid := by
  obtain ⟨publish, here⟩ := forks
  dsimp only at publish here
  subst publish
  cases step_transition action with
  | forkPublish me' np there =>
    obtain rfl : me = me' := Option.mem_unique here.stack there.stack
    obtain rfl : p = np := Work.copied.inj (here.work.symm.trans there.work)
    unfold State.forkPublish State.publish
    refine enqueue_cases (P := fun t => (t.proc me).eax = (s.proc p).pid)
      (fun out => by simp [level?] at out) fun q _ => ?_
    simp [State.forkRet, State.setCur, here.stack]

theorem Deed.exits (deed : Deed s t c a) (zombie : (t.proc p).state = .zombie) :
    (s.proc p).state = .zombie ∧ (t.proc p).pid = (s.proc p).pid ∨
      Exits (s, (c, a)) p ∧ (t.proc p).pid = (s.proc p).pid := by
  obtain ⟨pid, before | ⟨i, mode, done, stack, -⟩⟩ := (deed.lot p).exited zombie
  · exact .inl ⟨before, pid⟩
  · exact .inr ⟨⟨i, mode, done, stack⟩, pid⟩

def ReapedOnce (es : List (State n × (Fin n × Action))) : Prop :=
  es.Pairwise fun e e' => ∀ me p me' p', Reaps e me p → Reaps e' me' p' → (e.1.proc p).pid ≠ (e'.1.proc p').pid

structure Census (bsp : Fin n) (es : List (State n × (Fin n × Action))) (s : State n) : Prop where
  wf : WellFormed s
  leaving : Leaving (table s)
  headed : Headed bsp (table s)
  family : Family (table s)
  heard : Heard (table s)
  numbered : Numbered (es.countP fun e => e.2.2 = .fork) (table s)
  once : ReapedOnce es
  gone : ∀ e ∈ es, ∀ me p, Reaps e me p → serial (e.1.proc p).pid < serial s.nextpid ∧
    ∀ q, (s.proc q).state ≠ .unused → (s.proc q).pid ≠ (e.1.proc p).pid
  exited : ∀ p, (s.proc p).state = .zombie → ∃ e ∈ es, Exits e p ∧ (e.1.proc p).pid = (s.proc p).pid

theorem Census.step (h : Census bsp es s) (few : (es.countP fun e => e.2.2 = .fork) < 2 ^ 31)
    (action : step pol s (c, a) = some t) : Census bsp (es ++ [(s, (c, a))]) t := by
  have deed := step_deed h.wf action
  have naming := deed.naming
  have reapable {me p : Slot} (reaps : Reaps (s, (c, a)) me p) : taken (table s) p := by
    have zombie : ((table s).life p).state = .zombie := zombieChild_zombie reaps.2.2.2
    simp [taken, zombie]
  refine ⟨h.wf.step action, h.leaving.deed h.wf deed, h.headed.deed h.leaving deed,
    h.family.deed h.wf h.leaving h.headed deed,
    h.heard.deed h.wf h.family h.headed deed, ?_, ?_, fun e member me p reaps => ?_,
    fun p zombie => ?_⟩
  · have numbered := h.numbered.naming (by omega) (fun d early => h.headed.only d (by rw [early]; rfl)) naming
    have count : (es ++ [(s, (c, a))]).countP
      (fun e => e.2.2 = .fork) = es.countP (fun e => e.2.2 = .fork) + forked a := by
      simp [forked, List.countP_append, List.countP_cons]
    rw [count]
    exact numbered
  · refine List.pairwise_append.mpr
      ⟨h.once, List.pairwise_singleton .., fun e member e' new me p _ p' first second => ?_⟩
    obtain rfl : e' = (s, (c, a)) := by simpa using new
    exact ((h.gone e member me p first).2 p' (reapable second)).symm
  · have bound := h.numbered.bound
    rcases List.mem_append.mp member with earlier | now
    · obtain ⟨old, away⟩ := h.gone e earlier me p reaps
      exact naming.avoid (by omega) old fun q _ before => away q before
    obtain rfl : e = (s, (c, a)) := by simpa using now
    refine naming.avoid (by omega) (h.numbered.past p (reapable reaps)) fun q here before same => here ?_
    rw [h.numbered.distinct q p before (reapable reaps) same]
    exact (wait_returns reaps action).1
  · rcases deed.exits zombie with ⟨before, same⟩ | ⟨now, same⟩
    · obtain ⟨e, member, exits, pid⟩ := h.exited p before
      exact ⟨e, by simp [member], exits, pid.trans same.symm⟩
    · exact ⟨(s, (c, a)), by simp, now, same.symm⟩

theorem headed_boot (bsp : Fin n) : Headed bsp (table (boot bsp)) := by
  have nobody : Nobody (table (boot bsp)) := fun p => rfl
  refine ⟨fun d boots => ?_, fun _ _ => nobody, fun d p boots => ?_, .inl nobody, fun p init => by cases init⟩
  · change (errand (Cpu.zero _)).booting at boots
    split_ifs at boots with same
    · exact same
    · cases boots
  · change errand (Cpu.zero _) = .boots p true at boots
    split_ifs at boots <;> cases boots

theorem calm_boot (bsp d : Fin n) : ((table (boot bsp)).errand d).leaver = none := by
  change (errand (Cpu.zero _)).leaver = none
  split_ifs <;> rfl

theorem family_boot (bsp : Fin n) : Family (table (boot bsp)) where
  unused _ _ := rfl
  embryo p me state := by cases state
  copied p me work := by cases work
  busy p me work := by cases work
  alone _ _ := rfl
  other p parent := by cases parent
  parent p here := by cases here
  passed d me k past := absurd (calm_boot bsp d) (by simp [Errand.leaver_of_past past])

theorem census_boot (bsp : Fin n) : Census bsp [] (boot bsp) where
  wf := (quiet_boot bsp).wellFormed
  leaving := leaving_boot bsp
  headed := headed_boot bsp
  family := family_boot bsp
  heard := .of_nobody (fun p => rfl) (calm_boot bsp)
  numbered := ⟨by simp [table, boot, serial], fun _ _ => by simp [table, boot, serial], fun p here => absurd rfl here,
    fun p q here => absurd rfl here⟩
  once := .nil
  gone e member := by cases member
  exited p zombie := by cases zombie

theorem census (run : exec (step pol) (boot bsp) as = some s)
    (few : ((trace (step pol) (boot bsp) as).countP fun e => e.2.2 = .fork) < 2 ^ 31) :
    Census bsp (trace (step pol) (boot bsp) as) s := by
  refine exec_induction (I := fun es s => (es.countP fun e => e.2.2 = .fork) < 2 ^ 31 → Census bsp es s)
    (fun _ => census_boot bsp) ?_ run few
  rintro es s ⟨c, a⟩ t ih action few
  have fewer : (es.countP fun e => e.2.2 = .fork) < 2 ^ 31 := by
    rw [List.countP_append] at few
    omega
  exact (ih fewer).step fewer action

structure Kindred (s : State n) : Prop where
  distinct : ∀ p q, (s.proc p).state ≠ .unused → (s.proc q).state ≠ .unused → (s.proc p).pid = (s.proc q).pid → p = q
  parent : ∀ p, s.initproc ≠ some p → live (s.proc p).state →
    ∃ q, (s.proc p).parent = some q ∧ alive (s.proc q).state
  heard : ∀ p, (s.proc p).state = .sleeping → (s.proc p).chan = some (.proc p) →
    ∀ r, (s.proc r).parent = some p → (s.proc r).state ≠ .zombie

theorem Census.kindred (h : Census bsp es s) (free : s.lock = none) : Kindred s where
  distinct := h.numbered.distinct
  parent p other here := h.family.parent p here other
  heard p asleep chan r child dead := by
    obtain ⟨-, d, reaches⟩ := h.heard.heard p r ⟨asleep, chan⟩ child dead
    obtain ⟨me, leaves⟩ := Option.ne_none_iff_exists'.mp reaches.leaver
    have lock := h.wf.leaver_lock leaves
    rw [free] at lock
    cases lock

theorem tree_kindred (run : exec (step pol) (boot bsp) as = some s)
    (few : ((trace (step pol) (boot bsp) as).countP fun e => e.2.2 = .fork) < 2 ^ 31) :
    (s.lock = none → Kindred s) ∧ ReapedOnce (trace (step pol) (boot bsp) as) ∧
    (∀ c a t me np, Forks (s, (c, a)) me np → step pol s (c, a) = some t → (t.proc me).eax = (s.proc np).pid) ∧
    ∀ c a t me p, Reaps (s, (c, a)) me p → step pol s (c, a) = some t →
      (t.proc me).eax = (s.proc p).pid ∧ (s.proc p).parent = some me ∧
      ∃ e ∈ trace (step pol) (boot bsp) as, Exits e p ∧ (e.1.proc p).pid = (s.proc p).pid := by
  have census := census run few
  refine ⟨census.kindred, census.once, fun c a t me _ forks action => fork_returns forks action,
    fun c a t _ p reaps action => ⟨(wait_returns reaps action).2, zombieChild_parent reaps.2.2.2, ?_⟩⟩
  exact census.exited p (zombieChild_zombie reaps.2.2.2)

theorem tree_kindred_child : ∃ s t, exec (step .default) (boot 0) (childRuns ++ (0, .exit) :: childReaped) = some s ∧
    step .default s (0, .go) = some t ∧ (s.proc 1).pid = 2 ∧ (t.proc 0).eax = 2 ∧ (s.proc 1).parent = some 0 ∧
    ∃ e ∈ trace (step .default) (boot 0) (childRuns ++ (0, .exit) :: childReaped),
    Exits e 1 ∧ (e.1.proc 1).pid = 2 := by
  obtain ⟨s, run, mode, stack, found, pid, ⟨t, action⟩, few⟩ :
      ∃ s, exec (step .default) (boot 0) (childRuns ++ (0, .exit) :: childReaped) = some s ∧
        (s.cpu 0).mode = .waiting .waitx ∧
        (s.cpu 0).stack = some 0 ∧ s.zombieChild 0 = some 1 ∧
        (s.proc 1).pid = 2 ∧ (∃ t, step .default s (0, .go) = some t) ∧
        (trace (step .default) (boot 0) (childRuns ++ (0, .exit) :: childReaped)).countP
        (fun e => e.2.2 = .fork) < 2 ^ 31 := by
    decide +kernel
  obtain ⟨-, -, -, returns⟩ := tree_kindred run few
  obtain ⟨eax, parent, exited⟩ := returns 0 .go t 0 1 ⟨rfl, ⟨_, mode⟩, stack, found⟩ action
  rw [pid] at eax exited
  exact ⟨s, t, run, action, pid, eax, parent, exited⟩

end History

end Xv6.Proof
