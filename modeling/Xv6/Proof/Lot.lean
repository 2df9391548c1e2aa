import Xv6.Proof.Deed

namespace Xv6.Proof
open Xv6.Library Xv6.Kernel State

variable {n : Nat} {s t : State n} {v : Table n} {c : Fin n} {a : Action} {p r me : Slot}

structure Face where
  state : ProcState
  pid : Int
  parent : Option Slot
  killed : Bool
  work : Work

def face (k : Life) : Face := ⟨k.state, k.pid, k.parent, k.killed, k.work⟩

def alive : ProcState → Bool
  | .sleeping | .runnable | .running => true
  | _ => false

def exiting : Work → Bool
  | .exiting _ => true
  | _ => false

def Errand.booting : Errand → Bool
  | .early | .boots _ _ => true
  | _ => false

def Makes (w : Work) (p : Slot) : Prop := w = .filled p ∨ w = .copied p

def Blank (k : Life) : Prop := k.rtime = 0 ∧ k.ticks = fun _ => 0

inductive Lot (s t : State n) (c : Fin n) (a : Action) (p : Slot) : Prop
  | keep (face : face ((table t).life p) = face ((table s).life p))
  | alloc (unused : (s.proc p).state = .unused)
      (face : face ((table t).life p) = { face ((table s).life p) with state := .embryo, pid := s.nextpid })
      (nextpid : t.nextpid = int32 (s.nextpid + 1))
  | fill (embryo : (s.proc p).state = .embryo)
      (face : face ((table t).life p) = { face ((table s).life p) with work := .run })
  -- the process itself, in `fork` or at the beginning of `exit`
  | busy (w w' : Work) (calls : Calls s c a p w) (stays : exiting w = false)
    (init : s.initproc = some p → exiting w' = false)
      (makes : ∀ q, Makes w' q → Makes w q ∨ (s.proc q).state = .embryo ∧ Blank ((table t).life q))
      (face : face ((table t).life p) = { face ((table s).life p) with work := w' })
  | drop (action : a = .fill false ∨ a = .copy false) (embryo : (s.proc p).state = .embryo)
      (face : face ((table t).life p) = { face ((table s).life p) with state := .unused })
  | name (me : Slot) (embryo : (s.proc p).state = .embryo)
      (face : face ((table t).life p) = { face ((table s).life p) with parent := some me })
  | publish (embryo : (s.proc p).state = .embryo)
      (face : face ((table t).life p) = { face ((table s).life p) with state := .runnable })
      (maker : (∃ me, (s.proc me).state = .running ∧ (s.proc me).work = .copied p) ∨
        errand (s.cpu c) = .boots p true ∧ errand (t.cpu c) = .none)
  | reap (zombie : (s.proc p).state = .zombie)
      (face : face ((table t).life p) = ⟨.unused, 0, none, false, ((table s).life p).work⟩)
  | move (state : ProcState) (before : alive (s.proc p).state) (after : alive state)
      (face : face ((table t).life p) = { face ((table s).life p) with state := state })
  | kill (pid : Int) (action : a = .kill pid)
      (found : ((List.finRange NPROC).find? fun p => (s.proc p).pid = pid) = some p)
      (face : face ((table t).life p) = face { ((table s).life p).rouse with killed := true })
  | badTrap (action : a = .badTrap) (own : (s.cpu c).proc = some p) (running : (s.proc p).state = .running)
      (face : face ((table t).life p) = { face ((table s).life p) with killed := true })
  | pass (me : Slot) (child : (s.proc p).parent = some me)
      (face : face ((table t).life p) = { face ((table s).life p) with parent := s.initproc })
  | zombie (i : Nat) (mode : (s.cpu c).mode = .reparent i) (done : NPROC ≤ i) (stack : (s.cpu c).stack = some p)
      (running : (s.proc p).state = .running)
      (face : face ((table t).life p) = { face ((table s).life p) with state := .zombie })

theorem face_set {f : Life → Life} :
    face ((v.set r f).life p) = if p = r then face (f (v.life p)) else face (v.life p) := by
  rw [Table.set_life]
  split_ifs with same
  · rw [same]
  · rfl

theorem face_goOn {o : Option Slot} {w : Work} {x : Errand} :
    face ((v.goOn c o w x).life p) = if o = some p then { face (v.life p) with work := w } else face (v.life p) := by
  rw [Table.goOn_life]
  split_ifs <;> rfl

theorem face_reset (ticks : Nat) (k : Life) : face (k.reset ticks) = face k := by
  have times (x y z : Int) (f : Level → Int) :
    face { k with ctime := x, etime := y, rtime := z, ticks := f } = face k := rfl
  exact times _ _ _ _

theorem blank_goOn {f : Life → Life} {o : Option Slot} {w : Work} {x : Errand} (blank : Blank (f (v.life r))) :
    Blank (((v.set r f).goOn c o w x).life r) := by
  simp only [Blank, Table.goOn_life]
  split_ifs <;> simpa [Blank] using blank

theorem Deed.lot (deed : Deed s t c a) (p : Slot) : Lot s t c a p := by
  -- the step changes the record of `r`: nothing to say if that is another slot
  have at_slot {r : Slot} {f : Life → Life} (life : face ((table t).life p) = face (((table s).set r f).life p))
      (here : p = r → face ((table t).life p) = face (f ((table s).life p)) → Lot s t c a p) : Lot s t c a p := by
    rw [face_set] at life
    split_ifs at life with same
    · exact here same life
    · exact .keep life
  have makes {o : Option Slot} {r : Slot} {f : Life → Life} {w w' : Work} {x y : Errand} (maker : Maker s c a o w x)
      (stays : exiting w = false) (goes : exiting w' = false) (other : (s.proc r).state ≠ .running)
      (next : ∀ q, Makes w' q → Makes w q ∨ (s.proc q).state = .embryo ∧ Blank ((table t).life q))
      (life : face ((table t).life p) = face ((((table s).set r f).goOn c o w' y).life p))
      (here : p = r → face ((table t).life p) = face (f ((table s).life p)) → Lot s t c a p) : Lot s t c a p := by
    rw [face_goOn] at life
    split_ifs at life with me
    · have calls := maker.thread p me
      have apart : p ≠ r := by
        rintro rfl
        exact other calls.running
      rw [face_set, if_neg apart] at life
      exact .busy w w' calls stays (fun _ => goes) next life
    · exact at_slot life here
  have moves {r : Slot} {f : Life → Life} {state : ProcState}
    (life : face ((table t).life p) = face (((table s).set r f).life p))
      (before : alive (s.proc r).state) (after : alive state)
      (moved : ∀ k, face (f k) = { face k with state := state }) :
      Lot s t c a p :=
    at_slot life fun same face => .move state (same ▸ before) after (face.trans (moved _))
  have look {v : Table n} (same : table t = v) : face ((table t).life p) = face (v.life p) := by rw [same]
  cases deed with
  | rest table => exact .keep ((look table).trans rfl)
  | halt _ table | timerDone _ _ table | timer _ _ _ table | exitLock _ _ _ _ _ _ _ table
  | scan _ _ _ _ _ _ table | scanned _ _ _ _ _ table | skip _ _ _ _ _ table => exact .keep ((look table).trans rfl)
  | alloc o r _ maker unused table =>
    exact makes maker rfl rfl (by simp [unused]) (by simp [Makes]) ((look table).trans rfl)
      fun same face => .alloc (same ▸ unused) face (congrArg Table.nextpid table)
  | fill o r _ maker embryo table =>
    refine makes maker rfl rfl (by simp [embryo]) (fun q made => .inr ?_) ((look table).trans rfl) fun same face =>
      .fill (same ▸ embryo) (face.trans (congrArg ({ · with work := .run }) (face_reset s.ticks _)))
    obtain rfl : r = q := by simpa [Makes] using made
    exact ⟨embryo, table ▸ blank_goOn ⟨rfl, rfl⟩⟩
  | fillFail o r action maker embryo table =>
    exact makes maker rfl rfl (by simp [embryo]) (by simp [Makes]) ((look table).trans rfl) fun same face =>
      .drop (.inl action) (same ▸ embryo) (face.trans (congrArg ({ · with state := .unused }) (face_reset s.ticks _)))
  | copy me r maker embryo table =>
    exact makes (y := .none) maker rfl rfl (by simp [embryo]) (by simp [Makes])
      ((look table).trans rfl) fun same face => .name me (same ▸ embryo) face
  | copyFail me r action maker embryo table =>
    exact makes (y := .none) maker rfl rfl (by simp [embryo]) (by simp [Makes])
      ((look table).trans rfl) fun same face => .drop (.inr action) (same ▸ embryo) face
  | publish o r maker embryo table =>
    refine makes maker rfl rfl (by simp [embryo]) (by simp [Makes])
      ((look table).trans rfl) fun same face => .publish (same ▸ embryo) face ?_
    cases o with
    | none =>
      exact .inr ⟨same ▸ maker.boot rfl, (congrFun (congrArg Table.errand table) c).trans (Table.send_errand_self ..)⟩
    | some me => exact .inl ⟨me, (maker.thread me rfl).running, same ▸ (maker.thread me rfl).work⟩
  | reap _ r kind _ _ found table =>
    refine at_slot ((look table).trans rfl) fun same face => .reap (same ▸ zombieChild_zombie found) (face.trans ?_)
    cases kind <;> rfl
  | dispatch r runnable table => exact moves ((look table).trans rfl) (by rw [runnable]; rfl) rfl fun _ => rfl
  | charge r q _ _ _ _ _ table => exact at_slot (f := Life.charge q) ((look table).trans rfl) fun _ face => .keep face
  | yield r _ running table | sleep r _ _ running _ _ _ table =>
    exact moves ((look table).trans rfl) (by rw [running]; rfl) rfl fun _ => rfl
  | wake r _ _ _ asleep _ table =>
    exact moves (f := ({ · with state := .runnable })) ((look table).trans rfl) (by rw [asleep]; rfl) rfl fun _ => rfl
  | resumed r _ _ table => exact at_slot ((look table).trans rfl) fun _ face => .keep face
  | kill r pid action found table =>
    exact at_slot ((look table).trans rfl) fun same face => .kill pid action (same ▸ found) face
  | badTrap r action own running table =>
    exact at_slot ((look table).trans rfl) fun same face => .badTrap action (same ▸ own) (same ▸ running) face
  | exit r masked calls other table =>
    refine at_slot ((look table).trans rfl) fun same face => ?_
    subst same
    exact .busy .run (.exiting masked) calls rfl (fun init => absurd init other) (by simp [Makes]) face
  | pass r me _ _ _ child table =>
    exact at_slot (f := ({ · with parent := s.initproc }))
      ((look table).trans rfl) fun same face => .pass me (same ▸ child) face
  | zombie _ i mode done stack running table =>
    exact at_slot (f := ({ · with state := .zombie })) ((look table).trans rfl)
      fun same face => .zombie i mode done (same ▸ stack) (same ▸ running) face

theorem Lot.work (lot : Lot s t c a p) : ((table t).life p).work = ((table s).life p).work ∨
    (s.proc p).state = .embryo ∧ ((table t).life p).work = .run ∨
    ∃ w w', Calls s c a p w ∧ exiting w = false ∧
    ((table t).life p).work = w' ∧ (s.initproc = some p → exiting w' = false) ∧
      ∀ q, Makes w' q → Makes w q ∨ (s.proc q).state = .embryo ∧ Blank ((table t).life q) := by
  cases lot with
  | fill embryo face => exact .inr (.inl ⟨embryo, congrArg Face.work face⟩)
  | busy w w' calls stays init makes face =>
    exact .inr (.inr ⟨w, w', calls, stays, congrArg Face.work face, init, makes⟩)
  | keep face | alloc _ face | drop _ _ face | name _ _ face | publish _ face | reap _ face | move _ _ _ face
  | kill _ _ _ face
  | badTrap _ _ _ face | pass _ _ face | zombie _ _ _ _ _ face => exact .inl (congrArg Face.work face)

theorem Lot.exited (lot : Lot s t c a p) (zombie : (t.proc p).state = .zombie) : (t.proc p).pid = (s.proc p).pid ∧
    ((s.proc p).state = .zombie ∨ ∃ i, (s.cpu c).mode = .reparent i ∧
      NPROC ≤ i ∧ (s.cpu c).stack = some p ∧ (s.proc p).state = .running) := by
  have state : (face ((table t).life p)).state = .zombie := zombie
  cases lot with
  | keep face | fill _ face | busy _ _ _ _ _ _ face | name _ _ face | badTrap _ _ _ face | pass _ _ face =>
    rw [face] at state
    exact ⟨congrArg Face.pid face, .inl state⟩
  | alloc _ face | drop _ _ face | publish _ face | reap _ face => rw [face] at state; cases state
  | move k _ after face =>
    rw [face] at state
    obtain rfl : k = .zombie := state
    cases after
  | kill _ _ _ face =>
    rw [face] at state
    refine ⟨congrArg Face.pid face, .inl ?_⟩
    by_cases asleep : ((table s).life p).state = .sleeping
    · simp [Proof.face, Life.rouse, asleep] at state
    · change ((table s).life p).state = .zombie
      simpa [Proof.face, Life.rouse, asleep] using state
  | zombie i mode done stack running face => exact ⟨congrArg Face.pid face, .inr ⟨i, mode, done, stack, running⟩⟩

theorem Lot.alive (lot : Lot s t c a p) (here : Proof.alive (s.proc p).state) :
    Proof.alive (t.proc p).state ∨ (t.proc p).state = .zombie := by
  change Proof.alive (face ((table t).life p)).state ∨ (face ((table t).life p)).state = _
  cases lot with
  | alloc state | fill state | drop _ state | name _ state | publish state | reap state =>
    rw [state] at here; cases here
  | keep face | busy _ _ _ _ _ _ face | badTrap _ _ _ face | pass _ _ face => rw [face]; exact .inl here
  | move _ _ after face => rw [face]; exact .inl after
  | kill _ _ _ face => 
    rw [face]
    refine .inl ?_
    simp only [Proof.face, Life.rouse]
    split_ifs
    · rfl
    · exact here
  | zombie _ _ _ _ _ face => rw [face]; exact .inr rfl

theorem leaver_wakeup1 {k : Cpu} {chan : Option Chan} {i j : Nat} {r : Ret} (mode : k.mode = .wakeup1 chan i r) :
    (errand { k with mode := .wakeup1 chan j r }).leaver = (errand k).leaver := by
  cases r with
  | reparent m => cases m <;> simp [errand, mode, Errand.leaver]
  | _ => simp [errand, mode, Errand.leaver]

theorem booting_wakeup1 {k : Cpu} {chan : Option Chan} {i : Nat} {r : Ret} :
    (errand { k with mode := .wakeup1 chan i r }).booting = false := by
  cases r with
  | reparent m => cases m <;> rfl
  | _ => rfl

/-- What processor `c` may turn to in one step. -/
structure Next (s t : State n) (c : Fin n) (x : Errand) : Prop where
  early : x ≠ .early
  booting : x.booting → (errand (s.cpu c)).booting
  named : ∀ p, x = .boots p true → t.initproc = some p ∧ (s.proc p).state = .embryo ∧ Blank ((table t).life p)
  leaver : ∀ me, x.leaver = some me → (errand (s.cpu c)).leaver = some me ∨
    (s.proc me).state = .running ∧ exiting (s.proc me).work

theorem Deed.errand (deed : Deed s t c a) (d : Fin n) :
    (table t).errand d = (table s).errand d ∨ d = c ∧ Next s t c ((table t).errand d) := by
  have next {x : Errand} (sent : (table t).errand = Function.update (table s).errand c x) (next : Next s t c x) :
      (table t).errand d = (table s).errand d ∨ d = c ∧ Next s t c ((table t).errand d) := by
    rw [sent]
    by_cases here : d = c
    · subst here
      rw [Function.update_self]
      exact .inr ⟨rfl, next⟩
    · exact .inl (Function.update_of_ne here ..)
  have past {x : Errand} (booted : x.booting = false)
      (leaver : ∀ me, x.leaver = some me → (Proof.errand (s.cpu c)).leaver = some me ∨
        (s.proc me).state = .running ∧ exiting (s.proc me).work) :
      Next s t c x := by
    refine ⟨?_, by simp [booted], ?_, leaver⟩
    · rintro rfl
      cases booted
    · rintro p rfl
      cases booted
  cases deed with
  | rest table | copy _ _ _ _ table | copyFail _ _ _ _ _ table | reap _ _ _ _ _ _ table | dispatch _ _ table
  | yield _ _ _ table
  | sleep _ _ _ _ _ _ _ table | resumed _ _ _ table | kill _ _ _ _ table | badTrap _ _ _ _ table | exit _ _ _ _ table =>
    exact .inl (congrFun (congrArg Table.errand table) d)
  | halt _ table | timerDone _ _ table | timer _ _ _ table | charge _ _ _ _ _ _ _ table | zombie _ _ _ _ _ _ table =>
    exact next (congrArg Table.errand table) (past rfl (by simp [Errand.leaver]))
  | alloc o _ _ maker _ table =>
    cases o with
    | none =>
      exact next (congrArg Table.errand table)
        ⟨by simp, fun _ => by rw [maker.boot rfl]; rfl, by simp, by simp [Errand.leaver]⟩
    | some => exact .inl (congrFun (congrArg Table.errand table) d)
  | fill o r _ maker embryo table =>
    have blank : Blank ((Proof.table t).life r) := table ▸ blank_goOn ⟨rfl, rfl⟩
    cases o with
    | none =>
      refine next (congrArg Table.errand table)
        ⟨by simp, fun _ => by rw [maker.boot rfl]; rfl, fun p same => ?_, by simp [Errand.leaver]⟩
      cases same
      exact ⟨congrArg Table.initproc table, embryo, blank⟩
    | some => exact .inl (congrFun (congrArg Table.errand table) d)
  | fillFail o _ _ _ _ table | publish o _ _ _ table =>
    cases o with
    | none => exact next (congrArg Table.errand table) (past rfl (by simp [Errand.leaver]))
    | some => exact .inl (congrFun (congrArg Table.errand table) d)
  | scan _ _ _ mode _ _ table | wake _ _ _ mode _ _ table =>
    exact next (congrArg Table.errand table)
      (past booting_wakeup1 fun me leaves => .inl ((leaver_wakeup1 mode).symm.trans leaves))
  | exitLock _ masked _ _ running work _ table =>
    refine next (congrArg Table.errand table) (past rfl fun me leaves => .inr ?_)
    obtain rfl := Option.some.inj leaves
    exact ⟨running, by rw [work]; rfl⟩
  | scanned _ _ j mode _ table =>
    refine next (congrArg Table.errand table) (past rfl fun me leaves => .inl ?_)
    cases j <;> simpa [Proof.errand, mode, Errand.leaver] using leaves
  | skip _ _ mode stack _ table =>
    exact next (congrArg Table.errand table) (past rfl (by simp [Proof.errand, mode, stack, Errand.leaver]))
  | pass _ _ mode stack _ _ table =>
    refine next (congrArg Table.errand table) (past (by split_ifs <;> rfl) fun me leaves => .inl ?_)
    split_ifs at leaves <;> simpa [Proof.errand, mode, stack, Errand.leaver] using leaves

end Xv6.Proof
