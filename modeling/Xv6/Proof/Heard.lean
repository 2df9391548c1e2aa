import Xv6.Proof.Family

namespace Xv6.Proof
open Xv6.Library Xv6.Kernel State

variable {n : Nat} {s t : State n} {v w : Table n} {bsp c d : Fin n} {a : Action} {p q r me : Slot}
  {f : Life → Life} {x y : Errand} {o : Option Slot} {job job' : Work} {chan : Option Chan} {i : Nat}

section Heard

def Asleep (v : Table n) (p : Slot) : Prop := (v.life p).state = .sleeping ∧ (v.life p).chan = some (.proc p)

/-- What the loops of `exit` have reached: the parent is being woken, and later it is no longer asleep in `wait`. -/
def Told (v : Table n) : Errand → Prop
  | .rouses (some me) chan i => chan = (v.life me).parent.map .proc ∧
      ∀ q : Slot, (v.life me).parent = some q → q.val < i → ¬ Asleep v q
  | .passes (some me) _ => ∀ q, (v.life me).parent = some q → ¬ Asleep v q
  | .hands (some me) chan _ _ => chan = v.initproc.map .proc ∧ ∀ q, (v.life me).parent = some q → ¬ Asleep v q
  | _ => True

/-- A loop that wakes init has not come past slot `p`. -/
def Errand.reaches (p : Slot) : Errand → Prop
  | .hands (some _) _ j _ => j ≤ p.val
  | _ => False

structure Heard (v : Table n) : Prop where
  told : ∀ d, Told v (v.errand d)
  heard : ∀ p r, Asleep v p → (v.life r).parent = some p → (v.life r).state = .zombie →
    v.initproc = some p ∧ ∃ d, (v.errand d).reaches p

theorem Told.of_calm (calm : x.leaver = none) : Told v x := by
  cases x with
  | rouses m | passes m | hands m =>
    obtain rfl : m = none := calm
    trivial
  | _ => trivial

theorem Told.transfer (told : Told v x) (init : w.initproc = v.initproc) (sleeps : ∀ q, Asleep w q → Asleep v q)
    (parent : ∀ me, x.leaver = some me → (w.life me).parent = (v.life me).parent) : Told w x := by
  cases x with
  | rouses m | passes m | hands m =>
    cases m with
    | none => trivial
    | some me =>
      simp only [Told, parent me rfl, init] at told ⊢
      grind
  | _ => trivial

theorem Errand.reaches.leaver (reaches : x.reaches p) : x.leaver ≠ Option.none := by
  cases x with
  | hands m =>
    cases m with
    | none => exact reaches.elim
    | some => exact Option.some_ne_none _
  | _ => exact reaches.elim

theorem Heard.set (h : Heard v) (asleep : Asleep (v.set p f) p → Asleep v p)
    (parent : (f (v.life p)).parent = (v.life p).parent ∨ ∀ d, (v.errand d).leaver ≠ some p)
    (zombie : ∀ q, Asleep v q → (f (v.life p)).state = .zombie → (f (v.life p)).parent = some q →
      v.initproc = some q ∧ ∃ d, (v.errand d).reaches q) : Heard (v.set p f) := by
  have sleeps (q : Slot) (here : Asleep (v.set p f) q) : Asleep v q := by
    by_cases same : q = p
    · exact same ▸ asleep (same ▸ here)
    · simpa [Asleep, same] using here
  refine ⟨fun d => (h.told d).transfer rfl sleeps fun me leaves => ?_, fun q r here child dead => ?_⟩
  · rw [Table.set_life]
    split_ifs with same
    · subst same
      exact parent.resolve_right fun other => other d leaves
    · rfl
  · rw [Table.set_life] at child dead
    split_ifs at child dead
    · exact zombie q (sleeps q here) dead child
    · exact h.heard q r (sleeps q here) child dead

theorem Heard.keep (h : Heard v) (asleep : (f (v.life p)).state ≠ .sleeping ∨
      (f (v.life p)).state = (v.life p).state ∧ (f (v.life p)).chan = (v.life p).chan)
    (parent : (f (v.life p)).parent = (v.life p).parent ∨ ∀ d, (v.errand d).leaver ≠ some p)
    (zombie : (f (v.life p)).state ≠ .zombie) : Heard (v.set p f) := by
  refine h.set ?_ parent fun q _ dead => absurd dead zombie
  rintro ⟨here, chan⟩
  rw [Table.set_life_self] at here chan
  rcases asleep with other | ⟨state, same⟩
  · exact absurd here other
  · exact ⟨state ▸ here, same ▸ chan⟩

theorem Heard.send (h : Heard v) (told : Told v x)
    (heard : ∀ p, Asleep v p → v.initproc = some p → (v.errand c).reaches p → x.reaches p) : Heard (v.send c x) := by
  refine ⟨fun d => ?_, fun p r asleep child dead => ?_⟩
  · rw [Table.send_errand]
    split_ifs
    · exact told.transfer rfl (fun _ => id) fun _ _ => rfl
    · exact (h.told d).transfer rfl (fun _ => id) fun _ _ => rfl
  · obtain ⟨init, d, here⟩ := h.heard p r asleep child dead
    refine ⟨init, d, ?_⟩
    rw [Table.send_errand]
    split_ifs with same
    · exact heard p asleep init (same ▸ here)
    · exact here

theorem Heard.rest (h : Heard v) (before : (v.errand c).leaver = none) (after : x.leaver = none) : Heard (v.send c x) :=
  h.send (.of_calm after) fun _ _ _ reaches => absurd before reaches.leaver

theorem Heard.goOn (h : Heard v) (before : o = none → (v.errand c).leaver = none) (after : x.leaver = none) :
    Heard (v.goOn c o job x) := by
  cases o with
  | none => exact h.rest (before rfl) after
  | some me =>
    exact h.set (f := ({ · with work := job })) (by simp [Asleep]) (.inl rfl)
      fun q here dead child => h.heard q me here child dead

theorem Heard.of_calm (calm : ∀ d, (v.errand d).leaver = none)
    (heard : ∀ p r, Asleep v p → (v.life r).parent = some p → (v.life r).state ≠ .zombie) : Heard v where
  told d := .of_calm (calm d)
  heard p r asleep child dead := absurd dead (heard p r asleep child)

theorem Heard.of_nobody (nobody : Nobody v) (calm : ∀ d, (v.errand d).leaver = none) : Heard v := by
  refine .of_calm calm fun p r asleep => ?_
  have none := nobody p
  rw [asleep.1] at none
  cases none

/-- One turn of `wakeup1`, after which slot `i` does not sleep on the channel. -/
theorem Heard.advance (h : Heard v) {k : Cpu} {ret : Ret}
    (mode : k.mode = .wakeup1 chan i ret) (same : v.errand c = errand k)
    (passed : ∀ q : Slot, q.val = i → Asleep v q → chan ≠ some (.proc q)) :
    Heard (v.send c (errand { k with mode := .wakeup1 chan (i + 1) ret })) := by
  have old := h.told c
  cases ret with
  | reparent m =>
    cases m with
    | zero =>
      have before : v.errand c = .rouses k.stack chan i := by simp [same, errand, mode]
      change Heard (v.send c (.rouses k.stack chan (i + 1)))
      rw [before] at old
      refine h.send ?_ fun p _ _ reaches => ?_
      · cases stack : k.stack with
        | none => trivial
        | some me =>
          rw [stack] at old
          refine ⟨old.1, fun q child below asleep => ?_⟩
          rcases Nat.lt_succ_iff_lt_or_eq.mp below with lower | at_i
          · exact old.2 q child lower asleep
          · exact passed q at_i asleep (by rw [old.1, child]; rfl)
      · rw [before] at reaches
        exact reaches.elim
    | succ m =>
      have before : v.errand c = .hands k.stack chan i m := by simp [same, errand, mode]
      change Heard (v.send c (.hands k.stack chan (i + 1) m))
      rw [before] at old
      cases stack : k.stack with
      | none => exact h.rest (by rw [before, stack]; rfl) rfl
      | some me =>
        rw [stack] at old
        refine h.send old fun p asleep init reaches => ?_
        rw [before, stack] at reaches
        refine Nat.lt_of_le_of_ne reaches fun at_i => passed p at_i.symm asleep ?_
        rw [old.1, init]
        rfl
  | _ => exact h.rest (by simp [same, errand, mode, Errand.leaver]) rfl

theorem zombieChild_none (none : s.zombieChild me = none) (child : (s.proc p).parent = some me) :
    (s.proc p).state ≠ .zombie := by
  have all := List.find?_eq_none.mp none p (List.mem_finRange p)
  simp only [decide_eq_true_eq, not_and] at all
  exact all child

theorem zombieChild_parent (found : s.zombieChild me = some p) : (s.proc p).parent = some me := by
  have both := List.find?_some found
  simp only [decide_eq_true_eq] at both
  exact both.1

end Heard

section WellFormed
variable (wf : WellFormed s)
include wf

theorem WellFormed.leaver_lock (leaves : (errand (s.cpu d)).leaver = some me) : s.lock = some d := by
  have ok := wf.control.cpu d
  cases mode : (s.cpu d).mode with
  | reparent i | wakeup1 _ i r =>
    rw [mode] at ok
    exact ok.1
  | _ => simp [errand, mode, Errand.leaver] at leaves

/-- Who is not running is not in `exit`. -/
theorem WellFormed.stays (other : (s.proc p).state ≠ .running) (d : Fin n) : ((table s).errand d).leaver ≠ some p :=
  fun leaves => other (wf.leaver leaves).2

/-- Nobody is in `exit` when no other processor has the lock. -/
theorem WellFormed.calm (held : s.lock = none ∨ s.lock = some c) (calm : errand (s.cpu c) = .none) (d : Fin n) :
    ((table s).errand d).leaver = none := by
  cases leaves : ((table s).errand d).leaver with
  | none => rfl
  | some m =>
    have lock := wf.leaver_lock leaves
    rcases held with free | held
    · simp [free] at lock
    · obtain rfl := Option.mem_unique held lock
      simp [table, calm, Errand.leaver] at leaves

omit wf in
theorem Heard.made {j : Work} (maker : Maker s c a o job y) (boots : y.booting)
    (kept : Heard ((table s).set r f)) (after : x.leaver = none) :
    Heard (((table s).set r f).goOn c o j x) := by
  refine kept.goOn (fun none => ?_) after
  have same : (table s).errand c = y := maker.boot none
  rw [Table.set_errand, same]
  cases y <;> first | rfl | cases boots

/-- `userinit` also sets `initproc`, when there are no processes. -/
theorem Heard.crowned (headed : Headed bsp (table s)) (maker : Maker s c a o job (.boots r false)) {init : Option Slot}
    (kept : Heard ((table s).set r f)) (state : live (f ((table s).life r)).state → live ((table s).life r).state)
    (after : x.leaver = none) :
    Heard { ((table s).set r f).goOn c o job' x with initproc := if o = none then init else s.initproc } := by
  cases o with
  | none =>
    have boots : (table s).errand c = .boots r false := maker.boot rfl
    have nobody : Nobody (table s) := headed.start c (by rw [boots]; rfl)
    refine .of_nobody (nobody.set state) fun d => ?_
    change (((table s).send c x).errand d).leaver = none
    rw [Table.send_errand]
    split_ifs
    · exact after
    cases leaves : ((table s).errand d).leaver with
    | none => rfl
    | some m => exact absurd nobody (not_nobody (wf.leaver leaves).2)
  | some me =>
    rw [if_neg (by simp), Table.initproc_self (by simp [table])]
    exact kept.goOn (by simp) after

variable (h : Heard (table s))
include h

theorem Heard.exitLock (free : s.lock = none) :
    Heard ((table s).send c (.rouses (some p) ((s.proc p).parent.map .proc) 0)) := by
  refine h.send ⟨rfl, fun q _ below => absurd below (Nat.not_lt_zero _)⟩ fun q _ _ reaches => ?_
  cases leaves : ((table s).errand c).leaver with
  | none => exact absurd leaves reaches.leaver
  | some m => simp [wf.leaver_lock leaves] at free

theorem Heard.slept {chan : Chan} (calm : errand (s.cpu c) = .none) (held : s.lock = none ∨ s.lock = some c)
    (wait : ∀ r, chan = .proc r → r = p ∧ s.zombieChild p = none) :
    Heard ((table s).set p ({ · with state := .sleeping, chan := some chan })) := by
  have alone := wf.calm held calm
  refine .of_calm alone fun q r asleep child dead => ?_
  have other : r ≠ p := by
    rintro rfl
    simp at dead
  rw [Table.set_life_ne _ _ _ other] at child dead
  by_cases same : q = p
  · subst same
    have told : chan = .proc q := by simpa [Asleep] using asleep
    exact zombieChild_none (wait q told).2 child dead
  · have before : Asleep (table s) q := by simpa [Asleep, same] using asleep
    obtain ⟨-, d, reaches⟩ := h.heard q r before child dead
    exact reaches.leaver (alone d)

/-- The children before slot `r` have been passed to init, and `r` is one. -/
theorem Heard.pass (family : Family (table s))
    (mode : (s.cpu c).mode = .reparent r.val) (stack : (s.cpu c).stack = some me)
    (child : (s.proc r).parent = some me) :
    Heard (((table s).set r ({ · with parent := s.initproc })).send c
      (if (s.proc r).state = .zombie then .hands (some me) (s.initproc.map .proc) 0 r.val
        else .passes (some me) (r.val + 1))) := by
  have passes : (table s).errand c = .passes (some me) r.val := by simp [table, errand, mode, stack]
  have told := h.told c
  rw [passes] at told
  have leaves : ((table s).errand c).leaver = some me := by rw [passes]; rfl
  have apart : some me ≠ some r := fun same => family.other r (Option.some.inj same ▸ child)
  have leavers (d : Fin n) : ((table s).errand d).leaver ≠ some r := by
    intro other
    have lock := wf.leaver_lock other
    rw [wf.leaver_lock leaves] at lock
    cases lock
    exact apart (leaves.symm.trans other)
  have silent (p : Slot) (reaches : ((table s).errand c).reaches p) : False := by
    rw [passes] at reaches
    exact reaches
  have after {x : Errand} (leaves : x.leaver = some me)
    (d : Fin n) : (((table s).send c x).errand d).leaver ≠ some r := by
    rw [Table.send_errand]
    split_ifs
    · exact leaves ▸ apart
    · exact leavers d
  split_ifs with dead
  · have sent : Heard ((table s).send c (.hands (some me) (s.initproc.map .proc) 0 r.val)) :=
      h.send ⟨rfl, told⟩ fun _ _ _ reaches => (silent _ reaches).elim
    refine sent.set (p := r) (f := ({ · with parent := s.initproc }))
      (by simp [Asleep]) (.inr (after rfl)) fun q _ _ init => ?_
    exact ⟨init, c, by rw [Table.send_errand_self]; exact Nat.zero_le _⟩
  · have sent : Heard ((table s).send c (.passes (some me) (r.val + 1))) :=
      h.send told fun _ _ _ reaches => (silent _ reaches).elim
    exact sent.set (p := r) (f := ({ · with parent := s.initproc }))
      (by simp [Asleep]) (.inr (after rfl)) fun q _ zombie => absurd zombie dead

omit wf in
theorem Heard.scanned {j : Nat} (mode : (s.cpu c).mode = .wakeup1 chan i (.reparent j)) (done : NPROC ≤ i) :
    Heard ((table s).send c (.passes (s.cpu c).stack j)) := by
  have told := h.told c
  cases stack : (s.cpu c).stack with
  | none =>
    refine h.rest ?_ rfl
    cases j <;> simp [table, errand, mode, stack, Errand.leaver]
  | some me =>
    cases j with
    | zero =>
      have rouses : (table s).errand c = .rouses (some me) chan i := by simp [table, errand, mode, stack]
      rw [rouses] at told
      refine h.send (fun q child => told.2 q child (by omega)) fun p _ _ reaches => ?_
      rw [rouses] at reaches
      exact reaches.elim
    | succ j =>
      have hands : (table s).errand c = .hands (some me) chan i j := by simp [table, errand, mode, stack]
      rw [hands] at told
      refine h.send told.2 fun p _ _ reaches => ?_
      rw [hands] at reaches
      have : i ≤ p.val := reaches
      omega

omit wf in
theorem Heard.skip (mode : (s.cpu c).mode = .reparent r.val) (stack : (s.cpu c).stack = some me) :
    Heard ((table s).send c (.passes (some me) (r.val + 1))) := by
  have passes : (table s).errand c = .passes (some me) r.val := by simp [table, errand, mode, stack]
  have told := h.told c
  rw [passes] at told
  refine h.send told fun p _ _ reaches => ?_
  rw [passes] at reaches
  exact reaches.elim

omit wf in
theorem Heard.die (mode : (s.cpu c).mode = .reparent i) (stack : (s.cpu c).stack = some me) :
    Heard (((table s).set me ({ · with state := .zombie })).send c .none) := by
  have passes : (table s).errand c = .passes (some me) i := by simp [table, errand, mode, stack]
  have told := h.told c
  rw [passes] at told
  have sent : Heard ((table s).send c .none) := by
    refine h.send trivial fun p _ _ reaches => ?_
    rw [passes] at reaches
    exact reaches
  exact sent.set (p := me) (f := ({ · with state := .zombie }))
    (by simp [Asleep]) (.inl rfl) fun q here _ child => absurd here (told q child)

theorem Heard.deed (family : Family (table s)) (headed : Headed bsp (table s)) (deed : Deed s t c a) :
    Heard (table t) := by
  cases deed with
  | rest table => exact table ▸ h
  | halt stays table => exact table ▸ h.rest stays rfl
  | timerDone mode _ table => exact table ▸ h.rest (by simp [Proof.table, errand, mode, Errand.leaver]) rfl
  | timer _ calm _ table =>
    obtain ⟨told, heard⟩ := h.rest (c := c) (x := .trap (s.cpu c).proc) (by simp [Proof.table, calm, Errand.leaver]) rfl
    exact table ▸ ⟨told, heard⟩
  | alloc o r _ maker _ table =>
    obtain ⟨told, heard⟩ := Heard.made (x := .boots r false) (j := .allocated r) maker rfl
      (h.keep (f := ({ · with state := .embryo, pid := s.nextpid })) (.inl (by simp)) (.inl rfl) (by simp)) rfl
    exact table ▸ ⟨told, heard⟩
  | fill o r _ maker embryo table =>
    refine table ▸ Heard.crowned wf headed maker (h.keep ?_ (.inl rfl) ?_) (by simp [Life.reset]) rfl
    · exact .inl (by simp [Life.reset, table_state, embryo])
    · simp [Life.reset, table_state, embryo]
  | fillFail o r _ maker _ table =>
    exact table ▸ Heard.crowned wf headed maker (h.keep (.inl (by simp)) (.inl rfl) (by simp)) (by simp [live]) rfl
  | copy me r maker embryo table =>
    have copied := h.keep (p := r) (f := ({ · with parent := some me })) (.inl (by simp [table_state, embryo]))
      (.inr (wf.stays (by simp [embryo]))) (by simp [table_state, embryo])
    exact table ▸ copied.goOn (c := c) (o := some me) (x := .none) (by simp) rfl
  | copyFail me r _ _ _ table =>
    have freed := h.keep (p := r) (f := ({ · with state := .unused })) (.inl (by simp)) (.inl rfl) (by simp)
    exact table ▸ freed.goOn (c := c) (o := some me) (x := .none) (by simp) rfl
  | publish o r maker _ table =>
    exact table ▸ Heard.made maker rfl (h.keep (.inl (by simp)) (.inl rfl) (by simp)) rfl
  | reap _ r kind _ _ found table =>
    have zombie := zombieChild_zombie found
    refine table ▸ h.keep (.inl ?_) (.inr (wf.stays (by simp [zombie]))) ?_ <;> cases kind <;> simp [Life.reap]
  | charge r q _ mode _ running _ table =>
    have charged := h.keep (p := r) (f := Life.charge q) (.inl (by simp [Life.charge, table_state, running])) (.inl rfl)
      (by simp [Life.charge, table_state, running])
    exact table ▸ charged.rest (by simp [Proof.table, errand, mode, Errand.leaver]) rfl
  | wake r _ _ mode asleep _ table =>
    have ready := h.keep (p := r) (f := ({ · with state := .runnable })) (.inl (by simp)) (.inl rfl) (by simp)
    refine table ▸ ready.advance mode rfl fun q at_i asleep => ?_
    obtain rfl : q = r := Fin.ext at_i
    simp [Asleep] at asleep
  | dispatch r _ table | yield r _ _ table => exact table ▸ h.keep (.inl (by simp)) (.inl rfl) (by simp)
  | sleep r chan _ _ calm held wait table => exact table ▸ h.slept wf calm held wait
  | resumed r _ running table | badTrap r _ _ running table =>
    exact table ▸ h.keep (.inl (by simp [table_state, running])) (.inl rfl) (by simp [table_state, running])
  | kill r _ _ _ table =>
    refine table ▸ h.set (fun asleep => ?_) (.inl rfl) fun q here dead child => h.heard q r here child ?_
    · have roused := asleep.1
      rw [Table.set_life_self] at roused
      by_cases before : ((Proof.table s).life r).state = .sleeping <;> simp [Life.rouse, before] at roused
    · by_cases before : ((Proof.table s).life r).state = .sleeping <;> simp [Life.rouse, before] at dead
      exact dead
  | exit r _ calls _ table =>
    exact table ▸ h.keep (.inl (by simp [table_state, calls.running])) (.inl rfl) (by simp [table_state, calls.running])
  | exitLock r _ _ _ _ _ free table => exact table ▸ h.exitLock wf free
  | scan _ i _ mode within passed table =>
    refine table ▸ h.advance mode rfl fun q at_i asleep told => passed ?_
    obtain rfl : q = ⟨i, within⟩ := Fin.ext at_i
    exact ⟨asleep.1, asleep.2.trans told.symm⟩
  | scanned _ _ _ mode done table => exact table ▸ h.scanned mode done
  | pass r me mode stack _ child table => exact table ▸ h.pass wf family mode stack child
  | skip r me mode stack _ table => exact table ▸ h.skip mode stack
  | zombie _ i mode _ stack _ table => exact table ▸ h.die mode stack

end WellFormed

end Xv6.Proof
