import Xv6.Kernel.Getpinfo
import Xv6.Proof.Lifetime

namespace Xv6.Proof
open Xv6.Library Xv6.Kernel State

variable {n : Nat} {pol : Policy} {s t : State n} {v w : Table n} {c : Fin n} {a : Action} {p r : Slot}
  {x : Errand} {o : Option Slot} {work : Work}

def Filled (v : Table n) (p : Slot) : Prop :=
  live (v.life p).state ∨ (∃ me, Makes (v.life me).work p) ∨ ∃ c, v.errand c = .boots p true

structure Tallied (k : Life) : Prop where
  total : k.rtime = ∑ q, k.ticks q
  pos : ∀ q, 0 ≤ k.ticks q

def Summed (v : Table n) : Prop := ∀ p, Filled v p → Tallied (v.life p)

inductive Meter (s t : State n) (c : Fin n) (a : Action) (p : Slot) : Prop
  | keep (filled : Filled (table t) p → Filled (table s) p)
    (rtime : ((table t).life p).rtime = ((table s).life p).rtime)
      (ticks : ((table t).life p).ticks = ((table s).life p).ticks)
  | reset (embryo : (s.proc p).state = .embryo) (rtime : ((table t).life p).rtime = 0)
      (ticks : ((table t).life p).ticks = fun _ => 0)
  | free (zombie : (s.proc p).state = .zombie) (unfilled : ¬ Filled (table t) p)
  | charge (q : Level) (action : a = .go) (mode : (s.cpu c).mode = .account) (own : (s.cpu c).proc = some p)
      (running : (s.proc p).state = .running) (level : (s.proc p).queue = q.val)
      (life : (table t).life p = Life.charge q ((table s).life p))

theorem WellFormed.reaped (wf : WellFormed s) {kind : WaitKind} (zombie : (s.proc p).state = .zombie) :
    ¬ Filled ((table s).set p (Life.reap kind)) p := by
  have taken {o : Fin n ⊕ Slot} (owns : (view s).Owns o p) : False := by
    have embryo : (s.proc p).state = .embryo := wf.owned.embryo _ _ owns
    rw [zombie] at embryo
    cases embryo
  rintro (alive | ⟨me, made⟩ | ⟨d, booted⟩)
  · rw [Table.set_life_self] at alive
    cases kind <;> cases alive
  · have made : Makes (s.proc me).work p := by
      rw [Table.set_life] at made
      split_ifs at made with same
      · subst same
        cases kind <;> exact made
      · exact made
    refine taken (o := .inr me) ?_
    change owns (s.proc me).work = some p
    rcases made with made | made <;> rw [made] <;> rfl
  · exact taken (o := .inl d) (stage_boots (b := true) booted)

theorem Deed.filled (deed : Deed s t c a) (filled : Filled (table t) p) :
    Filled (table s) p ∨ (s.proc p).state = .embryo ∧ Blank ((table t).life p) := by
  rcases filled with here | ⟨me, made⟩ | ⟨d, booted⟩
  · rcases (deed.lot p).live here with before | ⟨-, ⟨me, -, work⟩ | ⟨boots, -⟩⟩
    · exact .inl (.inl before)
    · exact .inl (.inr (.inl ⟨me, .inr work⟩))
    · exact .inl (.inr (.inr ⟨c, boots⟩))
  · rcases (deed.lot me).work with same | ⟨-, run⟩ | ⟨w, w', calls, -, work, -, makes⟩
    · exact .inl (.inr (.inl ⟨me, same ▸ made⟩))
    · simp [run, Makes] at made
    · rcases makes p (work ▸ made) with before | new
      · rw [← calls.work] at before
        exact .inl (.inr (.inl ⟨me, before⟩))
      · exact .inr new
  · rcases deed.errand d with same | ⟨rfl, next⟩
    · exact .inl (.inr (.inr ⟨d, same.symm.trans booted⟩))
    · exact .inr (next.named p booted).2

theorem Deed.meter (deed : Deed s t c a) (wf : WellFormed s) (p : Slot) : Meter s t c a p := by
  have keep (rtime : ((table t).life p).rtime = ((table s).life p).rtime)
    (ticks : ((table t).life p).ticks = ((table s).life p).ticks) :
      Meter s t c a p := by
    by_cases filled : Filled (table t) p
    · rcases deed.filled filled with before | ⟨embryo, rtime, ticks⟩
      · exact .keep (fun _ => before) rtime ticks
      · exact .reset embryo rtime ticks
    · exact .keep (fun now => absurd now filled) rtime ticks
  cases deed
  case fill o r _ _ embryo table | fillFail o r _ _ embryo table =>
    by_cases here : p = r
    · subst here
      have blank : Blank ((Proof.table t).life p) := table ▸ blank_goOn ⟨rfl, rfl⟩
      exact .reset embryo blank.1 blank.2
    · refine keep ?_ ?_ <;> rw [table] <;> simp only [Table.goOn_life] <;> split_ifs <;> simp [here]
  case reap _ r kind _ _ found table =>
    have zombie := zombieChild_zombie found
    by_cases here : p = r
    · subst here
      exact .free zombie (table ▸ wf.reaped zombie)
    · exact keep (by rw [table, Table.set_life_ne _ _ _ here]) (by rw [table, Table.set_life_ne _ _ _ here])
  case charge r q action mode own running level table =>
    have life := congrFun (congrArg Table.life table) p
    rw [Table.send_life, Table.set_life] at life
    split_ifs at life with here
    · subst here
      exact .charge q action mode own running level life
    · exact keep (by rw [life]) (by rw [life])
  all_goals
    rename table t = _ => same
    refine keep ?_ ?_ <;> rw [same] <;>
    simp only [Table.send_life, Table.goOn_life, Table.set_life] <;> split_ifs <;> simp_all [Life.rouse]

theorem Tallied.charge {k : Life} (h : Tallied k) (q : Level) (room : k.rtime + 1 < 2 ^ 31) : Tallied (k.charge q) := by
  have sum := h.total
  have low : 0 ≤ k.rtime := by
    rw [sum]
    exact Finset.sum_nonneg fun l _ => h.pos l
  have part : k.ticks q ≤ k.rtime := by
    rw [sum]
    exact Finset.single_le_sum (fun l _ => h.pos l) (Finset.mem_univ q)
  have one : int32 (k.rtime + 1) = k.rtime + 1 := int32_small (by omega) room
  have up : int32 (k.ticks q + 1) = k.ticks q + 1 := int32_small (by have := h.pos q; omega) (by omega)
  refine ⟨?_, fun l => ?_⟩
  · simp only [Life.charge, one, up]
    rw [Finset.sum_update_of_mem (Finset.mem_univ q), sum,
      ← Finset.add_sum_erase _ _ (Finset.mem_univ q), Finset.sdiff_singleton_eq_erase]
    omega
  simp only [Life.charge, up, Function.update_apply]
  split_ifs
  · have := h.pos q
    omega
  · exact h.pos l

theorem Summed.deed (h : Summed (table s)) (wf : WellFormed s) (deed : Deed s t c a)
    (room : ∀ p, a = .go → (s.cpu c).mode = .account → (s.cpu c).proc = some p → (s.proc p).rtime + 1 < 2 ^ 31) :
    Summed (table t) := by
  intro p filled
  cases deed.meter wf p with
  | keep before rtime ticks =>
    obtain ⟨total, pos⟩ := h p (before filled)
    exact ⟨by rw [rtime, ticks, total], fun q => by rw [ticks]; exact pos q⟩
  | reset _ rtime ticks => exact ⟨by simp [rtime, ticks], fun q => by simp [ticks]⟩
  | free _ unfilled => exact absurd filled unfilled
  | charge q action mode own running _ life =>
    rw [life]
    exact (h p (.inl (by simp [table_state, running, live]))).charge q (room p action mode own)

theorem Deed.keeps (deed : Deed s t c a) (leaving : Leaving (table s))
    (work : ((table s).life p).work = .run) (alive : live ((table s).life p).state) :
    ((table t).life p).work = .run ∧ live ((table t).life p).state ∨ ∃ w, Calls s c a p w := by
  rcases (deed.lot p).work with same | ⟨embryo, -⟩ | ⟨w, -, calls, -⟩
  · refine .inl ⟨same.trans work, ?_⟩
    change live (face ((table t).life p)).state
    cases deed.lot p with
    | reap zombie =>
      have out := leaving.zombie p zombie
      rw [work] at out
      cases out
    | keep face | fill _ face | busy _ _ _ _ _ _ face | badTrap _ _ _ face | pass _ _ face => rw [face]; exact alive
    | move _ _ after face => rw [face]; exact live_of_alive after
    | publish _ face | zombie _ _ _ _ _ face => rw [face]; rfl
    | kill _ _ _ face => rw [face]; exact (live_rouse _).trans alive
    | alloc unused => rw [table_state, unused] at alive; cases alive
    | drop _ embryo | name _ embryo => rw [table_state, embryo] at alive; cases alive
  · rw [table_state, embryo] at alive
    cases alive
  · exact .inr ⟨w, calls⟩

/-- No tick is charged to a process that has copied its run time but not yet the counter of its level, and no
run time overflows. -/
def Undisturbed : Machine n × Move n → Prop
  | (m, .kernel c a) =>
    a = .go → (m.kernel.cpu c).mode = .account → ∀ p ∈ (m.kernel.cpu c).proc,
      (m.kernel.proc p).rtime + 1 < 2 ^ 31 ∧ ∀ k ∈ m.copy p, ∀ q : Level, (m.kernel.proc p).queue = q.val →
        .runtime ∈ k.rest ∨ .ticks q ∉ k.rest
  | _ => True

def sampled (k : Copy) (now : Level → Int) (q : Level) : Int :=
  if .ticks q ∈ k.rest then now q else k.stat.ticks q

structure Copies (m : Machine n) : Prop where
  wf : WellFormed m.kernel
  leaving : Leaving (table m.kernel)
  summed : Summed (table m.kernel)
  work : ∀ p k, m.copy p = some k → (m.kernel.proc p).work = .run
  alive : ∀ p k, m.copy p = some k → live (m.kernel.proc p).state
  order : ∀ p k, m.copy p = some k → k.rest <:+ getpinfo
  read : ∀ p k, m.copy p = some k → .runtime ∉ k.rest →
    k.stat.runtime = ∑ q, sampled k (m.kernel.proc p).ticks q

variable {m m' : Machine n}

theorem Copies.kernel (h : Copies m) (undisturbed : Undisturbed (m, .kernel c a)) (free : ¬ (m.copying c ∧ a.isCall))
    (action : step pol m.kernel (c, a) = some t) : Copies { m with kernel := t } := by
  have deed := step_deed h.wf action
  have kept {r : Slot} {k : Copy} (inside : m.copy r = some k) : (t.proc r).work = .run ∧ live (t.proc r).state := by
    rcases deed.keeps h.leaving (h.work r k inside) (h.alive r k inside) with kept | ⟨w, calls⟩
    · exact kept
    · exact absurd ⟨by simp [Machine.copying, calls.stack, inside], calls.call⟩ free
  refine ⟨h.wf.step action, h.leaving.deed h.wf deed, ?_, fun r k inside => (kept inside).1,
    fun r k inside => (kept inside).2, h.order, fun r k inside past => ?_⟩
  · exact h.summed.deed h.wf deed fun p go mode own => (undisturbed go mode p own).1
  have before := h.read r k inside past
  cases deed.meter h.wf r with
  | keep _ _ ticks =>
    have same : (t.proc r).ticks = (m.kernel.proc r).ticks := ticks
    rw [before]
    simp only [same]
  | reset embryo =>
    have alive := h.alive r k inside
    rw [embryo] at alive
    cases alive
  | free zombie =>
    have out := h.leaving.zombie r zombie
    have work : ((table m.kernel).life r).work = .run := h.work r k inside
    rw [work] at out
    cases out
  | charge q go mode own _ level life =>
    have other : .ticks q ∉ k.rest :=
      ((undisturbed go mode r own).2 k inside q level).resolve_left past
    have ticks : (t.proc r).ticks = Function.update (m.kernel.proc r).ticks q (int32 ((m.kernel.proc r).ticks q + 1)) :=
      congrArg Life.ticks life
    rw [before]
    refine Finset.sum_congr rfl fun l _ => ?_
    simp only [sampled, ticks]
    split_ifs with unread
    · have differs : l ≠ q := by
        rintro rfl
        exact other unread
      rw [Function.update_of_ne differs]
    · rfl

theorem WellFormed.ret (h : WellFormed s) (value : Int) : WellFormed (s.ret c value) := by
  have state (r : Slot) : ((s.ret c value).proc r).state = (s.proc r).state :=
    congrArg (fun v : Table n => (v.life r).state) (table_ret ..)
  refine ⟨h.control.inert (ret_cpu s value) (setCur_lock ..) fun r => by rw [state], ?_, ?_⟩
  · rw [view_ret]
    exact h.owned
  · rw [view_ret]
    exact h.bounded

theorem Copies.setCopy (h : Copies m) {o : Option Copy}
    (call : ∀ k, o = some k → (m.kernel.proc p).work = .run ∧ live (m.kernel.proc p).state ∧ k.rest <:+ getpinfo ∧
      (.runtime ∉ k.rest → k.stat.runtime = ∑ q, sampled k (m.kernel.proc p).ticks q)) :
    Copies (m.setCopy p o) := by
  have split {r : Slot} {k : Copy} (inside : (m.setCopy p o).copy r = some k) : r = p ∧
    o = some k ∨ m.copy r = some k := by
    by_cases same : r = p
    · subst same
      exact .inl ⟨rfl, by simpa [Machine.setCopy] using inside⟩
    · exact .inr (by simpa [Machine.setCopy, same] using inside)
  refine ⟨h.wf, h.leaving, h.summed, fun r k inside => ?_, fun r k inside => ?_, fun r k inside => ?_,
    fun r k inside => ?_⟩ <;> rcases split inside with ⟨rfl, new⟩ | old
  · exact (call k new).1
  · exact h.work r k old
  · exact (call k new).2.1
  · exact h.alive r k old
  · exact (call k new).2.2.1
  · exact h.order r k old
  · exact (call k new).2.2.2
  · exact h.read r k old

theorem Machine.of_thread {m : Machine n} (running : m.thread c = some p) :
    (m.kernel.cpu c).mode = .thread ∧ (m.kernel.cpu c).stack = some p := by
  unfold Machine.thread at running
  split_ifs at running with mode
  exact ⟨mode, running⟩

theorem unread {rest : List StatField} (order : .runtime :: rest <:+ getpinfo) (q : Level) : .ticks q ∈ rest := by
  have later : ∀ l ∈ getpinfo.tails, l.head? = some .runtime → ∀ q, .ticks q ∈ l.tail := by decide
  exact later _ ((List.mem_tails ..).mpr order) rfl q

theorem Copies.assign (h : Copies m) {f : StatField} {rest : List StatField} {stat : ProcStat}
    (inside : m.copy p = some ⟨f :: rest, stat⟩) :
    Copies (m.setCopy p (some ⟨rest, assign (m.kernel.proc p) stat f⟩)) := by
  have order : f :: rest <:+ getpinfo := h.order p _ inside
  have alive := h.alive p _ inside
  refine h.setCopy fun k new => ?_
  cases new
  refine ⟨h.work p _ inside, alive, (List.suffix_cons f rest).trans order, fun past => ?_⟩
  by_cases first : f = .runtime
  · subst first
    have total : (m.kernel.proc p).rtime = ∑ q, (m.kernel.proc p).ticks q := (h.summed p (.inl alive)).total
    simp only [Kernel.assign, sampled, unread order, if_true]
    exact total
  have before := h.read p _ inside (by simp only [List.mem_cons, not_or]; exact ⟨Ne.symm first, past⟩)
  have same : (Kernel.assign (m.kernel.proc p) stat f).runtime = stat.runtime := by
    cases f <;> first | rfl | exact absurd rfl first
  rw [same]
  refine before.trans (Finset.sum_congr rfl fun q _ => ?_)
  simp only [sampled, List.mem_cons]
  by_cases here : f = .ticks q
  · subst here
    simp [Kernel.assign]
  have kept : (Kernel.assign (m.kernel.proc p) stat f).ticks q = stat.ticks q := by
    cases f with
    | ticks i => exact Function.update_of_ne (fun same => here (by rw [same])) ..
    | _ => rfl
  simp only [kept, Ne.symm here, false_or]

theorem Copies.ret (h : Copies m) {value : Int} : Copies { m with kernel := m.kernel.ret c value } := by
  have same (r : Slot) : life ((m.kernel.ret c value).proc r) = life (m.kernel.proc r) :=
    congrArg (fun v : Table n => v.life r) (table_ret ..)
  refine ⟨h.wf.ret value, ?_, ?_, fun r k inside => ?_, fun r k inside => ?_, h.order, fun r k inside past => ?_⟩
  · rw [table_ret]
    exact h.leaving
  · rw [table_ret]
    exact h.summed
  · exact (congrArg Life.work (same r)).trans (h.work r k inside)
  · have state : ((m.kernel.ret c value).proc r).state = (m.kernel.proc r).state := congrArg Life.state (same r)
    rw [state]
    exact h.alive r k inside
  · have ticks : ((m.kernel.ret c value).proc r).ticks = (m.kernel.proc r).ticks := congrArg Life.ticks (same r)
    rw [ticks]
    exact h.read r k inside past

theorem Copies.step (h : Copies m) {e : Move n} (undisturbed : Undisturbed (m, e)) (action : m.step pol e = some m') :
    Copies m' := by
  cases e with
  | kernel c a =>
    simp only [Machine.step] at action
    split_ifs at action with busy
    obtain ⟨t, went, rfl⟩ := Option.map_eq_some_iff.mp action
    exact h.kernel undisturbed busy went
  | call c =>
    simp only [Machine.step] at action
    split at action
    case h_2 => cases action
    case h_1 p running =>
      split_ifs at action with outside
      obtain ⟨mode, stack⟩ := Machine.of_thread running
      cases action
      refine h.setCopy fun k new => ?_
      cases new
      have alive : live (m.kernel.proc p).state := by
        rw [(h.wf.control.thread mode stack).2.2.2]
        rfl
      exact ⟨outside.1, alive, List.suffix_rfl, fun past => absurd (by simp [getpinfo]) past⟩
  | assign c =>
    simp only [Machine.step] at action
    split at action
    case h_2 => cases action
    case h_1 p running =>
      split at action
      case h_2 => cases action
      case h_1 f rest stat inside =>
        cases action
        exact h.assign inside
  | ret c =>
    simp only [Machine.step] at action
    split at action
    case h_2 => cases action
    case h_1 p running =>
      split at action
      case h_2 => cases action
      case h_1 stat inside =>
        cases action
        have left : Copies (m.setCopy p none) := h.setCopy fun k new => (by cases new)
        exact left.ret

theorem filled_boot {bsp : Fin n} : ¬ Filled (table (boot bsp)) p := by
  rintro (alive | ⟨_, made | made⟩ | ⟨d, booted⟩)
  · cases alive
  · cases made
  · cases made
  · change errand (Cpu.zero _) = .boots p true at booted
    split_ifs at booted <;> cases booted

def Machine.boot (bsp : Fin n) : Machine n := ⟨Kernel.boot bsp, fun _ => none⟩

theorem copies_boot (bsp : Fin n) : Copies (Machine.boot bsp) where
  wf := (quiet_boot bsp).wellFormed
  leaving := leaving_boot bsp
  summed _ filled := absurd filled filled_boot
  work _ _ inside := by cases inside
  alive _ _ inside := by cases inside
  order _ _ inside := by cases inside
  read _ _ inside := by cases inside

theorem getpinfo_sums {bsp : Fin n} {es : List (Move n)} (run : exec (Machine.step pol) (Machine.boot bsp) es = some m)
    (undisturbed : ∀ e ∈ trace (Machine.step pol) (Machine.boot bsp) es, Undisturbed e) {stat : ProcStat}
    (done : m.copy p = some ⟨[], stat⟩) : stat.runtime = ∑ q, stat.ticks q := by
  have copies : Copies m :=
    exec_invariant (P := fun m e => Undisturbed (m, e)) (fun _ _ _ h fine action => h.step fine action)
      (copies_boot bsp) run undisturbed
  simpa [sampled] using copies.read p _ done (by simp)

def tickEarly : List (Move 1) :=
  firstProcess.map (fun e => Move.kernel e.1 e.2) ++ Move.call 0 ⟨0, 0, 0, 0, fun _ => 0⟩ :: .assign 0 ::
    (childYields.map (fun e => Move.kernel e.1 e.2) ++ List.replicate 8 (Move.assign 0))

def tickBetween : List (Move 1) :=
  firstProcess.map (fun e => Move.kernel e.1 e.2) ++ Move.call 0 ⟨0, 0, 0, 0, fun _ => 0⟩ :: .assign 0 :: .assign 0 ::
    (childYields.map (fun e => Move.kernel e.1 e.2) ++ List.replicate 7 (Move.assign 0))

instance : (e : Machine 1 × Move 1) → Decidable (Undisturbed e)
  | (_, .kernel ..) => inferInstanceAs (Decidable (_ → _))
  | (_, .call ..) => isTrue trivial
  | (_, .assign ..) => isTrue trivial
  | (_, .ret ..) => isTrue trivial

theorem getpinfo_sums_tick : ∃ m stat, exec (Machine.step .default) (Machine.boot 0) tickEarly = some m ∧
    m.copy 0 = some ⟨[], stat⟩ ∧ stat.runtime = 1 ∧ stat.runtime = ∑ q, stat.ticks q := by
  obtain ⟨m, run, calm, ⟨rest, stat⟩, inside, rfl, runtime⟩ :
      ∃ m, exec (Machine.step .default) (Machine.boot 0) tickEarly = some m ∧
        (∀ e ∈ trace (Machine.step .default) (Machine.boot 0) tickEarly, Undisturbed e) ∧
        ∃ k, m.copy 0 = some k ∧ k.rest = [] ∧ k.stat.runtime = 1 := by
    decide +kernel
  exact ⟨m, stat, run, inside, runtime, getpinfo_sums run calm inside⟩

theorem getpinfo_torn : ∃ m stat, exec (Machine.step .default) (Machine.boot 0) tickBetween = some m ∧
    m.copy 0 = some ⟨[], stat⟩ ∧ stat.runtime = 0 ∧ ∑ q, stat.ticks q = 1 := by
  obtain ⟨m, run, ⟨rest, stat⟩, inside, rfl, runtime, total⟩ :
      ∃ m, exec (Machine.step .default) (Machine.boot 0) tickBetween = some m ∧
        ∃ k, m.copy 0 = some k ∧ k.rest = [] ∧ k.stat.runtime = 0 ∧ ∑ q, k.stat.ticks q = 1 := by
    decide +kernel
  exact ⟨m, stat, run, inside, runtime, total⟩

end Xv6.Proof
