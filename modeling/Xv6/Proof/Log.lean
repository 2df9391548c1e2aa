import Xv6.Library.Transition
import Xv6.Kernel.Log

/-!
# The log is atomic across crashes

On the disk there are two kinds of states. While the header is empty, the home blocks are those of the committed
transactions. Once the header names the blocks of one more transaction, the log has their contents, and whatever has
been installed, installing it all gives the home blocks with that transaction. Each write of `commit` and of
`recover_from_log` keeps the disk in one of the two, or goes from the first to the second or back.
-/

namespace Xv6.Log
open Xv6.Library State
open Function (update_of_ne update_self update)

variable {L : Layout} {s t : State} {a : Action} {b : Word} {data : Block} {d d₀ H : Word → Block} {lh : List Word}
  {tail : Nat} {es : List (State × Action)} {tx : Tx} {i : Nat} {recovering : Bool} {h : History}

def Layout.Home (L : Layout) (b : Word) : Prop := ∀ i < L.size, b ≠ L.start + BitVec.ofNat 32 i

abbrev Tx := List (Word × Block)

def apply (H : Word → Block) (tx : Tx) : Word → Block := tx.foldl (fun H w => update H w.1 w.2) H

def replay (H : Word → Block) (txs : List Tx) : Word → Block := txs.foldl apply H

structure History where
  past : List (Tx × Bool) := []
  doing : Option Tx := none
  logged : Tx := []

def History.note (h : History) : State × Action → History
  | (_, .write b data) => { h with logged := h.logged ++ [(b, data)] }
  | (s, .commit) =>
    if s.lh.length > 0 then { h with doing := some h.logged, logged := [] }
    else { h with past := h.past ++ [(h.logged, true)], logged := [] }
  | (s, .go) =>
    if s.pc = .clear false then { h with past := h.past ++ h.doing.toList.map (·, true), doing := none } else h
  | (_, .crash) => ⟨h.past ++ h.doing.toList.map (·, false), none, []⟩

def history (es : List (State × Action)) : History := es.foldl History.note {}

/-- All commits that returned, and any of those that ended in a crash. -/
inductive Kept : List (Tx × Bool) → List Tx → Prop
  | nil : Kept [] []
  | keep {past txs} (tx : Tx) (returned : Bool) : Kept past txs → Kept (past ++ [(tx, returned)]) (txs ++ [tx])
  | drop {past txs} (tx : Tx) : Kept past txs → Kept (past ++ [(tx, false)]) txs

theorem apply_snoc (tx : Tx) : apply H (tx ++ [(b, data)]) = update (apply H tx) b data := by
  simp [apply]

theorem replay_snoc (txs : List Tx) (tx : Tx) : replay H (txs ++ [tx]) = apply (replay H txs) tx := by
  simp [replay]

theorem apply_of_not_mem (other : b ∉ tx.map Prod.fst) : apply H tx b = H b := by
  induction tx using List.reverseRecOn with
  | nil => rfl
  | append_singleton _ w ih =>
    simp only [List.map_append, List.map_cons, List.map_nil, List.mem_append, List.mem_singleton, not_or] at other
    rw [apply_snoc, update_of_ne other.2, ih other.1]

theorem slot_not_home (inside : tail + 1 < L.size) : ¬ L.Home (slot L tail) := fun home => home (tail + 1) inside rfl

theorem start_not_home : ¬ L.Home L.start := fun home => home 0 L.pos (by simp)

theorem offset_inj {j : Nat} (hi : i < L.size) (hj : j < L.size)
    (same : L.start + BitVec.ofNat 32 i = L.start + BitVec.ofNat 32 j) : i = j := by
  have fits := L.fits
  have := congrArg BitVec.toNat ((BitVec.add_right_inj _).mp same)
  rwa [BitVec.toNat_ofNat, BitVec.toNat_ofNat, Nat.mod_eq_of_lt (by omega), Nat.mod_eq_of_lt (by omega)] at this

theorem slot_ne_start (inside : tail + 1 < L.size) : slot L tail ≠ L.start := by
  intro same
  have := offset_inj inside L.pos (same.trans (by simp))
  omega

theorem slot_inj {j : Nat} (hi : i + 1 < L.size) (hj : j + 1 < L.size) (same : slot L i = slot L j) : i = j := by
  have := offset_inj hi hj same
  omega

theorem readHead_head (old : Block) (small : lh.length ≤ LOGSIZE) : readHead (head old lh) = lh := by
  have bound : lh.length ≤ 30 := small
  have count : (head old lh 0).toInt.toNat = lh.length := by
    have := Nat.mod_eq_of_lt (show lh.length < 2 ^ 32 by omega)
    simp only [head, Fin.val_zero, if_true, BitVec.toInt_eq_toNat_cond, BitVec.toNat_ofNat, this]
    rw [if_pos (by omega), Int.toNat_natCast]
  refine List.ext_getElem (by simp [readHead, count]) fun i _ inside => ?_
  have place : (i + 1) % 128 = i + 1 := Nat.mod_eq_of_lt (by omega)
  simp [readHead, head, place, inside]

structure Clean (L : Layout) (H d : Word → Block) : Prop where
  header : readHead (d L.start) = []
  home : ∀ b, L.Home b → d b = H b

structure Logged (L : Layout) (H d : Word → Block) (lh : List Word) : Prop where
  header : readHead (d L.start) = lh
  homes : ∀ b ∈ lh, L.Home b
  room : lh.length < L.size
  blocks : ∀ i < lh.length, d (slot L i) = H (lh.getD i 0)
  rest : ∀ b, L.Home b → b ∉ lh → d b = H b

def Cached (L : Layout) (H : Word → Block) (s : State) : Prop := ∀ b, s.mem b = s.disk b ∨ L.Home b ∧ s.mem b = H b

structure Collects (L : Layout) (H : Word → Block) (tx : Tx) (s : State) : Prop where
  clean : Clean L H s.disk
  home : ∀ b, L.Home b → s.mem b = apply H tx b
  area : ∀ b, ¬ L.Home b → s.mem b = s.disk b
  homes : ∀ b ∈ s.lh, L.Home b
  covers : ∀ b, b ∈ tx.map Prod.fst ↔ b ∈ s.lh
  room : s.lh.length < L.size
  small : s.lh.length ≤ LOGSIZE

structure Writes (L : Layout) (H : Word → Block) (tx : Tx) (i : Nat) (s : State) : Prop extends Collects L H tx s where
  pc : s.pc = if i < s.lh.length then .writeLog i else .writeHead
  some : 0 < s.lh.length
  le : i ≤ s.lh.length
  written : ∀ j < i, s.disk (slot L j) = apply H tx (s.lh.getD j 0)

structure Installs (L : Layout) (H : Word → Block) (recovering : Bool) (i : Nat) (s : State) : Prop where
  pc : s.pc = if i < s.lh.length then .install recovering i else .clear recovering
  le : i ≤ s.lh.length
  logged : Logged L H s.disk s.lh
  cached : Cached L H s
  done : ∀ j < i, s.disk (s.lh.getD j 0) = H (s.lh.getD j 0)

theorem getD_mem (inside : i < lh.length) : lh.getD i 0 ∈ lh := by
  simp [List.getD, inside]

theorem Writes.writeLog (h : Writes L H tx i s) (more : i < s.lh.length) :
    Writes L H tx (i + 1) { s.bwrite (slot L i) (s.mem (s.lh.getD i 0)) with
      pc := if i + 1 < s.lh.length then .writeLog (i + 1) else .writeHead } := by
  have room := h.room
  have away : ¬ L.Home (slot L i) := slot_not_home (by omega)
  have homes {b : Word} (home : L.Home b) : b ≠ slot L i := by
    rintro rfl
    exact away home
  refine ⟨⟨⟨?_, fun b home => ?_⟩, fun b home => ?_, fun b inside => ?_, h.homes, h.covers, h.room, h.small⟩,
    rfl, h.some,
    more, fun j _ => ?_⟩
  · simp only [bwrite, update_of_ne (slot_ne_start (show i + 1 < L.size by omega)).symm]
    exact h.clean.header
  · simp only [bwrite, update_of_ne (homes home)]
    exact h.clean.home b home
  · simp only [bwrite, update_of_ne (homes home)]
    exact h.home b home
  · simp only [bwrite]
    by_cases same : b = slot L i
    · simp [same]
    · simp [same, h.area b inside]
  · simp only [bwrite]
    by_cases same : j = i
    · rw [same, update_self]
      exact h.home _ (h.homes _ (getD_mem more))
    · rw [update_of_ne fun eq => same (slot_inj (by omega) (by omega) eq)]
      exact h.written j (by omega)

theorem Writes.writeHead (h : Writes L H tx s.lh.length s) :
    Installs L (apply H tx) false 0 { s.bwrite L.start (head (s.mem L.start) s.lh) with pc := .install false 0 } := by
  have room := h.room
  have homes {b : Word} (home : L.Home b) : b ≠ L.start := by
    rintro rfl
    exact start_not_home home
  refine ⟨by simp [bwrite, h.some], Nat.zero_le _, ⟨?_, h.homes, h.room,
    fun i inside => ?_, fun b home other => ?_⟩, fun b => ?_, by simp⟩
  · simp only [bwrite, update_self]
    exact readHead_head _ h.small
  · have inside : i < s.lh.length := inside
    simp only [bwrite, update_of_ne (slot_ne_start (show i + 1 < L.size by omega))]
    exact h.written i inside
  · simp only [bwrite, update_of_ne (homes home)]
    rw [h.clean.home b home, apply_of_not_mem fun member => other ((h.covers b).mp member)]
  · simp only [bwrite]
    by_cases same : b = L.start
    · simp [same]
    simp only [update_of_ne same]
    by_cases home : L.Home b
    · exact .inr ⟨home, h.home b home⟩
    · exact .inl (h.area b home)

theorem Installs.install (h : Installs L H recovering i s) (more : i < s.lh.length) :
    Installs L H recovering (i + 1) { s.bwrite (s.lh.getD i 0) (s.mem (slot L i)) with
      pc := if i + 1 < s.lh.length then .install recovering (i + 1) else .clear recovering } := by
  have room := h.logged.room
  have home : L.Home (s.lh.getD i 0) := h.logged.homes _ (getD_mem more)
  have data : s.mem (slot L i) = H (s.lh.getD i 0) := by
    rcases h.cached (slot L i) with same | ⟨inside, -⟩
    · rw [same, h.logged.blocks i more]
    · exact absurd inside (slot_not_home (by omega))
  refine ⟨rfl, more, ⟨?_, h.logged.homes, room, fun j inside => ?_, fun b away other => ?_⟩,
    fun b => ?_, fun j lt => ?_⟩
  · have other : L.start ≠ s.lh.getD i 0 := fun same => start_not_home (same ▸ home)
    simp only [bwrite, update_of_ne other]
    exact h.logged.header
  · have inside : j < s.lh.length := inside
    have other : slot L j ≠ s.lh.getD i 0 := fun same => slot_not_home (show j + 1 < L.size by omega) (same ▸ home)
    simp only [bwrite, update_of_ne other]
    exact h.logged.blocks j inside
  · have differs : b ≠ s.lh.getD i 0 := fun same => other (same ▸ getD_mem more)
    simp only [bwrite, update_of_ne differs]
    exact h.logged.rest b away other
  · simp only [bwrite]
    by_cases same : b = s.lh.getD i 0
    · rw [same, update_self, update_self]
      exact .inl rfl
    · rw [update_of_ne same, update_of_ne same]
      exact h.cached b
  · simp only [bwrite]
    by_cases same : s.lh.getD j 0 = s.lh.getD i 0
    · rw [same, update_self, data]
    rw [update_of_ne same]
    refine h.done j (Nat.lt_of_le_of_ne (Nat.le_of_lt_succ lt) ?_)
    rintro rfl
    exact same rfl

theorem Installs.clear (h : Installs L H recovering s.lh.length s) :
    Collects L H [] { s.bwrite L.start (head (s.mem L.start) []) with lh := [], pc := .idle } := by
  have installed {b : Word} (home : L.Home b) : s.disk b = H b := by
    by_cases member : b ∈ s.lh
    · obtain ⟨i, inside, rfl⟩ := List.getElem_of_mem member
      simpa [inside] using h.done i inside
    · exact h.logged.rest b home member
  have homes {b : Word} (home : L.Home b) : b ≠ L.start := by
    rintro rfl
    exact start_not_home home
  refine ⟨⟨?_, fun b home => ?_⟩, fun b home => ?_, fun b area => ?_, by simp, by simp, L.pos, Nat.zero_le _⟩
  · simp only [bwrite, update_self]
    exact readHead_head _ (Nat.zero_le _)
  · simp only [bwrite, update_of_ne (homes home)]
    exact installed home
  · simp only [bwrite, update_of_ne (homes home), apply, List.foldl_nil]
    rcases h.cached b with same | ⟨-, same⟩
    · rw [same, installed home]
    · exact same
  · simp only [bwrite]
    by_cases same : b = L.start
    · simp [same]
    · simp only [update_of_ne same]
      exact (h.cached b).resolve_right fun home => area home.1

theorem Logged.recover (h : Logged L H d lh) : Installs L H true 0 (recoverFromLog L d) := by
  refine ⟨rfl, Nat.zero_le _, ?_, fun b => .inl rfl, by simp⟩
  simp only [recoverFromLog, h.header]
  exact h

theorem Clean.recover (h : Clean L H d) : Installs L H true 0 (recoverFromLog L d) := by
  have logged : Logged L H d [] := ⟨h.header, by simp, L.pos, by simp, fun b home _ => h.home b home⟩
  exact logged.recover

inductive Phase (L : Layout) (H : Word → Block) : History → State → Prop
  | idle {past logged s} (pc : s.pc = .idle) (collects : Collects L H logged s) : Phase L H ⟨past, none, logged⟩ s
  | write {past tx s} (i : Nat) (writes : Writes L H tx i s) : Phase L H ⟨past, some tx, []⟩ s
  | install {past tx s} (i : Nat) (installs : Installs L (apply H tx) false i s) : Phase L H ⟨past, some tx, []⟩ s
  | recover {past s} (i : Nat) (installs : Installs L H true i s) : Phase L H ⟨past, none, []⟩ s

def Atomic (L : Layout) (d₀ : Word → Block) (h : History) (s : State) : Prop :=
  ∃ txs, Kept h.past txs ∧ Phase L (replay d₀ txs) h s

theorem Collects.logWrite (h : Collects L H tx s) (home : L.Home b) (action : s.logWrite L b data = some t) :
    Collects L H (tx ++ [(b, data)]) t ∧ t.pc = s.pc := by
  obtain ⟨room, action⟩ := Option.ite_none_left_eq_some.mp action
  cases action
  simp only [not_or, not_le, ge_iff_le] at room
  have absorbs : ∀ c, c ∈ (if b ∈ s.lh then s.lh else s.lh ++ [b]) ↔ c ∈ s.lh ∨ c = b := by
    intro c
    split_ifs with member
    · exact ⟨.inl, fun either => either.elim id fun same => same ▸ member⟩
    · simp
  have length : (if b ∈ s.lh then s.lh else s.lh ++ [b]).length ≤ s.lh.length + 1 := by
    split_ifs <;> simp
  refine ⟨⟨h.clean, fun c inside => ?_, fun c outside => ?_, fun c member => ?_, fun c => ?_, ?_, ?_⟩, rfl⟩
  · rw [apply_snoc]
    by_cases same : c = b
    · simp [same]
    · simp [same, h.home c inside]
  · have other : c ≠ b := fun same => outside (same ▸ home)
    simp [other, h.area c outside]
  · exact ((absorbs c).mp member).elim (h.homes c) fun same => same ▸ home
  · rw [absorbs, ← h.covers]
    simp
  · exact Nat.lt_of_le_of_lt length (by omega)
  · exact length.trans room.1

theorem Phase.at_idle (phase : Phase L H h s) (pc : s.pc = .idle) : h.doing = none ∧ Collects L H h.logged s := by
  cases phase with
  | idle _ collects => exact ⟨rfl, collects⟩
  | write i writes =>
    have place := writes.pc
    split_ifs at place <;> simp [pc] at place
  | install i installs | recover i installs =>
    have place := installs.pc
    split_ifs at place <;> simp [pc] at place

theorem Phase.crash {kept : List Tx} (phase : Phase L (replay d₀ kept) h s) (keeps : Kept h.past kept) :
    Atomic L d₀ (h.note (s, .crash)) (recoverFromLog L s.disk) := by
  cases phase with
  | idle _ collects =>
    refine ⟨kept, ?_, .recover 0 collects.clean.recover⟩
    simpa [History.note] using keeps
  | write i writes => exact ⟨kept, .drop _ keeps, .recover 0 writes.clean.recover⟩
  | install i installs =>
    refine ⟨_, .keep _ false keeps, .recover 0 ?_⟩
    rw [replay_snoc]
    exact installs.logged.recover
  | recover i installs =>
    refine ⟨kept, ?_, .recover 0 installs.logged.recover⟩
    simpa [History.note] using keeps

theorem Phase.go {kept : List Tx} (phase : Phase L (replay d₀ kept) h s) (keeps : Kept h.past kept)
    (action : s.go L = some t) : Atomic L d₀ (h.note (s, .go)) t := by
  cases phase with
  | idle pc => simp [State.go, pc] at action
  | write i writes =>
    have pc := writes.pc
    by_cases more : i < s.lh.length
    · rw [if_pos more] at pc
      simp only [State.go, pc, Option.some.injEq] at action
      simp only [History.note, pc, reduceCtorEq, if_false]
      exact ⟨kept, keeps, .write (i + 1) (action ▸ writes.writeLog more)⟩
    rw [if_neg more] at pc
    obtain rfl : i = s.lh.length := Nat.le_antisymm writes.le (Nat.le_of_not_lt more)
    simp only [State.go, pc, Option.some.injEq] at action
    simp only [History.note, pc, reduceCtorEq, if_false]
    exact ⟨kept, keeps, .install 0 (action ▸ writes.writeHead)⟩
  | install i installs =>
    have pc := installs.pc
    by_cases more : i < s.lh.length
    · rw [if_pos more] at pc
      simp only [State.go, pc, Option.some.injEq] at action
      simp only [History.note, pc, reduceCtorEq, if_false]
      exact ⟨kept, keeps, .install (i + 1) (action ▸ installs.install more)⟩
    rw [if_neg more] at pc
    obtain rfl : i = s.lh.length := Nat.le_antisymm installs.le (Nat.le_of_not_lt more)
    simp only [State.go, pc, Option.some.injEq] at action
    simp only [History.note, pc, if_true]
    refine ⟨_, .keep _ true keeps, action ▸ .idle rfl ?_⟩
    rw [replay_snoc]
    exact installs.clear
  | recover i installs =>
    have pc := installs.pc
    by_cases more : i < s.lh.length
    · rw [if_pos more] at pc
      simp only [State.go, pc, Option.some.injEq] at action
      simp only [History.note, pc, reduceCtorEq, if_false]
      exact ⟨kept, keeps, .recover (i + 1) (action ▸ installs.install more)⟩
    rw [if_neg more] at pc
    obtain rfl : i = s.lh.length := Nat.le_antisymm installs.le (Nat.le_of_not_lt more)
    simp only [State.go, pc, Option.some.injEq] at action
    simp only [History.note, pc, Pc.clear.injEq, Bool.true_eq_false, if_false]
    exact ⟨kept, keeps, action ▸ .idle rfl installs.clear⟩

theorem Phase.step {h : History} {kept : List Tx} (phase : Phase L (replay d₀ kept) h s) (keeps : Kept h.past kept)
    (homes : ∀ b data, a = .write b data → L.Home b) (action : step L s a = some t) :
    Atomic L d₀ (h.note (s, a)) t := by
  cases a with
  | write b data =>
    obtain ⟨pc, action⟩ := Option.ite_none_right_eq_some.mp action
    obtain ⟨doing, collects⟩ := phase.at_idle pc
    obtain ⟨collects, same⟩ := collects.logWrite (homes b data rfl) action
    obtain ⟨past, _, logged⟩ := h
    obtain rfl := doing
    exact ⟨kept, keeps, .idle (same.trans pc) collects⟩
  | commit =>
    obtain ⟨pc, action⟩ := Option.ite_none_right_eq_some.mp action
    obtain ⟨doing, collects⟩ := phase.at_idle pc
    obtain ⟨_, _, logged⟩ := h
    obtain rfl := doing
    cases action
    by_cases some : s.lh.length > 0
    · simp only [History.note, some, if_true, State.commit]
      refine ⟨kept, keeps, .write 0 ⟨?_, ?_, some, Nat.zero_le _, by simp⟩⟩
      · exact ⟨collects.clean, collects.home, collects.area,
          collects.homes, collects.covers, collects.room, collects.small⟩
      · exact (if_pos some).symm
    have empty : s.lh = [] := List.length_eq_zero_iff.mp (by omega)
    have nothing : logged = [] := by
      have keys : logged.map Prod.fst = [] := by
        refine List.eq_nil_iff_forall_not_mem.mpr fun b member => ?_
        simpa [empty] using (collects.covers b).mp member
      exact List.map_eq_nil_iff.mp keys
    simp only [History.note, some, if_false, State.commit]
    refine ⟨_, .keep _ true keeps, .idle pc ?_⟩
    rw [replay_snoc, nothing]
    rw [nothing] at collects
    exact collects
  | go => exact phase.go keeps action
  | crash => exact Option.some.inj action ▸ phase.crash keeps

theorem start_collects (clean : readHead (d₀ L.start) = []) : Collects L d₀ [] (start d₀) :=
  ⟨⟨clean, fun _ _ => rfl⟩, fun _ _ => rfl, fun _ _ => rfl, by simp [start], by simp [start], L.pos, Nat.zero_le _⟩

theorem recover_atomic {as : List Action} (clean : readHead (d₀ L.start) = [])
    (run : exec (step L) (start d₀) as = some s)
    (homes : ∀ e ∈ trace (step L) (start d₀) as, ∀ b data, e.2 = .write b data → L.Home b) (idle : s.pc = .idle) :
    ∃ txs, Kept (history (trace (step L) (start d₀) as)).past txs ∧ ∀ b, L.Home b → s.disk b = replay d₀ txs b := by
  have atomic : Atomic L d₀ (history (trace (step L) (start d₀) as)) s := by
    refine exec_induction (I := fun es s => (∀ e ∈ es, ∀ b data, e.2 = .write b data → L.Home b) →
      Atomic L d₀ (history es) s) (fun _ => ?_) (fun _ t a u ih action meets => ?_) run homes
    · exact ⟨[], .nil, .idle rfl (start_collects clean)⟩
    rw [List.forall_mem_append, List.forall_mem_singleton] at meets
    obtain ⟨_, keeps, phase⟩ := ih meets.1
    rw [history, List.foldl_concat]
    exact phase.step keeps meets.2 action
  obtain ⟨txs, keeps, phase⟩ := atomic
  exact ⟨txs, keeps, (phase.at_idle idle).2.clean.home⟩

def mkfs : Layout := ⟨2, LOGSIZE, by decide, by decide⟩

def crashes : List Action := [.write 50 fun _ => 7, .commit, .go, .go, .crash, .go, .crash, .go, .go]

theorem recover_atomic_crashes : ∃ s, exec (step mkfs) (start fun _ _ => 0) crashes = some s ∧ s.disk 50 0 = 7 ∧
    ∃ txs, Kept (history (trace (step mkfs) (start fun _ _ => 0) crashes)).past txs ∧
      ∀ b, mkfs.Home b → s.disk b = replay (fun _ _ => 0) txs b := by
  obtain ⟨s, run, idle, installed⟩ : ∃ s, exec (step mkfs) (start fun _ _ => 0) crashes = some s ∧ s.pc = .idle ∧
      s.disk 50 0 = 7 := by
    decide +kernel
  refine ⟨s, run, installed, recover_atomic (by decide) run (fun e member b data write => ?_) idle⟩
  obtain ⟨_, _, u, same, -⟩ := exec_to_event run member
  have scheduled : .write b data ∈ crashes := by simp [same, write]
  obtain ⟨rfl, -⟩ : b = 50 ∧ data = fun _ => 7 := by simpa [crashes] using scheduled
  unfold Layout.Home
  decide

end Xv6.Log
