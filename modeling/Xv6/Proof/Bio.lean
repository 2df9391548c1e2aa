import Xv6.Kernel.Bio
import Xv6.Library.Tally
import Xv6.Library.Transition

/-!
# The invariant of the buffer cache

A buffer is counted in `refcnt` once for the process that has its lock and once for each process that is on its way to
the lock or has just given it back. A buffer that nobody is counted in and that is not dirty may be given to another
block, and only if no buffer has that block.
-/

namespace Xv6.Bio
open Xv6.Library
open Function (update update_eq_self_iff)
open Xv6.Log (Word Block)

variable {n disksize : Nat} {c d : Cache n} {s u : State n} {t r : Fin n} {a b : Fin NBUF} {dev blockno : Word}
  {ref : Fin n → Option (Fin NBUF)} {x : Buf n} {l : List (Fin NBUF)}

@[simp] theorem set_self (c : Cache n) (b : Fin NBUF) (x : Buf n) : (c.set b x).buf b = x := by simp [Cache.set]

theorem set_of_ne (c : Cache n) (x : Buf n) (other : a ≠ b) : (c.set b x).buf a = c.buf a := by
  simp [Cache.set, other]

@[simp] theorem set_links (c : Cache n) (b : Fin NBUF) (x : Buf n) : (c.set b x).links = c.links := rfl

def refs (ref : Fin n → Option (Fin NBUF)) (b : Fin NBUF) : Nat := ∑ t, if ref t = some b then 1 else 0

theorem refs_update (ref : Fin n → Option (Fin NBUF)) (t : Fin n) (x : Option (Fin NBUF)) (b : Fin NBUF) :
    refs (update ref t x) b + (if ref t = some b then 1 else 0) = refs ref b + if x = some b then 1 else 0 :=
  sum_update (fun x => if x = some b then 1 else 0) ref t x

structure Cached (c : Cache n) (ref : Fin n → Option (Fin NBUF)) : Prop where
  ring : ∃ l, c.links.Ring l ∧ ∀ b, b ∈ l
  unique : ∀ a b, (c.buf a).dev ≠ 0 → (c.buf b).dev = (c.buf a).dev → (c.buf b).blockno = (c.buf a).blockno → a = b
  count : ∀ b, (c.buf b).refcnt = (if (c.buf b).lock = none then 0 else 1) + refs ref b

inductive Got (c : Cache n) (dev blockno : Word) (b : Fin NBUF) : Cache n → Prop
  | hit (disk : (c.buf b).dev = dev) (block : (c.buf b).blockno = blockno) :
      Got c dev blockno b (c.set b { c.buf b with refcnt := (c.buf b).refcnt + 1 })
  | miss (absent : ∀ a, (c.buf a).dev = dev → (c.buf a).blockno ≠ blockno)
      (free : (c.buf b).refcnt = 0) (clean : (c.buf b).dirty = false) :
      Got c dev blockno b (c.set b { c.buf b with dev, blockno, valid := false, dirty := false, refcnt := 1 })

theorem length_le_NBUF (nodup : l.Nodup) : l.length ≤ NBUF := by
  simpa using nodup.length_le_card

theorem Cached.got (h : Cached c ref) (action : c.bget dev blockno = some (b, d)) : Got c dev blockno b d := by
  obtain ⟨l, ⟨nodup, path⟩, all⟩ := h.ring
  have fuel := length_le_NBUF nodup
  simp only [Cache.bget, path.scan _ fuel, Option.bind_eq_bind, Option.bind_some] at action
  cases found : l.find? (c.holds dev blockno) with
  | some e =>
    rw [found] at action
    have holds : (c.buf e).dev = dev ∧ (c.buf e).blockno = blockno := by
      simpa [Cache.holds] using List.find?_some found
    cases action
    exact .hit holds.1 holds.2
  | none =>
    rw [found] at action
    have fuel' : l.reverse.length ≤ NBUF := by simpa using fuel
    have back := path.flip.scan c.unused fuel'
    simp only [back, Option.bind_some] at action
    cases free : l.reverse.find? c.unused with
    | none =>
      rw [free] at action
      cases action
    | some e =>
      rw [free] at action
      have unused : (c.buf e).refcnt = 0 ∧ (c.buf e).dirty = false := by
        simpa [Cache.unused] using List.find?_some free
      cases action
      refine .miss (fun a same => ?_) unused.1 unused.2
      have absent := List.find?_eq_none.mp found a (all a)
      simpa [Cache.holds, same] using absent

structure Keeps (c : Cache n) (b : Fin NBUF) (d : Cache n) : Prop where
  links : d.links = c.links
  others : ∀ a, a ≠ b → d.buf a = c.buf a
  dev : (d.buf b).dev = (c.buf b).dev
  blockno : (d.buf b).blockno = (c.buf b).blockno
  lock : (d.buf b).lock = (c.buf b).lock
  refcnt : (d.buf b).refcnt = (c.buf b).refcnt

theorem keeps_set (dev : x.dev = (c.buf b).dev) (blockno : x.blockno = (c.buf b).blockno)
    (lock : x.lock = (c.buf b).lock) (refcnt : x.refcnt = (c.buf b).refcnt) : Keeps c b (c.set b x) :=
  ⟨rfl, fun _ other => set_of_ne c x other, by simp [dev], by simp [blockno], by simp [lock], by simp [refcnt]⟩

theorem Keeps.trans {e : Cache n} (first : Keeps c b d) (second : Keeps d b e) : Keeps c b e :=
  ⟨second.links.trans first.links, fun a other => (second.others a other).trans (first.others a other),
    second.dev.trans first.dev, second.blockno.trans first.blockno, second.lock.trans first.lock,
    second.refcnt.trans first.refcnt⟩

theorem Keeps.all (h : Keeps c b d) (a : Fin NBUF) :
    (d.buf a).dev = (c.buf a).dev ∧ (d.buf a).blockno = (c.buf a).blockno ∧ (d.buf a).lock = (c.buf a).lock ∧
      (d.buf a).refcnt = (c.buf a).refcnt := by
  by_cases here : a = b
  · subst here
    exact ⟨h.dev, h.blockno, h.lock, h.refcnt⟩
  · simp [h.others a here]

theorem Cached.keep (h : Cached c ref) (keeps : Keeps c b d) : Cached d ref := by
  refine ⟨keeps.links ▸ h.ring, fun p q => ?_, fun q => ?_⟩
  · rw [(keeps.all p).1, (keeps.all q).1, (keeps.all p).2.1, (keeps.all q).2.1]
    exact h.unique p q
  · rw [(keeps.all q).2.2.1, (keeps.all q).2.2.2]
    exact h.count q

theorem iderw_keeps (action : c.iderw disksize t b = some d) : (c.buf b).lock = some t ∧ Keeps c b d := by
  simp only [Cache.iderw] at action
  split_ifs at action with free _ _ _ dirty
  all_goals
    cases action
    refine ⟨by simpa [Cache.holdingsleep] using free, ?_⟩
  · exact { keeps_set (x := { c.buf b with dirty := false, valid := true }) rfl rfl rfl rfl with }
  · exact keeps_set rfl rfl rfl rfl

theorem bread_keeps (action : c.bread disksize t b = some d) : Keeps c b d := by
  simp only [Cache.bread] at action
  split_ifs at action
  · exact (iderw_keeps action).2
  · exact Option.some.inj action ▸ ⟨rfl, fun _ _ => rfl, rfl, rfl, rfl, rfl⟩

theorem bwrite_keeps (action : c.bwrite disksize t b = some d) : (c.buf b).lock = some t ∧ Keeps c b d := by
  obtain ⟨free, action⟩ := Option.ite_none_left_eq_some.mp action
  have pinned : Keeps c b (c.pin b) := keeps_set rfl rfl rfl rfl
  exact ⟨by simpa [Cache.holdingsleep] using free, pinned.trans (iderw_keeps action).2⟩

section
variable (h : Cached c ref)
include h

theorem Cached.move {y : Option (Fin NBUF)} (dev : x.dev = (c.buf b).dev)
    (blockno : x.blockno = (c.buf b).blockno) (elsewhere : ∀ a, a ≠ b → ref t ≠ some a ∧ y ≠ some a)
    (count : x.refcnt + (if (c.buf b).lock = none then 0 else 1) + (if ref t = some b then 1 else 0) =
      (c.buf b).refcnt + (if x.lock = none then 0 else 1) + if y = some b then 1 else 0) :
    Cached (c.set b x) (update ref t y) := by
  have same (a : Fin NBUF) : ((c.set b x).buf a).dev = (c.buf a).dev ∧
    ((c.set b x).buf a).blockno = (c.buf a).blockno := by
    by_cases here : a = b
    · subst here
      simp [dev, blockno]
    · simp [set_of_ne c x here]
  refine ⟨h.ring, fun p q => ?_, fun q => ?_⟩
  · rw [(same p).1, (same q).1, (same p).2, (same q).2]
    exact h.unique p q
  have swap := refs_update ref t y q
  have before := h.count q
  by_cases here : q = b
  · subst here
    rw [set_self]
    omega
  obtain ⟨notBefore, notAfter⟩ := elsewhere q here
  rw [if_neg notBefore, if_neg notAfter] at swap
  rw [set_of_ne c x here]
  omega

theorem Cached.bget (got : Got c dev blockno b d) (none : ref t = none) : Cached d (update ref t (some b)) := by
  have elsewhere (a : Fin NBUF) (other : a ≠ b) : ref t ≠ some a ∧ some b ≠ some a := by simp [none, Ne.symm other]
  cases got with
  | hit => exact h.move rfl rfl elsewhere (by simp [none]; omega)
  | miss absent free =>
    have before := h.count b
    have unlocked : (c.buf b).lock = Option.none := by
      by_contra locked
      rw [if_neg locked] at before
      omega
    -- the buffer under its old name first
    have counted : Cached (c.set b { c.buf b with refcnt := 1 }) (update ref t (some b)) :=
      h.move rfl rfl elsewhere (by simp [none, free]; omega)
    refine ⟨counted.ring, fun p q real disk block => ?_, fun q => ?_⟩
    · by_cases first : p = b <;> by_cases second : q = b
      · rw [first, second]
      · subst first
        rw [set_of_ne _ _ second] at disk block
        simp only [set_self] at disk block
        exact absurd block (absent q disk)
      · subst second
        rw [set_of_ne _ _ first] at disk block
        simp only [set_self] at disk block
        exact absurd block.symm (absent p disk.symm)
      · rw [set_of_ne _ _ first, set_of_ne _ _ second] at disk block
        rw [set_of_ne _ _ first] at real
        exact h.unique p q real disk block
    · have count := counted.count q
      by_cases here : q = b
      · subst here
        simpa using count
      · rw [set_of_ne _ _ here] at count ⊢
        exact count

theorem Cached.acquiresleep (action : c.acquiresleep t b = some d) (mine : ref t = some b) :
    Cached d (update ref t none) := by
  obtain ⟨free, action⟩ := Option.ite_none_right_eq_some.mp action
  cases action
  exact h.move rfl rfl (fun a other => by simp [mine, Ne.symm other]) (by simp [free, mine])

theorem Cached.brelse (action : c.brelse t b = some d) (none : ref t = none) : Cached d (update ref t (some b)) := by
  obtain ⟨free, action⟩ := Option.ite_none_left_eq_some.mp action
  cases action
  have locked : (c.buf b).lock = some t := by simpa [Cache.holdingsleep] using free
  exact h.move rfl rfl (fun a other => by simp [none, Ne.symm other]) (by simp [locked, none])

theorem Cached.counted (mine : ref t = some b) : 0 < (c.buf b).refcnt := by
  have count := h.count b
  have one := le_sum (fun t => if ref t = some b then 1 else 0) t
  simp only [mine, if_true] at one
  change 1 ≤ refs ref b at one
  omega

theorem Cached.drop (mine : ref t = some b) : Cached (c.drop b) (update ref t none) := by
  have counted := h.counted mine
  have moved : Cached (c.set b { c.buf b with refcnt := (c.buf b).refcnt - 1 }) (update ref t none) :=
    h.move rfl rfl (fun a other => by simp [mine, Ne.symm other]) (by simp [mine]; omega)
  simp only [Cache.drop]
  split_ifs
  · obtain ⟨l, ring, all⟩ := moved.ring
    have fresh : b ∉ l.erase b := ring.1.not_mem_erase
    refine { moved with ring := ⟨b :: l.erase b, (ring.unlink (all b)).push fresh, fun a => ?_⟩ }
    by_cases here : a = b
    · simp [here]
    · exact List.mem_cons_of_mem b ((List.mem_erase_of_ne here).mpr (all a))
  · exact moved

end

inductive Turn (s : State n) (t : Fin n) : State n → Prop
  | bget (dev blockno : Word) (b : Fin NBUF) (d : Cache n) (pc : s.pc t = .out)
      (action : s.cache.bget dev blockno = some (b, d)) : Turn s t (s.goto t (.waiting b) d)
  | work (b : Fin NBUF) (d : Cache n) (pc : s.pc t = .out) (keeps : Keeps s.cache b d) : Turn s t { s with cache := d }
  | brelse (b : Fin NBUF) (d : Cache n) (pc : s.pc t = .out) (action : s.cache.brelse t b = some d) :
      Turn s t (s.goto t (.leaving b) d)
  | lock (b : Fin NBUF) (d : Cache n) (pc : s.pc t = .waiting b) (action : s.cache.acquiresleep t b = some d) :
      Turn s t (s.goto t (.reading b) d)
  | read (b : Fin NBUF) (d : Cache n) (pc : s.pc t = .reading b) (keeps : Keeps s.cache b d) :
      Turn s t (s.goto t .out d)
  | leave (b : Fin NBUF) (pc : s.pc t = .leaving b) : Turn s t (s.goto t .out (s.cache.drop b))

theorem call_turn {x : Action} (pc : s.pc t = .out) (action : s.call disksize t x = some u) : Turn s t u := by
  cases x with
  | bread dev blockno =>
    obtain ⟨⟨b, d⟩, got, rfl⟩ := Option.map_eq_some_iff.mp action
    exact .bget dev blockno b d pc got
  | store b | logWrite b =>
    obtain ⟨-, action⟩ := Option.ite_none_right_eq_some.mp action
    cases action
    exact .work b _ pc (keeps_set rfl rfl rfl rfl)
  | bwrite b =>
    obtain ⟨d, written, rfl⟩ := Option.map_eq_some_iff.mp action
    exact .work b d pc (bwrite_keeps written).2
  | brelse b =>
    obtain ⟨d, released, rfl⟩ := Option.map_eq_some_iff.mp action
    exact .brelse b d pc released
  | go => cases action

theorem go_turn (action : s.go disksize t = some u) : Turn s t u := by
  unfold State.go at action
  cases pc : s.pc t with
  | out =>
    rw [pc] at action
    cases action
  | waiting b =>
    rw [pc] at action
    obtain ⟨d, locked, rfl⟩ := Option.map_eq_some_iff.mp action
    exact .lock b d pc locked
  | reading b =>
    rw [pc] at action
    obtain ⟨d, valid, rfl⟩ := Option.map_eq_some_iff.mp action
    exact .read b d pc (bread_keeps valid)
  | leaving b =>
    rw [pc] at action
    cases action
    exact .leave b pc

theorem step_turn {e : Fin n × Action} (action : step disksize s e = some u) : Turn s e.1 u := by
  unfold step at action
  split at action
  · exact call_turn ‹_› action
  · exact go_turn action
  · cases action

def refOf : Pc → Option (Fin NBUF)
  | .waiting b | .leaving b => some b
  | .out | .reading _ => none

theorem refOf_goto (s : State n) (t : Fin n) (pc : Pc) (d : Cache n) :
    (fun r => refOf ((s.goto t pc d).pc r)) = update (fun r => refOf (s.pc r)) t (refOf pc) := by
  funext r
  by_cases same : r = t
  · simp [State.goto, same]
  · simp [State.goto, same]

structure Sound (s : State n) : Prop where
  cached : Cached s.cache fun t => refOf (s.pc t)
  away : ∀ t b, s.pc t = .leaving b → (s.cache.buf b).lock ≠ some t

theorem acquiresleep_lock (action : c.acquiresleep t b = some d) (a : Fin NBUF) :
    (d.buf a).lock = (c.buf a).lock ∨ (d.buf a).lock = some t := by
  obtain ⟨-, action⟩ := Option.ite_none_right_eq_some.mp action
  cases action
  by_cases here : a = b
  · exact .inr (by simp [here])
  · exact .inl (by simp [set_of_ne _ _ here])

theorem brelse_lock (action : c.brelse t b = some d) : (d.buf b).lock = none ∧ ∀ a, a ≠ b → d.buf a = c.buf a := by
  obtain ⟨-, action⟩ := Option.ite_none_left_eq_some.mp action
  cases action
  exact ⟨by simp, fun a other => set_of_ne _ _ other⟩

theorem Got.lock (h : Got c dev blockno b d) (a : Fin NBUF) : (d.buf a).lock = (c.buf a).lock := by
  cases h <;> by_cases here : a = b <;> simp [Cache.set, here]

theorem drop_lock (c : Cache n) (a b : Fin NBUF) : ((c.drop b).buf a).lock = (c.buf a).lock := by
  simp only [Cache.drop]
  split_ifs <;> by_cases here : a = b <;> simp [Cache.set, here]

theorem Sound.turn (h : Sound s) (turn : Turn s t u) : Sound u := by
  have refs {pc : Pc} {d : Cache n} (cached : Cached d (update (fun r => refOf (s.pc r)) t (refOf pc))) :
      Cached (s.goto t pc d).cache fun r => refOf ((s.goto t pc d).pc r) := by
    rw [refOf_goto]
    exact cached
  -- a step of `t` after which it is not leaving
  have moved {pc : Pc} {d : Cache n} (elsewhere : ∀ b, pc ≠ .leaving b)
      (locks : ∀ a, (d.buf a).lock = (s.cache.buf a).lock ∨ (d.buf a).lock = some t) (r : Fin n) (a : Fin NBUF)
      (leaving : (s.goto t pc d).pc r = .leaving a) : (d.buf a).lock ≠ some r := by
    by_cases same : r = t
    · exact absurd leaving (by simp [State.goto, same, elsewhere])
    have before := h.away r a (by simpa [State.goto, same] using leaving)
    rcases locks a with kept | taken
    · rwa [kept]
    · simp [taken, Ne.symm same]
  cases turn with
  | bget _ _ b d pc action =>
    have got := h.cached.got action
    exact ⟨refs (h.cached.bget got (by simp [pc, refOf])), moved (by simp) fun a => .inl (got.lock a)⟩
  | work b d _ keeps =>
    refine ⟨h.cached.keep keeps, fun r a leaving => ?_⟩
    rw [(keeps.all a).2.2.1]
    exact h.away r a leaving
  | brelse b d pc action =>
    refine ⟨refs (h.cached.brelse action (by simp [pc, refOf])), fun r a leaving => ?_⟩
    obtain ⟨free, others⟩ := brelse_lock action
    change (d.buf a).lock ≠ some r
    by_cases here : a = b
    · simp [here, free]
    rw [others a here]
    by_cases same : r = t
    · exact absurd leaving (by simp [State.goto, same, Ne.symm here])
    · exact h.away r a (by simpa [State.goto, same] using leaving)
  | lock b d pc action =>
    exact ⟨refs (h.cached.acquiresleep action (by simp [pc, refOf])), moved (by simp) (acquiresleep_lock action)⟩
  | read b d pc keeps =>
    have same : update (fun r => refOf (s.pc r)) t (refOf .out) = fun r => refOf (s.pc r) :=
      update_eq_self_iff.mpr (by simp [pc, refOf])
    have cached : Cached d (update (fun r => refOf (s.pc r)) t (refOf .out)) := by
      rw [same]
      exact h.cached.keep keeps
    exact ⟨refs cached, moved (by simp) fun a => .inl (keeps.all a).2.2.1⟩
  | leave b pc =>
    exact ⟨refs (h.cached.drop (by simp [pc, refOf])), moved (by simp) fun a => .inl (drop_lock s.cache a b)⟩

theorem binit_ring : (Cache.binit disk : Cache n).links.Ring (List.finRange NBUF).reverse := by
  have built (l r : List (Fin NBUF)) (k : Links (Fin NBUF)) (ring : k.Ring r) (nodup : (l.reverse ++ r).Nodup) :
      (l.foldl Links.push k).Ring (l.reverse ++ r) := by
    induction l generalizing r k with
    | nil => exact ring
    | cons b l ih =>
      rw [List.reverse_cons, List.append_assoc] at nodup ⊢
      refine ih (b :: r) (k.push b) (ring.push ?_) nodup
      have tail := (List.nodup_append.mp nodup).2.1
      exact (List.nodup_cons.mp tail).1
  have empty : (⟨fun _ => none, fun _ => none⟩ : Links (Fin NBUF)).Ring [] := ⟨List.nodup_nil, rfl, rfl⟩
  have whole := built (List.finRange NBUF) [] _ empty (by simpa using List.nodup_finRange NBUF)
  rwa [List.append_nil] at whole

theorem Sound.start (disk : Word → Block) : Sound (start disk : State n) := by
  refine ⟨⟨⟨_, binit_ring, by simp⟩, fun p q real => absurd rfl real, fun b => ?_⟩, fun t b leaving => by cases leaving⟩
  simp [Bio.start, Cache.binit, refs, refOf]

theorem sound {disk : Word → Block} {as : List (Fin n × Action)} (run : exec (step disksize) (start disk) as = some s) :
    Sound s :=
  exec_invariant (P := fun _ _ => True) (fun _ _ _ h _ action => h.turn (step_turn action))
    (Sound.start disk) run fun _ _ => trivial

theorem Sound.named (h : Sound s) (turn : Turn s t u) (b : Fin NBUF)
    (used : 0 < (s.cache.buf b).refcnt ∨ (s.cache.buf b).dirty = true) :
    (u.cache.buf b).dev = (s.cache.buf b).dev ∧ (u.cache.buf b).blockno = (s.cache.buf b).blockno := by
  cases turn with
  | bget dev blockno e d _ action =>
    change (d.buf b).dev = _ ∧ (d.buf b).blockno = _
    cases h.cached.got action with
    | hit => by_cases here : b = e <;> simp [Cache.set, here]
    | miss _ free clean =>
      by_cases here : b = e
      · subst here
        simp [free, clean] at used
      · simp [Cache.set, here]
  | work e d _ keeps => exact ⟨(keeps.all b).1, (keeps.all b).2.1⟩
  | read e d _ keeps => exact ⟨(keeps.all b).1, (keeps.all b).2.1⟩
  | brelse e d _ action =>
    obtain ⟨-, action⟩ := Option.ite_none_left_eq_some.mp action
    cases action
    by_cases here : b = e <;> simp [Cache.set, State.goto, here]
  | lock e d _ action =>
    obtain ⟨-, action⟩ := Option.ite_none_right_eq_some.mp action
    cases action
    by_cases here : b = e <;> simp [Cache.set, State.goto, here]
  | leave e =>
    simp only [State.goto, Cache.drop]
    split_ifs <;> by_cases here : b = e <;> simp [Cache.set, here]

def Holds (s : State n) (t : Fin n) (b : Fin NBUF) : Prop := (s.cache.buf b).lock = some t ∨ s.pc t = .leaving b

instance : Decidable (Holds s t b) := inferInstanceAs (Decidable (_ ∨ _))

def Waits (s : State n) (t : Fin n) (b : Fin NBUF) : Prop := s.pc t = .waiting b

instance : Decidable (Waits s t b) := inferInstanceAs (Decidable (_ = _))

theorem Sound.refcnt (h : Sound s) (b : Fin NBUF) : (s.cache.buf b).refcnt =
      (Finset.univ.filter fun t => Holds s t b).card + (Finset.univ.filter fun t => Waits s t b).card := by
  have locked : ∑ t, (if (s.cache.buf b).lock = some t then 1 else 0) =
      if (s.cache.buf b).lock = none then 0 else 1 := by
    cases (s.cache.buf b).lock with
    | none => simp
    | some r => simp
  rw [h.cached.count b, ← locked, refs, Finset.card_filter,
    Finset.card_filter, ← Finset.sum_add_distrib, ← Finset.sum_add_distrib]
  refine Finset.sum_congr rfl fun t _ => ?_
  have away := h.away t b
  cases pc : s.pc t with
  | out | reading a | waiting a => simp [Holds, Waits, refOf, pc]
  | leaving a =>
    by_cases here : a = b
    · simp [Holds, Waits, refOf, pc, here, away (here ▸ pc)]
    · simp [Holds, Waits, refOf, pc, here]

theorem ring_length (nodup : l.Nodup) (all : ∀ b, b ∈ l) : l.length = NBUF := by
  refine le_antisymm (length_le_NBUF nodup) ?_
  have sub : List.finRange NBUF ⊆ l := fun b _ => all b
  simpa using ((List.nodup_finRange NBUF).subperm sub).length_le

theorem cache_invariant {disk : Word → Block} {as : List (Fin n × Action)}
    (run : exec (step disksize) (start disk) as = some s) :
    (∀ a b, (s.cache.buf a).dev ≠ 0 → (s.cache.buf b).dev = (s.cache.buf a).dev →
      (s.cache.buf b).blockno = (s.cache.buf a).blockno → a = b) ∧
    (∀ e u b, step disksize s e = some u → 0 < (s.cache.buf b).refcnt ∨ (s.cache.buf b).dirty = true →
      (u.cache.buf b).dev = (s.cache.buf b).dev ∧ (u.cache.buf b).blockno = (s.cache.buf b).blockno) ∧
    (∀ b, (s.cache.buf b).refcnt =
      (Finset.univ.filter fun t => Holds s t b).card + (Finset.univ.filter fun t => Waits s t b).card) ∧
    (∀ b, ∃! i, i < NBUF ∧ s.cache.links.next^[i + 1] none = some b) ∧ s.cache.links.next^[NBUF + 1] none = none ∧
      ∀ x, s.cache.links.prev (s.cache.links.next x) = x ∧ s.cache.links.next (s.cache.links.prev x) = x := by
  have h := sound run
  obtain ⟨l, ⟨nodup, path⟩, all⟩ := h.cached.ring
  have length := ring_length nodup all
  obtain ⟨visits, back⟩ := path.iterate
  obtain ⟨head, inverse⟩ := path.inverse
  refine ⟨h.cached.unique, fun e u b action => h.named (step_turn action) b, h.refcnt, fun b => ?_, ?_, fun x => ?_⟩
  · obtain ⟨i, inside, rfl⟩ := List.getElem_of_mem (all b)
    refine ⟨i, ⟨length ▸ inside, visits i inside⟩, fun j there => ?_⟩
    have within : j < l.length := by
      rw [length]
      exact there.1
    have same : l[j] = l[i] := Option.some.inj ((visits j within).symm.trans there.2)
    exact (nodup.getElem_inj_iff).mp same
  · rw [length] at back
    exact back
  · cases x with
    | none => exact ⟨head, path.next_prev⟩
    | some b => exact inverse b (all b)

def twoReaders : List (Fin 2 × Action) := [(0, .bread 1 7), (0, .go), (0, .go), (1, .bread 1 7)]

theorem cache_invariant_twoReaders : ∃ s : State 2, exec (step 1000) (start fun _ _ => 0) twoReaders = some s ∧
    Waits s 1 0 ∧ Holds s 0 0 ∧ (s.cache.buf 0).refcnt =
      (Finset.univ.filter fun t => Holds s t 0).card + (Finset.univ.filter fun t => Waits s t 0).card := by
  obtain ⟨s, run, waits, holds⟩ : ∃ s : State 2, exec (step 1000) (start fun _ _ => 0) twoReaders = some s ∧
      Waits s 1 0 ∧ Holds s 0 0 := by
    decide +kernel
  exact ⟨s, run, waits, holds, (cache_invariant run).2.2.1 0⟩

end Xv6.Bio
