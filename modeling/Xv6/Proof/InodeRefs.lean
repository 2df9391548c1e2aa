import Xv6.Proof.InodeRules

/-!
# The lifetime of an inode

The count in an inode of the cache is the number of references to it. Only a process whose own reference is the only one
frees an inode, with its lock held, and a reference becomes that of a file or a current directory only after its inode
was locked and seen to be in use.
-/

namespace Xv6.InodeCache
open Xv6.Library Xv6.Directory
open Function (update_self update_of_ne update)
open Xv6.Namespace (FileType File Fd O_CREATE)

variable {n : Nat} {s s' : Shared n} {G : Fin n → Own n} {t : Fin n} {ip : Slot}
  {G' : Fin n → Own n} {p : Proc} {g : Own n} {y : Slot}

def cwdRefs (p : Proc) (ip : Slot) : Nat := if p.cwd = some ip ∧ p.given = false then 1 else 0

def fileRefs (e : Entry) (ip : Slot) : Nat := if 0 < e.ref ∧ e.ip = some ip then 1 else 0

def procRefs (p : Proc) (ip : Slot) : Nat := p.held ip + cwdRefs p ip

/-- The references to an inode: in the variables of calls, in current directories and in open files. -/
def refs (s : Shared n) (ip : Slot) : Nat := ∑ t, procRefs (s.proc t) ip + ∑ f, fileRefs (s.file f) ip

/-- Some open file or current directory refers to the inode. -/
def Refers (s : Shared n) (ip : Slot) : Prop :=
  (∃ f, 0 < (s.file f).ref ∧ (s.file f).ip = some ip) ∨ ∃ t, (s.proc t).cwd = some ip ∧ (s.proc t).given = false

def Claimed (s : Shared n) (G : Fin n → Own n) (ip : Slot) : Prop := Refers s ip ∨ ∃ t, ip ∈ (G t).alive

structure Inodes (s : Shared n) (G : Fin n → Own n) : Prop where
  held : ∀ t, (s.proc t).held = (G t).held
  count : ∀ ip, (s.inode ip).ref = refs s ip
  unique : ∀ x y, 0 < (s.inode x).ref → 0 < (s.inode y).ref → (s.inode x).inum = (s.inode y).inum → x = y
  lock : ∀ t ip, (s.inode ip).lock = some t ↔ (G t).mode ip ≠ .free
  locked : ∀ t ip, (G t).mode ip ≠ .free → 0 < (G t).held ip
  known : ∀ t ip, ip ∈ (G t).alive → 0 < (G t).held ip
  loaded : ∀ t ip, (G t).mode ip = .loaded → (s.inode ip).valid = true
  valid : ∀ ip, 0 < (s.inode ip).ref → (s.inode ip).valid = true → (∀ t, (G t).mode ip ≠ .doomed) →
    (s.inode ip).type ≠ .none ∧ (s.disk (s.inode ip).inum).type ≠ .none
  used : ∀ ip, Claimed s G ip → (s.disk (s.inode ip).inum).type ≠ .none ∧ ∀ t, (G t).mode ip ≠ .doomed

section
variable (h : Inodes s G)
include h

theorem Inodes.held_le (t : Fin n) (ip : Slot) : (G t).held ip ≤ (s.inode ip).ref := by
  have le := le_sum (fun r => procRefs (s.proc r) ip) t
  have sum := h.count ip
  simp only [procRefs, h.held] at le
  simp only [refs, procRefs, h.held] at sum
  omega

theorem Inodes.claimed_pos (claimed : Claimed s G ip) : 0 < (s.inode ip).ref := by
  have sum := h.count ip
  unfold refs at sum
  obtain (⟨f, «open», same⟩ | ⟨t, cwd, given⟩) | ⟨t, alive⟩ := claimed
  · have le := le_sum (fun f => fileRefs (s.file f) ip) f
    simp only [fileRefs] at le sum
    rw [if_pos ⟨«open», same⟩] at le
    omega
  · have le := le_sum (fun t => procRefs (s.proc t) ip) t
    simp only [procRefs, cwdRefs] at le sum
    rw [if_pos ⟨cwd, given⟩] at le
    omega
  · exact lt_of_lt_of_le (h.known t ip alive) (h.held_le t ip)

theorem Inodes.locked_once {r : Fin n} (mine : (G t).mode ip ≠ .free) (other : (G r).mode ip ≠ .free) : r = t := by
  have first := (h.lock t ip).mpr mine
  have second := (h.lock r ip).mpr other
  exact Option.mem_unique second first

theorem Inodes.sole (one : (s.inode ip).ref = 1) (mine : 0 < (G t).held ip) :
    ¬Refers s ip ∧ ∀ r, r ≠ t → (G r).held ip = 0 := by
  have sum := h.count ip
  unfold refs at sum
  have own := le_sum (fun r => procRefs (s.proc r) ip) t
  have held := congrFun (h.held t) ip
  constructor
  · rintro (⟨f, «open», same⟩ | ⟨r, cwd, given⟩)
    · have le := le_sum (fun f => fileRefs (s.file f) ip) f
      simp only [fileRefs, procRefs] at le own sum
      rw [if_pos ⟨«open», same⟩] at le
      omega
    by_cases same : r = t
    · subst same
      simp only [procRefs, cwdRefs] at own sum
      rw [if_pos ⟨cwd, given⟩] at own
      omega
    have le := pair_le_sum (fun r => procRefs (s.proc r) ip) same
    simp only [procRefs, cwdRefs] at le sum
    rw [if_pos ⟨cwd, given⟩] at le
    omega
  · intro r other
    have le := pair_le_sum (fun r => procRefs (s.proc r) ip) other
    have held' := congrFun (h.held r) ip
    simp only [procRefs] at le sum
    omega

theorem Inodes.move (inode : ∀ y, s'.inode y = { s.inode y with ref := (s'.inode y).ref }) (disk : s'.disk = s.disk)
    (held : ∀ t, (s'.proc t).held = (G' t).held) (count : ∀ y, (s'.inode y).ref = refs s' y)
    (unique : ∀ y z, 0 < (s'.inode y).ref → 0 < (s'.inode z).ref → (s.inode y).inum = (s.inode z).inum → y = z)
    (valid : ∀ y, 0 < (s'.inode y).ref → (s.inode y).valid = true → 0 < (s.inode y).ref)
    (mode : ∀ t, (G' t).mode = (G t).mode) (locked : ∀ t y, (G t).mode y ≠ .free → 0 < (G' t).held y)
    (known : ∀ t y, y ∈ (G' t).alive → 0 < (G' t).held y) (claimed : ∀ y, Claimed s' G' y → Claimed s G y) :
    Inodes s' G' where
  held := held
  count := count
  unique y z py pz same := unique y z py pz (by rw [inode y, inode z] at same; exact same)
  lock t y := by rw [inode, mode]; exact h.lock t y
  locked t y := by rw [mode]; exact locked t y
  known := known
  loaded t y := by rw [inode, mode]; exact h.loaded t y
  valid y positive := by
    rw [inode, disk]
    simp only [mode]
    exact fun isValid => h.valid y (valid y positive isValid) isValid
  used y reached := by
    rw [inode, disk]
    simp only [mode]
    exact h.used y (claimed y reached)

theorem Inodes.shift (inode : s'.inode = s.inode) (disk : s'.disk = s.disk)
    (held : ∀ t, (s'.proc t).held = (G' t).held)
    (count : ∀ y, refs s' y = refs s y) (mode : ∀ t, (G' t).mode = (G t).mode)
    (locked : ∀ t y, (G t).mode y ≠ .free → 0 < (G' t).held y) (known : ∀ t y, y ∈ (G' t).alive → 0 < (G' t).held y)
    (claimed : ∀ y, Claimed s' G' y → Claimed s G y) : Inodes s' G' :=
  h.move (fun y => by rw [inode]) disk held
    (fun y => by rw [inode, count]; exact h.count y) (by rw [inode]; exact h.unique)
    (fun y pos _ => by rw [inode] at pos; exact pos) mode locked known claimed

theorem Inodes.reuse {inum : Inum} (unused : (s.inode ip).ref = 0) :
    Inodes (s.setInode ip { s.inode ip with inum := inum, valid := false }) G := by
  have here : (s.setInode ip { s.inode ip with inum := inum, valid := false }).inode ip =
    { s.inode ip with inum := inum, valid := false } := update_self ..
  have there {y : Slot} (other : y ≠ ip) :
      (s.setInode ip { s.inode ip with inum := inum, valid := false }).inode y = s.inode y := update_of_ne other ..
  have free (t : Fin n) : (G t).mode ip = .free := by
    by_contra mode
    have := h.locked t ip mode
    have := h.held_le t ip
    omega
  have unclaimed : ¬Claimed s G ip := fun claimed => absurd (h.claimed_pos claimed) (by omega)
  have positive {y : Slot} (pos : 0 < ((s.setInode ip { s.inode ip with inum := inum, valid := false }).inode y).ref) :
      y ≠ ip := by
    rintro rfl
    rw [here] at pos
    exact absurd unused (Nat.ne_of_gt pos)
  constructor
  case held => exact h.held
  case count =>
    intro y
    refine Eq.trans ?_ (h.count y)
    by_cases same : y = ip
    · subst same
      rw [here]
    · rw [there same]
  case unique =>
    intro y z py pz
    rw [there (positive py), there (positive pz)] at *
    exact h.unique y z py pz
  case lock =>
    intro t y
    by_cases same : y = ip
    · subst same
      rw [here]
      exact h.lock t y
    · rw [there same]
      exact h.lock t y
  case locked => exact h.locked
  case known => exact h.known
  case loaded =>
    intro t y mode
    by_cases same : y = ip
    · subst same
      rw [free t] at mode
      cases mode
    · rw [there same]
      exact h.loaded t y mode
  case valid =>
    intro y pos
    rw [there (positive pos)] at *
    exact h.valid y pos
  case used =>
    intro y claimed
    by_cases same : y = ip
    · subst same
      exact absurd claimed unclaimed
    · rw [there same]
      exact h.used y claimed

end

theorem refs_setProc (s : Shared n) (t : Fin n) (p : Proc) (y : Slot) :
    refs (s.setProc t p) y + procRefs (s.proc t) y = refs s y + procRefs p y := by
  have swap := sum_update (fun p => procRefs p y) s.proc t p
  simp only [refs, Shared.setProc]
  omega

theorem refs_setFile (s : Shared n) (f : File) (e : Entry) (y : Slot) :
    refs (s.setFile f e) y + fileRefs (s.file f) y = refs s y + fileRefs e y := by
  have swap := sum_update (fun e => fileRefs e y) s.file f e
  simp only [refs, Shared.setFile]
  omega

theorem procRefs_take (p : Proc) (ip y : Slot) : procRefs (p.take ip) y = procRefs p y + if y = ip then 1 else 0 := by
  have cwd : cwdRefs (p.take ip) y = cwdRefs p y := rfl
  unfold procRefs
  rw [cwd]
  by_cases same : y = ip
  · subst same
    simp only [Proc.take, update_self, if_true]
    omega
  · simp [Proc.take, same]

theorem procRefs_drop {ip : Slot} (held : 0 < p.held ip) (y : Slot) :
    procRefs (p.drop ip) y + (if y = ip then 1 else 0) = procRefs p y := by
  have cwd : cwdRefs (p.drop ip) y = cwdRefs p y := rfl
  unfold procRefs
  rw [cwd]
  by_cases same : y = ip
  · subst same
    simp only [Proc.drop, update_self, if_true]
    omega
  · simp [Proc.drop, same]

theorem field_update {α : Type} (φ : Own n → α) (same : φ g = φ (G t)) (r : Fin n) : φ (update G t g r) = φ (G r) := by
  by_cases self : r = t
  · subst self
    rw [update_self, same]
  · rw [update_of_ne self]

theorem proc_update {α : Type} (φ : Proc → α) (same : φ p = φ (s.proc t)) (r : Fin n) :
    φ ((s.setProc t p).proc r) = φ (s.proc r) := by
  simp only [Shared.setProc]
  by_cases self : r = t
  · subst self
    rw [update_self, same]
  · rw [update_of_ne self]

theorem held_update (h : ∀ r, (s.proc r).held = (G r).held) (same : p.held = g.held) (r : Fin n) :
    ((s.setProc t p).proc r).held = (update G t g r).held := by
  simp only [Shared.setProc]
  by_cases self : r = t
  · subst self
    rw [update_self, update_self, same]
  · rw [update_of_ne self, update_of_ne self]
    exact h r

theorem refers_setProc (cwd : p.cwd = (s.proc t).cwd) (given : p.given = (s.proc t).given) :
    Refers (s.setProc t p) y ↔ Refers s y := by
  have same := proc_update (s := s) (t := t) (p := p) (fun p => (p.cwd, p.given)) (by rw [cwd, given])
  simp only [Prod.mk.injEq] at same
  simp only [Refers, same]
  rfl

theorem claimed_of (refers : Refers s' y → Claimed s G y) (alive : y ∈ g.alive → Claimed s G y)
    (claimed : Claimed s' (update G t g) y) : Claimed s G y := by
  obtain reached | ⟨r, member⟩ := claimed
  · exact refers reached
  by_cases self : r = t
  · subst self
    rw [update_self] at member
    exact alive member
  · rw [update_of_ne self] at member
    exact .inr ⟨r, member⟩

theorem held_more {g : Own n} (held : g.held = ((G t).take ip).held) (r : Fin n) (y : Slot) :
    (G r).held y ≤ (update G t g r).held y := by
  by_cases self : r = t
  · subst self
    rw [update_self, held]
    by_cases same : y = ip
    · subst same
      simp
    · simp [Own.take, same]
  · rw [update_of_ne self]

def Own.stake (g : Own n) : (Slot → Nat) × (Slot → Mode) × Set Slot := (g.held, g.mode, g.alive)

section
variable (h : Inodes s G)
include h

theorem Inodes.still (inode : s'.inode = s.inode) (disk : s'.disk = s.disk)
    (held : ∀ r, (s'.proc r).held = (s.proc r).held)
    (count : ∀ y, refs s' y = refs s y) (stake : ∀ r, (G' r).stake = (G r).stake)
    (refers : ∀ y, Refers s' y → Refers s y) : Inodes s' G' := by
  simp only [Own.stake, Prod.mk.injEq] at stake
  refine h.shift inode disk (fun r => ?_) count (fun r => (stake r).2.1)
    (fun r y locked => ?_) (fun r y member => ?_) fun y => ?_
  · rw [held, (stake r).1]
    exact h.held r
  · rw [(stake r).1]
    exact h.locked r y locked
  · rw [(stake r).2.2] at member
    rw [(stake r).1]
    exact h.known r y member
  · exact Or.imp (refers y) fun ⟨r, member⟩ => ⟨r, (stake r).2.2 ▸ member⟩

theorem Inodes.setProc (held : p.held = (s.proc t).held)
    (cwd : p.cwd = (s.proc t).cwd) (given : p.given = (s.proc t).given) (stake : ∀ r, (G' r).stake = (G r).stake) :
    Inodes (s.setProc t p) G' := by
  refine h.still rfl rfl (proc_update Proc.held held) (fun y => ?_) stake fun y => (refers_setProc cwd given).mp
  have swap := refs_setProc s t p y
  have same : procRefs p y = procRefs (s.proc t) y := by simp only [procRefs, cwdRefs, held, cwd, given]
  omega

theorem Inodes.taken (held : g.held = ((G t).take ip).held) (mode : g.mode = (G t).mode)
    (alive : ∀ y ∈ g.alive, y ∈ (G t).alive ∨ y = ip ∧ Refers s ip)
    (fresh : (s.inode ip).ref = 0 → (s.inode ip).valid = false ∧
      ∀ y, 0 < (s.inode y).ref → (s.inode y).inum ≠ (s.inode ip).inum) :
    Inodes ((s.setInode ip { s.inode ip with ref := (s.inode ip).ref + 1 }).setProc t ((s.proc t).take ip))
      (update G t g) := by
  have ref (y : Slot) : (update s.inode ip { s.inode ip with ref := (s.inode ip).ref + 1 } y) =
      { s.inode y with ref := (s.inode y).ref + if y = ip then 1 else 0 } := by
    by_cases same : y = ip
    · subst same
      simp
    · simp [same]
  have more := held_more held
  have before {y : Slot} (positive : 0 < (s.inode y).ref + if y = ip then 1 else 0)
    (was : y ≠ ip ∨ 0 < (s.inode ip).ref) :
      0 < (s.inode y).ref := by
    by_cases same : y = ip
    · subst same
      exact was.resolve_left (by simp)
    · rwa [if_neg same, add_zero] at positive
  refine h.move (fun y => ?_) rfl ?_ (fun y => ?_) (fun y z py pz same => ?_) (fun y positive isValid => ?_) ?_ ?_ ?_ ?_
  · simp only [Shared.setProc, Shared.setInode, ref]
  · refine held_update h.held ?_
    rw [held]
    simp only [Proc.take, Own.take, h.held t]
  · have swap := refs_setProc (s.setInode ip { s.inode ip with ref := (s.inode ip).ref + 1 }) t ((s.proc t).take ip) y
    have count : refs (s.setInode ip { s.inode ip with ref := (s.inode ip).ref + 1 }) y = refs s y := rfl
    have same : ((s.setInode ip { s.inode ip with ref := (s.inode ip).ref + 1 }).proc t) = s.proc t := rfl
    rw [same, procRefs_take, count] at swap
    have total := h.count y
    simp only [Shared.setProc, Shared.setInode, ref] at swap ⊢
    omega
  · simp only [Shared.setProc, Shared.setInode, ref] at py pz
    by_cases new : (s.inode ip).ref = 0
    · obtain ⟨_, apart⟩ := fresh new
      by_cases first : y = ip
      · by_cases second : z = ip
        · rw [first, second]
        · exact absurd (first ▸ same.symm) (apart z (before pz (.inl second)))
      · by_cases second : z = ip
        · exact absurd (second ▸ same) (apart y (before py (.inl first)))
        · exact h.unique y z (before py (.inl first)) (before pz (.inl second)) same
    · have pos : 0 < (s.inode ip).ref := Nat.pos_of_ne_zero new
      exact h.unique y z (before py (.inr pos)) (before pz (.inr pos)) same
  · simp only [Shared.setProc, Shared.setInode, ref] at positive
    by_cases same : y = ip
    · subst same
      by_contra none
      rw [(fresh (by omega)).1] at isValid
      cases isValid
    · exact before positive (.inl same)
  · exact field_update Own.mode mode
  · exact fun r y locked => lt_of_lt_of_le (h.locked r y locked) (more r y)
  · intro r y member
    by_cases self : r = t
    · subst self
      rw [update_self] at member
      obtain old | ⟨rfl, _⟩ := alive y member
      · exact lt_of_lt_of_le (h.known r y old) (more r y)
      · rw [update_self, held]
        simp
    · refine lt_of_lt_of_le (h.known r y ?_) (more r y)
      rwa [update_of_ne self] at member
  · intro y
    refine claimed_of (fun reached => .inl ?_) fun member => ?_
    · exact (refers_setProc (s := s.setInode ip _) (p := (s.proc t).take ip) rfl rfl).mp reached
    · obtain old | ⟨rfl, reached⟩ := alive y member
      · exact .inr ⟨t, old⟩
      · exact .inl reached

theorem known_drop (member : y ∈ ((G t).drop ip).alive) : 0 < ((G t).drop ip).held y := by
  obtain ⟨old, further⟩ := member
  have pos := h.known t y old
  by_cases same : y = ip
  · subst same
    have two := further rfl
    simp only [Own.drop, update_self]
    omega
  · simpa [Own.drop, same] using pos

theorem known_update (known : ∀ y ∈ g.alive, 0 < g.held y) (r : Fin n) (y : Slot)
    (member : y ∈ (update G t g r).alive) : 0 < (update G t g r).held y := by
  by_cases self : r = t
  · subst self
    rw [update_self] at member ⊢
    exact known y member
  · rw [update_of_ne self] at member ⊢
    exact h.known r y member

theorem locked_drop (held : g.held = ((G t).drop ip).held) (free : (G t).mode ip = .free)
    (r : Fin n) (y : Slot) (locked : (G r).mode y ≠ .free) : 0 < (update G t g r).held y := by
  have pos := h.locked r y locked
  by_cases self : r = t
  · subst self
    have other : y ≠ ip := by
      rintro rfl
      exact locked free
    rw [update_self, held]
    simpa [Own.drop, other] using pos
  · rwa [update_of_ne self]

theorem Inodes.dropped (held : 0 < (G t).held ip) (free : (G t).mode ip = .free) :
    Inodes ((s.setInode ip { s.inode ip with ref := (s.inode ip).ref - 1 }).setProc t ((s.proc t).drop ip))
      (update G t ((G t).drop ip)) := by
  have ref (y : Slot) : (update s.inode ip { s.inode ip with ref := (s.inode ip).ref - 1 } y) =
      { s.inode y with ref := (s.inode y).ref - if y = ip then 1 else 0 } := by
    by_cases same : y = ip
    · subst same
      simp
    · simp [same]
  have before {y : Slot} (positive : 0 < (s.inode y).ref - if y = ip then 1 else 0) : 0 < (s.inode y).ref := by omega
  have mine : 0 < (s.proc t).held ip := by rw [h.held]; exact held
  refine h.move (fun y => ?_) rfl ?_ (fun y => ?_) (fun y z py pz same => ?_) (fun y positive _ => ?_) ?_ ?_ ?_ ?_
  · simp only [Shared.setProc, Shared.setInode, ref]
  · refine held_update h.held ?_
    simp only [Proc.drop, Own.drop, h.held t]
  · have swap := refs_setProc (s.setInode ip { s.inode ip with ref := (s.inode ip).ref - 1 }) t ((s.proc t).drop ip) y
    have count : refs (s.setInode ip { s.inode ip with ref := (s.inode ip).ref - 1 }) y = refs s y := rfl
    have same : ((s.setInode ip { s.inode ip with ref := (s.inode ip).ref - 1 }).proc t) = s.proc t := rfl
    rw [same, count] at swap
    have left := procRefs_drop mine y
    have total := h.count y
    simp only [Shared.setProc, Shared.setInode, ref] at swap ⊢
    omega
  · simp only [Shared.setProc, Shared.setInode, ref] at py pz
    exact h.unique y z (before py) (before pz) same
  · simp only [Shared.setProc, Shared.setInode, ref] at positive
    exact before positive
  · exact field_update Own.mode rfl
  · exact locked_drop h rfl free
  · exact known_update h fun y => known_drop h
  · intro y
    refine claimed_of (fun reached => .inl ?_) fun member => .inr ⟨t, member.1⟩
    exact (refers_setProc (s := s.setInode ip _) (p := (s.proc t).drop ip) rfl rfl).mp reached

end

section Touch
variable {x : Inode n} {m : Mode} {A : Set Slot} {r : Fin n} {y : Slot}

theorem setInode_self : (s.setInode ip x).inode ip = x := update_self ..

theorem setInode_ne (other : y ≠ ip) : (s.setInode ip x).inode y = s.inode y := update_of_ne other ..

/-- What the processes own after `t` has changed the mode of an inode and which inodes it knows to be in use. -/
abbrev touched (G : Fin n → Own n) (t : Fin n) (ip : Slot) (m : Mode) (A : Set Slot) : Fin n → Own n :=
  update G t (((G t).setMode ip m).setAlive A)

theorem touched_held (r : Fin n) : (touched G t ip m A r).held = (G r).held := by
  by_cases same : r = t
  · subst same
    rw [touched, update_self]
    rfl
  · rw [touched, update_of_ne same]

theorem touched_mode : (touched G t ip m A t).mode ip = m := by
  rw [touched, update_self]
  exact update_self ..

theorem touched_mode_ne (other : r ≠ t ∨ y ≠ ip) : (touched G t ip m A r).mode y = (G r).mode y := by
  by_cases same : r = t
  · subst same
    rw [touched, update_self]
    exact update_of_ne (other.resolve_left (by simp)) ..
  · rw [touched, update_of_ne same]

theorem touched_alive : (touched G t ip m A t).alive = A := by
  rw [touched, update_self]
  rfl

theorem touched_alive_ne (other : r ≠ t) :
    (touched G t ip m A r).alive = (G r).alive := by rw [touched, update_of_ne other]

structure Touch (s : Shared n) (G : Fin n → Own n) (t : Fin n) (ip : Slot) (x : Inode n) (m : Mode) (A : Set Slot) :
    Prop where
  before : Inodes s G
  inum : x.inum = (s.inode ip).inum
  ref : x.ref = (s.inode ip).ref
  held : 0 < (G t).held ip
  others : ∀ r, r ≠ t → (G r).mode ip = .free
  lock : x.lock = if m = .free then none else some t
  alive : A ⊆ insert ip (G t).alive
  loaded : m = .loaded → x.valid = true
  valid : x.valid = true → m ≠ .doomed → x.type ≠ .none ∧ (s.disk x.inum).type ≠ .none
  used : Refers s ip ∨ ip ∈ A ∨ (∃ r, r ≠ t ∧ ip ∈ (G r).alive) → (s.disk x.inum).type ≠ .none ∧ m ≠ .doomed

section
variable (h : Touch s G t ip x m A)
include h

theorem Touch.number (y : Slot) :
    ((s.setInode ip x).inode y).inum = (s.inode y).inum ∧ ((s.setInode ip x).inode y).ref = (s.inode y).ref := by
  by_cases same : y = ip
  · subst same
    rw [setInode_self, h.ref, h.inum]
    exact ⟨rfl, rfl⟩
  · rw [setInode_ne same]
    exact ⟨rfl, rfl⟩

theorem Touch.lock_kept (r : Fin n) (y : Slot) :
    ((s.setInode ip x).inode y).lock = some r ↔ (touched G t ip m A r).mode y ≠ .free := by
  by_cases same : y = ip
  · subst same
    rw [setInode_self, h.lock]
    by_cases self : r = t
    · subst self
      rw [touched_mode]
      split_ifs with free <;> simp [free]
    · rw [touched_mode_ne (.inl self), h.others r self]
      split_ifs <;> simp [Ne.symm self]
  · rw [setInode_ne same, touched_mode_ne (.inr same)]
    exact h.before.lock r y

theorem Touch.locked_kept (mode : (touched G t ip m A r).mode y ≠ .free) : 0 < (touched G t ip m A r).held y := by
  rw [touched_held]
  by_cases here : r = t ∧ y = ip
  · rw [here.1, here.2]
    exact h.held
  · rw [touched_mode_ne (not_and_or.mp here)] at mode
    exact h.before.locked r y mode

theorem Touch.known_kept (member : y ∈ (touched G t ip m A r).alive) : 0 < (touched G t ip m A r).held y := by
  rw [touched_held]
  by_cases self : r = t
  · subst self
    rw [touched_alive] at member
    rcases h.alive member with rfl | before
    · exact h.held
    · exact h.before.known r y before
  · rw [touched_alive_ne self] at member
    exact h.before.known r y member

theorem Touch.loaded_kept (mode : (touched G t ip m A r).mode y = .loaded) :
    ((s.setInode ip x).inode y).valid = true := by
  by_cases same : y = ip
  · subst same
    rw [setInode_self]
    by_cases self : r = t
    · subst self
      exact h.loaded (touched_mode.symm.trans mode)
    · rw [touched_mode_ne (.inl self), h.others r self] at mode
      cases mode
  · rw [touched_mode_ne (.inr same)] at mode
    rw [setInode_ne same]
    exact h.before.loaded r y mode

theorem Touch.valid_kept (positive : 0 < ((s.setInode ip x).inode y).ref)
    (isValid : ((s.setInode ip x).inode y).valid = true)
    (doomed : ∀ r, (touched G t ip m A r).mode y ≠ .doomed) :
    ((s.setInode ip x).inode y).type ≠ .none ∧ (s.disk ((s.setInode ip x).inode y).inum).type ≠ .none := by
  by_cases same : y = ip
  · subst same
    have notDoomed := doomed t
    rw [touched_mode] at notDoomed
    rw [setInode_self] at isValid ⊢
    exact h.valid isValid notDoomed
  rw [setInode_ne same] at positive isValid ⊢
  refine h.before.valid y positive isValid fun r => ?_
  rw [← touched_mode_ne (t := t) (.inr same)]
  exact doomed r

theorem Touch.used_kept (claimed : Claimed (s.setInode ip x) (touched G t ip m A) y) :
    (s.disk ((s.setInode ip x).inode y).inum).type ≠ .none ∧ ∀ r, (touched G t ip m A r).mode y ≠ .doomed := by
  by_cases same : y = ip
  · subst same
    rw [setInode_self]
    have claims : Refers s y ∨ y ∈ A ∨ ∃ r, r ≠ t ∧ y ∈ (G r).alive := claimed.imp_right fun ⟨r, member⟩ => by
      by_cases self : r = t
      · subst self
        rw [touched_alive] at member
        exact .inl member
      · exact .inr ⟨r, self, touched_alive_ne self ▸ member⟩
    obtain ⟨inUse, notDoomed⟩ := h.used claims
    refine ⟨inUse, fun r => ?_⟩
    by_cases self : r = t
    · subst self
      rw [touched_mode]
      exact notDoomed
    · rw [touched_mode_ne (.inl self), h.others r self]
      decide
  · rw [setInode_ne same]
    have claims : Claimed s G y := claimed.imp_right fun ⟨r, member⟩ => by
      by_cases self : r = t
      · subst self
        rw [touched_alive] at member
        exact ⟨r, (h.alive member).resolve_left same⟩
      · exact ⟨r, touched_alive_ne self ▸ member⟩
    refine ⟨(h.before.used y claims).1, fun r => ?_⟩
    rw [touched_mode_ne (.inr same)]
    exact (h.before.used y claims).2 r

theorem Inodes.touch : Inodes (s.setInode ip x) (touched G t ip m A) where
  held r := (h.before.held r).trans (touched_held r).symm
  count y := (h.number y).2.trans (h.before.count y)
  unique y z := by
    rw [(h.number y).1, (h.number y).2, (h.number z).1, (h.number z).2]
    exact h.before.unique y z
  lock := h.lock_kept
  locked _ _ := h.locked_kept
  known _ _ := h.known_kept
  loaded _ _ := h.loaded_kept
  valid _ := h.valid_kept
  used _ := h.used_kept

end

end Touch

section Disk
variable {d : Dinode} {inum : Inum}

theorem Inodes.write (h : Inodes s G) (mode : (G t).mode ip = .loaded ∨ (G t).mode ip = .doomed) :
    Inodes (s.setDisk (s.inode ip).inum ⟨(s.inode ip).type, (s.inode ip).nlink⟩) G := by
  have locked : (G t).mode ip ≠ .free := by rcases mode with mode | mode <;> rw [mode] <;> decide
  have positive : 0 < (s.inode ip).ref := lt_of_lt_of_le (h.locked t ip locked) (h.held_le t ip)
  have at_ (y : Slot) (pos : 0 < (s.inode y).ref)
    (ok : (s.disk (s.inode y).inum).type ≠ .none) (doomed : ∀ r, (G r).mode y ≠ .doomed) :
      ((s.setDisk (s.inode ip).inum ⟨(s.inode ip).type, (s.inode ip).nlink⟩).disk (s.inode y).inum).type ≠ .none := by
    by_cases same : (s.inode y).inum = (s.inode ip).inum
    · obtain rfl := h.unique y ip pos positive same
      have isLoaded := mode.resolve_right (doomed t)
      simpa [Shared.setDisk] using (h.valid y pos (h.loaded t y isLoaded) doomed).1
    · simpa [Shared.setDisk, update_of_ne same] using ok
  exact
    { held := h.held
      count := h.count
      unique := h.unique
      lock := h.lock
      locked := h.locked
      known := h.known
      loaded := h.loaded
      valid := fun y pos valid doomed =>
        have before := h.valid y pos valid doomed
        ⟨before.1, at_ y pos before.2 doomed⟩
      used := fun y claimed =>
        have before := h.used y claimed
        ⟨at_ y (h.claimed_pos claimed) before.1 before.2, before.2⟩ }

theorem Inodes.allocate (h : Inodes s G) (used : d.type ≠ .none) : Inodes (s.setDisk inum d) G := by
  have grows (i : Inum) (ok : (s.disk i).type ≠ .none) : ((s.setDisk inum d).disk i).type ≠ .none := by
    by_cases same : i = inum
    · subst same
      simpa [Shared.setDisk] using used
    · simpa [Shared.setDisk, update_of_ne same] using ok
  exact
    { held := h.held
      count := h.count
      unique := h.unique
      lock := h.lock
      locked := h.locked
      known := h.known
      loaded := h.loaded
      valid := fun y pos valid doomed => (h.valid y pos valid doomed).imp_right (grows _)
      used := fun y claimed => (h.used y claimed).imp_left (grows _) }

end Disk

end Xv6.InodeCache
