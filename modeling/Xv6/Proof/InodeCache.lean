import Xv6.Proof.InodeRefs
import Xv6.Library.Transition

namespace Xv6.InodeCache
open Xv6.Library Xv6.Directory
open Function (update update_of_ne update_self update_eq_self update_idem)
open Xv6.Namespace (FileType File Fd O_CREATE)

variable {n : Nat} {s s' : Shared n} {G : Fin n → Own n} {t : Fin n} {ip : Slot}
  {inum : Inum} {x : Inode n} {m : Mode} {A : Set Slot} {c : Child n} {busy' : Fin n → Prop}

def fileOwns (s : Shared n) (G : Fin n → Own n) (t : Fin n) (f : File) : Int := hits (s.proc t).ofile f + (G t).files f

structure Files (s : Shared n) (G : Fin n → Own n) : Prop where
  count : ∀ f, ((s.file f).ref : Int) = ∑ t, fileOwns s G t f
  nonneg : ∀ t f, 0 ≤ fileOwns s G t f
  closed : ∀ f, (s.file f).ref = 0 → (s.file f).ip = none
  fresh : ∀ t f, (G t).fresh = some f → (s.file f).ip = none ∧ (s.file f).ref = 1 ∧ fileOwns s G t f = 1

section Files
variable {G' : Fin n → Own n} {f : File}

theorem Files.owns_le (h : Files s G) (t : Fin n) (f : File) : fileOwns s G t f ≤ (s.file f).ref := by
  rw [h.count f]
  exact Finset.single_le_sum (f := fun t => fileOwns s G t f) (fun r _ => h.nonneg r f) (Finset.mem_univ t)

theorem Files.fresh_only (h : Files s G) {r : Fin n} (fresh : (G r).fresh = some f) (mine : 1 ≤ fileOwns s G t f) :
    r = t := by
  by_contra ne
  obtain ⟨_, _, _⟩ := h.fresh r f fresh
  have rest := Finset.add_sum_erase Finset.univ (fun t => fileOwns s G t f) (Finset.mem_univ r)
  have part := Finset.single_le_sum (f := fun t => fileOwns s G t f) (fun r _ => h.nonneg r f)
    (Finset.mem_erase.mpr ⟨Ne.symm ne, Finset.mem_univ t⟩)
  have sum := h.count f
  omega

theorem Files.of (h : Files s G) (file : s'.file = s.file) (owns : ∀ t f, fileOwns s' G' t f = fileOwns s G t f)
    (fresh : ∀ t f, (G' t).fresh = some f → (G t).fresh = some f) : Files s' G' where
  count f := by simp only [file, owns]; exact h.count f
  nonneg t f := by rw [owns]; exact h.nonneg t f
  closed f := by rw [file]; exact h.closed f
  fresh t f isFresh := by rw [file, owns]; exact h.fresh t f (fresh t f isFresh)

theorem Files.shift (h : Files s G) {e : Entry} {k : Fin n → Int} (file : s'.file = update s.file f e)
    (owns : ∀ r x, fileOwns s' G' r x = fileOwns s G r x + if x = f then k r else 0)
    (ref : (e.ref : Int) = (s.file f).ref + ∑ r, k r)
    (nonneg : ∀ r, 0 ≤ fileOwns s G r f + k r) (closed : e.ref = 0 → e.ip = none)
    (fresh : ∀ r x, (G' r).fresh = some x →
      x ≠ f ∧ (G r).fresh = some x ∨ x = f ∧ e.ip = none ∧ e.ref = 1 ∧ fileOwns s G r f + k r = 1) : Files s' G' := by
  constructor
  case count =>
    intro x
    simp only [owns, file, Finset.sum_add_distrib]
    by_cases here : x = f
    · subst here
      simp only [if_true, update_self, ref, h.count]
    · simp only [here, if_false, Finset.sum_const_zero, add_zero, update_of_ne here, h.count]
  case nonneg =>
    intro r x
    rw [owns]
    split_ifs with here
    · rw [here]
      exact nonneg r
    · rw [add_zero]
      exact h.nonneg r x
  case closed =>
    intro x
    rw [file]
    by_cases here : x = f
    · subst here
      rw [update_self]
      exact closed
    · rw [update_of_ne here]
      exact h.closed x
  case fresh =>
    intro r x isFresh
    rw [file, owns]
    obtain ⟨other, before⟩ | ⟨rfl, isNone, one, mine⟩ := fresh r x isFresh
    · rw [update_of_ne other, if_neg other, add_zero]
      exact h.fresh r x before
    · rw [update_self, if_pos rfl]
      exact ⟨isNone, one, mine⟩

theorem Files.change (h : Files s G) {e : Entry} {g : Own n} {k : Int} (ref : (e.ref : Int) = (s.file f).ref + k)
    (ofile : ∀ r, (s'.proc r).ofile = (s.proc r).ofile)
    (file : s'.file = update s.file f e) (files : g.files = update (G t).files f ((G t).files f + k))
    (nonneg : 0 ≤ fileOwns s G t f + k) (closed : e.ref = 0 → e.ip = none)
    (fresh : ∀ x, g.fresh = some x → x ≠ f ∧ (G t).fresh = some x ∨
      x = f ∧ e.ip = none ∧ e.ref = 1 ∧ fileOwns s G t f + k = 1)
    (apart : ∀ r, r ≠ t → (G r).fresh ≠ some f) : Files s' (update G t g) := by
  refine h.shift (k := fun r => if r = t then k else 0) file
    (fun r x => ?_) ?_ (fun r => ?_) closed fun r x isFresh => ?_
  · unfold fileOwns
    rw [ofile]
    by_cases same : r = t
    · subst same
      rw [update_self, files, if_pos rfl]
      by_cases here : x = f
      · subst here
        rw [update_self, if_pos rfl, add_assoc]
      · rw [update_of_ne here, if_neg here, add_zero]
    · rw [update_of_ne same, if_neg same, ite_self, add_zero]
  · rw [Finset.sum_ite_eq', if_pos (Finset.mem_univ t)]
    exact ref
  · split_ifs with same
    · rw [same]
      exact nonneg
    · rw [add_zero]
      exact h.nonneg r f
  · by_cases same : r = t
    · subst same
      rw [update_self] at isFresh
      rw [if_pos rfl]
      exact fresh x isFresh
    rw [update_of_ne same] at isFresh
    refine .inl ⟨?_, isFresh⟩
    rintro rfl
    exact apart r same isFresh

end Files

theorem Files.frame (h : Files s G) {G' : Fin n → Own n} (file : s'.file = s.file)
    (ofile : ∀ r, (s'.proc r).ofile = (s.proc r).ofile) (files : ∀ r, (G' r).files = (G r).files)
    (fresh : ∀ r, (G' r).fresh = (G r).fresh) : Files s' G' :=
  h.of file (fun r f => by rw [fileOwns, ofile, files, fileOwns]) fun r f isFresh => fresh r ▸ isFresh

structure Procs (s : Shared n) (G : Fin n → Own n) (busy : Fin n → Prop) : Prop where
  given : ∀ t, (s.proc t).given = (G t).given
  ofile : ∀ t, busy t → (s.proc t).ofile = (G t).ofile
  gone : ∀ t, busy t → (G t).gone = true → (s.proc t).cwd = none
  child : ∀ t c, (G t).child = some c → (s.proc c.np).status = .embryo ∧ (s.proc c.np).given = false ∧
    (s.proc c.np).ofile = c.ofile ∧ (c.cwd = false → (s.proc c.np).cwd = none)
  parent : ∀ t r c c', (G t).child = some c → (G r).child = some c' → c.np = c'.np → t = r
  empty : ∀ t, (s.proc t).status = .unused ∨ (s.proc t).status = .zombie →
    (s.proc t).given = false ∧ (∀ fd, (s.proc t).ofile fd = none) ∧ (s.proc t).cwd = none
  live : ∀ t, busy t → (s.proc t).status = .live

def Proc.view (p : Proc) : Status × Option Slot × Bool × (Fd → Option File) := (p.status, p.cwd, p.given, p.ofile)

def Own.view (g : Own n) : Bool × Bool × (Fd → Option File) × Option (Child n) := (g.given, g.gone, g.ofile, g.child)

theorem Procs.frame {busy : Fin n → Prop} (h : Procs s G busy) {G' : Fin n → Own n}
    (proc : ∀ r, (s'.proc r).view = (s.proc r).view) (own : ∀ r, (G' r).view = (G r).view) : Procs s' G' busy := by
  simp only [Proc.view, Own.view, Prod.mk.injEq] at proc own
  exact
    { given := fun r => by rw [(proc r).2.2.1, (own r).1]; exact h.given r
      ofile := fun r => by rw [(proc r).2.2.2, (own r).2.2.1]; exact h.ofile r
      gone := fun r => by rw [(proc r).2.1, (own r).2.1]; exact h.gone r
      child := fun r c => by
        rw [(own r).2.2.2, (proc c.np).1, (proc c.np).2.1, (proc c.np).2.2.1, (proc c.np).2.2.2]
        exact h.child r c
      parent := fun r r' => by rw [(own r).2.2.2, (own r').2.2.2]; exact h.parent r r'
      empty := fun r => by rw [(proc r).1, (proc r).2.1, (proc r).2.2.1, (proc r).2.2.2]; exact h.empty r
      live := fun r => by rw [(proc r).1]; exact h.live r }

structure Accord (s : Shared n) (G : Fin n → Own n) (busy : Fin n → Prop) : Prop where
  inodes : Inodes s G
  files : Files s G
  procs : Procs s G busy

section Accord
variable {busy : Fin n → Prop} {f : File}

section
variable (h : Accord s G busy)
include h

theorem Accord.ofInodes {g : Own n} (inodes : Inodes s' (update G t g))
    (file : s'.file = s.file) (proc : ∀ r, (s'.proc r).view = (s.proc r).view) (view : g.view = (G t).view)
    (files : g.files = (G t).files) (fresh : g.fresh = (G t).fresh) : Accord s' (update G t g) busy where
  inodes := inodes
  files := h.files.frame file
    (fun r => by have same := proc r; simp only [Proc.view, Prod.mk.injEq] at same; exact same.2.2.2)
    (field_update Own.files files) (field_update Own.fresh fresh)
  procs := h.procs.frame proc (field_update Own.view view)

theorem Accord.take {g : Own n} (held : g.held = ((G t).take ip).held) (mode : g.mode = (G t).mode)
    (alive : ∀ y ∈ g.alive, y ∈ (G t).alive ∨ y = ip ∧ Refers s ip)
    (fresh : (s.inode ip).ref = 0 → (s.inode ip).valid = false ∧
      ∀ y, 0 < (s.inode y).ref → (s.inode y).inum ≠ (s.inode ip).inum)
    (view : g.view = (G t).view) (files : g.files = (G t).files) (isFresh : g.fresh = (G t).fresh) :
    Accord ((s.setInode ip { s.inode ip with ref := (s.inode ip).ref + 1 }).setProc t ((s.proc t).take ip))
      (update G t g) busy :=
  h.ofInodes (h.inodes.taken held mode alive fresh) rfl
    (proc_update (s := s.setInode ip _) (p := (s.proc t).take ip) Proc.view rfl) view files isFresh

theorem Accord.iget {u : Shared n} (found : igetSlot s inum = some (u, ip)) :
    Accord (u.setProc t ((s.proc t).take ip)) (update G t ((G t).take ip)) busy := by
  unfold igetSlot at found
  cases hit : cached s inum with
  | some y =>
    rw [hit] at found
    cases found
    have isCached := List.find?_some hit
    simp only [decide_eq_true_eq] at isCached
    exact h.take rfl rfl (fun y member => .inl member) (fun none => absurd none (by omega)) rfl rfl rfl
  | none =>
    rw [hit] at found
    cases room : empty s with
    | none => rw [room] at found; cases found
    | some y =>
      rw [room] at found
      obtain ⟨rfl, rfl⟩ := Prod.mk.inj (Option.some.inj found)
      have unused : (s.inode y).ref = 0 := by simpa using List.find?_some room
      have absent (z : Slot) (pos : 0 < (s.inode z).ref) : (s.inode z).inum ≠ inum := by
        have := List.find?_eq_none.mp hit z (List.mem_finRange z)
        simpa [pos] using this
      have reused : Accord (s.setInode y { s.inode y with inum := inum, valid := false }) G busy :=
        { inodes := h.inodes.reuse unused
          files := h.files.frame rfl (fun _ => rfl) (fun _ => rfl) fun _ => rfl
          procs := h.procs.frame (fun _ => rfl) fun _ => rfl }
      have taken := reused.take (g := (G t).take y) rfl rfl (fun z member => .inl member)
        (fun _ => ⟨by simp [Shared.setInode], fun z pos => ?_⟩) rfl rfl rfl
      · simpa only [Shared.setInode, update_self, update_idem, unused, Nat.zero_add] using taken
      by_cases same : z = y
      · subst same
        simp only [Shared.setInode, update_self] at pos
        omega
      · simp only [Shared.setInode, update_self, update_of_ne same] at pos ⊢
        exact absent z pos

theorem Accord.idupCwd (cwd : (s.proc t).cwd = some ip) (given : (G t).given = false) :
    Accord ((s.setInode ip { s.inode ip with ref := (s.inode ip).ref + 1 }).setProc t ((s.proc t).take ip))
      (update G t (((G t).take ip).know ip)) busy := by
  have refers : Refers s ip := .inr ⟨t, cwd, (h.procs.given t).trans given⟩
  refine h.take rfl rfl (fun y member => ?_) (fun _ => ?_) rfl rfl rfl
  · rcases member with rfl | old
    · exact .inr ⟨rfl, refers⟩
    · exact .inl old
  · exact absurd (h.inodes.claimed_pos (.inl refers)) (by omega)

theorem Accord.decRef (held : 0 < (G t).held ip) (free : (G t).mode ip = .free) :
    Accord ((s.setInode ip { s.inode ip with ref := (s.inode ip).ref - 1 }).setProc t ((s.proc t).drop ip))
      (update G t ((G t).drop ip)) busy :=
  h.ofInodes (h.inodes.dropped held free) rfl
    (proc_update (s := s.setInode ip _) (p := (s.proc t).drop ip) Proc.view rfl) rfl rfl rfl

theorem Accord.touch (inum : x.inum = (s.inode ip).inum)
    (ref : x.ref = (s.inode ip).ref) (mine : (G t).mode ip ≠ .free) (lock : x.lock = if m = .free then none else some t)
    (alive : A ⊆ insert ip (G t).alive) (loaded : m = .loaded → x.valid = true)
    (valid : x.valid = true → m ≠ .doomed → x.type ≠ .none ∧ (s.disk x.inum).type ≠ .none)
    (used : Refers s ip ∨ ip ∈ A ∨ (∃ r, r ≠ t ∧ ip ∈ (G r).alive) → (s.disk x.inum).type ≠ .none ∧ m ≠ .doomed) :
    Accord (s.setInode ip x) (update G t (((G t).setMode ip m).setAlive A)) busy := by
  refine h.ofInodes
    (Inodes.touch ⟨h.inodes, inum, ref, h.inodes.locked t ip mine, ?_, lock, alive, loaded, valid, used⟩) rfl
    (fun _ => rfl) rfl rfl rfl
  intro r other
  by_contra locked
  exact other (h.inodes.locked_once mine locked)

theorem Accord.acquiresleep (held : 0 < (G t).held ip) (free : (s.inode ip).lock = none) : (G t).mode ip = .free ∧
      Accord (s.setInode ip { s.inode ip with lock := some t }) (update G t ((G t).setMode ip .taken)) busy := by
  have unlocked (r : Fin n) : (G r).mode ip = .free := by
    by_contra locked
    have := (h.inodes.lock r ip).mpr locked
    rw [free] at this
    cases this
  refine ⟨unlocked t, ?_⟩
  refine h.ofInodes (g := ((G t).setMode ip .taken).setAlive (G t).alive)
    (Inodes.touch ⟨h.inodes, rfl, rfl, held, fun r _ => unlocked r, rfl,
    Set.subset_insert _ _, (fun isLoaded => by cases isLoaded),
    fun isValid _ => ?_, fun claimed => ?_⟩) rfl (fun _ => rfl) rfl rfl rfl
  · refine h.inodes.valid ip ?_ isValid fun r => ?_
    · exact lt_of_lt_of_le held (h.inodes.held_le t ip)
    · rw [unlocked r]
      decide
  · refine ⟨(h.inodes.used ip ?_).1, by decide⟩
    exact claimed.imp_right fun alive => alive.elim (fun mine => ⟨t, mine⟩) fun ⟨r, _, theirs⟩ => ⟨r, theirs⟩

theorem Accord.keep (inum : x.inum = (s.inode ip).inum)
    (ref : x.ref = (s.inode ip).ref) (mine : (G t).mode ip ≠ .free) (calm : (G t).mode ip ≠ .doomed)
    (lock : x.lock = if m = .free then none else some t) (alive : A ⊆ insert ip (G t).alive)
    (loaded : m = .loaded → x.valid = true) (notDoomed : m ≠ .doomed)
    (known : ip ∈ A → ip ∈ (G t).alive ∨ (s.disk (s.inode ip).inum).type ≠ .none)
    (valid : x.valid = true → (s.inode ip).valid = true ∧ x.type = (s.inode ip).type ∨
      x.type ≠ .none ∧ (s.disk (s.inode ip).inum).type ≠ .none) :
    Accord (s.setInode ip x) (update G t (((G t).setMode ip m).setAlive A)) busy := by
  refine h.touch inum ref mine lock alive loaded (fun isValid _ => ?_) fun claimed => ⟨?_, notDoomed⟩
  · rw [inum]
    obtain ⟨before, type⟩ | ok := valid isValid
    · rw [type]
      refine h.inodes.valid ip (lt_of_lt_of_le (h.inodes.locked t ip mine) (h.inodes.held_le t ip)) before fun r => ?_
      by_cases self : r = t
      · exact self ▸ calm
      · intro doomed
        exact self (h.inodes.locked_once mine (by rw [doomed]; decide))
    · exact ok
  · rw [inum]
    obtain refers | member | ⟨r, _, theirs⟩ := claimed
    · exact (h.inodes.used ip (.inl refers)).1
    · exact (known member).elim (fun old => (h.inodes.used ip (.inr ⟨t, old⟩)).1) id
    · exact (h.inodes.used ip (.inr ⟨r, theirs⟩)).1

end

theorem Accord.setAlive_self {g : Own n} : g.setAlive g.alive = g := rfl

theorem Accord.releasesleep (h : Accord s G busy) (lock : (s.inode ip).lock = some t) (calm : (G t).mode ip ≠ .doomed) :
    Accord (s.setInode ip { s.inode ip with lock := none }) (update G t ((G t).setMode ip .free)) busy :=
  h.keep (m := .free) (A := (G t).alive) rfl rfl ((h.inodes.lock t ip).mp lock) calm rfl (Set.subset_insert _ _)
    (fun isLoaded => by cases isLoaded) (by decide) .inl fun isValid => .inl ⟨isValid, rfl⟩

theorem Inodes.lock_eq (h : Inodes s G) (mine : (G t).mode ip ≠ .free) (locked : m ≠ .free) :
    (s.inode ip).lock = if m = .free then none else some t := by
  rw [if_neg locked]
  exact (h.lock t ip).mpr mine

section
variable (h : Accord s G busy)
include h

theorem Accord.getInode (mode : (G t).mode ip = .taken) :
    Accord s (update G t (if (s.inode ip).valid then ((G t).setMode ip .loaded).know ip else G t)) busy := by
  cases isValid : (s.inode ip).valid with
  | false => rwa [if_neg (by simp), update_eq_self]
  | true =>
    rw [if_pos rfl]
    have locked : (G t).mode ip ≠ .free := by rw [mode]; decide
    have doomed (r : Fin n) : (G r).mode ip ≠ .doomed := by
      by_cases self : r = t
      · rw [self, mode]
        decide
      · exact fun doomed => self (h.inodes.locked_once locked (by rw [doomed]; decide))
    have inUse := h.inodes.valid ip
      (lt_of_lt_of_le (h.inodes.locked t ip locked) (h.inodes.held_le t ip)) isValid doomed
    have kept := h.keep (x := s.inode ip) (m := .loaded) (A := insert ip (G t).alive) rfl rfl locked (doomed t)
      (h.inodes.lock_eq locked (by decide)) (le_refl _) (fun _ => isValid) (by decide) (fun _ => .inr inUse.2)
      fun _ => .inl ⟨isValid, rfl⟩
    have same : s.setInode ip (s.inode ip) = s := by simp [Shared.setInode]
    rwa [same] at kept

theorem Accord.load (mode : (G t).mode ip = .taken) (used : (s.disk (s.inode ip).inum).type ≠ .none) :
    Accord (s.setInode ip { s.inode ip with
        valid := true, type := (s.disk (s.inode ip).inum).type, nlink := (s.disk (s.inode ip).inum).nlink })
      (update G t (((G t).setMode ip .loaded).know ip)) busy :=
  h.keep (m := .loaded) (A := insert ip (G t).alive) rfl rfl (by rw [mode]; decide) (by rw [mode]; decide)
    (h.inodes.lock_eq (by rw [mode]; decide) (by decide)) (le_refl _)
    (fun _ => rfl) (by decide) (fun _ => .inr used) fun _ => .inr ⟨used, used⟩

theorem Accord.setNlink {k : Int16} (mode : (G t).mode ip = .loaded) :
    Accord (s.setInode ip { s.inode ip with nlink := k }) G busy := by
  have kept := h.keep (x := { s.inode ip with nlink := k }) (m := .loaded) (A := (G t).alive) rfl rfl
    (by rw [mode]; decide) (by rw [mode]; decide)
    (h.inodes.lock_eq (by rw [mode]; decide) (by decide)) (Set.subset_insert _ _)
    (fun _ => h.inodes.loaded t ip mode) (by decide) .inl fun isValid => .inl ⟨isValid, rfl⟩
  rw [Own.setMode_eq_self mode, Accord.setAlive_self, update_eq_self] at kept
  exact kept

theorem Accord.getRef (mode : (G t).mode ip = .loaded) (one : (s.inode ip).ref = 1) :
    Accord s (update G t (((G t).setMode ip .doomed).setAlive ((G t).alive \ {ip}))) busy := by
  have locked : (G t).mode ip ≠ .free := by rw [mode]; decide
  obtain ⟨unreferred, alone⟩ := h.inodes.sole one (h.inodes.locked t ip locked)
  have touched := h.touch (x := s.inode ip) (m := .doomed) (A := (G t).alive \ {ip}) rfl rfl locked
    (h.inodes.lock_eq locked (by decide)) (fun y member => .inr member.1) (fun isLoaded => by cases isLoaded)
    (fun _ calm => absurd rfl calm) fun claimed => ?_
  · have same : s.setInode ip (s.inode ip) = s := by simp [Shared.setInode]
    rwa [same] at touched
  obtain refers | member | ⟨r, other, theirs⟩ := claimed
  · exact absurd refers unreferred
  · exact absurd rfl member.2
  · have := h.inodes.known r ip theirs
    rw [alone r other] at this
    omega

theorem Accord.doomed (inum : x.inum = (s.inode ip).inum)
    (ref : x.ref = (s.inode ip).ref) (lock : x.lock = (s.inode ip).lock) (mode : (G t).mode ip = .doomed)
    (after : m = .doomed ∨ m = .cleared ∧ x.valid = false) :
    Accord (s.setInode ip x) (update G t ((G t).setMode ip m)) busy := by
  have locked : (G t).mode ip ≠ .free := by rw [mode]; decide
  have unclaimed : ¬Claimed s G ip := fun claimed => (h.inodes.used ip claimed).2 t mode
  refine h.touch (A := (G t).alive) inum ref locked ?_
    (Set.subset_insert _ _) ?_ (fun isValid notDoomed => ?_) fun claimed => ?_
  · rw [lock]
    refine h.inodes.lock_eq locked ?_
    rcases after with rfl | ⟨rfl, _⟩ <;> decide
  · rintro rfl
    rcases after with wrong | ⟨wrong, _⟩ <;> cases wrong
  · have cleared := (after.resolve_left notDoomed).2
    rw [cleared] at isValid
    cases isValid
  · refine absurd ?_ unclaimed
    exact claimed.imp_right fun alive => alive.elim (fun mine => ⟨t, mine⟩) fun ⟨r, _, theirs⟩ => ⟨r, theirs⟩

theorem Accord.onDisk {d : Dinode} (inodes : Inodes (s.setDisk inum d) G) : Accord (s.setDisk inum d) G busy where
  inodes := inodes
  files := h.files.frame rfl (fun _ => rfl) (fun _ => rfl) fun _ => rfl
  procs := h.procs.frame (fun _ => rfl) fun _ => rfl

end

section Files
variable {g : Own n}

theorem Accord.owns_eq (h : Accord s G busy) (isBusy : busy t) (f : File) : fileOwns s G t f = (G t).refs f := by
  rw [fileOwns, h.procs.ofile t isBusy, Own.refs]

theorem Accord.ofFiles (h : Accord s G busy) {e : Entry} (files : Files (s.setFile f e) (update G t g))
    (refs : ∀ y, fileRefs e y = fileRefs (s.file f) y) (stake : g.stake = (G t).stake) (view : g.view = (G t).view) :
    Accord (s.setFile f e) (update G t g) busy where
  files := files
  procs := h.procs.frame (fun _ => rfl) (field_update Own.view view)
  inodes := by
    have count (y : Slot) : InodeCache.refs (s.setFile f e) y = InodeCache.refs s y := by
      have swap := refs_setFile s f e y
      have same := refs y
      omega
    refine h.inodes.still rfl rfl (fun _ => rfl) count (field_update Own.stake stake) fun y reached => ?_
    refine reached.imp_left fun ⟨x, «open», same⟩ => ?_
    by_cases here : x = f
    · subst here
      have old := refs y
      simp only [Shared.setFile, update_self] at «open» same
      simp only [fileRefs] at old
      rw [if_pos ⟨«open», same⟩] at old
      by_contra none
      rw [if_neg (fun both => none ⟨x, both⟩)] at old
      cases old
    · simp only [Shared.setFile, update_of_ne here] at «open» same
      exact ⟨x, «open», same⟩

theorem Accord.filealloc (h : Accord s G busy) (isBusy : busy t) (closed : (s.file f).ref = 0) : (G t).refs f = 0 ∧
      Accord (s.setFile f { s.file f with ref := 1 }) (update G t { (G t).addFile f 1 with fresh := some f }) busy := by
  have owns : fileOwns s G t f = 0 := by
    have le := h.files.owns_le t f
    have nonneg := h.files.nonneg t f
    omega
  have noInode := h.files.closed f closed
  refine ⟨(h.owns_eq isBusy f).symm.trans owns, h.ofFiles ?_ (fun y => ?_) rfl rfl⟩
  · refine h.files.change (k := 1) (e := { s.file f with ref := 1 })
      (by simp [closed]) (fun _ => rfl) rfl rfl (by omega)
      (fun none => absurd none (by simp)) (fun x fresh => .inr ?_) fun r _ fresh => ?_
    · exact ⟨(Option.some.inj fresh).symm, noInode, rfl, by omega⟩
    · have := (h.files.fresh r f fresh).2.1
      omega
  · simp [fileRefs, noInode]

theorem Accord.filedup (h : Accord s G busy) (isBusy : busy t)
    (mine : 1 ≤ (G t).refs f) (notFresh : (G t).fresh ≠ some f)
    («open» : 1 ≤ (s.file f).ref) :
    Accord (s.setFile f { s.file f with ref := (s.file f).ref + 1 }) (update G t ((G t).addFile f 1)) busy := by
  have owns : 1 ≤ fileOwns s G t f := (h.owns_eq isBusy f).symm ▸ mine
  refine h.ofFiles ?_ (fun y => ?_) rfl rfl
  · refine h.files.change (k := 1) (e := { s.file f with ref := (s.file f).ref + 1 }) (by simp) (fun _ => rfl) rfl rfl
      (by omega) (fun none => absurd none (by simp)) (fun x fresh => .inl ⟨?_, fresh⟩) fun r other fresh => ?_
    · rintro rfl
      exact notFresh fresh
    · exact other (h.files.fresh_only fresh owns)
  · simp only [fileRefs, Nat.succ_pos, true_and]
    rw [if_congr (and_iff_right (by omega)) rfl rfl]

theorem closeFresh {x : File} (fresh : (if (G t).fresh = some f then none else (G t).fresh) = some x) :
    x ≠ f ∧ (G t).fresh = some x := by
  split_ifs at fresh with same
  refine ⟨?_, fresh⟩
  rintro rfl
  exact same fresh

section
variable (h : Accord s G busy)
include h

theorem Accord.filecloseMore (isBusy : busy t) (mine : 1 ≤ (G t).refs f) (more : 1 < (s.file f).ref) :
    Accord (s.setFile f { s.file f with ref := (s.file f).ref - 1 })
      (update G t { (G t).addFile f (-1) with fresh := if (G t).fresh = some f then none else (G t).fresh }) busy := by
  have owns : 1 ≤ fileOwns s G t f := (h.owns_eq isBusy f).symm ▸ mine
  refine h.ofFiles ?_ (fun y => ?_) rfl rfl
  · refine h.files.change (k := -1) (e := { s.file f with ref := (s.file f).ref - 1 }) ?_
      (fun _ => rfl) rfl rfl (by omega)
      (fun none => ?_) (fun x fresh => .inl (closeFresh fresh))
      fun r other fresh => other (h.files.fresh_only fresh owns)
    · change (((s.file f).ref - 1 : Nat) : Int) = _
      omega
    · change (s.file f).ref - 1 = 0 at none
      omega
  · have pos : 0 < (s.file f).ref - 1 := by omega
    have pos' : 0 < (s.file f).ref := by omega
    simp only [fileRefs, pos, pos']

theorem Accord.lastFiles {u : Shared n} {g : Own n} (isBusy : busy t) (mine : 1 ≤ (G t).refs f)
    (last : (s.file f).ref = 1) (file : u.file = update s.file f ⟨0, none⟩)
    (ofile : ∀ r, (u.proc r).ofile = (s.proc r).ofile)
    (files : g.files = ((G t).addFile f (-1)).files)
    (fresh : g.fresh = if (G t).fresh = some f then none else (G t).fresh) :
    Files u (update G t g) := by
  have owns : 1 ≤ fileOwns s G t f := (h.owns_eq isBusy f).symm ▸ mine
  exact h.files.change (k := -1) (e := ⟨0, none⟩) (by simp [last]) ofile file files (by omega) (fun _ => rfl)
    (fun x isFresh => .inl (closeFresh (fresh ▸ isFresh)))
    fun r other isFresh => other (h.files.fresh_only isFresh owns)

theorem Accord.filecloseNone (isBusy : busy t) (mine : 1 ≤ (G t).refs f)
    (last : (s.file f).ref = 1) (noInode : (s.file f).ip = none) :
    Accord (s.setFile f ⟨0, none⟩)
      (update G t { (G t).addFile f (-1) with fresh := if (G t).fresh = some f then none else (G t).fresh }) busy := by
  refine h.ofFiles (h.lastFiles isBusy mine last rfl (fun _ => rfl) rfl rfl) (fun y => ?_) rfl rfl
  simp [fileRefs, noInode]

theorem Accord.filecloseLast (isBusy : busy t) (mine : 1 ≤ (G t).refs f)
    (last : (s.file f).ref = 1) (inode : (s.file f).ip = some ip) :
    Accord ((s.setFile f ⟨0, none⟩).setProc t ((s.proc t).take ip))
      (update G t ((G t).next (.fileclose f) (some ip))) busy where
  files := h.lastFiles isBusy mine last rfl
    (proc_update (s := s.setFile f _) (p := (s.proc t).take ip) Proc.ofile rfl) rfl rfl
  procs := h.procs.frame (proc_update (s := s.setFile f _) (p := (s.proc t).take ip) Proc.view rfl)
    (field_update Own.view rfl)
  inodes := by
    have more := @held_more _ G t ip ((G t).next (.fileclose f) (some ip)) rfl
    refine h.inodes.shift rfl rfl ?_ (fun y => ?_) (field_update Own.mode rfl) ?_ ?_ ?_
    · refine held_update (s := s.setFile f ⟨0, none⟩) h.inodes.held ?_
      exact congrArg (fun held => update held ip (held ip + 1)) (h.inodes.held t)
    · have first := refs_setProc (s.setFile f ⟨0, none⟩) t ((s.proc t).take ip) y
      have second := refs_setFile s f ⟨0, none⟩ y
      have same : (s.setFile f ⟨0, none⟩).proc t = s.proc t := rfl
      rw [same, procRefs_take] at first
      have zero : fileRefs ⟨0, none⟩ y = 0 := by simp [fileRefs]
      have one : fileRefs (s.file f) y = if y = ip then 1 else 0 := by
        simp [fileRefs, last, inode, eq_comm]
      omega
    · exact fun r y locked => lt_of_lt_of_le (h.inodes.locked r y locked) (more r y)
    · refine fun r y member => lt_of_lt_of_le (h.inodes.known r y ?_) (more r y)
      exact field_update (g := (G t).next (.fileclose f) (some ip)) Own.alive rfl r ▸ member
    · intro y
      refine claimed_of (fun reached => .inl ?_) fun member => .inr ⟨t, member⟩
      have := (refers_setProc (s := s.setFile f ⟨0, none⟩) (p := (s.proc t).take ip) rfl rfl).mp reached
      refine this.imp_left ?_
      rintro ⟨x, «open», same⟩
      by_cases here : x = f
      · subst here
        simp [Shared.setFile] at «open»
      · simp only [Shared.setFile, update_of_ne here] at «open» same
        exact ⟨x, «open», same⟩

theorem Accord.setIp (fresh : (G t).fresh = some f) (spare : (G t).Spare ip) :
    Accord ((s.setFile f { s.file f with ip := some ip }).setProc t ((s.proc t).drop ip))
      (update G t { (G t).drop ip with fresh := none }) busy := by
  obtain ⟨noInode, one, _⟩ := h.files.fresh t f fresh
  have mine : 0 < (s.proc t).held ip := by rw [h.inodes.held]; exact spare.held
  constructor
  case files =>
    refine h.files.change (k := 0) (e := { s.file f with ip := some ip }) (by simp)
      (proc_update (s := s.setFile f _) (p := (s.proc t).drop ip) Proc.ofile rfl) rfl ?_ (by omega) (fun none => ?_)
      (fun x isFresh => by cases isFresh) fun r other isFresh => other (h.files.fresh_only isFresh (by omega))
    · simp [Own.drop]
    · change (s.file f).ref = 0 at none
      omega
  case procs =>
    exact h.procs.frame (proc_update (s := s.setFile f _) (p := (s.proc t).drop ip) Proc.view rfl)
      (field_update Own.view rfl)
  case inodes =>
    refine h.inodes.shift rfl rfl ?_ (fun y => ?_) (field_update Own.mode rfl) ?_ ?_ ?_
    · refine held_update (s := s.setFile f _) h.inodes.held ?_
      simp only [Proc.drop, Own.drop, h.inodes.held t]
    · have first := refs_setProc (s.setFile f { s.file f with ip := some ip }) t ((s.proc t).drop ip) y
      have second := refs_setFile s f { s.file f with ip := some ip } y
      have same : (s.setFile f { s.file f with ip := some ip }).proc t = s.proc t := rfl
      rw [same] at first
      have left := procRefs_drop mine y
      have zero : fileRefs (s.file f) y = 0 := by simp [fileRefs, noInode]
      have now : fileRefs { s.file f with ip := some ip } y = if y = ip then 1 else 0 := by
        simp [fileRefs, one, eq_comm]
      omega
    · exact locked_drop h.inodes rfl spare.unlocked
    · exact known_update h.inodes fun y => known_drop h.inodes
    · intro y
      refine claimed_of (fun reached => ?_) fun member => .inr ⟨t, member.1⟩
      have := (refers_setProc (s := s.setFile f _) (p := (s.proc t).drop ip) rfl rfl).mp reached
      obtain ⟨x, «open», same⟩ | cwd := this
      · by_cases here : x = f
        · subst here
          simp only [Shared.setFile, update_self, Option.some.injEq] at same
          exact .inr ⟨t, same ▸ spare.alive⟩
        · simp only [Shared.setFile, update_of_ne here] at «open» same
          exact .inl (.inl ⟨x, «open», same⟩)
      · exact .inl (.inr cwd)

end

end Files

section Procs
variable {p : Proc} {g : Own n}

theorem Procs.not_child (h : Procs s G busy) (isBusy : busy t) {r : Fin n} (child : (G r).child = some c) :
    c.np ≠ t := by
  rintro rfl
  have status := (h.child r c child).1
  rw [h.live _ isBusy] at status
  cases status

def Own.self (g : Own n) : Bool × Bool × (Fd → Option File) := (g.given, g.gone, g.ofile)

theorem Procs.change (h : Procs s G busy) {G' : Fin n → Own n} {x : Fin n}
    (proc : ∀ r, r ≠ x → (s'.proc r).view = (s.proc r).view) (own : ∀ r, r ≠ x → (G' r).self = (G r).self)
    (less : ∀ r, r ≠ x → busy' r → busy r) (given : (s'.proc x).given = (G' x).given)
    (mine : busy' x → (s'.proc x).ofile = (G' x).ofile ∧
      ((G' x).gone = true → (s'.proc x).cwd = none) ∧ (s'.proc x).status = .live)
    (empty : (s'.proc x).status = .unused ∨ (s'.proc x).status = .zombie →
      (s'.proc x).given = false ∧ (∀ fd, (s'.proc x).ofile fd = none) ∧ (s'.proc x).cwd = none)
    (child : ∀ r c, (G' r).child = some c → c.np ≠ x ∧ (G r).child = some c ∨ (s'.proc c.np).status = .embryo ∧
      (s'.proc c.np).given = false ∧ (s'.proc c.np).ofile = c.ofile ∧ (c.cwd = false → (s'.proc c.np).cwd = none))
    (parent : ∀ t r c c', (G' t).child = some c → (G' r).child = some c' → c.np = c'.np → t = r) :
    Procs s' G' busy' := by
  simp only [Proc.view, Own.self, Prod.mk.injEq] at proc own
  constructor
  case given =>
    intro r
    obtain rfl | other := eq_or_ne r x
    · exact given
    · rw [(proc r other).2.2.1, (own r other).1]
      exact h.given r
  case ofile =>
    intro r busyR
    obtain rfl | other := eq_or_ne r x
    · exact (mine busyR).1
    · rw [(proc r other).2.2.2, (own r other).2.2]
      exact h.ofile r (less r other busyR)
  case gone =>
    intro r busyR
    obtain rfl | other := eq_or_ne r x
    · exact (mine busyR).2.1
    · rw [(proc r other).2.1, (own r other).2.1]
      exact h.gone r (less r other busyR)
  case child =>
    intro r c isChild
    obtain ⟨other, old⟩ | new := child r c isChild
    · rw [(proc c.np other).1, (proc c.np other).2.1, (proc c.np other).2.2.1, (proc c.np other).2.2.2]
      exact h.child r c old
    · exact new
  case parent => exact parent
  case empty =>
    intro r dead
    obtain rfl | other := eq_or_ne r x
    · exact empty dead
    · rw [(proc r other).1] at dead
      rw [(proc r other).2.1, (proc r other).2.2.1, (proc r other).2.2.2]
      exact h.empty r dead
  case live =>
    intro r busyR
    obtain rfl | other := eq_or_ne r x
    · exact (mine busyR).2.2
    · rw [(proc r other).1]
      exact h.live r (less r other busyR)

theorem setProc_view (r : Fin n) (other : r ≠ t) : ((s.setProc t p).proc r).view = (s.proc r).view :=
  congrArg Proc.view (update_of_ne other ..)

@[simp] theorem setProc_self : (s.setProc t p).proc t = p := update_self ..

theorem Procs.self (h : Procs s G busy) (isBusy : busy t)
    (status : p.status = (s.proc t).status) (given : p.given = g.given)
    (ofile : p.ofile = g.ofile) (gone : g.gone = true → p.cwd = none) (child : g.child = (G t).child) :
    Procs (s.setProc t p) (update G t g) busy := by
  have live : p.status = .live := status.trans (h.live t isBusy)
  refine h.change setProc_view (fun r other => by rw [update_of_ne other])
    (fun r _ => id) ?_ (fun _ => ?_) (fun dead => ?_)
    (fun r c isChild => ?_) ?_
  · rw [setProc_self, update_self, given]
  · rw [setProc_self, update_self]
    exact ⟨ofile, gone, live⟩
  · rw [setProc_self, live] at dead
    simp at dead
  · rw [field_update Own.child child] at isChild
    exact .inl ⟨h.not_child isBusy isChild, isChild⟩
  · simp only [field_update Own.child child]
    exact h.parent

section
variable (h : Accord s G busy)
include h

theorem Accord.mono (less : ∀ r, busy' r → busy r) : Accord s G busy' where
  inodes := h.inodes
  files := h.files
  procs :=
    { given := h.procs.given
      ofile := fun r busyR => h.procs.ofile r (less r busyR)
      gone := fun r busyR => h.procs.gone r (less r busyR)
      child := h.procs.child
      parent := h.procs.parent
      empty := h.procs.empty
      live := fun r busyR => h.procs.live r (less r busyR) }

theorem Accord.descriptors (isBusy : busy t) {ofile : Fd → Option File}
    (owns : ∀ f, hits ofile f + g.files f = (G t).refs f) (stake : g.stake = (G t).stake)
    (fresh : g.fresh = (G t).fresh) (mirror : g.ofile = ofile) (given : g.given = (G t).given)
    (gone : g.gone = (G t).gone) (child : g.child = (G t).child) :
    Accord (s.setProc t { s.proc t with ofile := ofile }) (update G t g) busy where
  procs := h.procs.self isBusy rfl ((h.procs.given t).trans given.symm) mirror.symm
    (fun isGone => h.procs.gone t isBusy (gone ▸ isGone)) child
  files := by
    refine h.files.of rfl (fun r f => ?_) fun r f isFresh => field_update Own.fresh fresh r ▸ isFresh
    by_cases self : r = t
    · subst self
      rw [h.owns_eq isBusy]
      simp only [fileOwns, Shared.setProc, update_self]
      exact owns f
    · simp only [fileOwns, Shared.setProc, update_of_ne self]
  inodes := h.inodes.setProc rfl rfl rfl (field_update Own.stake stake)

theorem Accord.clearFd (isBusy : busy t) (fd : Fd) :
    Accord (s.setProc t { s.proc t with ofile := update (s.proc t).ofile fd none })
      (update G t ((G t).next (.clearFd fd) ())) busy := by
  refine h.descriptors isBusy (fun f => ?_) rfl rfl ?_ rfl rfl rfl
  · rw [h.procs.ofile t isBusy]
    exact Own.refs_clearFd
  · rw [h.procs.ofile t isBusy]
    rfl

theorem Accord.fdalloc (isBusy : busy t) {fd : Fd} (free : (s.proc t).ofile fd = none) :
    Accord (s.setProc t { s.proc t with ofile := update (s.proc t).ofile fd (some f) })
      (update G t ((G t).next (.fdalloc f) (some fd))) busy := by
  rw [h.procs.ofile t isBusy] at free
  refine h.descriptors isBusy (fun x => ?_) rfl rfl ?_ rfl rfl rfl
  · rw [h.procs.ofile t isBusy]
    by_cases same : x = f
    · subst same
      exact Own.refs_fdalloc free
    have swap := hits_update (G t).ofile fd (some f) x
    simp only [free, reduceCtorEq, if_false, Option.some.injEq, Ne.symm same] at swap
    simp only [Own.next, Own.addFile, Option.elim, update_of_ne same, Own.refs]
    omega
  · rw [h.procs.ofile t isBusy]
    rfl

theorem Accord.directory (isBusy : busy t) (inodes : Inodes (s.setProc t p) (update G t g))
    (status : p.status = (s.proc t).status) (ofile : p.ofile = (s.proc t).ofile) (given : p.given = g.given)
    (mirror : g.ofile = (G t).ofile) (gone : g.gone = true → p.cwd = none) (child : g.child = (G t).child)
    (files : g.files = (G t).files) (fresh : g.fresh = (G t).fresh) : Accord (s.setProc t p) (update G t g) busy where
  inodes := inodes
  files := h.files.frame rfl (proc_update Proc.ofile ofile)
    (field_update Own.files files) (field_update Own.fresh fresh)
  procs := h.procs.self isBusy status given (by rw [ofile, h.procs.ofile t isBusy, mirror]) gone child

end

theorem refers_cwd {y : Slot} (reached : Refers (s.setProc t p) y) : Refers s y ∨ p.cwd = some y ∧ p.given = false := by
  obtain file | ⟨r, cwd, given⟩ := reached
  · exact .inl (.inl file)
  by_cases self : r = t
  · subst self
    simp only [Shared.setProc, update_self] at cwd given
    exact .inr ⟨cwd, given⟩
  · simp only [Shared.setProc, update_of_ne self] at cwd given
    exact .inl (.inr ⟨r, cwd, given⟩)

theorem Accord.handCwd (h : Accord s G busy) (isBusy : busy t)
    (given : (G t).given = false) (cwd : (s.proc t).cwd = some ip) :
    Accord (s.setProc t { (s.proc t).take ip with given := true }) (update G t { (G t).take ip with given := true })
      busy := by
  have own : (s.proc t).given = false := (h.procs.given t).trans given
  have more := held_more (g := { (G t).take ip with given := true }) rfl
  refine h.directory isBusy ?_ rfl rfl rfl rfl (fun isGone => h.procs.gone t isBusy isGone) rfl rfl rfl
  refine h.inodes.shift rfl rfl (held_update h.inodes.held ?_)
    (fun y => ?_) (field_update Own.mode rfl) ?_ ?_ fun y => ?_
  · simp only [Proc.take, Own.take, h.inodes.held t]
  · have swap := refs_setProc s t { (s.proc t).take ip with given := true } y
    have now : procRefs { (s.proc t).take ip with given := true } y = ((s.proc t).take ip).held y := by
      simp [procRefs, cwdRefs]
    have taken := procRefs_take (s.proc t) ip y
    have before : cwdRefs (s.proc t) y = if y = ip then 1 else 0 := by
      simp [cwdRefs, cwd, own, eq_comm]
    have same : cwdRefs ((s.proc t).take ip) y = cwdRefs (s.proc t) y := rfl
    unfold procRefs at taken swap now
    omega
  · exact fun r y locked => lt_of_lt_of_le (h.inodes.locked r y locked) (more r y)
  · refine fun r y member => lt_of_lt_of_le (h.inodes.known r y ?_) (more r y)
    exact field_update (g := { (G t).take ip with given := true }) Own.alive rfl r ▸ member
  · refine claimed_of (fun reached => .inl ?_) fun member => .inr ⟨t, member⟩
    exact (refers_cwd reached).resolve_right fun new => by cases new.2

theorem Accord.setCwd (h : Accord s G busy) (isBusy : busy t) (given : (G t).given = true) (spare : (G t).Spare ip) :
    Accord (s.setProc t { (s.proc t).drop ip with cwd := some ip, given := false })
      (update G t { (G t).drop ip with given := false, gone := false }) busy := by
  have own : (s.proc t).given = true := (h.procs.given t).trans given
  have mine : 0 < (s.proc t).held ip := by rw [h.inodes.held]; exact spare.held
  refine h.directory isBusy ?_ rfl rfl rfl rfl (fun isGone => by cases isGone) rfl rfl rfl
  refine h.inodes.shift rfl rfl (held_update h.inodes.held ?_)
    (fun y => ?_) (field_update Own.mode rfl) ?_ ?_ fun y => ?_
  · simp only [Proc.drop, Own.drop, h.inodes.held t]
  · have swap := refs_setProc s t { (s.proc t).drop ip with cwd := some ip, given := false } y
    have now : procRefs { (s.proc t).drop ip with cwd := some ip, given := false } y =
        ((s.proc t).drop ip).held y + if y = ip then 1 else 0 := by
      simp [procRefs, cwdRefs, eq_comm]
    have dropped := procRefs_drop mine y
    have before : cwdRefs (s.proc t) y = 0 := by simp [cwdRefs, own]
    have same : cwdRefs ((s.proc t).drop ip) y = cwdRefs (s.proc t) y := rfl
    unfold procRefs at dropped swap now
    omega
  · exact locked_drop h.inodes rfl spare.unlocked
  · exact known_update h.inodes fun y => known_drop h.inodes
  · refine claimed_of (fun reached => ?_) fun member => .inr ⟨t, member.1⟩
    obtain old | ⟨new, _⟩ := refers_cwd reached
    · exact .inl old
    · exact .inr ⟨t, Option.some.inj new ▸ spare.alive⟩

theorem Accord.clearCwd (h : Accord s G busy) (isBusy : busy t) (given : (G t).given = true) :
    Accord (s.setProc t { s.proc t with cwd := none, given := false })
      (update G t { G t with given := false, gone := true }) busy := by
  have own : (s.proc t).given = true := (h.procs.given t).trans given
  refine h.directory isBusy ?_ rfl rfl rfl rfl (fun _ => rfl) rfl rfl rfl
  refine h.inodes.still rfl rfl (proc_update Proc.held rfl)
    (fun y => ?_) (field_update Own.stake rfl) fun y reached => ?_
  · have swap := refs_setProc s t { s.proc t with cwd := none, given := false } y
    have now : procRefs { s.proc t with cwd := none, given := false } y = (s.proc t).held y := by
      simp [procRefs, cwdRefs]
    have before : procRefs (s.proc t) y = (s.proc t).held y := by simp [procRefs, cwdRefs, own]
    omega
  · exact (refers_cwd reached).resolve_right fun new => by cases new.1

theorem Procs.fill (h : Procs s G busy) (embryo : (s.proc c.np).status ≠ .live)
    (others : ∀ r, r ≠ c.np → (s'.proc r).view = (s.proc r).view) (status : (s'.proc c.np).status = .embryo)
    (given : (s'.proc c.np).given = false ∧ (s.proc c.np).given = false) (ofile : (s'.proc c.np).ofile = c.ofile)
    (cwd : c.cwd = false → (s'.proc c.np).cwd = none) (child : g.child = some c)
    (apart : ∀ r c', r ≠ t → (G r).child = some c' → c'.np ≠ c.np) (own : g.self = (G t).self) :
    Procs s' (update G t g) busy := by
  have children {r : Fin n} {c' : Child n} (isChild : (update G t g r).child = some c') :
      r = t ∧ c' = c ∨ r ≠ t ∧ (G r).child = some c' := by
    by_cases self : r = t
    · subst self
      rw [update_self, child] at isChild
      exact .inl ⟨rfl, (Option.some.inj isChild).symm⟩
    · rw [update_of_ne self] at isChild
      exact .inr ⟨self, isChild⟩
  refine h.change others (fun r _ => field_update Own.self own r) (fun r _ => id) ?_ (fun busyNp => ?_) (fun dead => ?_)
    (fun r c' isChild => ?_) fun r r' c₁ c₂ first second np => ?_
  · rw [given.1, field_update Own.given (congrArg Prod.fst own), ← h.given, given.2]
  · exact absurd (h.live c.np busyNp) embryo
  · rw [status] at dead
    simp at dead
  · obtain ⟨-, rfl⟩ | ⟨other, old⟩ := children isChild
    · exact .inr ⟨status, given.1, ofile, cwd⟩
    · exact .inl ⟨apart r c' other old, old⟩
  · obtain ⟨rfl, rfl⟩ | ⟨other, old⟩ := children first
    · obtain ⟨same, -⟩ | ⟨other', old'⟩ := children second
      · exact same.symm
      · exact absurd np.symm (apart r' c₂ other' old')
    · obtain ⟨-, rfl⟩ | ⟨-, old'⟩ := children second
      · exact absurd np (apart r c₁ other old)
      · exact h.parent r r' c₁ c₂ old old' np

section
variable (h : Accord s G busy)
include h

theorem Accord.restatus {G' : Fin n → Own n} {np : Fin n} {st : Status}
    (stake : ∀ r, (G' r).stake = (G r).stake)
    (files : ∀ r, (G' r).files = (G r).files) (fresh : ∀ r, (G' r).fresh = (G r).fresh)
    (procs : Procs (s.setProc np { s.proc np with status := st }) G' busy') :
    Accord (s.setProc np { s.proc np with status := st }) G' busy' where
  procs := procs
  files := h.files.frame rfl (proc_update Proc.ofile rfl) files fresh
  inodes := h.inodes.setProc rfl rfl rfl stake

theorem Accord.allocproc {np : Fin n} (unused : (s.proc np).status = .unused) :
    Accord (s.setProc np { s.proc np with status := .embryo })
      (update G t { G t with child := some ⟨np, fun _ => none, false⟩ }) busy := by
  obtain ⟨given, closed, cwd⟩ := h.procs.empty np (.inl unused)
  refine h.restatus (field_update Own.stake rfl) (field_update Own.files rfl) (field_update Own.fresh rfl)
    (h.procs.fill (c := ⟨np, fun _ => none, false⟩) ?_ setProc_view ?_ ?_ ?_ ?_ rfl ?_ rfl)
  · rw [unused]
    decide
  · rw [setProc_self]
  · rw [setProc_self]
    exact ⟨given, given⟩
  · rw [setProc_self]
    exact funext closed
  · rw [setProc_self]
    exact fun _ => cwd
  · rintro r c' _ child rfl
    have := (h.procs.child r c' child).1
    rw [unused] at this
    cases this

theorem Accord.childRun (child : (G t).child = some c) :
    Accord (s.setProc c.np { s.proc c.np with status := .live }) (update G t { G t with child := none }) busy := by
  obtain ⟨status, given, -⟩ := h.procs.child t c child
  have still {r : Fin n} {c' : Child n} (isChild : (update G t { G t with child := none } r).child = some c') :
      r ≠ t ∧ (G r).child = some c' := by
    by_cases self : r = t
    · subst self
      rw [update_self] at isChild
      cases isChild
    · rw [update_of_ne self] at isChild
      exact ⟨self, isChild⟩
  refine h.restatus (field_update Own.stake rfl) (field_update Own.files rfl) (field_update Own.fresh rfl)
    (h.procs.change setProc_view (fun r _ => field_update (g := { G t with child := none }) Own.self rfl r)
      (fun r _ => id) ?_ (fun busyNp => ?_) (fun dead => ?_)
      (fun r c' isChild => ?_) fun r r' c₁ c₂ first second => ?_)
  · rw [setProc_self]
    exact (h.procs.given c.np).trans (field_update (g := { G t with child := none }) Own.given rfl c.np).symm
  · rw [h.procs.live _ busyNp] at status
    cases status
  · rw [setProc_self] at dead
    simp at dead
  · obtain ⟨self, old⟩ := still isChild
    exact .inl ⟨fun same => self (h.procs.parent r t c' c old child same), old⟩
  · exact h.procs.parent r r' c₁ c₂ (still first).2 (still second).2

theorem Accord.zombie (isBusy : busy t) (closed : ∀ fd, (G t).ofile fd = none)
    (gone : (G t).gone = true) (given : (G t).given = false) :
    Accord (s.setProc t { s.proc t with status := .zombie }) G fun r => busy r ∧ r ≠ t := by
  refine h.restatus (fun _ => rfl) (fun _ => rfl) (fun _ => rfl) (h.procs.change setProc_view (fun r _ => rfl)
    (fun r _ busyR => busyR.1) ?_ (fun busyT => absurd rfl busyT.2) (fun _ => ?_) (fun r c child => ?_) h.procs.parent)
  · rw [setProc_self]
    exact h.procs.given t
  · rw [setProc_self]
    refine ⟨(h.procs.given t).trans given, fun fd => ?_, h.procs.gone t isBusy gone⟩
    exact (congrFun (h.procs.ofile t isBusy) fd).trans (closed fd)
  · exact .inl ⟨h.procs.not_child isBusy child, child⟩

theorem Accord.childFd {fd : Fd} (isBusy : busy t) (notFresh : (G t).fresh ≠ some f)
    (mine : 1 ≤ (G t).refs f) (child : (G t).child = some c) (free : c.ofile fd = none) :
    Accord (s.setProc c.np { s.proc c.np with ofile := update (s.proc c.np).ofile fd (some f) })
      (update G t ((G t).next (.childFd c.np fd f) ())) busy := by
  have other := h.procs.not_child isBusy child
  obtain ⟨status, notGiven, descriptors, cwd⟩ := h.procs.child t c child
  have owner : 1 ≤ fileOwns s G t f := (h.owns_eq isBusy f).symm ▸ mine
  constructor
  case procs =>
    refine h.procs.fill (c := { c with ofile := update c.ofile fd (some f) }) ?_ setProc_view ?_ ?_ ?_ ?_ ?_ ?_ rfl
    · rw [status]
      decide
    · rw [setProc_self]
      exact status
    · rw [setProc_self]
      exact ⟨notGiven, notGiven⟩
    · rw [setProc_self, descriptors]
    · rw [setProc_self]
      exact cwd
    · simp only [Own.next, child, Option.map_some]
    · exact fun r c' self isChild same => self (h.procs.parent r t c' c isChild child same)
  case files =>
    -- the child gets the reference that its parent had
    refine h.files.shift (e := s.file f) (k := fun r => (if r = c.np then 1 else 0) + if r = t then -1 else 0)
      (update_eq_self f s.file).symm (fun r x => ?_) ?_ (fun r => ?_) (h.files.closed f) fun r x isFresh => .inl ?_
    · unfold fileOwns
      by_cases isChild : r = c.np
      · subst isChild
        rw [setProc_self, update_of_ne other, if_pos rfl, if_neg other]
        have swap := hits_update (s.proc c.np).ofile fd (some f) x
        rw [descriptors, free] at swap
        simp only [reduceCtorEq, if_false, Option.some.injEq] at swap
        simp only [descriptors, add_zero, eq_comm (a := x)]
        omega
      · rw [Shared.setProc, if_neg isChild, zero_add]
        simp only [update_of_ne isChild]
        by_cases self : r = t
        · subst self
          by_cases same : x = f <;> simp [Own.next, Own.addFile, same, add_assoc]
        · simp [self]
    · simp only [Finset.sum_add_distrib, Finset.sum_ite_eq', Finset.mem_univ, if_true]
      omega
    · have before := h.files.nonneg r f
      by_cases self : r = t
      · subst self
        simp only [other.symm, if_true, if_false]
        omega
      · rw [if_neg self]
        split_ifs <;> omega
    · have before : (G r).fresh = some x :=
        field_update (g := (G t).next (.childFd c.np fd f) ()) Own.fresh rfl r ▸ isFresh
      refine ⟨?_, before⟩
      rintro rfl
      exact notFresh (h.files.fresh_only before owner ▸ before)
  case inodes => exact h.inodes.setProc rfl rfl rfl (field_update Own.stake rfl)

theorem Accord.childCwd (isBusy : busy t) (spare : (G t).Spare ip)
    (child : (G t).child = some c) (noCwd : c.cwd = false) :
    Accord ((s.setProc t ((s.proc t).drop ip)).setProc c.np
      { (s.setProc t ((s.proc t).drop ip)).proc c.np with cwd := some ip })
      (update G t ((G t).next (.childCwd c.np ip) ())) busy := by
  have other := h.procs.not_child isBusy child
  obtain ⟨status, notGiven, descriptors, cwd⟩ := h.procs.child t c child
  have mine : 0 < (s.proc t).held ip := by rw [h.inodes.held]; exact spare.held
  have before : (s.setProc t ((s.proc t).drop ip)).proc c.np = s.proc c.np := update_of_ne other ..
  rw [before]
  constructor
  case procs =>
    refine h.procs.fill (c := { c with cwd := true }) ?_ (fun r old => ?_) ?_ ?_ ?_ ?_ ?_ ?_ rfl
    · rw [status]
      decide
    · exact (setProc_view r old).trans (proc_update (p := (s.proc t).drop ip) Proc.view rfl r)
    · rw [setProc_self]
      exact status
    · rw [setProc_self]
      exact ⟨notGiven, notGiven⟩
    · rw [setProc_self]
      exact descriptors
    · exact fun noCwd => by cases noCwd
    · simp only [Own.next, child, Option.map_some]
    · exact fun r c' self isChild same => self (h.procs.parent r t c' c isChild child same)
  case files =>
    refine h.files.frame rfl (fun r => ?_) (field_update Own.files rfl) (field_update Own.fresh rfl)
    exact (proc_update Proc.ofile (by rw [before]) r).trans (proc_update (p := (s.proc t).drop ip) Proc.ofile rfl r)
  case inodes =>
    refine h.inodes.shift rfl rfl (fun r => ?_) (fun y => ?_) (field_update Own.mode rfl)
      (locked_drop h.inodes rfl spare.unlocked) (known_update h.inodes fun y => known_drop h.inodes) fun y => ?_
    · rw [proc_update Proc.held (by rw [before])]
      refine held_update h.inodes.held ?_ r
      simp only [Proc.drop, Own.next, Own.drop, h.inodes.held t]
    · have first := refs_setProc s t ((s.proc t).drop ip) y
      have second := refs_setProc (s.setProc t ((s.proc t).drop ip)) c.np { s.proc c.np with cwd := some ip } y
      have dropped := procRefs_drop mine y
      have old : procRefs (s.proc c.np) y = (s.proc c.np).held y := by simp [procRefs, cwdRefs, cwd noCwd]
      have new : procRefs { s.proc c.np with cwd := some ip } y = (s.proc c.np).held y + if y = ip then 1 else 0 := by
        simp [procRefs, cwdRefs, notGiven, eq_comm]
      rw [before] at second
      omega
    · refine claimed_of (fun reached => ?_) fun member => .inr ⟨t, member.1⟩
      obtain first | ⟨new, _⟩ := refers_cwd reached
      · exact .inl ((refers_setProc (p := (s.proc t).drop ip) rfl rfl).mp first)
      · exact .inr ⟨t, Option.some.inj new ▸ spare.alive⟩

end

end Procs

/-- What an operation of `t` gives: its result is as promised, and the processes that are still live are in accord. -/
def Kept (G : Fin n → Own n) (busy : Fin n → Prop) (t : Fin n) (s' : Shared n) (o : Op n) (r : Res o) : Prop :=
  (G t).holds o r ∧ Accord s' (update G t ((G t).next o r)) fun r => busy r ∧ (s'.proc r).status = .live

theorem Accord.kept {o : Op n} {r : Res o}
    (h : Accord s' (update G t ((G t).next o r)) busy) (holds : (G t).holds o r) :
    Kept G busy t s' o r :=
  ⟨holds, h.mono fun _ both => both.1⟩

theorem Accord.same {o : Op n} {r : Res o} (h : Accord s' G busy)
    (holds : (G t).holds o r) (next : (G t).next o r = G t) :
    Kept G busy t s' o r := by
  refine Accord.kept ?_ holds
  rw [next, update_eq_self]
  exact h

section
variable (h : Accord s G busy) (isBusy : busy t) {c : Choice n}
include h

theorem Accord.act_getRef (pre : (G t).pre (.getRef ip)) : Kept G busy t s (.getRef ip) (s.inode ip).ref := by
  have least := h.inodes.held_le t ip
  by_cases one : (s.inode ip).ref = 1
  · refine Accord.kept ?_ least
    simp only [Own.next, if_pos one]
    exact h.getRef pre one
  · exact h.same least (if_neg one)

include isBusy

theorem Accord.act_filealloc {r : Option File} (action : act s t .filealloc c = some (s', r)) :
    Kept G busy t s' .filealloc r := by
  simp only [InodeCache.act] at action
  split at action
  case h_1 f found =>
    cases action
    have closed : (s.file f).ref = 0 := by simpa using List.find?_some found
    obtain ⟨none, after⟩ := h.filealloc isBusy closed
    exact after.kept fun x same => Option.some.inj same ▸ none
  case h_2 =>
    cases action
    exact h.same (by rintro _ ⟨⟩) rfl

theorem Accord.act_fileclose {r : Option Slot} (pre : (G t).pre (.fileclose f))
    (action : act s t (.fileclose f) c = some (s', r)) :
    Kept G busy t s' (.fileclose f) r := by
  obtain ⟨_, rest⟩ := Option.ite_none_left_eq_some.mp action
  split_ifs at rest with more
  · cases rest
    exact (h.filecloseMore isBusy pre more).kept fun _ => rfl
  have last : (s.file f).ref = 1 := by omega
  split at rest
  case h_1 ip inode =>
    cases rest
    refine (h.filecloseLast isBusy pre last inode).kept fun fresh => ?_
    rw [(h.files.fresh t f fresh).1] at inode
    cases inode
  case h_2 none =>
    cases rest
    exact (h.filecloseNone isBusy pre last none).kept fun _ => rfl

theorem Accord.act_fdalloc {r : Option Fd} (action : act s t (.fdalloc f) c = some (s', r)) :
    Kept G busy t s' (.fdalloc f) r := by
  simp only [InodeCache.act] at action
  split at action
  case h_1 fd found =>
    cases action
    have free : (s.proc t).ofile fd = none := by simpa using List.find?_some found
    refine (h.fdalloc isBusy free).kept fun x same => ?_
    rw [← Option.some.inj same, ← h.procs.ofile t isBusy]
    exact free
  case h_2 =>
    cases action
    exact h.same (by rintro _ ⟨⟩) rfl

theorem Accord.act_zombie (pre : (G t).pre .zombie) :
    Kept G busy t (s.setProc t { s.proc t with status := .zombie }) .zombie () := by
  refine ⟨trivial, ?_⟩
  simp only [Own.next]
  rw [update_eq_self]
  refine (h.zombie isBusy pre.1 pre.2.1 pre.2.2).mono ?_
  rintro r ⟨busyR, live⟩
  refine ⟨busyR, ?_⟩
  rintro rfl
  simp [Shared.setProc] at live

theorem Accord.act {o : Op n} {r : Res o} (pre : (G t).pre o) (action : act s t o c = some (s', r)) :
    Kept G busy t s' o r := by
  cases o with
  | iget =>
    obtain ⟨⟨u, ip⟩, found, same⟩ := Option.map_eq_some_iff.mp action
    cases same
    exact (h.iget found).kept trivial
  | idupCwd =>
    simp only [InodeCache.act] at action
    split at action
    case h_1 ip cwd =>
      cases action
      exact (h.idupCwd cwd pre).kept trivial
    case h_2 => cases action
  | checkRef =>
    obtain ⟨_, same⟩ := Option.ite_none_right_eq_some.mp action
    cases same
    exact h.same trivial rfl
  | acquiresleep =>
    obtain ⟨free, same⟩ := Option.ite_none_right_eq_some.mp action
    cases same
    obtain ⟨holds, after⟩ := h.acquiresleep pre free
    exact after.kept holds
  | releasesleep =>
    obtain ⟨lock, same⟩ := Option.ite_none_right_eq_some.mp action
    cases same
    exact (h.releasesleep lock pre).kept trivial
  | load =>
    obtain ⟨used, same⟩ := Option.ite_none_right_eq_some.mp action
    cases same
    exact (h.load pre used).kept trivial
  | truncate ip =>
    cases action
    have erased := h.doomed (x := { s.inode ip with type := .none }) rfl rfl rfl pre (.inl rfl)
    rw [Own.setMode_eq_self pre] at erased
    exact erased.kept trivial
  | takeDinode =>
    simp only [InodeCache.act] at action
    split at action
    case h_1 inum _ =>
      obtain ⟨_, found⟩ := Option.ite_none_right_eq_some.mp action
      cases found
      exact Accord.same (h.onDisk (h.inodes.allocate pre)) trivial rfl
    case h_2 => cases action
  | filedup f =>
    obtain ⟨«open», same⟩ := Option.ite_none_right_eq_some.mp action
    cases same
    exact (h.filedup isBusy pre.1 pre.2 «open»).kept trivial
  | handCwd =>
    simp only [InodeCache.act] at action
    split at action
    case h_1 ip cwd =>
      cases action
      exact (h.handCwd isBusy pre cwd).kept trivial
    case h_2 => cases action
  | allocproc =>
    simp only [InodeCache.act] at action
    split_ifs at action with found unused <;> cases action
    · exact (h.allocproc unused).kept trivial
    · exact h.same trivial rfl
  | childFd =>
    cases action
    obtain ⟨notFresh, mine, child, isChild, rfl, free⟩ := pre
    exact (h.childFd isBusy notFresh mine isChild free).kept trivial
  | childCwd =>
    cases action
    obtain ⟨child, isChild, rfl, noCwd, spare⟩ := pre
    exact (h.childCwd isBusy spare isChild noCwd).kept trivial
  | childRun =>
    cases action
    obtain ⟨_, isChild, rfl, _⟩ := pre
    exact (h.childRun isChild).kept trivial
  | filealloc => exact h.act_filealloc isBusy action
  | fileclose => exact h.act_fileclose isBusy pre action
  | fdalloc => exact h.act_fdalloc isBusy action
  | lookup | isdirempty =>
    cases action
    exact h.same trivial rfl
  | getFd fd =>
    cases action
    exact h.same (congrFun (h.procs.ofile t isBusy) fd) rfl
  | getInode =>
    cases action
    exact (h.getInode pre).kept trivial
  | setNlink =>
    cases action
    exact (h.setNlink pre).same trivial rfl
  | iupdate =>
    cases action
    exact Accord.same (h.onDisk (h.inodes.write pre)) trivial rfl
  | getRef =>
    cases action
    exact h.act_getRef pre
  | invalidate =>
    cases action
    exact Accord.kept (h.doomed rfl rfl rfl pre (.inr ⟨rfl, rfl⟩)) trivial
  | decRef =>
    cases action
    exact (h.decRef pre.1 pre.2).kept trivial
  | setIp =>
    cases action
    exact (h.setIp pre.1 pre.2).kept trivial
  | clearFd fd =>
    cases action
    exact (h.clearFd isBusy fd).kept trivial
  | setCwd =>
    cases action
    exact (h.setCwd isBusy pre.1 pre.2).kept trivial
  | clearCwd =>
    cases action
    exact (h.clearCwd isBusy pre).kept trivial
  | zombie =>
    cases action
    exact h.act_zombie isBusy pre
  | panic => cases action

end

theorem Accord.enter (h : Accord s G busy) (live : (s.proc t).status = .live) :
    Accord s (update G t { G t with ofile := (s.proc t).ofile, gone := false }) fun r => r = t ∨ busy r where
  inodes := h.inodes.still rfl rfl (fun _ => rfl) (fun _ => rfl) (field_update Own.stake rfl) fun _ => id
  files := h.files.frame rfl (fun _ => rfl) (field_update Own.files rfl) (field_update Own.fresh rfl)
  procs := by
    have children := field_update (G := G) (t := t)
      (g := { G t with ofile := (s.proc t).ofile, gone := false }) Own.child rfl
    refine h.procs.change (x := t) (fun _ _ => rfl) (fun r other => by rw [update_of_ne other])
      (fun r other busyR => busyR.resolve_left other) ?_ (fun _ => ?_) (h.procs.empty t) (fun r c isChild => ?_) ?_
    · rw [update_self]
      exact h.procs.given t
    · rw [update_self]
      exact ⟨rfl, fun (isGone : false = true) => (nomatch isGone), live⟩
    · rw [children] at isChild
      refine .inl ⟨?_, isChild⟩
      rintro rfl
      rw [(h.procs.child r c isChild).1] at live
      cases live
    · simp only [children]
      exact h.procs.parent

theorem Accord.reap (h : Accord s G busy) (dead : (s.proc t).status = .zombie) :
    Accord (s.setProc t { s.proc t with status := .unused }) G busy := by
  refine h.restatus (fun _ => rfl) (fun _ => rfl) (fun _ => rfl)
    (h.procs.change setProc_view (fun r _ => rfl) (fun r _ => id) ?_
    (fun isBusy => ?_) (fun _ => ?_) (fun r c child => .inl ⟨?_, child⟩) h.procs.parent)
  · rw [setProc_self]
    exact h.procs.given t
  · rw [h.procs.live t isBusy] at dead
    cases dead
  · rw [setProc_self]
    exact h.procs.empty t (.inr dead)
  · rintro rfl
    have := (h.procs.child r c child).1
    rw [dead] at this
    cases this

theorem Accord.status (h : Accord s G busy) {o : Op n} {c : Choice n} {res : Res o} (pre : (G t).pre o)
    (action : InodeCache.act s t o c = some (s', res)) (r : Fin n)
    (old : (s.proc r).status ≠ .unused ∧ (s.proc r).status ≠ .embryo) :
    (s'.proc r).status = (s.proc r).status ∨ r = t ∧ (s'.proc r).status = .zombie := by
  have keep {u : Shared n} {p : Proc} (same : p.status = (u.proc t).status) :
      ((u.setProc t p).proc r).status = (u.proc r).status := proc_update Proc.status same r
  cases o with
  | iget =>
    obtain ⟨⟨u, ip⟩, found, same⟩ := Option.map_eq_some_iff.mp action
    obtain ⟨rfl, _⟩ := Prod.mk.inj same
    have proc : u.proc = s.proc := by
      unfold igetSlot at found
      split at found
      · cases found
        rfl
      split at found
      · cases found
        rfl
      · cases found
    rw [← proc]
    exact .inl (keep rfl)
  | takeDinode =>
    simp only [InodeCache.act] at action
    split at action
    · obtain ⟨_, same⟩ := Option.ite_none_right_eq_some.mp action
      cases same
      exact .inl rfl
    · cases action
  | idupCwd | handCwd | filealloc | fdalloc f =>
    simp only [InodeCache.act] at action
    split at action <;> cases action
    all_goals first | exact .inl rfl | exact .inl (keep rfl)
  | fileclose f =>
    obtain ⟨_, rest⟩ := Option.ite_none_left_eq_some.mp action
    split_ifs at rest
    · cases rest
      exact .inl rfl
    · split at rest <;> cases rest
      · exact .inl (keep (u := s.setFile f ⟨0, none⟩) rfl)
      · exact .inl rfl
  | allocproc =>
    simp only [InodeCache.act] at action
    split_ifs at action with found unused
    · cases action
      have ne : r ≠ c.np := by
        rintro rfl
        exact old.1 unused
      exact .inl (by simp only [Shared.setProc, update_of_ne ne])
    · cases action
      exact .inl rfl
  | childFd np fd f =>
    cases action
    exact .inl (proc_update (p := { s.proc np with ofile := update (s.proc np).ofile fd (some f) }) Proc.status rfl r)
  | childCwd np ip =>
    cases action
    refine .inl
      ((proc_update (p := { (s.setProc t ((s.proc t).drop ip)).proc np with cwd := some ip }) Proc.status rfl r).trans
        ?_)
    exact keep rfl
  | childRun np =>
    cases action
    obtain ⟨child, isChild, rfl, _⟩ := pre
    have ne : r ≠ child.np := by
      rintro rfl
      exact old.2 (h.procs.child t child isChild).1
    exact .inl (by simp only [Shared.setProc, update_of_ne ne])
  | checkRef | acquiresleep | releasesleep | load | filedup f =>
    obtain ⟨_, same⟩ := Option.ite_none_right_eq_some.mp action
    cases same
    exact .inl rfl
  | getInode | setNlink _ f | iupdate | getRef | truncate | invalidate | lookup | isdirempty | getFd =>
    cases action
    exact .inl rfl
  | decRef =>
    cases action
    exact .inl (keep (u := s.setInode _ _) rfl)
  | setIp f =>
    cases action
    exact .inl (keep (u := s.setFile _ _) rfl)
  | clearFd | setCwd | clearCwd =>
    cases action
    exact .inl (keep rfl)
  | zombie =>
    cases action
    by_cases self : r = t
    · subst self
      exact .inr ⟨rfl, by simp [Shared.setProc]⟩
    · exact .inl (by simp only [Shared.setProc, update_of_ne self])
  | panic => cases action

end Accord

def Sound (s : State n) : Prop :=
  ∃ G, Obeys rules Own.Done s.prog G ∧
    (∀ t, (s.shared.proc t).status = .unused ∨ (s.shared.proc t).status = .embryo → (s.prog t).returned = true) ∧
    Accord s.shared G fun t => (s.prog t).returned = false ∧ (s.shared.proc t).status = .live

section Run
variable {initproc : Fin n} {s u : State n} {e : Action n}

theorem Sound.step (h : Sound s) (action : step initproc s e = some u) : Sound u := by
  obtain ⟨G, obeys, awake, accord⟩ := h
  cases e with
  | call t c =>
    obtain ⟨⟨live, idle⟩, same⟩ := Option.ite_none_right_eq_some.mp action
    cases same
    have done : Own.Done { G t with ofile := (s.shared.proc t).ofile, gone := false } :=
      (obeys.ended idle).of rfl rfl rfl rfl rfl rfl
    refine ⟨_, obeys.set (t := t) ?_, fun r asleep => ?_, (accord.enter live).mono fun r ⟨busy, isLive⟩ => ?_⟩
    · rw [keeps_bind]
      exact (call_keeps c done).mono fun _ _ done => done
    · have other : r ≠ t := by
        rintro rfl
        rw [live] at asleep
        simp at asleep
      simp only [update_of_ne other]
      exact awake r asleep
    · by_cases self : r = t
      · exact .inl self
      · simp only [update_of_ne self] at busy
        exact .inr ⟨busy, isLive⟩
  | go t c =>
    obtain ⟨live, rest⟩ := Option.ite_none_right_eq_some.mp action
    obtain ⟨⟨shared, prog⟩, moved, same⟩ := Option.map_eq_some_iff.mp rest
    obtain rfl := same
    obtain ⟨o, _, r, now, acted, rfl⟩ := advance_eq_some moved
    obtain ⟨pre, onward⟩ := obeys.now now
    have busy : (s.prog t).returned = false := by rw [now]; rfl
    obtain ⟨holds, after⟩ := accord.act ⟨busy, live⟩ pre acted
    have status := accord.status pre acted
    refine ⟨_, onward r holds, fun r' asleep => ?_, after.mono fun r' ⟨busy', live'⟩ => ?_⟩
    · have before : (s.shared.proc r').status = .unused ∨ (s.shared.proc r').status = .embryo := by
        by_contra notAsleep
        obtain same | ⟨_, dead⟩ := status r' (not_or.mp notAsleep)
        · exact notAsleep (same ▸ asleep)
        · rw [dead] at asleep
          simp at asleep
      have other : r' ≠ t := by
        rintro rfl
        rw [live] at before
        simp at before
      simp only [update_of_ne other]
      exact awake r' before
    · by_cases self : r' = t
      · exact ⟨self ▸ ⟨busy, live⟩, live'⟩
      simp only [update_of_ne self] at busy'
      refine ⟨⟨busy', ?_⟩, live'⟩
      have awakened : ¬((s.shared.proc r').status = .unused ∨ (s.shared.proc r').status = .embryo) := by
        intro asleep
        rw [awake r' asleep] at busy'
        cases busy'
      obtain same | ⟨here, _⟩ := status r' (not_or.mp awakened)
      · exact same ▸ live'
      · exact absurd here self
  | reap t =>
    obtain ⟨⟨dead, idle⟩, same⟩ := Option.ite_none_right_eq_some.mp action
    cases same
    refine ⟨G, obeys, fun r asleep => ?_, (accord.reap dead).mono fun r ⟨busy, live⟩ => ⟨busy, ?_⟩⟩
    · by_cases self : r = t
      · exact self ▸ idle
      · simp only [Shared.setProc, update_of_ne self] at asleep
        exact awake r asleep
    by_cases self : r = t
    · subst self
      simp [Shared.setProc] at live
    · simpa [Shared.setProc, self] using live

end Run

end Xv6.InodeCache
