import Xv6.Kernel.InodeCache
import Xv6.Library.Tally

namespace Xv6.InodeCache
open Xv6.Library Xv6.Directory
open Function (update_self update update_of_ne update_comm)
open Xv6.Namespace (FileType File Fd O_CREATE)

variable {n : Nat} {dp : Slot} {path : Path} {f : File} {fd : Fd} {fds : List Fd} {initproc : Fin n}

inductive Mode where
  | free
  | taken
  | loaded
  -- `iput` has seen its own reference to be the only one
  | doomed
  | cleared
  deriving DecidableEq

structure Child (n : Nat) where
  np : Fin n
  ofile : Fd → Option File
  cwd : Bool

structure Own (n : Nat) where
  held : Slot → Nat
  mode : Slot → Mode
  alive : Set Slot
  given : Bool
  gone : Bool
  ofile : Fd → Option File
  files : File → Int
  fresh : Option File
  child : Option (Child n)

namespace Own

def refs (g : Own n) (f : File) : Int := hits g.ofile f + g.files f

def take (g : Own n) (ip : Slot) : Own n := { g with held := update g.held ip (g.held ip + 1) }

def drop (g : Own n) (ip : Slot) : Own n :=
  { g with held := update g.held ip (g.held ip - 1), alive := {x ∈ g.alive | x = ip → 2 ≤ g.held ip} }

def setMode (g : Own n) (ip : Slot) (m : Mode) : Own n := { g with mode := update g.mode ip m }

def setAlive (g : Own n) (A : Set Slot) : Own n := { g with alive := A }

def know (g : Own n) (ip : Slot) : Own n := g.setAlive (insert ip g.alive)

def addFile (g : Own n) (f : File) (k : Int) : Own n := { g with files := update g.files f (g.files f + k) }

structure Spare (g : Own n) (ip : Slot) : Prop where
  held : 0 < g.held ip
  alive : ip ∈ g.alive
  unlocked : g.mode ip = .free

structure Done (g : Own n) : Prop where
  held : ∀ ip, g.held ip = 0
  mode : ∀ ip, g.mode ip = .free
  given : g.given = false
  files : ∀ f, g.files f = 0
  fresh : g.fresh = none
  child : g.child = none

def pre (g : Own n) : Op n → Prop
  | .iget _ | .checkRef _ | .lookup _ _ | .isdirempty _ | .getFd _ | .clearFd _ | .fdalloc _ | .panic => True
  | .idupCwd | .handCwd => g.given = false
  | .acquiresleep ip => 0 < g.held ip
  | .releasesleep ip => g.mode ip ≠ .doomed
  | .getInode ip | .load ip => g.mode ip = .taken
  | .setNlink ip _ | .getRef ip => g.mode ip = .loaded
  | .iupdate ip => g.mode ip = .loaded ∨ g.mode ip = .doomed
  | .truncate ip | .invalidate ip => g.mode ip = .doomed
  | .decRef ip => 0 < g.held ip ∧ g.mode ip = .free
  | .takeDinode type => type ≠ .none
  | .filealloc => g.fresh = none
  | .filedup f => 1 ≤ g.refs f ∧ g.fresh ≠ some f
  | .fileclose f => 1 ≤ g.refs f
  | .setIp f ip => g.fresh = some f ∧ g.Spare ip
  | .setCwd ip => g.given = true ∧ g.Spare ip
  | .clearCwd => g.given = true
  | .allocproc => g.child = none
  | .childFd np fd f => g.fresh ≠ some f ∧ 1 ≤ g.refs f ∧ ∃ c, g.child = some c ∧ c.np = np ∧ c.ofile fd = none
  | .childCwd np ip => ∃ c, g.child = some c ∧ c.np = np ∧ c.cwd = false ∧ g.Spare ip
  | .childRun np => ∃ c, g.child = some c ∧ c.np = np ∧ c.cwd = true
  | .zombie => (∀ fd, g.ofile fd = none) ∧ g.gone = true ∧ g.given = false

def holds (g : Own n) : (o : Op n) → Res o → Prop
  | .acquiresleep ip, _ => g.mode ip = .free
  | .getRef ip, r => g.held ip ≤ r
  | .filealloc, r => ∀ f, r = some f → g.refs f = 0
  | .fileclose f, r => g.fresh = some f → r = none
  | .getFd fd, r => r = g.ofile fd
  | .fdalloc _, r => ∀ fd, r = some fd → g.ofile fd = none
  | .panic, _ => False
  | .iget _, _ | .idupCwd, _ | .checkRef _, _ | .releasesleep _, _ | .getInode _, _ | .load _, _ | .setNlink _ _, _
  | .iupdate _, _ | .truncate _, _ | .invalidate _, _ | .decRef _, _ | .takeDinode _, _ | .lookup _ _, _
  | .isdirempty _, _
  | .filedup _, _ | .setIp _ _, _ | .clearFd _, _ | .handCwd, _ | .setCwd _, _ | .clearCwd, _ | .allocproc, _
  | .childFd _ _ _, _ | .childCwd _ _, _ | .childRun _, _ | .zombie, _ => True

def next (g : Own n) : (o : Op n) → Res o → Own n
  | .iget _, ip => g.take ip
  | .idupCwd, ip => (g.take ip).know ip
  | .acquiresleep ip, _ => g.setMode ip .taken
  | .releasesleep ip, _ => g.setMode ip .free
  | .getInode ip, r => if r.1 then (g.setMode ip .loaded).know ip else g
  | .load ip, _ => (g.setMode ip .loaded).know ip
  | .getRef ip, r => if r = 1 then (g.setMode ip .doomed).setAlive (g.alive \ {ip}) else g
  | .invalidate ip, _ => g.setMode ip .cleared
  | .decRef ip, _ => g.drop ip
  | .filealloc, r => r.elim g fun f => { g.addFile f 1 with fresh := some f }
  | .filedup f, _ => g.addFile f 1
  | .fileclose f, r =>
    let g' := { g.addFile f (-1) with fresh := if g.fresh = some f then none else g.fresh }
    r.elim g' g'.take
  | .setIp _ ip, _ => { g.drop ip with fresh := none }
  | .clearFd fd, _ =>
    { g with
      ofile := update g.ofile fd none
      files := fun f => g.files f + if g.ofile fd = some f then 1 else 0 }
  | .fdalloc f, r => r.elim g fun fd => { g.addFile f (-1) with ofile := update g.ofile fd (some f) }
  | .handCwd, ip => { g.take ip with given := true }
  | .setCwd ip, _ => { g.drop ip with given := false, gone := false }
  | .clearCwd, _ => { g with given := false, gone := true }
  | .allocproc, r => r.elim g fun np => { g with child := some ⟨np, fun _ => none, false⟩ }
  | .childFd _ fd f, _ =>
    { g.addFile f (-1) with child := g.child.map fun c => { c with ofile := update c.ofile fd (some f) } }
  | .childCwd _ ip, _ => { g.drop ip with child := g.child.map fun c => { c with cwd := true } }
  | .childRun _, _ => { g with child := none }
  | .checkRef _, _ | .setNlink _ _, _ | .iupdate _, _ | .truncate _, _ | .takeDinode _, _ | .lookup _ _, _
  | .isdirempty _, _
  | .getFd _, _ | .zombie, _ | .panic, _ => g

end Own

def rules : Rules (Own n) (Op n) Res := ⟨Own.pre, Own.holds, Own.next⟩

section Rules
variable {g g' : Own n} {ip : Slot} {m m' : Mode}

@[simp] theorem Own.setMode_setMode : (g.setMode ip m).setMode ip m' = g.setMode ip m' := by
  simp [Own.setMode]

theorem Own.setMode_eq_self (mode : g.mode ip = m) : g.setMode ip m = g := by
  simp [Own.setMode, ← mode]

theorem ilock_keeps (held : 0 < g.held ip) :
    Keeps rules (ilock ip) g fun _ g' => g.mode ip = .free ∧ g' = (g.setMode ip .loaded).know ip := by
  unfold ilock
  simp only [keeps_bind, keeps_perform]
  refine ⟨trivial, fun _ _ => ⟨held, fun _ free => ⟨update_self .., fun r _ => ?_⟩⟩⟩
  obtain ⟨valid, d⟩ := r
  cases valid with
  | true => exact ⟨free, by simp [rules, Own.next]⟩
  | false => exact ⟨update_self .., fun _ _ => ⟨free, by simp [rules, Own.next]⟩⟩

theorem iunlock_keeps (mode : g.mode ip ≠ .doomed) :
    Keeps rules (iunlock ip) g fun _ g' => g' = g.setMode ip .free := by
  unfold iunlock
  simp only [keeps_bind, keeps_perform]
  exact ⟨trivial, fun _ _ => ⟨mode, fun _ _ => rfl⟩⟩

def Own.Dropped (g : Own n) (ip : Slot) (g' : Own n) : Prop := ∃ A, (g.drop ip).alive ⊆ A ∧ g' = (g.drop ip).setAlive A

theorem release_keeps {A : Set Slot} (same : g' = (g.setMode ip m).setAlive A) (free : g.mode ip = .free)
    (held : 0 < g.held ip) (mode : m ≠ .doomed) (alive : ∀ x ∈ g.alive, (x = ip → 2 ≤ g.held ip) → x ∈ A) :
    Keeps rules (do perform (.releasesleep ip); perform (.decRef ip)) g'
      fun _ g' => g.mode ip = .free ∧ g.Dropped ip g' := by
  subst same
  rw [keeps_bind, keeps_perform]
  constructor
  · change update g.mode ip m ip ≠ .doomed
    rwa [update_self]
  intro _ _
  rw [keeps_perform]
  refine ⟨⟨held, update_self ..⟩, fun _ _ => ⟨free, {x ∈ A | x = ip → 2 ≤ g.held ip}, ?_, ?_⟩⟩
  · exact fun x ⟨member, further⟩ => ⟨alive x member further, further⟩
  · simp [rules, Own.next, Own.drop, Own.setMode, Own.setAlive, ← free]

theorem iput_keeps (held : 0 < g.held ip) :
    Keeps rules (iput ip) g fun _ g' => g.mode ip = .free ∧ g.Dropped ip g' := by
  unfold iput
  rw [keeps_op]
  refine ⟨held, fun _ free => ?_⟩
  rw [keeps_op]
  refine ⟨update_self .., fun r _ => ?_⟩
  obtain ⟨valid, d⟩ := r
  rw [keeps_bind]
  cases valid with
  | false => exact release_keeps (m := .taken) (A := g.alive) rfl free held (by decide) fun x member _ => member
  | true =>
    have kept : ∀ x ∈ g.alive, (x = ip → 2 ≤ g.held ip) → x ∈ insert ip g.alive := fun x member _ => .inr member
    have locked : rules.next (rules.next g (.acquiresleep ip) ()) (.getInode ip) (true, d) =
        (g.setMode ip .loaded).setAlive (insert ip g.alive) := by
      simp [rules, Own.next, Own.know, Own.setMode, Own.setAlive]
    refine Keeps.ite (fun _ => ?_) fun _ => release_keeps locked free held (by decide) kept
    unfold ifree
    rw [locked, keeps_op]
    refine ⟨update_self .., fun r atLeast => Keeps.ite (fun only => ?_) fun more => ?_⟩
    · -- the reference is the only one, and so no inode is known to be in use by it any more
      have doomed : rules.next ((g.setMode ip .loaded).setAlive (insert ip g.alive)) (.getRef ip) r =
          (g.setMode ip .doomed).setAlive (insert ip g.alive \ {ip}) := by
        simp [rules, Own.next, only, Own.setMode, Own.setAlive]
      rw [doomed]
      have mode : ((g.setMode ip .doomed).setAlive (insert ip g.alive \ {ip})).mode ip = .doomed := update_self ..
      refine keeps_op.mpr
        ⟨mode, fun _ _ => keeps_op.mpr ⟨.inr mode, fun _ _ => keeps_perform.mpr ⟨mode, fun _ _ => ?_⟩⟩⟩
      refine release_keeps (m := .cleared) (A := insert ip g.alive \ {ip}) ?_ free held (by decide) ?_
      · simp [rules, Own.next, Own.setMode, Own.setAlive]
      refine fun x member further => ⟨.inr member, fun same => ?_⟩
      have two := further same
      have one : g.held ip ≤ 1 := only ▸ atLeast
      omega
    · refine release_keeps (m := .loaded) ?_ free held (by decide) kept
      simp [rules, Own.next, more]

variable {A : Set Slot} {x y : Slot}

theorem Own.take_comm : (g.take x).take y = (g.take y).take x := by
  by_cases same : x = y
  · rw [same]
  · simp only [Own.take, update_of_ne same, update_of_ne (Ne.symm same)]
    rw [update_comm same]

theorem iunlockput_keeps (same : g' = ((g.take ip).setMode ip .loaded).setAlive A) (free : g.mode ip = .free) :
    Keeps rules (iunlockput ip) g' fun _ g' => ∃ A', (∀ x ∈ A, x ≠ ip → x ∈ A') ∧ g' = g.setAlive A' := by
  subst same
  unfold iunlockput
  rw [keeps_bind]
  refine (iunlock_keeps ?_).mono fun _ g' same => ?_
  · change update g.mode ip .loaded ip ≠ .doomed
    rw [update_self]
    decide
  have back : g' = (g.take ip).setAlive A := by
    rw [same]
    simp [Own.setMode, Own.setAlive, Own.take, ← free]
  subst back
  refine (iput_keeps (show 0 < ((g.take ip).setAlive A).held ip from ?_)).mono fun _ _ ⟨_, A', keeps, same⟩ => ?_
  · change 0 < update g.held ip _ ip
    rw [update_self]
    exact Nat.succ_pos _
  · refine ⟨A', fun x member other => keeps ⟨member, fun same => absurd same other⟩, ?_⟩
    rw [same]
    simp [Own.drop, Own.take, Own.setAlive]

theorem dirlookup_keeps {name : Name} : Keeps rules (dirlookup dp name) g fun r g' => g' = r.elim g g.take := by
  unfold dirlookup
  refine keeps_op.mpr ⟨trivial, fun r _ => ?_⟩
  cases r with
  | none => exact rfl
  | some => exact keeps_op.mpr ⟨trivial, fun _ _ => rfl⟩

@[simp] theorem Own.held_take : (g.take x).held x = g.held x + 1 := update_self ..

def Found (g : Own n) (r : Option (Slot × Name)) (g' : Own n) : Prop :=
  ∃ A, g' = (r.elim g fun p => g.take p.1).setAlive A

theorem namexEnd_keeps {par : Bool} {name : Name} :
    Keeps rules (namexFrom.namexEnd par ip name) ((g.take ip).setAlive A) (Found g) := by
  unfold namexFrom.namexEnd
  refine Keeps.ite (fun _ => ?_) fun _ => ⟨A, rfl⟩
  rw [keeps_bind]
  refine (iput_keeps (by simp [Own.setAlive])).mono fun _ _ ⟨_, A', _, same⟩ => ⟨A', ?_⟩
  rw [same]
  simp [Own.drop, Own.take, Own.setAlive]

theorem namexFrom_keeps (par : Bool) (fuel : Nat) (name : Name) (path : Path) :
    Keeps rules (namexFrom par fuel ip name path) ((g.take ip).setAlive A) (Found g) := by
  induction fuel generalizing ip name path A with
  | zero => exact namexEnd_keeps
  | succ _ ih =>
    rw [namexFrom]
    cases elem : skipelem path with
    | none => exact namexEnd_keeps
    | some pair =>
      obtain ⟨_, _⟩ := pair
      simp only [keeps_bind]
      refine (ilock_keeps (by simp [Own.setAlive])).mono ?_
      rintro d g' ⟨free, same⟩
      replace free : g.mode ip = .free := free
      have locked : g' = ((g.take ip).setMode ip .loaded).setAlive (insert ip A) := same
      refine Keeps.ite (fun _ => ?_) fun _ => Keeps.ite (fun _ => ?_) fun _ => ?_
      · rw [keeps_bind]
        refine (iunlockput_keeps locked free).mono ?_
        rintro _ g' ⟨A', _, same⟩
        exact ⟨A', same⟩
      · rw [keeps_bind]
        subst locked
        refine (iunlock_keeps (by simp [Own.setAlive, Own.setMode])).mono fun _ g' same => ⟨insert ip A, ?_⟩
        rw [same]
        simp [Own.setAlive, Own.setMode, Own.take, ← free]
      · rw [keeps_bind]
        refine dirlookup_keeps.mono fun r g'' same => ?_
        cases r with
        | none =>
          rw [keeps_bind]
          refine (iunlockput_keeps (same.trans locked) free).mono ?_
          rintro _ g' ⟨A', _, same⟩
          exact ⟨A', same⟩
        | some next =>
          rw [keeps_bind]
          have both : g'' = (((g.take next).take ip).setMode ip .loaded).setAlive (insert ip A) := by
            rw [same, locked, Own.take_comm]
            rfl
          refine (iunlockput_keeps both free).mono ?_
          rintro _ _ ⟨_, _, same⟩
          subst same
          exact ih _ _

theorem namex_keeps {par : Bool} (given : g.given = false) : Keeps rules (namex path par) g (Found g) := by
  unfold namex namexStart
  rw [keeps_bind]
  refine Keeps.ite (fun _ => ?_) fun _ => ?_
  · exact keeps_perform.mpr ⟨trivial, fun ip _ => namexFrom_keeps (A := g.alive) par _ _ _⟩
  · exact keeps_perform.mpr ⟨given, fun ip _ => namexFrom_keeps (A := insert ip g.alive) par _ _ _⟩

def Locked (g : Own n) (r : Option Slot) (g' : Own n) : Prop :=
  match r with
  | none => ∃ A, g' = g.setAlive A
  | some ip => g.mode ip = .free ∧ ∃ A, ip ∈ A ∧ g' = ((g.take ip).setMode ip .loaded).setAlive A

theorem ilock_taken (same : g' = (g.take ip).setAlive A) :
    Keeps rules (ilock ip) g' fun _ g' => g.mode ip = .free ∧
      g' = ((g.take ip).setMode ip .loaded).setAlive (insert ip A) := by
  subst same
  exact ilock_keeps (by simp [Own.setAlive])

theorem dirlink_keeps {name : Name} : Keeps rules (dirlink dp name) g fun b g' => b = true → g' = g := by
  unfold dirlink
  rw [keeps_bind]
  refine dirlookup_keeps.mono fun r _ same => ?_
  cases r with
  | none => exact fun _ => same
  | some =>
    subst same
    rw [keeps_bind]
    exact (iput_keeps (by simp)).mono fun _ _ _ isTrue => nomatch isTrue

theorem Own.locked_comm (ne : x ≠ y) :
    (((g.take x).setMode x .loaded).take y).setMode y .loaded =
      (((g.take y).setMode y .loaded).take x).setMode x .loaded := by
  change (((g.take x).take y).setMode x .loaded).setMode y .loaded =
    (((g.take y).take x).setMode y .loaded).setMode x .loaded
  rw [Own.take_comm]
  simp only [Own.setMode, update_comm ne]

theorem create_keeps (given : g.given = false) : Keeps rules (create path) g (Locked g) := by
  unfold create
  rw [keeps_bind]
  refine (namex_keeps given).mono ?_
  rintro r _ ⟨A, same⟩
  cases r with
  | none => exact ⟨A, same⟩
  | some pair =>
    obtain ⟨dp, _⟩ := pair
    simp only [keeps_bind]
    refine (ilock_taken same).mono ?_
    rintro _ _ ⟨free, locked⟩
    refine dirlookup_keeps.mono fun r g₃ same => ?_
    cases r with
    | some ip =>
      have both : g₃ = (((g.take ip).take dp).setMode dp .loaded).setAlive (insert dp A) := by
        rw [same, locked, Own.take_comm]
        rfl
      simp only [keeps_bind]
      refine (iunlockput_keeps both free).mono ?_
      rintro _ _ ⟨A', _, same⟩
      refine (ilock_taken same).mono ?_
      rintro d g₅ ⟨free, locked⟩
      refine Keeps.ite (fun _ => ?_) fun _ => ?_
      · exact ⟨free, _, Set.mem_insert _ _, locked⟩
      rw [keeps_bind]
      refine (iunlockput_keeps locked free).mono ?_
      rintro _ g' ⟨A', _, same⟩
      exact ⟨A', same⟩
    | none =>
      simp only [keeps_bind]
      unfold ialloc
      refine keeps_op.mpr ⟨by simp [rules, Own.pre], fun _ _ => keeps_perform.mpr ⟨trivial, fun ip _ => ?_⟩⟩
      subst same locked
      refine (ilock_taken (g := (g.take dp).setMode dp .loaded) (A := insert dp A) rfl).mono ?_
      rintro _ g₅ ⟨free', locked⟩
      have ne : ip ≠ dp := by
        rintro rfl
        rw [show ((g.take ip).setMode ip .loaded).mode ip = .loaded from update_self ..] at free'
        cases free'
      replace free' : g.mode ip = .free := (update_of_ne ne ..).symm.trans free'
      have loaded : g₅.mode ip = .loaded := by
        rw [locked]
        exact update_self ..
      refine keeps_perform.mpr ⟨loaded, fun _ _ => keeps_perform.mpr ⟨.inl loaded, fun _ _ => ?_⟩⟩
      refine dirlink_keeps.mono fun b g₆ same => ?_
      cases b with
      | false => exact keeps_perform.mpr ⟨trivial, fun _ never => never.elim⟩
      | true =>
        have both : g₆ = ((((g.take ip).setMode ip .loaded).take dp).setMode dp .loaded).setAlive
          (insert ip (insert dp A)) := by
          rw [same rfl, ← Own.locked_comm ne.symm]
          exact locked
        have freeDp : ((g.take ip).setMode ip .loaded).mode dp = .free :=
          (update_of_ne ne.symm ..).trans free
        refine (iunlockput_keeps both freeDp).mono ?_
        rintro _ _ ⟨A', kept, same⟩
        exact ⟨free', A', kept ip (Set.mem_insert _ _) ne, same⟩

theorem fileclose_keeps (mine : 1 ≤ g.refs f) : Keeps rules (fileclose f) g fun _ g' =>
      ∃ A, g' = ({ g.addFile f (-1) with fresh := if g.fresh = some f then none else g.fresh } : Own n).setAlive A := by
  unfold fileclose
  refine keeps_op.mpr ⟨mine, fun r _ => ?_⟩
  cases r with
  | none => exact ⟨_, rfl⟩
  | some =>
    refine (iput_keeps (by simp [rules, Own.next])).mono fun _ _ ⟨_, A, _, same⟩ => ⟨A, ?_⟩
    rw [same]
    simp [rules, Own.next, Own.drop, Own.take, Own.setAlive]

theorem Own.Done.of (h : g.Done) (held : g'.held = g.held) (mode : g'.mode = g.mode) (given : g'.given = g.given)
    (files : g'.files = g.files) (fresh : g'.fresh = g.fresh) (child : g'.child = g.child) : g'.Done where
  held := held ▸ h.held
  mode := mode ▸ h.mode
  given := given ▸ h.given
  files := files ▸ h.files
  fresh := fresh ▸ h.fresh
  child := child ▸ h.child

theorem Own.Done.setAlive (h : g.Done) : (g.setAlive A).Done := h.of rfl rfl rfl rfl rfl rfl

theorem openFile_keeps (h : g.Done) (alive : ip ∈ A)
    (locked : g' = ((g.take ip).setMode ip .loaded).setAlive A) : Keeps rules (openFile ip) g' fun _ => Own.Done := by
  unfold openFile
  subst locked
  refine keeps_op.mpr ⟨h.fresh, fun r none => ?_⟩
  cases r with
  | none =>
    rw [keeps_bind]
    exact (iunlockput_keeps rfl (h.mode ip)).mono fun _ g' ⟨A', _, same⟩ => same ▸ h.setAlive
  | some f =>
    refine keeps_op.mpr ⟨trivial, fun r _ => ?_⟩
    have none : g.refs f = 0 := none f rfl
    cases r with
    | none =>
      rw [keeps_bind]
      refine (fileclose_keeps ?_).mono fun _ g' ⟨B, same⟩ => ?_
      · have count : Own.refs (rules.next (rules.next (((g.take ip).setMode ip .loaded).setAlive A) .filealloc (some f))
            (.fdalloc f) Option.none) f = g.refs f + 1 := by
          simp [rules, Own.next, Own.refs, Own.addFile, Own.setAlive, Own.setMode, Own.take, add_assoc]
        omega
      rw [keeps_bind]
      have back : g' = ((g.take ip).setMode ip .loaded).setAlive B := by
        rw [same]
        simp [rules, Own.next, Own.addFile, Own.setAlive, Own.setMode, Own.take, h.fresh]
      exact (iunlockput_keeps back (h.mode ip)).mono fun _ g' ⟨_, _, same⟩ => same ▸ h.setAlive
    | some =>
      simp only [keeps_bind]
      refine (iunlock_keeps ?_).mono fun _ _ same => ?_
      · simp [rules, Own.next, Own.addFile, Own.setAlive, Own.setMode, Own.take]
      refine keeps_perform.mpr ⟨⟨?_, ?_, ?_, ?_⟩, fun _ _ => ?_⟩
      all_goals subst same
      · rfl
      · simp [rules, Own.next, Own.addFile, Own.setAlive, Own.setMode, Own.take]
      · exact alive
      · exact update_self ..
      · refine h.of ?_ ?_ rfl ?_ h.fresh.symm rfl <;>
          simp [rules, Own.next, Own.addFile, Own.setAlive, Own.setMode, Own.take, Own.drop, ← h.mode ip]

theorem sys_open_keeps {omode : Nat} (h : g.Done) : Keeps rules (sys_open path omode) g fun _ => Own.Done := by
  unfold sys_open
  refine Keeps.ite (fun _ => ?_) fun _ => ?_
  · rw [keeps_bind]
    refine (create_keeps h.given).mono fun r g' found => ?_
    match r, found with
    | none, ⟨A, same⟩ => exact same ▸ h.setAlive
    | some ip, ⟨_, A, alive, same⟩ => exact openFile_keeps h alive same
  rw [keeps_bind]
  refine (namex_keeps h.given).mono fun r g' ⟨A, same⟩ => ?_
  match r, same with
  | none, same => exact same ▸ h.setAlive
  | some (ip, name), same =>
    rw [keeps_bind]
    refine (ilock_taken same).mono fun d _ ⟨free, locked⟩ => Keeps.ite (fun _ => ?_) fun _ => ?_
    · rw [keeps_bind]
      exact (iunlockput_keeps locked free).mono fun _ _ ⟨_, _, same⟩ => same ▸ h.setAlive
    · exact openFile_keeps h (Set.mem_insert _ _) locked

theorem Own.Done.refs (h : g.Done) (member : g.ofile fd = some f) : 1 ≤ g.refs f := by
  unfold Own.refs
  rw [h.files f, add_zero]
  exact hits_pos member

theorem Own.refs_clearFd : (Own.next g (.clearFd fd) ()).refs f = g.refs f := by
  have swap := hits_update g.ofile fd none f
  simp only [reduceCtorEq, if_false] at swap
  simp only [Own.refs, Own.next]
  omega

theorem Own.refs_fdalloc (free : g.ofile fd = none) : (Own.next g (.fdalloc f) (some fd)).refs f = g.refs f := by
  have swap := hits_update g.ofile fd (some f) f
  simp only [free, reduceCtorEq, if_false, if_true] at swap
  simp only [Own.refs, Own.next, Own.addFile, Option.elim, update_self]
  omega

theorem sys_close_keeps (h : g.Done) : Keeps rules (sys_close fd) g fun _ => Own.Done := by
  unfold sys_close
  refine keeps_op.mpr ⟨trivial, fun r (same : r = g.ofile fd) => ?_⟩
  cases r with
  | none => exact h
  | some f =>
    refine keeps_op.mpr ⟨trivial, fun _ _ => ?_⟩
    rw [keeps_bind]
    refine (fileclose_keeps ?_).mono fun _ _ ⟨A, same'⟩ => ?_
    · exact (h.refs same.symm).trans_eq Own.refs_clearFd.symm
    subst same'
    refine h.of rfl rfl rfl (funext fun e => ?_) (ite_eq_right_iff.mpr fun fresh => ?_) rfl
    · by_cases other : e = f
      · subst other
        simp [rules, Own.next, Own.addFile, Own.setAlive, ← same]
      · simp [rules, Own.next, Own.addFile, Own.setAlive, ← same, other, Ne.symm other]
    · exact absurd (h.fresh.symm.trans fresh) (by simp)

theorem sys_dup_keeps (h : g.Done) : Keeps rules (sys_dup fd) g fun _ => Own.Done := by
  unfold sys_dup
  refine keeps_op.mpr ⟨trivial, fun r (same : r = g.ofile fd) => ?_⟩
  cases r with
  | none => exact h
  | some f =>
    refine keeps_op.mpr ⟨trivial, fun r free => ?_⟩
    cases r with
    | none => exact h
    | some fd' =>
      refine keeps_op.mpr ⟨⟨?_, ?_⟩, fun _ _ => ?_⟩
      · exact (h.refs same.symm).trans_eq (Own.refs_fdalloc (free fd' rfl)).symm
      · exact fun fresh => absurd (h.fresh.symm.trans fresh) (by simp)
      · refine h.of rfl rfl rfl ?_ rfl rfl
        simp [rules, Own.next, Own.addFile]

theorem sys_chdir_keeps (h : g.Done) : Keeps rules (sys_chdir path) g fun _ => Own.Done := by
  unfold sys_chdir
  rw [keeps_bind]
  refine (namex_keeps h.given).mono ?_
  rintro r g' ⟨A, same⟩
  rcases r with _ | ⟨ip, name⟩
  · exact same ▸ h.setAlive
  rw [keeps_bind]
  refine (ilock_taken same).mono ?_
  rintro d _ ⟨free, locked⟩
  refine Keeps.ite (fun _ => ?_) fun _ => ?_
  · rw [keeps_bind]
    refine (iunlockput_keeps locked free).mono ?_
    rintro _ _ ⟨A', _, same⟩
    exact same ▸ h.setAlive
  simp only [keeps_bind]
  refine (iunlock_keeps ?_).mono fun _ g₃ same => ?_
  · simp [locked, Own.setAlive, Own.setMode]
  have unlocked : g₃ = (g.take ip).setAlive (insert ip A) := by
    rw [same, locked]
    simp [Own.setAlive, Own.setMode, Own.take, ← free]
  subst unlocked
  refine keeps_perform.mpr ⟨h.given, fun _ _ => ?_⟩
  refine (iput_keeps (by simp [rules, Own.next])).mono ?_
  rintro _ g₄ ⟨_, A', kept, same⟩
  have held : g₄.held = (g.take ip).held := by
    subst same
    simp [rules, Own.next, Own.drop, Own.setAlive, Own.take]
  have alive : ip ∈ A' := by
    refine kept ⟨Set.mem_insert _ _, fun same => ?_⟩
    subst same
    simp [rules, Own.next, Own.setAlive]
  refine keeps_perform.mpr
    ⟨⟨by rw [same]; rfl, ?_, by rw [same]; exact alive, by rw [same]; exact h.mode ip⟩, fun _ _ => ?_⟩
  · rw [held, Own.held_take]
    exact Nat.succ_pos _
  · refine h.of ?_ (by rw [same]; rfl) h.given.symm (by rw [same]; rfl) (by rw [same]; rfl) (by rw [same]; rfl)
    change update g₄.held ip (g₄.held ip - 1) = g.held
    simp [held, Own.take]

theorem unlink_bad_keeps (h : g.Done) (locked : g' = ((g.take dp).setMode dp .loaded).setAlive A) :
    Keeps rules (sys_unlink.bad dp) g' fun _ => Own.Done := by
  unfold sys_unlink.bad
  rw [keeps_bind]
  exact (iunlockput_keeps locked (h.mode dp)).mono fun _ _ ⟨_, _, same⟩ => same ▸ h.setAlive

theorem unlinkEntry_keeps {type : FileType} (h : g.Done) (ne : dp ≠ ip)
    (locked : g' = ((((g.take ip).setMode ip .loaded).take dp).setMode dp .loaded).setAlive A) :
    Keeps rules (unlinkEntry dp ip type) g' fun _ => Own.Done := by
  unfold unlinkEntry
  have loaded : g'.mode dp = .loaded := by
    rw [locked]
    exact update_self ..
  have tail : Keeps rules (do
      iunlockput dp
      perform (.setNlink ip (· - 1))
      perform (.iupdate ip)
      iunlockput ip
      return (0 : Int)) g' fun _ => Own.Done := by
    simp only [keeps_bind]
    refine (iunlockput_keeps locked ((update_of_ne ne ..).trans (h.mode dp))).mono ?_
    rintro _ g₂ ⟨A', _, same⟩
    have loaded : g₂.mode ip = .loaded := by
      rw [same]
      exact update_self ..
    refine keeps_perform.mpr ⟨loaded, fun _ _ => keeps_perform.mpr ⟨.inl loaded, fun _ _ => ?_⟩⟩
    refine (iunlockput_keeps same (h.mode ip)).mono ?_
    rintro _ _ ⟨_, _, same⟩
    exact same ▸ h.setAlive
  rw [keeps_bind]
  refine Keeps.ite (fun _ => ?_) fun _ => tail
  exact keeps_op.mpr ⟨loaded, fun _ _ => keeps_perform.mpr ⟨.inl loaded, fun _ _ => tail⟩⟩

theorem sys_unlink_keeps (h : g.Done) : Keeps rules (sys_unlink path) g fun _ => Own.Done := by
  unfold sys_unlink
  rw [keeps_bind]
  refine (namex_keeps h.given).mono fun r _ ⟨A, same⟩ => ?_
  match r, same with
  | none, same => exact same ▸ h.setAlive
  | some (dp, name), same =>
    rw [keeps_bind]
    refine (ilock_taken same).mono fun d _ ⟨_, locked⟩ => Keeps.ite (fun _ => unlink_bad_keeps h locked) fun _ => ?_
    rw [keeps_bind]
    refine dirlookup_keeps.mono fun r _ same => ?_
    cases r with
    | none => exact unlink_bad_keeps h (same.trans locked)
    | some ip =>
      rw [keeps_bind]
      subst same locked
      refine (ilock_taken (g := (g.take dp).setMode dp .loaded) (A := insert dp A) rfl).mono
        fun d g₄ ⟨free', locked⟩ => ?_
      have ne : dp ≠ ip := by
        rintro rfl
        rw [show ((g.take dp).setMode dp .loaded).mode dp = .loaded from update_self ..] at free'
        cases free'
      rw [keeps_bind]
      refine Keeps.ite (fun _ => keeps_perform.mpr ⟨trivial, fun _ never => never.elim⟩) fun _ => ?_
      have rest (empty : Bool) : Keeps rules (if empty = false then do iunlockput ip; sys_unlink.bad dp
          else unlinkEntry dp ip d.type) g₄ fun _ => Own.Done := by
        refine Keeps.ite (fun _ => ?_) fun _ => ?_
        · rw [keeps_bind]
          refine (iunlockput_keeps locked free').mono fun _ _ ⟨_, _, same⟩ => unlink_bad_keeps h same
        · refine unlinkEntry_keeps (A := insert ip (insert dp A)) h ne ?_
          rw [locked, Own.locked_comm ne]
      rw [keeps_pure, keeps_bind]
      refine Keeps.ite (fun _ => keeps_perform.mpr ⟨trivial, fun empty _ => rest empty⟩) fun _ => rest true

theorem forkFiles_keeps {np : Fin n} {c : Child n} (h : g.Done) (child : c.np = np) (distinct : fds.Nodup)
    (free : ∀ fd ∈ fds, c.ofile fd = none) :
    Keeps rules (forkFiles np fds) { g with child := some c } fun _ g' =>
      ∃ ofile, g' = { g with child := some { c with ofile := ofile } } := by
  induction fds generalizing c with
  | nil => exact ⟨c.ofile, rfl⟩
  | cons fd _ ih =>
    obtain ⟨notIn, distinct⟩ := List.nodup_cons.mp distinct
    unfold forkFiles
    refine keeps_op.mpr ⟨trivial, fun r (same : r = g.ofile fd) => ?_⟩
    cases r with
    | none => exact ih child distinct fun e member => free e (.tail _ member)
    | some f =>
      have fresh : g.fresh ≠ some f := fun fresh => absurd (h.fresh.symm.trans fresh) (by simp)
      refine keeps_op.mpr ⟨⟨h.refs same.symm, fresh⟩, fun _ _ => keeps_op.mpr ⟨?_, fun _ _ => ?_⟩⟩
      · refine ⟨fresh, ?_, c, rfl, child, free fd (.head _)⟩
        have mine := h.refs same.symm
        simp only [rules, Own.next, Own.refs, Own.addFile, update_self] at mine ⊢
        omega
      have back : rules.next (rules.next { g with child := some c } (.filedup f) ()) (.childFd np fd f) () =
          { g with child := some { c with ofile := update c.ofile fd (some f) } } := by
        simp [rules, Own.next, Own.addFile]
      change Keeps rules _ (rules.next (rules.next { g with child := some c } (.filedup f) ()) (.childFd np fd f) ()) _
      rw [back]
      refine ih (c := { c with ofile := update c.ofile fd (some f) }) child distinct fun e member => ?_
      have other : e ≠ fd := by
        rintro rfl
        exact notIn member
      exact (update_of_ne other ..).trans (free e (.tail _ member))

theorem fork_keeps (h : g.Done) : Keeps rules fork g fun _ => Own.Done := by
  unfold fork
  refine keeps_op.mpr ⟨h.child, fun r _ => ?_⟩
  cases r with
  | none => exact h
  | some np =>
    rw [keeps_bind]
    refine (forkFiles_keeps h (c := ⟨np, fun _ => none, false⟩) rfl (List.nodup_finRange _) fun _ _ => rfl).mono
      fun _ _ ⟨_, same⟩ => ?_
    subst same
    refine keeps_op.mpr ⟨h.given, fun ip _ => keeps_op.mpr ⟨⟨_, rfl, rfl, rfl, ?_, ?_, h.mode ip⟩, fun _ _ => ?_⟩⟩
    · simp [rules, Own.next, Own.know, Own.setAlive]
    · exact Set.mem_insert _ _
    · refine keeps_op.mpr ⟨⟨_, rfl, rfl, rfl⟩, fun _ _ => h.of ?_ rfl rfl rfl rfl h.child.symm⟩
      simp [rules, Own.next, Own.know, Own.setAlive, Own.drop, Own.take]

theorem exitFiles_keeps (h : g.Done) (closed : ∀ fd, fd ∉ fds → g.ofile fd = none) :
    Keeps rules (exitFiles fds) g fun _ g' => g'.Done ∧ ∀ fd, g'.ofile fd = none := by
  induction fds generalizing g with
  | nil => exact ⟨h, fun fd => closed fd List.not_mem_nil⟩
  | cons fd _ ih =>
    unfold exitFiles
    refine keeps_op.mpr ⟨trivial, fun r (same : r = g.ofile fd) => ?_⟩
    cases r with
    | none =>
      refine ih h fun e notIn => ?_
      by_cases here : e = fd
      · exact here ▸ same.symm
      · exact closed e fun member => (List.mem_cons.mp member).elim here notIn
    | some f =>
      rw [keeps_bind]
      refine (fileclose_keeps (h.refs same.symm)).mono fun _ _ ⟨A, same'⟩ => ?_
      refine keeps_op.mpr ⟨trivial, fun _ _ => ih ?_ fun e notIn => ?_⟩
      all_goals subst same'
      · refine h.of rfl rfl rfl (funext fun e => ?_) (ite_eq_right_iff.mpr fun fresh => ?_) rfl
        · by_cases other : e = f
          · subst other
            simp [rules, Own.next, Own.addFile, Own.setAlive, ← same]
          · simp [rules, Own.next, Own.addFile, Own.setAlive, ← same, other, Ne.symm other]
        · exact absurd (h.fresh.symm.trans fresh) (by simp)
      · by_cases here : e = fd
        · subst here
          exact update_self ..
        · exact (update_of_ne here ..).trans (closed e fun member => (List.mem_cons.mp member).elim here notIn)

theorem exit_keeps {t : Fin n} (h : g.Done) : Keeps rules (exit initproc t) g fun _ => Own.Done := by
  unfold exit
  rw [keeps_bind]
  refine Keeps.ite (fun _ => keeps_perform.mpr ⟨trivial, fun _ never => never.elim⟩) fun _ => ?_
  simp only [keeps_bind, keeps_pure]
  refine (exitFiles_keeps h fun fd notIn => absurd (List.mem_finRange fd) notIn).mono ?_
  rintro _ _ ⟨h, closed⟩
  refine keeps_perform.mpr ⟨h.given, fun _ _ => ?_⟩
  refine (iput_keeps (by simp [rules, Own.next])).mono ?_
  rintro _ _ ⟨_, A, _, same⟩
  subst same
  refine keeps_perform.mpr ⟨rfl, fun _ _ => keeps_perform.mpr ⟨⟨closed, rfl, rfl⟩, fun _ _ => ?_⟩⟩
  refine h.of ?_ rfl h.given.symm rfl rfl rfl
  simp [rules, Own.next, Own.setAlive, Own.drop, Own.take]

theorem call_keeps {t : Fin n} (c : Call) (h : g.Done) : Keeps rules (call initproc t c) g fun _ => Own.Done := by
  cases c with
  | «open» path omode => exact sys_open_keeps h
  | close => exact sys_close_keeps h
  | dup => exact sys_dup_keeps h
  | fork => exact fork_keeps h
  | exit => exact exit_keeps h
  | chdir => exact sys_chdir_keeps h
  | unlink => exact sys_unlink_keeps h

end Rules

end Xv6.InodeCache
