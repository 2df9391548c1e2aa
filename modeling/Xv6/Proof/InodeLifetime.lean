import Xv6.Proof.InodeCache

namespace Xv6.InodeCache
open Xv6.Library Xv6.Directory
open Xv6.Namespace (FileType File Fd O_CREATE)

variable {n : Nat} {initproc t : Fin n} {ip : Slot} {disk : Inum → Dinode} {c : Choice n} {s u : State n}

def nothing : Own n where
  held := fun _ => 0
  mode := fun _ => .free
  alive := ∅
  given := false
  gone := false
  ofile := fun _ => none
  files := fun _ => 0
  fresh := none
  child := none

theorem boot_refs (disk : Inum → Dinode) (ip : Slot) :
    refs (boot initproc disk).shared ip = if ip = 0 then 1 else 0 := by
  have procs (t : Fin n) : procRefs ((boot initproc disk).shared.proc t) ip =
    if t = initproc then if ip = 0 then 1 else 0 else 0 := by
    by_cases first : t = initproc
    · simp [boot, procRefs, cwdRefs, first, eq_comm]
    · simp [boot, procRefs, cwdRefs, first]
  have files (f : File) : fileRefs ((boot initproc disk).shared.file f) ip = 0 := by simp [boot, fileRefs]
  simp only [refs, procs, files, Finset.sum_ite_eq', Finset.mem_univ, if_true, Finset.sum_const_zero, add_zero]

theorem boot_sound (root : (disk ROOTINO).type ≠ .none) : Sound (boot initproc disk) := by
  have notUsed (ip : Slot) : ((boot initproc disk).shared.inode ip).valid = false := rfl
  refine ⟨fun _ => nothing, fun t => ?_, fun _ _ => rfl, ?_, ?_, ?_⟩
  · exact ⟨fun _ => rfl, fun _ => rfl, rfl, fun _ => rfl, rfl, rfl⟩
  · constructor
    case held =>
      intro t
      simp only [boot, nothing]
      split_ifs <;> rfl
    case count =>
      intro ip
      rw [boot_refs]
      rfl
    case unique =>
      have zero {x : Slot} (positive : 0 < ((boot initproc disk).shared.inode x).ref) : x = 0 := by
        by_contra ne
        simp [boot, ne] at positive
      exact fun x y first second _ => (zero first).trans (zero second).symm
    case lock => simp [boot, nothing]
    case locked => simp [nothing]
    case known => simp [nothing]
    case loaded => simp [nothing]
    case valid =>
      intro ip _ valid
      rw [notUsed] at valid
      cases valid
    case used => exact fun _ _ => ⟨root, fun t => by simp [nothing]⟩
  · constructor
    case count =>
      intro f
      refine (Finset.sum_eq_zero fun t _ => ?_).symm
      simp only [fileOwns, boot, nothing]
      split_ifs <;> simp [hits]
    case nonneg =>
      intro t f
      simp only [fileOwns, boot, nothing]
      split_ifs <;> simp [hits]
    case closed => simp [boot]
    case fresh => simp [nothing]
  · constructor
    case given =>
      intro t
      simp only [boot, nothing]
      split_ifs <;> rfl
    case ofile => rintro t ⟨⟨⟩, _⟩
    case gone => rintro t ⟨⟨⟩, _⟩
    case child => simp [nothing]
    case parent => simp [nothing]
    case empty =>
      intro t dead
      simp only [boot] at dead ⊢
      split_ifs at dead ⊢ <;> simp_all
    case live => rintro t ⟨⟨⟩, _⟩

theorem act_inum {s s' : Shared n} {o : Op n} {r : Res o} (action : act s t o c = some (s', r))
    (positive : 0 < (s.inode ip).ref) : (s'.inode ip).inum = (s.inode ip).inum := by
  have keep {y : Slot} {x : Inode n} (same : x.inum = (s.inode y).inum) :
    (Function.update s.inode y x ip).inum = (s.inode ip).inum := by
    by_cases here : ip = y
    · subst here
      rw [Function.update_self, same]
    · rw [Function.update_of_ne here]
  cases o with
  | iget =>
    obtain ⟨⟨u, y⟩, found, same⟩ := Option.map_eq_some_iff.mp action
    obtain ⟨rfl, _⟩ := Prod.mk.inj same
    unfold igetSlot at found
    split at found
    · cases found
      exact keep rfl
    split at found
    case h_1 y room =>
      cases found
      have unused : (s.inode y).ref = 0 := by simpa using List.find?_some room
      have ne : ip ≠ y := by
        rintro rfl
        omega
      simp [Shared.setProc, Shared.setInode, ne]
    case h_2 => cases found
  | idupCwd =>
    simp only [act] at action
    split at action
    · cases action
      exact keep rfl
    · cases action
  | handCwd =>
    simp only [act] at action
    split at action
    · cases action
      rfl
    · cases action
  | takeDinode =>
    simp only [act] at action
    split at action
    · obtain ⟨_, same⟩ := Option.ite_none_right_eq_some.mp action
      cases same
      rfl
    · cases action
  | filealloc | fdalloc f =>
    simp only [act] at action
    split at action
    · cases action
      rfl
    · cases action
      rfl
  | fileclose f =>
    obtain ⟨_, rest⟩ := Option.ite_none_left_eq_some.mp action
    split_ifs at rest
    · cases rest
      rfl
    split at rest
    · cases rest
      rfl
    · cases rest
      rfl
  | allocproc =>
    simp only [act] at action
    split_ifs at action
    · cases action
      rfl
    · cases action
      rfl
  | acquiresleep y | releasesleep y | load y =>
    obtain ⟨_, same⟩ := Option.ite_none_right_eq_some.mp action
    cases same
    exact keep rfl
  | checkRef y | filedup f =>
    obtain ⟨_, same⟩ := Option.ite_none_right_eq_some.mp action
    cases same
    rfl
  | setNlink y f | truncate y | invalidate y | decRef y =>
    cases action
    exact keep rfl
  | getInode y | iupdate y | getRef y | lookup | isdirempty | setIp f y | getFd | clearFd | setCwd y | clearCwd
  | childFd _ _ f | childCwd _ y | childRun | zombie =>
    cases action
    rfl
  | panic => cases action

theorem step_inum {e : Action n} (action : step initproc s e = some u) (positive : 0 < (s.shared.inode ip).ref) :
    (u.shared.inode ip).inum = (s.shared.inode ip).inum := by
  cases e with
  | call t c =>
    obtain ⟨_, same⟩ := Option.ite_none_right_eq_some.mp action
    cases same
    rfl
  | go t c =>
    obtain ⟨_, rest⟩ := Option.ite_none_right_eq_some.mp action
    obtain ⟨⟨_, _⟩, moved, same⟩ := Option.map_eq_some_iff.mp rest
    obtain rfl := same
    obtain ⟨o, _, r, _, acted, rfl⟩ := advance_eq_some moved
    exact act_inum acted positive
  | reap t =>
    obtain ⟨_, same⟩ := Option.ite_none_right_eq_some.mp action
    cases same
    rfl

theorem sound_of_run {es : List (Action n)} (root : (disk ROOTINO).type ≠ .none)
    (run : exec (step initproc) (boot initproc disk) es = some s) : Sound s :=
  exec_invariant (P := fun _ _ => True) (fun _ _ _ h _ action => h.step action) (boot_sound root) run fun _ _ => trivial

theorem takeDinode_free {type : FileType} {next : Inum → Program n Unit}
    (now : s.prog t = .op (.takeDinode type) next) (action : step initproc s (.go t c) = some u) :
    ∃ inum, c.inum = some inum ∧ (s.shared.disk inum).type = .none := by
  obtain ⟨_, rest⟩ := Option.ite_none_right_eq_some.mp action
  obtain ⟨⟨_, _⟩, moved, _⟩ := Option.map_eq_some_iff.mp rest
  obtain ⟨o, _, r, now', acted, _⟩ := advance_eq_some moved
  rw [now] at now'
  obtain ⟨rfl, _⟩ := Prog.op.inj now'
  simp only [act] at acted
  split at acted
  case h_1 inum same => exact ⟨inum, same, (Option.ite_none_right_eq_some.mp acted).1⟩
  case h_2 => cases acted

/-- An inode that an open file or a current directory refers to is in use, on the disk and, once read, in memory; no
process frees it, `ialloc` does not take its number, and it keeps its place in the cache. There is one place for each
inode, and its count is the number of references to it, of which calls that have returned hold none. -/
theorem inode_lifetime {disk : Inum → Dinode} {es : List (Action n)} {s : State n} (root : (disk ROOTINO).type ≠ .none)
    (run : exec (step initproc) (boot initproc disk) es = some s) :
    (∀ ip, Refers s.shared ip →
      (s.shared.disk (s.shared.inode ip).inum).type ≠ .none ∧
      ((s.shared.inode ip).valid = true → (s.shared.inode ip).type ≠ .none) ∧
      (∀ t next, s.prog t ≠ .op (.truncate ip) next) ∧
      (∀ t type next c u, s.prog t = .op (.takeDinode type) next → step initproc s (.go t c) = some u →
        c.inum ≠ some (s.shared.inode ip).inum) ∧
      ∀ e u, step initproc s e = some u → (u.shared.inode ip).inum = (s.shared.inode ip).inum) ∧
    (∀ x y, 0 < (s.shared.inode x).ref → 0 < (s.shared.inode y).ref →
      (s.shared.inode x).inum = (s.shared.inode y).inum → x = y) ∧
    (∀ ip, (s.shared.inode ip).ref = refs s.shared ip) ∧
    ∀ t, (s.prog t).returned = true → ∀ ip, (s.shared.proc t).held ip = 0 := by
  obtain ⟨G, obeys, _, accord⟩ := sound_of_run root run
  refine ⟨fun ip refers => ?_, accord.inodes.unique, accord.inodes.count, fun t ended ip => ?_⟩
  · have claimed : Claimed s.shared G ip := .inl refers
    have positive := accord.inodes.claimed_pos claimed
    obtain ⟨used, notDoomed⟩ := accord.inodes.used ip claimed
    refine ⟨used, fun valid => (accord.inodes.valid ip positive valid notDoomed).1, fun t next now => ?_,
      fun t _ _ c u now action => ?_, fun e u action => step_inum action positive⟩
    · exact notDoomed t (obeys.now now).1
    obtain ⟨_, same, free⟩ := takeDinode_free now action
    rw [same]
    rintro ⟨⟩
    exact used free
  · rw [accord.inodes.held]
    exact (obeys.ended ended).held ip

def oneFile : Inum → Dinode := fun i => if i = ROOTINO then ⟨.dir, 1⟩ else if i = 2 then ⟨.file, 1⟩ else ⟨.none, 0⟩

def unlinkOpen : List (Action 2) :=
  let go := .go 0 ⟨some 2, true, 1⟩
  .call 0 (.open [47, 97] 0) :: List.replicate 22 go ++ .call 0 (.unlink [47, 97]) :: List.replicate 29 go

theorem inode_lifetime_unlinkOpen : ∃ s, exec (step 0) (boot 0 oneFile) unlinkOpen = some s ∧ Refers s.shared 1 ∧
    (s.shared.inode 1).nlink = 0 ∧ (s.shared.disk (s.shared.inode 1).inum).type ≠ .none ∧
    (s.shared.inode 1).ref = refs s.shared 1 := by
  obtain ⟨s, run, ref, file, nlink⟩ : ∃ s, exec (step 0) (boot 0 oneFile) unlinkOpen = some s ∧
      (s.shared.file ⟨0, by decide⟩).ref = 1 ∧
      (s.shared.file ⟨0, by decide⟩).ip = some 1 ∧ (s.shared.inode 1).nlink = 0 := by
    decide +kernel
  have refers : Refers s.shared 1 := .inl ⟨⟨0, by decide⟩, by rw [ref]; decide, file⟩
  obtain ⟨alive, _, counts, _⟩ := inode_lifetime (by decide : (oneFile ROOTINO).type ≠ .none) run
  exact ⟨s, run, refers, nlink, (alive 1 refers).1, counts 1⟩

end Xv6.InodeCache
