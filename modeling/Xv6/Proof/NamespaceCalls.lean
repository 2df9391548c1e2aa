import Xv6.Proof.Namespace

namespace Xv6.Namespace
open Xv6.Library Xv6.Directory
open Function (update update_self update_of_ne update_idem update_eq_self update_comm)

variable {n : Nat} {s s' s'' : State n} {O : Inum → Prop} {due due' : Inum → Int} {i ip dp : Inum}
  {t : Fin n} {type : FileType} {path : Path}

def atCwd (x : Proc) (i : Inum) : Int := if x.live = true ∧ x.cwd = i then 1 else 0

def atFile (x : Entry) (i : Inum) : Int := if 0 < x.ref ∧ x.ip = some i then 1 else 0

def Orphan (T : Table) (i : Inum) : Prop := (T i).type ≠ .none ∧ (T i).nlink = 0

structure Sound (s : State n) (due : Inum → Int) : Prop where
  tree : Tree s.inode
  room : Room s.inode s.mapped s.free
  refs : ∀ i, (s.ref i : Int) = ∑ t, atCwd (s.proc t) i + ∑ f, atFile (s.file f) i + due i
  orphan : ∀ i, Orphan s.inode i → s.valid i = true ∧ 0 < s.ref i
  used : ∀ f i, 0 < (s.file f).ref → (s.file f).ip = some i → (s.inode i).type ≠ .none
  cwd : ∀ t, (s.proc t).live = true → LinkedDir (s.inode (s.proc t).cwd)
  idle : ∀ f, (s.file f).ref = 0 → (s.file f).ip = none

theorem Linked.not_orphan {T : Table} (h : Linked (T i)) : ¬Orphan T i := fun orphan => h.2 orphan.2

theorem atCwd_nonneg (x : Proc) (i : Inum) : 0 ≤ atCwd x i := by
  unfold atCwd
  split_ifs <;> decide

theorem atFile_nonneg (x : Entry) (i : Inum) : 0 ≤ atFile x i := by
  unfold atFile
  split_ifs <;> decide

namespace Sound

section
variable (h : Sound s due)
include h

theorem closed (d : Inum) (dir : LinkedDir (s.inode d)) :
    Closed (Orphan s.inode) (s.inode d) s.inode := fun _ member live =>
  have linked := h.tree.closed dir member live
  ⟨linked, linked.not_orphan⟩

theorem walks (live : (s.proc t).live = true) : Walks (Orphan s.inode) s t :=
  ⟨h.closed, ⟨h.tree.root.linked, h.tree.root.linked.not_orphan⟩, (h.cwd t live).linked⟩

theorem of (moves : Moves (Orphan s.inode) s s' due') (tree : Tree s'.inode)
    (holds : ∀ i, (s'.inode i).entries.length ≤ DPB * s'.mapped i + if i = ROOTINO then DPB else 0)
    (types : ∀ i, (s.inode i).type ≠ .none → (s'.inode i).type ≠ .none)
    (dirs : ∀ i, LinkedDir (s.inode i) → (∃ t, (s.proc t).live = true ∧ (s.proc t).cwd = i) → LinkedDir (s'.inode i))
    (orphans : ∀ i, Orphan s'.inode i → (Orphan s.inode i ∨ s'.valid i = true) ∧ 0 < s'.ref i) :
    Sound s' (due + due') := by
  refine ⟨tree, ⟨le_of_eq_of_le moves.blocks h.room.total, holds⟩,
    fun i => ?_, fun i orphan => ?_, fun f i => ?_, fun t => ?_, ?_⟩
  · rw [moves.ref, h.refs, moves.proc, moves.file, Pi.add_apply]
    omega
  · obtain ⟨was | valid, held⟩ := orphans i orphan
    · exact ⟨moves.valid i was (h.orphan i was).1, held⟩
    · exact ⟨valid, held⟩
  · rw [moves.file]
    exact fun open_ same => types i (h.used f i open_ same)
  · rw [moves.proc]
    exact fun live => dirs _ (h.cwd t live) ⟨t, live, rfl⟩
  · rw [moves.file]
    exact h.idle

theorem calm (calm : Calm (Orphan s.inode) s s' due') (held : ∀ i, Orphan s.inode i → 0 < s'.ref i) :
    Sound s' (due + due') := by
  refine h.of calm.toMoves (calm.inode ▸ h.tree) (fun i => ?_) (fun i => ?_) (fun i => ?_) fun i => ?_
  · rw [calm.inode]
    exact le_trans (h.room.holds i) (Nat.add_le_add_right (Nat.mul_le_mul_left _ (calm.mapped i)) _)
  · rw [calm.inode]
    exact id
  · rw [calm.inode]
    exact fun dir _ => dir
  · rw [calm.inode]
    exact fun orphan => ⟨.inl orphan, held i orphan⟩

theorem freed (last : s.valid i = true ∧ (s.inode i).nlink = 0 ∧ s.ref i = 1) (mine : 1 ≤ due i) :
    Sound (freed s i) (due - one i) := by
  have cwds := Finset.sum_nonneg fun t (_ : t ∈ Finset.univ) => atCwd_nonneg (s.proc t) i
  have files := Finset.sum_nonneg fun f (_ : f ∈ Finset.univ) => atFile_nonneg (s.file f) i
  have refs := h.refs i
  rw [last.2.2] at refs
  have noCwd (t : Fin n) : atCwd (s.proc t) i = 0 :=
    (Finset.sum_eq_zero_iff_of_nonneg fun t _ => atCwd_nonneg (s.proc t) i).mp (by omega) t (Finset.mem_univ t)
  have noFile (f : File) : atFile (s.file f) i = 0 :=
    (Finset.sum_eq_zero_iff_of_nonneg fun f _ => atFile_nonneg (s.file f) i).mp (by omega) f (Finset.mem_univ f)
  have here : (Namespace.freed s i).inode i = ⟨.none, (s.inode i).nlink, []⟩ := by simp [Namespace.freed]
  have others {j : Inum} (other : j ≠ i) : (Namespace.freed s i).inode j = s.inode j := by simp [Namespace.freed, other]
  refine ⟨h.tree.release last.2.1 rfl, ⟨?_, fun j => ?_⟩, fun j => ?_,
    fun j orphan => ?_, fun f j open_ same => ?_, fun t live => ?_, h.idle⟩
  · have swap := sum_update blocks s.mapped i 0
    have := h.room.total
    simp only [Namespace.freed, show blocks 0 = 0 from rfl] at swap ⊢
    omega
  · by_cases same : j = i
    · rw [same, here]
      exact Nat.zero_le _
    · rw [others same]
      simpa [Namespace.freed, same] using h.room.holds j
  · by_cases same : j = i
    · subst same
      simp only [Namespace.freed, update_self, Pi.sub_apply, one, if_true]
      omega
    · have := h.refs j
      simp only [Namespace.freed, update_of_ne same, Pi.sub_apply, one, if_neg same]
      omega
  · have other : j ≠ i := by
      rintro rfl
      exact orphan.1 (by rw [here])
    rw [Orphan, others other] at orphan
    simpa [Namespace.freed, other] using h.orphan j orphan
  · have other : j ≠ i := by
      rintro rfl
      have := noFile f
      rw [atFile, if_pos ⟨open_, same⟩] at this
      cases this
    rw [others other]
    exact h.used f j open_ same
  · have other : (s.proc t).cwd ≠ i := by
      intro same
      have := noCwd t
      rw [atCwd, if_pos ⟨live, same⟩] at this
      cases this
    change LinkedDir ((Namespace.freed s i).inode (s.proc t).cwd)
    rw [others other]
    exact h.cwd t live

theorem iput (held : 0 < s.ref i) (mine : (s.inode i).nlink ≠ 0 ∨ 1 ≤ due i) :
    Spec (iput i) s Fine fun _ s' => Sound s' (due - one i) ∧ s'.proc = s.proc ∧
      ∀ j, (s.inode j).nlink ≠ 0 → s'.inode j = s.inode j := by
  by_cases last : s.valid i = true ∧ (s.inode i).nlink = 0 ∧ s.ref i = 1
  · refine (iput_spec_freed last).mono fun _ s' same => ?_
    subst same
    refine ⟨h.freed last (mine.resolve_left fun linked => linked last.2.1), rfl, fun j linked => ?_⟩
    have other : j ≠ i := by
      rintro rfl
      exact linked last.2.1
    simp [Namespace.freed, other]
  refine (iput_spec_kept (Orphan s.inode) last held).mono ?_
  rintro _ _ ⟨calm, valid⟩
  have sound := h.calm calm fun j orphan => ?_
  · rw [← sub_eq_add_neg] at sound
    exact ⟨sound, calm.proc, fun j _ => by rw [calm.inode]⟩
  have ref := calm.ref j
  obtain ⟨valid, _⟩ := h.orphan j orphan
  simp only [Pi.neg_apply, one] at ref
  split_ifs at ref with same
  · subst same
    have : s.ref j ≠ 1 := fun one => last ⟨valid, orphan.2, one⟩
    omega
  · omega

theorem still (calm : Calm (Orphan s.inode) s s' 0) : Sound s' due := by
  have sound := h.calm calm fun i orphan => ?_
  · rwa [add_zero] at sound
  have := calm.ref i
  have := (h.orphan i orphan).2
  simp only [Pi.zero_apply] at *
  omega

theorem gain (calm : Calm (Orphan s.inode) s s' (one i)) : Sound s' (due + one i) := by
  refine h.calm calm fun j orphan => ?_
  have ref := calm.ref j
  have := (h.orphan j orphan).2
  unfold one at ref
  split_ifs at ref <;> omega

theorem lose (calm : Calm (Orphan s.inode) s s' (-one i)) (linked : (s.inode i).nlink ≠ 0) :
    Sound s' (due - one i) := by
  rw [sub_eq_add_neg]
  refine h.calm calm fun j orphan => ?_
  have ref := calm.ref j
  have := (h.orphan j orphan).2
  have other : j ≠ i := by
    rintro rfl
    exact linked orphan.2
  simp only [Pi.neg_apply, one, if_neg other] at ref
  omega

theorem held_of_cwd (live : (s.proc t).live = true) (nonneg : 0 ≤ due (s.proc t).cwd) : 0 < s.ref (s.proc t).cwd := by
  have refs := h.refs (s.proc t).cwd
  have files := Finset.sum_nonneg fun f (_ : f ∈ Finset.univ) => atFile_nonneg (s.file f) (s.proc t).cwd
  have le := Finset.single_le_sum (fun r _ => atCwd_nonneg (s.proc r) (s.proc t).cwd) (Finset.mem_univ t)
  rw [atCwd, if_pos ⟨live, rfl⟩] at le
  omega

theorem held_of_due (mine : 1 ≤ due i) : 0 < s.ref i := by
  have refs := h.refs i
  have cwds := Finset.sum_nonneg fun t (_ : t ∈ Finset.univ) => atCwd_nonneg (s.proc t) i
  have files := Finset.sum_nonneg fun f (_ : f ∈ Finset.univ) => atFile_nonneg (s.file f) i
  omega

theorem setProc {x : Proc} (refs : ∀ i, due' i + atCwd x i = due i + atCwd (s.proc t) i)
    (cwd : x.live = true → LinkedDir (s.inode x.cwd)) : Sound { s with proc := update s.proc t x } due' := by
  refine ⟨h.tree, h.room, fun i => ?_, h.orphan, h.used, fun r live => ?_, h.idle⟩
  · have swap := sum_update (fun y => atCwd y i) s.proc t x
    have := h.refs i
    have := refs i
    simp only
    omega
  by_cases same : r = t
  · subst same
    simp only [update_self] at live ⊢
    exact cwd live
  · simp only [update_of_ne same] at live ⊢
    exact h.cwd r live

theorem setFile {f : File} {x : Entry} (refs : ∀ i, due' i + atFile x i = due i + atFile (s.file f) i)
    (used : ∀ i, 0 < x.ref → x.ip = some i → (s.inode i).type ≠ .none) (idle : x.ref = 0 → x.ip = none) :
    Sound { s with file := update s.file f x } due' := by
  refine ⟨h.tree, h.room, fun i => ?_, h.orphan, fun g i => ?_, h.cwd, fun g => ?_⟩
  · have swap := sum_update (fun y => atFile y i) s.file f x
    have := h.refs i
    have := refs i
    simp only
    omega
  · by_cases same : g = f
    · subst same
      simpa using used i
    · simpa [same] using h.used g i
  · by_cases same : g = f
    · subst same
      simpa using idle
    · simpa [same] using h.idle g

theorem ilock (used : (s.inode i).type ≠ .none) :
    Spec (ilock i) s Fine fun _ s' => Sound s' due ∧ s'.inode = s.inode ∧ s'.proc = s.proc :=
  (ilock_spec (Orphan s.inode) used).mono fun _ _ ⟨calm, _, _⟩ => ⟨h.still calm, calm.inode, calm.proc⟩

theorem iunlock (i : Inum) : Spec (iunlock i) s Fine fun _ s' => Sound s' due ∧ s'.inode = s.inode ∧ s'.proc = s.proc :=
  (iunlock_spec (Orphan s.inode) i).mono fun _ _ ⟨calm, _, _⟩ => ⟨h.still calm, calm.inode, calm.proc⟩

end

theorem iunlockput (h : Sound s (due + one i)) (linked : (s.inode i).nlink ≠ 0) :
    Spec (iunlockput i) s Fine fun _ s' => Sound s' due ∧ s'.inode = s.inode ∧ s'.proc = s.proc :=
  (iunlockput_spec (Orphan s.inode) linked).mono fun _ _ calm =>
    ⟨add_sub_cancel_right due (one i) ▸ h.lose calm linked, calm.inode, calm.proc⟩

theorem namei (h : Sound s due) (live : (s.proc t).live = true) (path : Path) :
    Spec (namei t path) s Fine fun r s' => s'.inode = s.inode ∧ s'.proc = s.proc ∧
      match r with
      | none => Sound s' due
      | some i => Sound s' (due + one i) ∧ Linked (s.inode i) :=
  (namei_spec path (h.walks live)).mono fun r _ found =>
    match r, found with
    | none, calm => ⟨calm.inode, calm.proc, h.still calm⟩
    | some _, ⟨calm, linked⟩ => ⟨calm.inode, calm.proc, h.gain calm, linked⟩

theorem setFd (h : Sound s due) (t : Fin n) (fd : Fd) (f : Option File) :
    Sound { s with proc := update s.proc t { s.proc t with ofile := update (s.proc t).ofile fd f } } due :=
  h.setProc (fun _ => rfl) (h.cwd t)

theorem fileclose (h : Sound s due) (nonneg : ∀ i, 0 ≤ due i) (f : File) :
    Spec (fileclose f) s Fine fun _ s' => Sound s' due ∧ s'.proc = s.proc ∧
      ∀ j, (s.inode j).nlink ≠ 0 → s'.inode j = s.inode j := by
  unfold Namespace.fileclose
  simp only [spec_bind, spec_get, spec_panicIf]
  refine ⟨fun _ => by simp [Fine], fun _ => .ite (fun more => ?_) fun _ => ?_⟩
  · refine ⟨h.setFile (fun i => ?_) (fun i _ same => h.used f i (by omega) same) (fun zero => ?_), rfl, fun _ _ => rfl⟩
    · simp only [atFile, more, show 0 < (s.file f).ref by omega]
    · simp only at zero
      omega
  simp only [spec_bind, spec_set]
  cases ip : (s.file f).ip with
  | none =>
    refine ⟨h.setFile (fun i => ?_) (by simp) (by simp), rfl, fun _ _ => rfl⟩
    simp [atFile, ip]
  | some i =>
    have open_ : 0 < (s.file f).ref := by omega
    have dropped : Sound { s with file := update s.file f ⟨0, none⟩ } (due + one i) := by
      refine h.setFile (fun j => ?_) (by simp) (by simp)
      simp [atFile, ip, open_, one, eq_comm]
    have mine : 1 ≤ (due + one i) i := by
      have := nonneg i
      simp only [Pi.add_apply, one, if_true]
      omega
    refine (dropped.iput (dropped.held_of_due mine) (.inr mine)).mono ?_
    rintro _ _ ⟨h₁, proc, kept⟩
    rw [add_sub_cancel_right] at h₁
    exact ⟨h₁, proc, kept⟩

end Sound

theorem sys_chdir_spec (path : Path) (h : Sound s 0) (live : (s.proc t).live = true) :
    Spec (sys_chdir t path) s Fine fun _ s' => Sound s' 0 := by
  unfold sys_chdir
  rw [spec_bind]
  refine (h.namei live path).mono ?_
  rintro r _ ⟨inode, proc, found⟩
  cases r with
  | none => exact found
  | some ip =>
    obtain ⟨h₁, linked⟩ := found
    rw [← inode] at linked
    simp only [spec_bind]
    refine (h₁.ilock linked.1).mono ?_
    rintro _ _ ⟨h₂, inode₂, proc₂⟩
    rw [← inode₂] at linked
    rw [spec_getInode]
    refine .ite (fun _ => ?_) fun isDir => ?_
    · exact spec_bind.mpr ((h₂.iunlockput linked.2).mono fun _ s₃ both => both.1)
    simp only [ne_eq, not_not] at isDir
    simp only [spec_bind, spec_get]
    refine (h₂.iunlock ip).mono ?_
    rintro _ s₃ ⟨h₃, inode₃, proc₃⟩
    have live₃ : (s₃.proc t).live = true := by rwa [proc₃, proc₂, proc]
    have cwd := h₃.cwd t live₃
    have nonneg : 0 ≤ ((0 : Inum → Int) + one ip) (s₃.proc t).cwd := by
      simp only [Pi.add_apply, Pi.zero_apply, one]
      split_ifs <;> decide
    refine (iput_spec (Orphan s₃.inode) cwd.2 (h₃.held_of_cwd live₃ nonneg)).mono fun _ _ calm => ?_
    refine (h₃.lose calm cwd.2).setProc (fun i => ?_) fun _ => ?_
    · simp only [calm.proc, atCwd, live₃, Pi.sub_apply, Pi.add_apply, Pi.zero_apply, one, true_and, @eq_comm _ i]
      omega
    · rw [calm.inode, inode₃]
      exact ⟨isDir, linked.2⟩

theorem sys_close_spec (fd : Fd) (h : Sound s 0) : Spec (sys_close t fd) s Fine fun _ s' => Sound s' 0 := by
  unfold sys_close
  simp only [spec_bind, spec_get]
  cases (s.proc t).ofile fd with
  | none => exact h
  | some f =>
    simp only [spec_bind, setFd, spec_modify, spec_pure]
    refine ((h.setFd t fd none).fileclose (fun _ => le_rfl) f).mono ?_
    rintro _ _ ⟨h₁, _⟩
    exact h₁

def SameCwd (s s' : State n) : Prop := ∀ r, (s'.proc r).live = (s.proc r).live ∧ (s'.proc r).cwd = (s.proc r).cwd

theorem sameCwd_setFd (s : State n) (t : Fin n) (fd : Fd) (f : Option File) :
    SameCwd s { s with proc := update s.proc t { s.proc t with ofile := update (s.proc t).ofile fd f } } := by
  intro r
  by_cases same : r = t
  · subst same
    simp
  · simp [same]

theorem SameCwd.trans (first : SameCwd s s') (second : SameCwd s' s'') : SameCwd s s'' := fun r =>
  ⟨(second r).1.trans (first r).1, (second r).2.trans (first r).2⟩

theorem exitFiles_spec (fds : List Fd) (h : Sound s 0) :
    Spec (exitFiles t fds) s Fine fun _ s' => Sound s' 0 ∧ SameCwd s s' := by
  induction fds generalizing s with
  | nil => exact ⟨h, fun _ => ⟨rfl, rfl⟩⟩
  | cons fd _ ih =>
    rw [exitFiles]
    simp only [spec_bind, spec_get]
    cases (s.proc t).ofile fd with
    | none => exact ih h
    | some f =>
      simp only [spec_bind]
      refine (h.fileclose (fun _ => le_rfl) f).mono ?_
      rintro _ s₁ ⟨h₁, proc, _⟩
      simp only [setFd, spec_modify]
      refine (ih (h₁.setFd t fd none)).mono ?_
      rintro _ _ ⟨h₂, same⟩
      refine ⟨h₂, ?_⟩
      have first : SameCwd s s₁ := fun r => by rw [proc]; exact ⟨rfl, rfl⟩
      exact first.trans ((sameCwd_setFd s₁ t fd none).trans same)

theorem exit_spec {initproc : Fin n} (h : Sound s 0) (live : (s.proc t).live = true) :
    Spec (exit initproc t) s Fine fun _ s' => Sound s' 0 := by
  unfold exit
  simp only [spec_bind, spec_panicIf, spec_get]
  refine ⟨fun _ => by simp [Fine], fun _ => ?_⟩
  refine (exitFiles_spec _ h).mono ?_
  rintro _ s₁ ⟨h₁, same⟩
  have live₁ : (s₁.proc t).live = true := (same t).1.trans live
  refine (h₁.iput (h₁.held_of_cwd live₁ le_rfl) (.inl (h₁.cwd t live₁).2)).mono ?_
  rintro _ _ ⟨h₂, proc, _⟩
  refine h₂.setProc (fun i => ?_) (by simp)
  simp only [proc, atCwd, live₁, Pi.sub_apply, Pi.zero_apply, one, true_and, @eq_comm _ i]
  simp

theorem forkFiles_spec {np : Fin n} (fds : List Fd) (h : Sound s 0) :
    Spec (forkFiles t np fds) s Fine fun _ s' => Sound s' 0 ∧ SameCwd s s' := by
  induction fds generalizing s with
  | nil => exact ⟨h, fun _ => ⟨rfl, rfl⟩⟩
  | cons fd _ ih =>
    rw [forkFiles]
    simp only [spec_bind, spec_get]
    cases (s.proc t).ofile fd with
    | none => exact ih h
    | some f =>
      simp only [spec_bind, filedup, spec_get, spec_panicIf, spec_set, setFd, spec_modify]
      refine ⟨fun _ => by simp [Fine], fun _ => ?_⟩
      have more : Sound { s with file := update s.file f { s.file f with ref := (s.file f).ref + 1 } } 0 := by
        refine h.setFile (fun i => ?_) (fun i _ same => h.used f i (by omega) same) (by simp)
        simp [atFile, show 0 < (s.file f).ref by omega]
      refine (ih (more.setFd np fd (some f))).mono ?_
      rintro _ _ ⟨h₂, same⟩
      refine ⟨h₂, ?_⟩
      exact SameCwd.trans (sameCwd_setFd _ np fd (some f)) same

theorem fork_spec {np : Fin n} (h : Sound s 0) (live : (s.proc t).live = true) :
    Spec (fork t np) s Fine fun _ s' => Sound s' 0 := by
  unfold fork
  simp only [spec_bind, spec_get]
  refine .ite (fun _ => h) fun dead => ?_
  simp only [spec_bind, spec_get]
  refine (forkFiles_spec _ h).mono ?_
  rintro _ s₁ ⟨h₁, same⟩
  have live₁ : (s₁.proc t).live = true := (same t).1.trans live
  refine (idup_spec (Orphan s₁.inode) (s₁.proc t).cwd).mono ?_
  rintro cwd s₂ ⟨eq, calm⟩
  subst eq
  refine (h₁.gain calm).setProc (fun i => ?_) fun _ => ?_
  · have dead₂ : (s₂.proc np).live = false := by
      rw [calm.proc, (same np).1]
      simpa using dead
    simp [atCwd, dead₂, one, eq_comm]
  · rw [calm.inode]
    exact h₁.cwd t live₁

section Entries

variable {T : Table} {d : Inum} {name : Name} {off : Nat} {e : Dirent}

theorem lookup_none {x : Dinode} (absent : lookup x name = none) (member : e ∈ x.entries) (live : e.live) :
    cut name ≠ cut e.name := by
  have other := seek_none absent e member
  rw [Dirent.matches, live, Bool.true_and] at other
  exact fun same => Bool.eq_false_iff.mp other (namecmp_iff.mpr same)

theorem Tree.put_new (h : Tree T) (dir : LinkedDir (T d)) (absent : lookup (T d) name = none)
    (place : ∀ o, (T d).entries[off]? = some o → o.live = false) (i : Inum) :
    (cut name ≠ dot ∧ cut name ≠ dotdot) ∧ ∃ l, Adds (rest (T d)) l ⟨i, cut name⟩ ∧
      put (T d).entries off ⟨i, cut name⟩ = ⟨d, dot⟩ :: ⟨parent (T d), dotdot⟩ :: l := by
  have live : (⟨d, dot⟩ : Dirent).live := by simpa [Dirent.live] using h.nonzero dir.linked.1
  have live' : (⟨parent (T d), dotdot⟩ : Dirent).live := by
    simpa [Dirent.live] using h.nonzero (h.parent_linked dir).linked.1
  have shape := h.shape d dir
  generalize parent (T d) = p at *
  generalize rest (T d) = l at *
  refine ⟨⟨?_, ?_⟩, ?_⟩
  · exact lookup_none absent (e := ⟨d, dot⟩) (by simp [shape]) live
  · exact lookup_none absent (e := ⟨p, dotdot⟩) (by simp [shape]) live'
  · rw [shape] at place ⊢
    rcases off with _ | _ | k
    · rw [place ⟨d, dot⟩ rfl] at live
      cases live
    · rw [place ⟨p, dotdot⟩ rfl] at live'
      cases live'
    · exact ⟨put l k ⟨i, cut name⟩, put_adds fun o here => place o (by simpa using here), by rw [put_cons, put_cons]⟩

theorem Tree.put_old (h : Tree T) (dir : LinkedDir (T d)) (found : lookup (T d) name = some (off, e))
    (plain : cut name ≠ dot ∧ cut name ≠ dotdot) :
    e ∈ rest (T d) ∧ ∃ l, Drops (rest (T d)) l e ∧
    put (T d).entries off ⟨0, []⟩ = ⟨d, dot⟩ :: ⟨parent (T d), dotdot⟩ :: l := by
  obtain ⟨place, _, same⟩ := lookup_some found
  have shape := h.shape d dir
  generalize parent (T d) = p at *
  generalize rest (T d) = l at *
  rw [shape] at place ⊢
  rcases off with _ | _ | k
  · cases place
    exact absurd same plain.1
  · cases place
    exact absurd same plain.2
  · have here : l[k]? = some e := by simpa using place
    exact ⟨List.mem_of_getElem? here, put l k ⟨0, []⟩, put_drops here, by rw [put_cons, put_cons]⟩

end Entries

theorem ialloc_spec (O : Inum → Prop) (type : FileType) (free : ∀ i, (s.inode i).type = .none → ¬O i) :
    Spec (ialloc type) s Fine fun i s' => i ≠ 0 ∧ (s.inode i).type = .none ∧ Moves O s s' (one i) ∧
      s'.inode = update s.inode i ⟨type, 0, []⟩ := by
  unfold ialloc
  simp only [spec_bind, spec_get]
  cases found : (List.finRange NINODES).find? fun i => i ≠ 0 ∧ (s.inode i).type = .none with
  | none => simp [Fine]
  | some i =>
    obtain ⟨nonzero, none⟩ : i ≠ 0 ∧ (s.inode i).type = .none := by simpa using List.find?_some found
    simp only [spec_bind, spec_setInode]
    refine (iget_spec O i fun orphan => absurd orphan (free i none)).mono ?_
    rintro r _ ⟨same, calm⟩
    subst same
    exact ⟨nonzero, none, calm.toMoves.of_table, calm.inode⟩

theorem createDots_spec (O : Inum → Prop) (nonzero : i ≠ 0)
    (fresh : ¬O i) (ne : i ≠ dp) (new : s.inode i = ⟨.dir, 1, []⟩) :
    Spec (createDots i dp) s Fine fun _ s' => Moves O s s' 0 ∧ 2 ≤ DPB * s'.mapped i ∧
      s'.inode = update (update s.inode i ⟨.dir, 1, [⟨i, dot⟩, ⟨dp, dotdot⟩]⟩) dp
        { s.inode dp with nlink := (s.inode dp).nlink + 1 } := by
  unfold createDots
  simp only [spec_bind, spec_getInode, spec_setInode, spec_panicIf]
  generalize counted : { s with inode := update s.inode dp { s.inode dp with nlink := (s.inode dp).nlink + 1 } } = s₁
  have at₁ : s₁.inode i = ⟨.dir, 1, []⟩ := by simp [← counted, ne, new]
  refine (dirlink_spec O dot i ?_).mono ?_
  · rw [at₁]
    simp [Closed]
  rintro r s₂ ⟨moves₂, linked₂⟩
  refine ⟨fun _ => by simp [Fine], fun ok => ?_⟩
  simp only [Bool.not_eq_false] at ok
  subst ok
  obtain ⟨_, off, _, inside, table₂, _, _⟩ := linked₂
  obtain rfl : off = 0 := by simpa [at₁] using inside
  have at₂ : s₂.inode i = ⟨.dir, 1, [⟨i, dot⟩]⟩ := by simp [table₂, linkIn, at₁, put]
  refine (dirlink_spec O dotdot dp ?_).mono ?_
  · intro e member _
    obtain rfl : e = ⟨i, dot⟩ := by simpa [at₂] using member
    exact ⟨by simp [at₂, Linked], fresh⟩
  rintro r s₃ ⟨moves₃, linked₃⟩
  refine ⟨fun _ => by simp [Fine], fun ok => ?_⟩
  simp only [Bool.not_eq_false] at ok
  subst ok
  obtain ⟨_, off, place, inside, table₃, room, _⟩ := linked₃
  have second : off = 1 := by
    have : off ≤ 1 := by simpa [at₂] using inside
    have : off ≠ 0 := by
      rintro rfl
      have dead := place ⟨i, dot⟩ (by simp [at₂])
      exact nonzero (by simpa [Dirent.live] using dead)
    omega
  subst second
  refine ⟨?_, room, ?_⟩
  · subst counted
    exact ((moves₂.trans moves₃).of_due (add_zero 0)).of_table
  have at₃ : s₃.inode i = ⟨.dir, 1, [⟨i, dot⟩, ⟨dp, dotdot⟩]⟩ := by simp [table₃, linkIn, at₂, put]
  funext j
  by_cases same : j = i
  · subst same
    rw [at₃, update_of_ne ne, update_self]
  rw [table₃, linkIn, update_of_ne same, table₂, linkIn, update_of_ne same, ← counted]
  by_cases same' : j = dp
  · subst same'
    simp
  · simp [same, same']

def newInode (type : FileType) (i dp : Inum) : Dinode := ⟨type, 1, if type = .dir then [⟨i, dot⟩, ⟨dp, dotdot⟩] else []⟩

def counted (type : FileType) (x : Dinode) : Dinode := if type = .dir then { x with nlink := x.nlink + 1 } else x

theorem counted_entries (type : FileType) (x : Dinode) : (counted type x).entries = x.entries := by
  unfold counted
  split_ifs <;> rfl

theorem counted_type (type : FileType) (x : Dinode) : (counted type x).type = x.type := by
  unfold counted
  split_ifs <;> rfl

theorem Sound.counted_nlink (h : Sound s due) (type : FileType) (dir : LinkedDir (s.inode dp)) :
    (counted type (s.inode dp)).nlink.toInt = (s.inode dp).nlink.toInt + if type = .dir then 1 else 0 := by
  have count := h.tree.count dp dir.linked.1
  have small := h.room.links_lt dp
  unfold counted
  split_ifs
  · exact toInt_succ (by omega) (by omega)
  · rw [add_zero]

theorem dots_spec (O : Inum → Prop) (type : FileType) (nonzero : i ≠ 0)
    (fresh : ¬O i) (ne : i ≠ dp) (new : s.inode i = ⟨type, 1, []⟩) :
    Spec (if type = .dir then createDots i dp else return) s Fine fun _ s' => Moves O s s' 0 ∧
      (type = .dir → 2 ≤ DPB * s'.mapped i) ∧
      s'.inode = update (update s.inode i (newInode type i dp)) dp (counted type (s.inode dp)) := by
  unfold newInode counted
  refine .ite (fun isDir => ?_) fun notDir => ?_
  · simp only [if_pos isDir]
    rw [isDir] at new ⊢
    exact (createDots_spec O nonzero fresh ne new).mono fun _ _ ⟨moves, room, table⟩ => ⟨moves, fun _ => room, table⟩
  · simp only [if_neg notDir]
    refine ⟨.refl s, fun isDir => absurd isDir notDir, ?_⟩
    rw [← new, update_eq_self, update_eq_self]

theorem Sound.added (h : Sound s due) {x c : Dinode} {name : Name} {off : Nat} (dir : LinkedDir (s.inode dp))
    (nonzero : i ≠ 0) (notRoot : i ≠ ROOTINO)
    (old : (s.inode i).type = .none ∨ (s.inode i).type = x.type ∧ x.type ≠ .dir)
    (used : x.type ≠ .none) (nlink : x.nlink.toInt = links s.inode i + 1)
    (dots : x.type = .dir → x.entries = [⟨i, dot⟩, ⟨dp, dotdot⟩]) (type : c.type = (s.inode dp).type)
    (nlink' : c.nlink.toInt = (s.inode dp).nlink.toInt + if x.type = .dir then 1 else 0)
    (absent : lookup (s.inode dp) name = none)
    (place : ∀ o, (s.inode dp).entries[off]? = some o → o.live = false) (inside : off ≤ (s.inode dp).entries.length)
    (moves : Moves (Orphan s.inode) s s' due') (keeps : ∀ j, Orphan s.inode j → j ≠ i → 0 ≤ due' j)
    (table : s'.inode = update (update s.inode i x) dp
      { c with entries := put (s.inode dp).entries off ⟨i, cut name⟩ })
    (room : x.entries.length ≤ DPB * s'.mapped i)
    (room' : off < DPB * s'.mapped dp ∧ (s.inode dp).entries.length ≤ DPB * s'.mapped dp) :
    Sound s' (due + due') ∧ Linked (s'.inode i) := by
  obtain ⟨plain, l, adds, shape⟩ := h.tree.put_new dir absent place i
  have adding : Adding s.inode dp i x { c with entries := put (s.inode dp).entries off ⟨i, cut name⟩ } l (cut name) :=
    ⟨h.tree, dir, nonzero, notRoot, plain, adds, old, used, nlink, dots, type.trans dir.1, shape, nlink'⟩
  have atNew : s'.inode i = x := adding.atNew table.symm
  have tree : Tree s'.inode := table ▸ Tree.add adding
  have linkedDir : LinkedDir (s'.inode dp) := (adding.dirs table.symm dir).1
  have linked : Linked (s'.inode i) := by
    rw [atNew]
    exact ⟨used, (nlink_ne_zero_iff _).mpr (by omega)⟩
  have others {j : Inum} (first : j ≠ dp) (second : j ≠ i) : s'.inode j = s.inode j :=
    Adding.others table.symm first second
  refine ⟨h.of moves tree (fun j => ?_) (fun j _ => ?_) (fun j upper _ => ?_) fun j orphan => ?_, linked⟩
  · by_cases first : j = dp
    · subst first
      rw [table, update_self]
      simp only [put]
      split_ifs
      all_goals simp only [List.length_set, List.length_append, List.length_singleton]; omega
    by_cases second : j = i
    · subst second
      rw [atNew]
      exact le_trans room (Nat.le_add_right ..)
    · rw [others first second]
      exact le_trans (h.room.holds j) (Nat.add_le_add_right (Nat.mul_le_mul_left _ (moves.mapped j)) _)
  · by_cases first : j = dp
    · rw [first]
      exact linkedDir.linked.1
    by_cases second : j = i
    · rw [second]
      exact linked.1
    · rwa [others first second]
  · exact (adding.dirs table.symm upper).1
  · have first : j ≠ dp := by
      rintro rfl
      exact linkedDir.2 orphan.2
    have second : j ≠ i := by
      rintro rfl
      exact linked.2 orphan.2
    rw [Orphan, others first second] at orphan
    have := moves.ref j
    have := keeps j orphan second
    have := (h.orphan j orphan).2
    exact ⟨.inl orphan, by omega⟩

theorem createNew_spec {name : Name} (h : Sound s (0 + one dp)) (dir : LinkedDir (s.inode dp)) (used : type ≠ .none) :
    Spec (createNew dp name type) s Fine fun i s' => s'.proc = s.proc ∧ Sound s' (0 + one i) ∧ Linked (s'.inode i) := by
  unfold createNew
  simp only [spec_bind]
  refine (ialloc_spec (Orphan s.inode) type fun i free orphan => orphan.1 free).mono ?_
  rintro i _ ⟨nonzero, free, moves₁, table₁⟩
  have ne : i ≠ dp := by
    rintro rfl
    exact dir.linked.1 free
  refine (ilock_spec (Orphan s.inode) (by simpa [table₁] using used)).mono ?_
  rintro _ s₂ ⟨calm₂, _, _⟩
  simp only [spec_getInode, spec_setInode]
  have table₂ : update s₂.inode i { s₂.inode i with nlink := 1 } = update s.inode i ⟨type, 1, []⟩ := by
    rw [calm₂.inode, table₁, update_idem, update_self]
  rw [table₂]
  refine (dots_spec (Orphan s.inode) type nonzero (fun orphan => orphan.1 free) ne (by simp)).mono ?_
  rintro _ s₃ ⟨moves₃, room₃, table₃⟩
  dsimp only at table₃
  rw [update_idem, update_of_ne ne.symm] at table₃
  have dir₃ : s₃.inode dp = counted type (s.inode dp) := by simp [table₃]
  have linked₃ : (s₃.inode dp).nlink ≠ 0 := by
    have := h.counted_nlink type dir
    have := h.tree.nlink_pos_of_dir dir
    rw [dir₃, nlink_ne_zero_iff]
    split_ifs at * <;> omega
  refine (dirlink_spec (Orphan s.inode) name i ?_).mono ?_
  · rw [dir₃, Closed, counted_entries]
    intro e member live
    obtain ⟨linked, orphan⟩ := h.closed dp dir e member live
    refine ⟨?_, orphan⟩
    by_cases first : e.inum = dp
    · rw [first]
      refine ⟨?_, linked₃⟩
      rw [dir₃, counted_type, dir.1]
      exact FileType.noConfusion
    · have second : e.inum ≠ i := fun same => linked.1 (same ▸ free)
      simpa [table₃, first, second] using linked
  rintro r s₄ ⟨moves₄, linked₄⟩
  rw [spec_panicIf]
  refine ⟨fun _ => by simp [Fine], fun ok => ?_⟩
  simp only [Bool.not_eq_false] at ok
  subst ok
  obtain ⟨absent, _, place, inside, table₄, room₄⟩ := linked₄
  rw [dir₃] at absent place inside room₄
  rw [linkIn, table₃, update_idem, update_self] at table₄
  simp only [lookup, counted_entries] at absent place inside room₄ table₄
  refine (iunlockput_spec (Orphan s.inode) ?_).mono fun _ s₅ calm₅ => ?_
  · rw [table₄, update_self]
    rwa [dir₃] at linked₃
  have moves : Moves (Orphan s.inode) s s₅ (one i - one dp) :=
    ((((moves₁.trans calm₂.toMoves).trans moves₃.of_table).trans moves₄).trans calm₅.toMoves).of_due (by abel)
  have keeps (j : Inum) (orphan : Orphan s.inode j) (_ : j ≠ i) : 0 ≤ (one i - one dp) j := by
    have other : j ≠ dp := by
      rintro rfl
      exact dir.2 orphan.2
    simp only [Pi.sub_apply, one, if_neg other]
    split_ifs <;> decide
  have later : ∀ j, s₄.mapped j ≤ s₅.mapped j := calm₅.mapped
  have notRoot : i ≠ ROOTINO := by
    rintro rfl
    exact h.tree.root.linked.1 free
  have fresh : links s.inode i = 0 := h.tree.links_eq_zero nonzero fun linked => linked.1 free
  have room₅ : (newInode type i dp).entries.length ≤ DPB * s₅.mapped i := by
    unfold newInode
    split_ifs with isDir
    · exact le_trans (room₃ isDir) (Nat.mul_le_mul_left _ ((moves₄.mapped i).trans (later i)))
    · exact Nat.zero_le _
  obtain ⟨sound, linked⟩ := h.added (x := newInode type i dp) (c := counted type (s.inode dp)) dir nonzero notRoot
    (.inl free) used (by rw [fresh]; rfl) (fun isDir => if_pos isDir) (counted_type ..) (h.counted_nlink type dir)
    absent place inside moves keeps (by rw [calm₅.inode, table₄]) room₅
    ⟨lt_of_lt_of_le room₄.1 (Nat.mul_le_mul_left _ (later dp)), le_trans room₄.2 (Nat.mul_le_mul_left _ (later dp))⟩
  refine ⟨moves.proc, ?_, linked⟩
  have same : (0 : Inum → Int) + one dp + (one i - one dp) = 0 + one i := by abel
  rwa [same] at sound

theorem Sound.nameiparent (h : Sound s due) (live : (s.proc t).live = true) (path : Path) :
    Spec (nameiparent t path) s Fine fun r s' => s'.inode = s.inode ∧ s'.proc = s.proc ∧
      match r with
      | none => Sound s' due
      | some (i, name) => Sound s' (due + one i) ∧ LinkedDir (s.inode i) ∧
          resolve s t path = (lookup (s.inode i) name).map fun e => e.2.inum :=
  (namex_spec path true (h.walks live)).mono fun r _ found =>
    match r, found with
    | none, calm => ⟨calm.inode, calm.proc, h.still calm⟩
    | some _, ⟨calm, linked, finds⟩ => ⟨calm.inode, calm.proc, h.gain calm, ⟨finds.1, linked.2⟩, finds.2⟩

theorem create_spec (h : Sound s 0) (live : (s.proc t).live = true) (used : type ≠ .none) :
    Spec (create t path type) s Fine fun r s' => s'.proc = s.proc ∧
      match r with
      | none => Sound s' 0
      | some i => Sound s' (0 + one i) ∧ Linked (s'.inode i) := by
  unfold create
  rw [spec_bind]
  refine (h.nameiparent live path).mono ?_
  rintro r _ ⟨inode₁, proc₁, found⟩
  rcases r with _ | ⟨dp, name⟩
  · exact ⟨proc₁, found⟩
  obtain ⟨h₁, dir, _⟩ := found
  rw [← inode₁] at dir
  simp only [spec_bind]
  refine (h₁.ilock dir.linked.1).mono ?_
  rintro _ s₂ ⟨h₂, inode₂, proc₂⟩
  rw [← inode₂] at dir
  refine (dirlookup_spec (Orphan s₂.inode) name (h₂.closed dp dir)).mono ?_
  rintro r _ ⟨_, found⟩
  cases result : lookup (s₂.inode dp) name with
  | none =>
    rw [result] at found
    obtain ⟨rfl, calm₃, _⟩ := found
    have h₃ := h₂.still calm₃
    rw [← calm₃.inode] at dir
    simp only [spec_bind]
    refine (createNew_spec h₃ dir used).mono ?_
    rintro i s₄ ⟨proc₄, h₄, linked⟩
    exact ⟨by rw [proc₄, calm₃.proc, proc₂, proc₁], h₄, linked⟩
  | some pair =>
    obtain ⟨_, e⟩ := pair
    rw [result] at found
    obtain ⟨rfl, calm₃, _⟩ := found
    obtain ⟨place, alive, _⟩ := lookup_some result
    have linked := h₂.tree.closed dir (List.mem_of_getElem? place) alive
    have h₃ := h₂.gain calm₃
    rw [add_right_comm] at h₃
    simp only [spec_bind]
    refine (h₃.iunlockput (by rw [calm₃.inode]; exact dir.2)).mono ?_
    rintro _ _ ⟨h₄, inode₄, proc₄⟩
    rw [← calm₃.inode, ← inode₄] at linked
    refine (h₄.ilock linked.1).mono ?_
    rintro _ s₅ ⟨h₅, inode₅, proc₅⟩
    rw [← inode₅] at linked
    have procs : s₅.proc = s.proc := by rw [proc₅, proc₄, calm₃.proc, proc₂, proc₁]
    rw [spec_getInode]
    refine .ite (fun _ => ⟨procs, h₅, linked⟩) fun _ => ?_
    rw [spec_bind]
    refine (h₅.iunlockput linked.2).mono ?_
    rintro _ _ ⟨h₆, _, proc₆⟩
    exact ⟨proc₆.trans procs, h₆⟩

theorem sys_make_spec (h : Sound s 0) (live : (s.proc t).live = true)
    (used : type ≠ .none) : Spec (sys_make t path type) s Fine fun _ s' => Sound s' 0 := by
  unfold sys_make
  rw [spec_bind]
  refine (create_spec h live used).mono fun r _ ⟨_, found⟩ => ?_
  match r, found with
  | none, h₁ => exact h₁
  | some ip, ⟨h₁, linked⟩ => exact spec_bind.mpr ((h₁.iunlockput linked.2).mono fun _ _ ⟨h₂, _⟩ => h₂)

theorem openFile_spec (h : Sound s (0 + one ip)) (linked : Linked (s.inode ip)) :
    Spec (openFile t ip) s Fine fun _ s' => Sound s' 0 := by
  unfold openFile filealloc
  simp only [spec_bind, spec_get]
  cases found : (List.finRange NFILE).find? fun f => (s.file f).ref = 0 with
  | none => exact spec_bind.mpr ((h.iunlockput linked.2).mono fun _ s₂ both => both.1)
  | some f =>
    have zero : (s.file f).ref = 0 := by simpa using List.find?_some found
    have none := h.idle f zero
    simp only [spec_bind, spec_set, spec_pure]
    generalize alloc : { s with file := update s.file f { s.file f with ref := 1 } } = s₁
    have inode₁ : s₁.inode = s.inode := by rw [← alloc]
    have file₁ : s₁.file f = ⟨1, .none⟩ := by simp [← alloc, none]
    have h₁ : Sound s₁ (0 + one ip) := by
      rw [← alloc]
      refine h.setFile (fun i => ?_) (fun i _ same => ?_) (by simp)
      · simp [atFile, none]
      · rw [none] at same
        cases same
    rw [← inode₁] at linked
    unfold fdalloc
    simp only [spec_bind, spec_get]
    cases free : (List.finRange NOFILE).find? fun fd => (s₁.proc t).ofile fd = .none with
    | none =>
      simp only [spec_bind, spec_pure]
      have nonneg (i : Inum) : 0 ≤ ((0 : Inum → Int) + one ip) i := by
        simp only [Pi.add_apply, Pi.zero_apply, one]
        split_ifs <;> decide
      refine (h₁.fileclose nonneg f).mono ?_
      rintro _ _ ⟨h₂, _, kept⟩
      refine (h₂.iunlockput (by rw [kept ip linked.2]; exact linked.2)).mono ?_
      rintro _ s₃ ⟨h₃, _⟩
      exact h₃
    | some fd =>
      simp only [spec_bind, spec_set, spec_pure, spec_modify]
      have h₂ := h₁.setFd t fd (some f)
      refine (iunlock_spec (Orphan s₁.inode) ip).mono ?_
      rintro _ s₃ ⟨calm, _, _⟩
      have file₃ : s₃.file f = ⟨1, .none⟩ := by
        rw [calm.file]
        exact file₁
      refine (h₂.still calm).setFile (fun i => ?_) (fun i _ same => ?_) (by simp [file₃])
      · simp [atFile, file₃, one, eq_comm]
      · cases same
        rw [calm.inode]
        exact linked.1

theorem sys_open_spec {omode : Nat} (h : Sound s 0) (live : (s.proc t).live = true) :
    Spec (sys_open t path omode) s Fine fun _ s' => Sound s' 0 := by
  unfold sys_open
  refine .ite (fun _ => ?_) fun _ => ?_
  · rw [spec_bind]
    refine (create_spec h live (by simp)).mono ?_
    rintro r s₁ ⟨_, found⟩
    cases r with
    | none => exact found
    | some => exact openFile_spec found.1 found.2
  rw [spec_bind]
  refine (h.namei live path).mono ?_
  rintro r _ ⟨inode₁, _, found⟩
  cases r with
  | none => exact found
  | some =>
    obtain ⟨h₁, linked⟩ := found
    rw [← inode₁] at linked
    simp only [spec_bind]
    refine (h₁.ilock linked.1).mono ?_
    rintro _ _ ⟨h₂, inode₂, _⟩
    rw [← inode₂] at linked
    rw [spec_getInode]
    refine .ite (fun _ => ?_) fun _ => openFile_spec h₂ linked
    exact spec_bind.mpr ((h₂.iunlockput linked.2).mono fun _ _ both => both.1)

section Link

def raised (x : Dinode) : Dinode := { x with nlink := x.nlink + 1 }

variable (h : Sound s 0) (linked : Linked (s.inode ip))
include h linked

theorem raised_nlink : (raised (s.inode ip)).nlink.toInt = links s.inode ip + 1 := by
  have count := h.tree.count ip linked.1
  have small := h.room.links_lt ip
  rw [raised, toInt_succ (by omega) (by omega), count]

theorem raised_linked : Linked (raised (s.inode ip)) := by
  have := raised_nlink h linked
  exact ⟨linked.1, (nlink_ne_zero_iff _).mpr (by omega)⟩

theorem raised_closed (notDir : (s.inode ip).type ≠ .dir)
    (table : s'.inode = update s.inode ip (raised (s.inode ip))) (d : Inum)
    (dir : LinkedDir (s'.inode d)) :
    d ≠ ip ∧ LinkedDir (s.inode d) ∧ Closed (Orphan s.inode) (s'.inode d) s'.inode := by
  have other : d ≠ ip := by
    rintro rfl
    rw [table, update_self] at dir
    exact notDir dir.1
  rw [table, update_of_ne other] at dir ⊢
  refine ⟨other, dir, fun e member live => ?_⟩
  obtain ⟨_, orphan⟩ := h.closed d dir e member live
  refine ⟨?_, orphan⟩
  by_cases same : e.inum = ip
  · rw [same, update_self]
    exact raised_linked h linked
  · rwa [update_of_ne same]

theorem linkBad_spec (moves : Moves (Orphan s.inode) s s' (one ip))
    (table : s'.inode = update s.inode ip (raised (s.inode ip))) :
    Spec (linkBad ip) s' Fine fun _ s'' => Sound s'' 0 := by
  unfold linkBad
  simp only [spec_bind]
  have here : s'.inode ip = raised (s.inode ip) := by simp [table]
  refine (ilock_spec (Orphan s.inode) (by rw [here]; exact linked.1)).mono ?_
  rintro _ s₁ ⟨calm₁, _, _⟩
  simp only [spec_getInode, spec_setInode]
  have back : update s₁.inode ip { s₁.inode ip with nlink := (s₁.inode ip).nlink - 1 } = s.inode := by
    rw [calm₁.inode, table, update_idem, update_self]
    simp only [raised, Int16.add_sub_cancel]
    exact update_eq_self ip s.inode
  rw [back]
  refine (iunlockput_spec (s := { s₁ with inode := s.inode }) (Orphan s.inode) linked.2).mono fun _ _ calm₂ => ?_
  exact h.still ⟨((moves.trans calm₁.toMoves).trans calm₂.toMoves.of_table).of_due (by abel), calm₂.inode⟩

theorem linkAt_spec (notDir : (s.inode ip).type ≠ .dir) {dp : Inum}
    (name : Name) (moves : Moves (Orphan s.inode) s s' (one ip + one dp))
    (table : s'.inode = update s.inode ip (raised (s.inode ip))) (dir : LinkedDir (s'.inode dp)) :
    Spec (linkAt dp name ip) s' Fine fun _ s'' => Sound s'' 0 := by
  unfold linkAt
  simp only [spec_bind]
  refine (ilock_spec (Orphan s.inode) dir.linked.1).mono ?_
  rintro _ s₁ ⟨calm₁, _, _⟩
  have table₁ := calm₁.inode.trans table
  rw [← calm₁.inode] at dir
  obtain ⟨other, oldDir, closed⟩ := raised_closed h linked notDir table₁ dp dir
  have dir₁ : s₁.inode dp = s.inode dp := by rw [table₁, update_of_ne other]
  refine (dirlink_spec (Orphan s.inode) name ip closed).mono ?_
  rintro r _ ⟨moves₂, found⟩
  cases r with
  | false =>
    simp only [Bool.false_eq_true, if_false, spec_bind]
    refine (iunlockput_spec (Orphan s.inode) (by rw [found]; exact dir.2)).mono fun _ s₃ calm₃ => ?_
    refine linkBad_spec h linked ?_ ((calm₃.inode.trans found).trans table₁)
    exact (((moves.trans calm₁.toMoves).trans moves₂).trans calm₃.toMoves).of_due (by abel)
  | true =>
    obtain ⟨absent, _, place, inside, table₂, room⟩ := found
    rw [dir₁] at absent place inside room
    rw [linkIn, dir₁, table₁] at table₂
    simp only [if_true, spec_bind, spec_pure]
    refine (iunlockput_spec (Orphan s.inode) (by rw [table₂, update_self]; exact oldDir.2)).mono fun _ s₃ calm₃ => ?_
    have before := ((moves.trans calm₁.toMoves).trans moves₂).trans calm₃.toMoves
    have held : 0 < s₃.ref ip := by
      have := before.ref ip
      simp only [Pi.add_apply, Pi.neg_apply, Pi.zero_apply, one, if_true] at this
      omega
    have raisedNow : s₃.inode ip = raised (s.inode ip) := by simp [calm₃.inode, table₂, Ne.symm other]
    refine (iput_spec (Orphan s.inode) (by rw [raisedNow]; exact (raised_linked h linked).2) held).mono
      fun _ s₄ calm₄ => ?_
    have total : Moves (Orphan s.inode) s s₄ 0 := (before.trans calm₄.toMoves).of_due (by abel)
    have later := (calm₃.trans calm₄).mapped
    have notRoot : ip ≠ ROOTINO := by
      rintro rfl
      exact notDir h.tree.root.1
    have room' : (s.inode ip).entries.length ≤ DPB * s₄.mapped ip := by
      have := h.room.holds ip
      rw [if_neg notRoot, add_zero] at this
      exact le_trans this (Nat.mul_le_mul_left _ (total.mapped ip))
    obtain ⟨sound, _⟩ := h.added (x := raised (s.inode ip)) (c := s.inode dp) oldDir (h.tree.nonzero linked.1) notRoot
      (.inr ⟨rfl, notDir⟩) linked.1 (raised_nlink h linked) (fun isDir => absurd isDir notDir) rfl
      (by rw [if_neg (show ¬(raised (s.inode ip)).type = .dir from notDir), add_zero]) absent place inside total
      (fun _ _ _ => le_rfl) (by rw [calm₄.inode, calm₃.inode, table₂]) room'
      ⟨lt_of_lt_of_le room.1 (Nat.mul_le_mul_left _ (later dp)), le_trans room.2 (Nat.mul_le_mul_left _ (later dp))⟩
    rwa [add_zero] at sound

end Link

theorem sys_link_spec {old new : Path} (h : Sound s 0) (live : (s.proc t).live = true) :
    Spec (sys_link t old new) s Fine fun _ s' => Sound s' 0 := by
  unfold sys_link
  rw [spec_bind]
  refine (namei_spec old (h.walks live)).mono fun r _ found => ?_
  cases r with
  | none => exact h.still found
  | some ip =>
    obtain ⟨calm₁, linked⟩ := found
    simp only [spec_bind]
    refine (ilock_spec (Orphan s.inode) (by rw [calm₁.inode]; exact linked.1)).mono ?_
    rintro _ _ ⟨calm₂, _, _⟩
    have calm := (calm₁.trans calm₂).of_due (add_zero _)
    rw [spec_getInode, calm.inode]
    refine .ite (fun _ => ?_) fun notDir => ?_
    · rw [spec_bind]
      refine (iunlockput_spec (Orphan s.inode) (by rw [calm.inode]; exact linked.2)).mono fun _ s₃ calm₃ => ?_
      exact h.still ((calm.trans calm₃).of_due (add_neg_cancel _))
    simp only [spec_bind, spec_setInode]
    refine (iunlock_spec (Orphan s.inode) ip).mono ?_
    rintro _ s₃ ⟨calm₃, _, _⟩
    have moves₃ : Moves (Orphan s.inode) s s₃ (one ip) :=
      (calm.toMoves.trans calm₃.toMoves.of_table).of_due (add_zero _)
    have table₃ : s₃.inode = update s.inode ip (raised (s.inode ip)) := by
      rw [calm₃.inode, calm.inode]
      rfl
    have keep {i : Inum} (isLinked : Linked (s.inode i)) : Linked (s₃.inode i) := by
      rw [table₃]
      by_cases same : i = ip
      · rw [same, update_self]
        exact raised_linked h linked
      · rwa [update_of_ne same]
    have walks : Walks (Orphan s.inode) s₃ t := by
      refine ⟨fun d dir => (raised_closed h linked notDir table₃ d dir).2.2,
        ⟨keep h.tree.root.linked, h.tree.root.linked.not_orphan⟩, ?_⟩
      rw [moves₃.proc]
      exact keep (h.cwd t live).linked
    unfold nameiparent
    refine (namex_spec new true walks).mono fun r _ found => ?_
    rcases r with _ | ⟨dp, name⟩
    · exact linkBad_spec h linked ((moves₃.trans found.toMoves).of_due (add_zero _)) (found.inode.trans table₃)
    obtain ⟨calm₄, target, finds⟩ := found
    refine linkAt_spec h linked notDir name (moves₃.trans calm₄.toMoves) (calm₄.inode.trans table₃) ?_
    rw [calm₄.inode]
    exact ⟨finds.1, target.2⟩

theorem iunlockput_fine (i : Inum) : Spec (iunlockput i) s Fine fun _ _ => True := by
  unfold iunlockput
  rw [spec_bind]
  refine (iunlock_spec (Orphan s.inode) i).mono fun _ s₁ ⟨_, _, held⟩ => ?_
  by_cases last : s₁.valid i = true ∧ (s₁.inode i).nlink = 0 ∧ s₁.ref i = 1
  · exact (iput_spec_freed last).mono fun _ _ _ => trivial
  · exact (iput_spec_kept (Orphan s.inode) last held).mono fun _ _ _ => trivial

theorem Moves.weaken {O' : Inum → Prop} (h : Moves O' s s' due) (le : ∀ i, O i → O' i) : Moves O s s' due :=
  ⟨h.file, h.proc, h.ref, fun i orphan => h.valid i (le i orphan), h.mapped, h.blocks⟩

section Unlink

variable {name : Name} {off : Nat} {e : Dirent}

def lowered (x y : Dinode) (off : Nat) : Dinode :=
  if y.type = .dir then { x with entries := put x.entries off ⟨0, []⟩, nlink := x.nlink - 1 }
  else { x with entries := put x.entries off ⟨0, []⟩ }

variable (h : Sound s 0) (dir : LinkedDir (s.inode dp)) (found : lookup (s.inode dp) name = some (off, e))
  (plain : cut name ≠ dot ∧ cut name ≠ dotdot)
  (empty : (s.inode e.inum).type = .dir → ∀ o ∈ rest (s.inode e.inum), o.live = false)
include h dir found plain empty

theorem lowered_nlink : (lowered (s.inode dp) (s.inode e.inum) off).nlink.toInt =
    (s.inode dp).nlink.toInt - (if (s.inode e.inum).type = .dir then 1 else 0) ∧
    1 ≤ (lowered (s.inode dp) (s.inode e.inum) off).nlink.toInt := by
  obtain ⟨member, _⟩ := h.tree.put_old dir found plain
  have live := (lookup_some found).2.1
  have pos := h.tree.nlink_pos_of_dir dir
  have count := h.tree.count dp dir.linked.1
  have small := h.room.links_lt dp
  unfold lowered
  split_ifs with isDir
  · have := h.tree.two_le_nlink dir member live isDir (empty isDir)
    simp only
    rw [toInt_pred (by omega) (by omega)]
    omega
  · simp only
    omega

theorem lowered_linked : LinkedDir (lowered (s.inode dp) (s.inode e.inum) off) := by
  refine ⟨?_, (nlink_ne_zero_iff _).mpr ?_⟩
  · unfold lowered
    split_ifs <;> exact dir.1
  · have := (lowered_nlink h dir found plain empty).2
    omega

theorem removed_apart : e.inum ≠ dp := by
  rintro same
  obtain ⟨member, _⟩ := h.tree.put_old dir found plain
  have live := (lookup_some found).2.1
  have dead := empty (same ▸ dir.1) e (same ▸ member)
  rw [dead] at live
  cases live

theorem Sound.removed (moves : Moves (Orphan s.inode) s s' (one e.inum)) (valid : s'.valid e.inum = true)
    (table : s'.inode = update (update s.inode e.inum
      { s.inode e.inum with nlink := (s.inode e.inum).nlink - 1 }) dp (lowered (s.inode dp) (s.inode e.inum) off))
    (unused : ∀ r, (s.proc r).live = true → (s.proc r).cwd ≠ e.inum) : Sound s' (0 + one e.inum) := by
  obtain ⟨member, l, drops, shape⟩ := h.tree.put_old dir found plain
  have live := (lookup_some found).2.1
  have target := h.tree.linked_of_mem dir member live
  have count := h.tree.count e.inum target.1
  have small := h.room.links_lt e.inum
  have nonzero := (nlink_ne_zero_iff _).mp target.2
  have ne := removed_apart h dir found plain empty
  have still := lowered_linked h dir found plain empty
  have entries : (lowered (s.inode dp) (s.inode e.inum) off).entries = put (s.inode dp).entries off ⟨0, []⟩ := by
    unfold lowered
    split_ifs <;> rfl
  have tree : Tree s'.inode := by
    rw [table]
    refine h.tree.remove dir member live drops empty ⟨rfl, rfl⟩ ?_ still.1
      (entries.trans shape) (lowered_nlink h dir found plain empty).1
    exact toInt_pred (by omega) (by omega)
  have atDir : s'.inode dp = lowered (s.inode dp) (s.inode e.inum) off := by simp [table]
  have atOld : s'.inode e.inum = { s.inode e.inum with nlink := (s.inode e.inum).nlink - 1 } := by simp [table, ne]
  have others {j : Inum} (first : j ≠ dp) (second : j ≠ e.inum) : s'.inode j = s.inode j := by
    simp [table, first, second]
  refine h.of moves tree (fun j => ?_) (fun j _ => ?_) (fun j _ ⟨r, alive, same⟩ => ?_) fun j orphan => ?_
  · have before := le_trans (h.room.holds j) (Nat.add_le_add_right (Nat.mul_le_mul_left _ (moves.mapped j)) _)
    by_cases first : j = dp
    · subst first
      rw [atDir, entries, put, if_pos (List.getElem?_eq_some_iff.mp (lookup_some found).1).1, List.length_set]
      exact before
    by_cases second : j = e.inum
    · subst second
      rw [atOld]
      exact before
    · rw [others first second]
      exact before
  · by_cases first : j = dp
    · rw [first, atDir]
      exact still.linked.1
    by_cases second : j = e.inum
    · rw [second, atOld]
      exact target.1
    · rwa [others first second]
  · by_cases first : j = dp
    · rw [first, atDir]
      exact still
    · have second : j ≠ e.inum := fun this => unused r alive (same.trans this)
      rwa [others first second]
  · have first : j ≠ dp := by
      rintro rfl
      rw [Orphan, atDir] at orphan
      exact still.2 orphan.2
    have ref := moves.ref j
    by_cases second : j = e.inum
    · subst second
      simp only [one, if_true] at ref
      exact ⟨.inr valid, by omega⟩
    rw [Orphan, others first second] at orphan
    have := (h.orphan j orphan).2
    simp only [one, if_neg second] at ref
    exact ⟨.inl orphan, by omega⟩

theorem unlinkEntry_spec (moves : Moves (Orphan s.inode) s s' (one dp + one e.inum)) (table : s'.inode = s.inode)
    (valid : s'.valid e.inum = true) (front : off ≤ DPB * s'.mapped dp) :
    Spec (unlinkEntry dp e.inum off) s' Fine fun _ s'' =>
      (∀ r, (s.proc r).live = true → (s.proc r).cwd ≠ e.inum) → Sound s'' 0 := by
  -- the inode stays valid too while the directory is changed
  let O (j : Inum) : Prop := Orphan s.inode j ∨ j = e.inum
  have ne := removed_apart h dir found plain empty
  have still := lowered_linked h dir found plain empty
  unfold unlinkEntry
  simp only [spec_bind, spec_getInode, spec_setInode]
  refine (bmap_spec O dp (Nat.div_le_of_le_mul front)).mono ?_
  rintro _ s₁ ⟨calm₁, _⟩
  have table₁ : s₁.inode = s.inode := calm₁.inode.trans table
  rw [table₁]
  refine (iunlockput_spec O ?_).mono fun _ s₂ calm₂ => ?_
  · simp only [update_self]
    exact still.2
  have table₂ : s₂.inode = update s.inode dp (lowered (s.inode dp) (s.inode e.inum) off) := calm₂.inode
  have atOld : s₂.inode e.inum = s.inode e.inum := by rw [table₂, update_of_ne ne]
  rw [atOld]
  by_cases unused : ∀ r, (s.proc r).live = true → (s.proc r).cwd ≠ e.inum
  · have later : Moves O s' s₂ (-one dp) := (calm₁.toMoves.trans calm₂.toMoves.of_table).of_due (zero_add _)
    have total : Moves (Orphan s.inode) s s₂ (one e.inum) := (moves.trans (later.weaken fun _ => .inl)).of_due (by abel)
    generalize fewer : ({ s.inode e.inum with nlink := (s.inode e.inum).nlink - 1 } : Dinode) = x
    generalize lowerLink : { s₂ with inode := update s₂.inode e.inum x } = s₃
    have sound : Sound s₃ (0 + one e.inum) := by
      subst lowerLink fewer
      refine Sound.removed h dir found plain empty
        ⟨total.file, total.proc, total.ref, total.valid, total.mapped, total.blocks⟩
        (later.valid e.inum (.inr rfl) valid) ?_ unused
      simp only [table₂]
      exact update_comm ne.symm ..
    unfold iunlockput
    rw [spec_bind]
    refine (sound.iunlock e.inum).mono ?_
    rintro _ _ ⟨h₄, _⟩
    have mine : 1 ≤ ((0 : Inum → Int) + one e.inum) e.inum := by simp [one]
    refine (h₄.iput (h₄.held_of_due mine) (.inr mine)).mono ?_
    rintro _ _ ⟨h₅, _⟩ _
    rwa [add_sub_cancel_right] at h₅
  · exact (iunlockput_fine e.inum).mono fun _ _ _ all => absurd all unused


end Unlink

theorem isdirempty_spec (O : Inum → Prop) (front : 2 ≤ DPB * s.mapped ip) :
    Spec (isdirempty ip) s Fine fun r s' => Calm O s s' 0 ∧ (r = true → ∀ o ∈ rest (s.inode ip), o.live = false) := by
  unfold isdirempty
  simp only [spec_bind, spec_getInode, spec_pure]
  refine (scan_spec O Dirent.live ((s.inode ip).entries.drop 2) front).mono ?_
  rintro r _ ⟨same, calm, _⟩
  refine ⟨calm, fun isNone => ?_⟩
  subst same
  exact seek_none (Option.isNone_iff_eq_none.mp isNone)

theorem sys_unlink_spec (h : Sound s 0) (live : (s.proc t).live = true) : Spec (sys_unlink t path) s Fine fun _ s' =>
      (∀ r, (s.proc r).live = true → resolve s t path ≠ some (s.proc r).cwd) → Sound s' 0 := by
  unfold sys_unlink nameiparent
  rw [spec_bind]
  refine (namex_spec path true (h.walks live)).mono fun r _ found => ?_
  rcases r with _ | ⟨dp, name⟩
  · exact fun _ => h.still found
  obtain ⟨calm₁, linked, finds⟩ := found
  have dir : LinkedDir (s.inode dp) := ⟨finds.1, linked.2⟩
  have bad {s' : State n} (calm : Calm (Orphan s.inode) s s' (one dp)) : Spec (sys_unlink.bad dp) s' Fine fun _ s'' =>
        (∀ r, (s.proc r).live = true → resolve s t path ≠ some (s.proc r).cwd) → Sound s'' 0 := by
    unfold sys_unlink.bad
    rw [spec_bind]
    refine (iunlockput_spec (Orphan s.inode) (by rw [calm.inode]; exact dir.2)).mono fun _ s₂ calm₂ _ => ?_
    exact h.still ((calm.trans calm₂).of_due (add_neg_cancel _))
  simp only [spec_bind]
  refine (ilock_spec (Orphan s.inode) (by rw [calm₁.inode]; exact linked.1)).mono ?_
  rintro _ _ ⟨calm₂, _, _⟩
  have calm := (calm₁.trans calm₂).of_due (add_zero _)
  refine .ite (fun _ => bad calm) fun plain => ?_
  rw [not_or, namecmp_iff, namecmp_iff, cut_dot, cut_dotdot] at plain
  rw [spec_bind]
  refine (dirlookup_spec (Orphan s.inode) name (by rw [calm.inode]; exact h.closed dp dir)).mono ?_
  rintro r _ ⟨_, found⟩
  rw [calm.inode] at found
  cases result : lookup (s.inode dp) name with
  | none =>
    rw [result] at found
    obtain ⟨rfl, calm₃, _⟩ := found
    exact bad ((calm.trans calm₃).of_due (add_zero _))
  | some pair =>
    obtain ⟨_, e⟩ := pair
    rw [result] at found
    obtain ⟨rfl, calm₃, front⟩ := found
    obtain ⟨_, alive, _⟩ := lookup_some result
    obtain ⟨member, _⟩ := h.tree.put_old dir result plain
    have target := h.tree.linked_of_mem dir member alive
    have calm := calm.trans calm₃
    simp only [spec_bind]
    refine (ilock_spec (Orphan s.inode) (by rw [calm.inode]; exact target.1)).mono ?_
    rintro _ s₄ ⟨calm₄, valid₄, _⟩
    have calm := (calm.trans calm₄).of_due (add_zero _)
    rw [spec_getInode, spec_panicIf, calm.inode]
    refine ⟨fun _ => by simp [Fine], fun _ => ?_⟩
    have ends := finds.2
    rw [result] at ends
    have notRoot := (h.tree.plain dp e dir member alive).2.2.1
    have tested : Spec (if (s.inode e.inum).type = .dir then isdirempty e.inum else return true) s₄ Fine fun r s' =>
        Calm (fun j => Orphan s.inode j ∨ j = e.inum) s₄ s' 0 ∧
          (r = true → (s.inode e.inum).type = .dir → ∀ o ∈ rest (s.inode e.inum), o.live = false) := by
      refine .ite (fun isDir => ?_) fun notDir => ⟨.refl s₄, fun _ isDir => absurd isDir notDir⟩
      have front : 2 ≤ DPB * s₄.mapped e.inum := by
        have holds := h.room.holds e.inum
        rw [if_neg notRoot, h.tree.shape e.inum ⟨isDir, target.2⟩] at holds
        have := Nat.mul_le_mul_left DPB (calm.mapped e.inum)
        simp only [List.length_cons] at holds
        omega
      refine (isdirempty_spec (fun j => Orphan s.inode j ∨ j = e.inum) front).mono ?_
      rintro r s₅ ⟨calm₅, empty⟩
      refine ⟨calm₅, fun yes _ => ?_⟩
      rw [calm.inode] at empty
      exact empty yes
    refine tested.mono ?_
    rintro r s₅ ⟨calm₅, empty⟩
    have calm' : Calm (Orphan s.inode) s s₅ (one dp + one e.inum) :=
      ⟨(calm.toMoves.trans (calm₅.toMoves.weaken fun _ => .inl)).of_due (add_zero _), calm₅.inode.trans calm.inode⟩
    cases r with
    | true =>
      simp only [if_true, spec_bind, spec_pure]
      have valid := calm₅.valid e.inum (.inr rfl) valid₄
      have front' := le_trans front (Nat.mul_le_mul_left DPB ((calm₄.mapped dp).trans (calm₅.mapped dp)))
      refine (unlinkEntry_spec h dir result plain (empty rfl) calm'.toMoves calm'.inode valid front').mono
        fun _ s₆ sound unused => sound fun r alive same => unused r alive ?_
      rw [same]
      exact ends
    | false =>
      simp only [Bool.false_eq_true, if_false, spec_bind]
      refine (iunlockput_spec (Orphan s.inode) (by rw [calm'.inode]; exact target.2)).mono fun _ _ calm₆ => ?_
      exact bad ((calm'.trans calm₆).of_due (by abel))


end Xv6.Namespace
