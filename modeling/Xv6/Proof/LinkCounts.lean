import Xv6.Proof.NamespaceCalls

/-!
# Names and link counts in every run

From a consistent image, and in particular from one that `mkfs` has made, the invariant of the directory tree holds
after every sequence of calls in which no `unlink` names the current directory of a process. Without this it does not:
the directory stays in use without a name, and its `..` goes on naming a parent that no longer counts it.
-/

namespace Xv6.Namespace
open Xv6.Library Xv6.Directory

variable {n : Nat} {s u : State n} {initproc t : Fin n} {T : Table} {d i : Inum} {image : Image} {k : Nat}

/-- An `unlink` does not name the current directory of a process. -/
def SparesCwd (s : State n) (e : Fin n × Call n) : Prop :=
  match e.2 with
  | .unlink path => ∀ r, (s.proc r).live = true → resolve s e.1 path ≠ some (s.proc r).cwd
  | .open .. | .mkdir _ | .mknod _ | .link .. | .chdir _ | .close _ | .fork _ | .exit => True

instance (s : State n) (e : Fin n × Call n) : Decidable (SparesCwd s e) := by
  unfold SparesCwd
  split <;> infer_instance

theorem call_spec (c : Call n) (h : Sound s 0) (live : (s.proc t).live = true) :
    Spec (call initproc t c) s Fine fun _ s' => SparesCwd s (t, c) → Sound s' 0 := by
  cases c with
  | «open» path omode => exact (sys_open_spec h live).mono fun _ _ sound _ => sound
  | mkdir | mknod => exact (sys_make_spec h live (by simp)).mono fun _ _ sound _ => sound
  | link => exact (sys_link_spec h live).mono fun _ _ sound _ => sound
  | unlink => exact sys_unlink_spec h live
  | chdir path => exact (sys_chdir_spec path h live).mono fun _ _ sound _ => sound
  | close fd => exact (sys_close_spec fd h).mono fun _ _ sound _ => sound
  | fork => exact (fork_spec h live).mono fun _ _ sound _ => sound
  | exit => exact (exit_spec h live).mono fun _ _ sound _ => sound

theorem Sound.step {e : Fin n × Call n} (h : Sound s 0) (spares : SparesCwd s e) (action : step initproc s e = some u) :
    Sound u 0 := by
  obtain ⟨live, rest⟩ := Option.ite_none_right_eq_some.mp action
  have spec : Spec (call initproc e.1 e.2) s Fine _ := call_spec e.2 h live
  cases result : call initproc e.1 e.2 s with
  | error =>
    rw [result] at rest
    cases rest
  | ok =>
    rw [result] at rest
    cases rest
    exact spec.ok result spares

/-- A file system in which every inode has the names that it counts. -/
structure Consistent (image : Image) : Prop where
  tree : Tree image.inode
  room : Room image.inode image.mapped image.free
  linked : ∀ i, (image.inode i).type ≠ .none → (image.inode i).nlink ≠ 0

theorem Consistent.boot (h : Consistent image) (initproc : Fin n) : Sound (boot initproc image) 0 := by
  refine ⟨h.tree, h.room, fun i => ?_, fun i orphan => absurd orphan.2 (h.linked i orphan.1),
    fun f i open_ => ?_, fun _ _ => h.tree.root,
    fun _ _ => rfl⟩
  · have cwds : ∑ t, atCwd ((Namespace.boot initproc image).proc t) i = if i = ROOTINO then 1 else 0 := by
      rw [Finset.sum_eq_single initproc]
      · simp [Namespace.boot, atCwd, eq_comm]
      · intro t _ other
        simp [Namespace.boot, atCwd, other]
      · simp
    have files : ∑ f, atFile ((Namespace.boot initproc image).file f) i = 0 := by simp [Namespace.boot, atFile]
    rw [cwds, files]
    simp [Namespace.boot]
  · simp [Namespace.boot] at open_

theorem sound {calls : List (Fin n × Call n)} (consistent : Consistent image)
    (run : exec (step initproc) (boot initproc image) calls = some s)
    (spares : ∀ e ∈ trace (step initproc) (boot initproc image) calls, SparesCwd e.1 e.2) : Sound s 0 :=
  exec_invariant (P := SparesCwd) (I := fun s => Sound s 0) (fun _ _ _ h spares action => h.step spares action)
    (consistent.boot initproc) run spares

theorem Sound.linked_of_resolve (h : Sound s 0) (live : (s.proc t).live = true)
    {path : Path} (found : resolve s t path = some i) :
    Linked (s.inode i) := by
  have walk (fuel : Nat) (ip : Inum) (path : Path) (linked : Linked (s.inode ip))
      (found : resolveFrom s.inode fuel ip path = some i) : Linked (s.inode i) := by
    induction fuel generalizing ip path with
    | zero =>
      cases found
      exact linked
    | succ _ ih =>
      rw [resolveFrom] at found
      cases elem : skipelem path with
      | none =>
        rw [elem] at found
        cases found
        exact linked
      | some pair =>
        rw [elem] at found
        obtain ⟨isDir, found⟩ := Option.ite_none_right_eq_some.mp found
        obtain ⟨⟨_, e⟩, entry, found⟩ := Option.bind_eq_some_iff.mp found
        obtain ⟨place, alive, _⟩ := lookup_some entry
        exact ih e.inum pair.2 (h.tree.closed ⟨isDir, linked.2⟩ (List.mem_of_getElem? place) alive) found
  refine walk path.length (origin s t path) path ?_ found
  unfold origin
  split_ifs
  · exact h.tree.root.linked
  · exact (h.cwd t live).linked

structure Fits (files : List (Name × Nat)) : Prop where
  inodes : files.length + 2 ≤ NINODES
  blocks : blocks ((files.length + 2 + DPB - 1) / DPB) + (files.map fun x => Namespace.blocks x.2).sum ≤ FSSIZE - nmeta
  names : ∀ x ∈ files, x.1 ≠ dot ∧ x.1 ≠ dotdot

section Mkfs

variable {files : List (Name × Nat)}

theorem cut_ne {name short : Name} (less : short.length < DIRSIZ) (ne : name ≠ short) : cut name ≠ short := by
  rintro rfl
  rw [cut, List.length_take] at less
  exact ne (List.take_of_length_le (by omega)).symm

def fileEntries (files : List (Name × Nat)) (k : Nat) : List Dirent :=
  files.mapIdx fun i x => ⟨Fin.ofNat NINODES (i + k), cut x.1⟩

theorem fileEntries_cons (x : Name × Nat) (files : List (Name × Nat)) (k : Nat) :
    fileEntries (x :: files) k = ⟨Fin.ofNat NINODES k, cut x.1⟩ :: fileEntries files (k + 1) := by
  simp only [fileEntries, List.mapIdx_cons, Nat.zero_add, Nat.add_right_comm, Nat.add_assoc]

theorem names_fileEntries (fits : k + files.length ≤ NINODES) (j : Inum) :
    names (fileEntries files k) j = if k ≤ j.val ∧ j.val < k + files.length then 1 else 0 := by
  induction files generalizing k with
  | nil =>
    rw [if_neg (by simp)]
    rfl
  | cons x _ ih =>
    rw [List.length_cons] at fits
    have small : k % NINODES = k := Nat.mod_eq_of_lt (by omega)
    have same : Fin.ofNat NINODES k = j ↔ k = j.val := by
      rw [Fin.ext_iff, Fin.val_ofNat, small]
    rw [fileEntries_cons, names_cons, ih (by omega), if_congr same rfl rfl, List.length_cons]
    split_ifs <;> omega

theorem mem_fileEntries {e : Dirent} (member : e ∈ fileEntries files k) :
    ∃ i x, i < files.length ∧ x ∈ files ∧ e = ⟨Fin.ofNat NINODES (i + k), cut x.1⟩ := by
  obtain ⟨i, inside, same⟩ := List.mem_mapIdx.mp member
  exact ⟨i, files[i], inside, List.getElem_mem inside, same.symm⟩

theorem mkfs_root (files : List (Name × Nat)) : (mkfs files).inode ROOTINO = ⟨.dir, 1, rootDirectory files⟩ := by
  simp [mkfs]

theorem rootDirectory_shape (files : List (Name × Nat)) :
    ∃ k, rootDirectory files = ⟨ROOTINO, dot⟩ :: ⟨ROOTINO, dotdot⟩ ::
      (fileEntries files 2 ++ List.replicate k ⟨0, []⟩) ∧
      files.length + 2 + k ≤ DPB * ((files.length + 2 + DPB - 1) / DPB) + DPB := by
  refine ⟨DPB - (files.length + 2) % DPB, by simp [rootDirectory, fileEntries], ?_⟩
  unfold DPB
  omega

theorem mkfs_dir (dir : ((mkfs files).inode d).type = .dir) : d = ROOTINO := by
  by_contra other
  simp only [mkfs, if_neg other] at dir
  split_ifs at dir

theorem mkfs_file {i : Nat} (inside : i < files.length) (fits : files.length + 2 ≤ NINODES) :
    (mkfs files).inode (Fin.ofNat NINODES (i + 2)) = ⟨.file, 1, []⟩ ∧ Fin.ofNat NINODES (i + 2) ≠ ROOTINO := by
  have small : (Fin.ofNat NINODES (i + 2)).val = i + 2 := by
    rw [Fin.val_ofNat]
    exact Nat.mod_eq_of_lt (by omega)
  have other : Fin.ofNat NINODES (i + 2) ≠ ROOTINO := by
    intro same
    rw [same] at small
    change 1 = i + 2 at small
    omega
  refine ⟨?_, other⟩
  simp only [mkfs, if_neg other, small]
  rw [if_pos (by omega)]

theorem mkfs_links (fits : files.length + 2 ≤ NINODES) (nonzero : i ≠ 0) :
    links (mkfs files).inode i = (if 2 ≤ i.val ∧ i.val < 2 + files.length then 1 else 0) +
      if ROOTINO = i then 1 else 0 := by
  obtain ⟨k, shape, _⟩ := rootDirectory_shape files
  unfold links
  rw [Finset.sum_eq_single ROOTINO]
  · have none : names (List.replicate k ⟨0, []⟩) i = 0 := by
      refine List.countP_eq_zero.mpr fun e member same => ?_
      rw [List.eq_of_mem_replicate member] at same
      have zero : 0 = i := by simpa using same
      exact nonzero zero.symm
    have dir : LinkedDir (⟨.dir, 1, rootDirectory files⟩ : Dinode) := ⟨rfl, by simp⟩
    rw [mkfs_root, refers_of_shape dir shape, names, List.countP_append]
    change names (fileEntries files 2) i + names (List.replicate k ⟨0, []⟩) i + _ = _
    rw [none, names_fileEntries (by omega), add_zero]
  · intro d _ other
    exact if_neg fun dir => other (mkfs_dir dir.1)
  · simp

theorem mkfs_tree (fits : Fits files) : Tree (mkfs files).inode := by
  obtain ⟨k, shape, _⟩ := rootDirectory_shape files
  have shape : ((mkfs files).inode ROOTINO).entries =
      ⟨ROOTINO, dot⟩ :: ⟨ROOTINO, dotdot⟩ :: (fileEntries files 2 ++ List.replicate k ⟨0, []⟩) := by
      rw [mkfs_root, shape]
  have entries {e : Dirent} (member : e ∈ rest ((mkfs files).inode ROOTINO)) (live : e.live) :
      ∃ i x, i < files.length ∧ x ∈ files ∧ e = ⟨Fin.ofNat NINODES (i + 2), cut x.1⟩ := by
    rw [rest_of_shape shape] at member
    rcases List.mem_append.mp member with member | member
    · exact mem_fileEntries member
    · rw [List.eq_of_mem_replicate member] at live
      simp [Dirent.live] at live
  refine ⟨?_, parent_of_shape shape, fun d dir => ?_,
    fun d e dir member live => ?_, fun d j dir isDir => ?_, fun d dir => ?_,
    fun j used => ?_, rfl⟩
  · rw [mkfs_root]
    exact ⟨rfl, by simp⟩
  · obtain rfl := mkfs_dir dir.1
    rw [parent_of_shape shape, rest_of_shape shape]
    exact shape
  · obtain rfl := mkfs_dir dir.1
    obtain ⟨i, x, inside, isFile, rfl⟩ := entries member live
    obtain ⟨file, other⟩ := mkfs_file inside fits.inodes
    obtain ⟨notDot, notDots⟩ := fits.names x isFile
    refine ⟨cut_ne (by decide) notDot, cut_ne (by decide) notDots, other, ?_, ?_⟩
    all_goals rw [file]; exact FileType.noConfusion
  · obtain rfl := mkfs_dir dir.1
    obtain rfl := mkfs_dir isDir
    refine le_of_eq_of_le (List.countP_eq_zero.mpr fun e member same => ?_) (Nat.zero_le 1)
    have same : e.inum = ROOTINO := by simpa using same
    obtain ⟨i, x, inside, _, rfl⟩ := entries member (by rw [Dirent.live, same]; decide)
    exact (mkfs_file inside fits.inodes).2 same
  · obtain rfl := mkfs_dir dir.1
    exact .root
  · have nonzero : j ≠ 0 := by
      rintro rfl
      exact used rfl
    rw [mkfs_links fits.inodes nonzero]
    by_cases root : j = ROOTINO
    · subst root
      rw [mkfs_root]
      rfl
    simp only [mkfs, if_neg root] at used ⊢
    split_ifs at used with file
    · rw [if_pos file, if_pos (by omega), if_neg (Ne.symm root)]
      rfl
    · exact absurd rfl used

theorem sum_getD (l : List (Name × Nat)) {N : Nat} (fits : l.length ≤ N) :
    ∑ i : Fin N, blocks (l.getD i.val ([], 0)).2 = (l.map fun x => blocks x.2).sum := by
  induction l generalizing N with
  | nil => simp [blocks, NDIRECT]
  | cons x l ih =>
    obtain ⟨N, rfl⟩ := Nat.exists_eq_succ_of_ne_zero (show N ≠ 0 by simp only [List.length_cons] at fits; omega)
    rw [Fin.sum_univ_succ, List.map_cons, List.sum_cons, ← ih (by simpa using fits)]
    simp

theorem mkfs_mapped (place : i.val = k + 2) : (mkfs files).mapped i = (files.getD k ([], 0)).2 := by
  have other : i ≠ ROOTINO := by
    rintro rfl
    change 1 = k + 2 at place
    omega
  simp only [mkfs, if_neg other, place]
  simp

theorem mkfs_room (fits : Fits files) : Room (mkfs files).inode (mkfs files).mapped (mkfs files).free := by
  refine ⟨?_, fun i => ?_⟩
  · have inodes := fits.inodes
    have total : ∑ i, blocks ((mkfs files).mapped i) =
        blocks ((files.length + 2 + DPB - 1) / DPB) + (files.map fun x => blocks x.2).sum := by
      rw [← sum_getD files (N := 198) (by unfold NINODES at inodes; omega)]
      have first : ∑ i, blocks ((mkfs files).mapped i) = blocks ((mkfs files).mapped 0) +
          ∑ i : Fin 199, blocks ((mkfs files).mapped (Fin.succ i)) :=
        Fin.sum_univ_succ (n := 199) fun i => blocks ((mkfs files).mapped i)
      have second : ∑ i : Fin 199, blocks
        ((mkfs files).mapped (Fin.succ i)) = blocks ((mkfs files).mapped (Fin.succ 0)) +
          ∑ i : Fin 198, blocks ((mkfs files).mapped (Fin.succ (Fin.succ i))) :=
        Fin.sum_univ_succ (n := 198) fun i => blocks ((mkfs files).mapped i.succ)
      have file (i : Fin 198) : (mkfs files).mapped (Fin.succ (Fin.succ i)) = (files.getD i.val ([], 0)).2 :=
        mkfs_mapped rfl
      rw [first, second, Finset.sum_congr rfl fun i _ => by rw [file i]]
      change blocks 0 + (blocks ((files.length + 2 + DPB - 1) / DPB) + _) = _
      simp [blocks, NDIRECT]
    have := fits.blocks
    simp only [total]
    simp only [mkfs]
    omega
  · by_cases root : i = ROOTINO
    · subst root
      obtain ⟨k, shape, le⟩ := rootDirectory_shape files
      have length : ((mkfs files).inode ROOTINO).entries.length = files.length + 2 + k := by
        rw [mkfs_root, shape]
        simp [fileEntries]
        omega
      rw [length, if_pos rfl]
      exact le
    · simp only [mkfs, if_neg root]
      split_ifs <;> exact Nat.zero_le _

theorem mkfs_consistent (fits : Fits files) : Consistent (mkfs files) := by
  refine ⟨mkfs_tree fits, mkfs_room fits, fun i used => ?_⟩
  simp only [mkfs] at used ⊢
  split_ifs at used ⊢ with root file
  · simp
  · simp
  · exact absurd rfl used

end Mkfs

theorem no_dangling_inode {image : Image} (consistent : Consistent image)
    {initproc : Fin n} {calls : List (Fin n × Call n)}
    {s : State n} (run : exec (step initproc) (boot initproc image) calls = some s)
    (spares : ∀ e ∈ trace (step initproc) (boot initproc image) calls, SparesCwd e.1 e.2) :
    (∀ t path i, (s.proc t).live = true → resolve s t path = some i → (s.inode i).type ≠ .none) ∧
    ∀ t c, (s.proc t).live = true → call initproc t c s ≠ .error (.panic .ilockNoType) := by
  have h := sound consistent run spares
  refine ⟨fun t _ i live found => (h.linked_of_resolve live found).1, fun t c live stopped => ?_⟩
  exact (call_spec c h live).error stopped rfl

def nameA : Name := [97]
def nameB : Name := [98]

def parentRemoved : List (Fin 1 × Call 1) :=
  [(0, .mkdir nameA), (0, .mkdir (nameA ++ slash :: nameB)),
    (0, .chdir (nameA ++ slash :: nameB)), (0, .unlink (slash :: nameA ++ slash :: nameB)),
    (0, .unlink (slash :: nameA))]

theorem fits_nil : Fits [] := ⟨by decide, by decide, by simp⟩

theorem dangling_parent : Consistent (mkfs []) ∧ ∃ s :
    State 1, exec (step 0) (boot 0 (mkfs [])) parentRemoved = some s ∧
    (s.proc 0).live = true ∧ call 0 0 (.open dotdot 0) s = .error (.panic .ilockNoType) :=
  ⟨mkfs_consistent fits_nil, by decide +kernel⟩

def childRemoved : List (Fin 1 × Call 1) :=
  [(0, .mkdir nameA), (0, .mkdir (nameA ++ slash :: nameB)),
    (0, .chdir nameA), (0, .unlink nameB), (0, .open nameB O_CREATE)]

theorem no_dangling_inode_childRemoved : ∃ s : State 1, exec (step 0) (boot 0 (mkfs [])) childRemoved = some s ∧
    call 0 0 (.open dotdot 0) s ≠ .error (.panic .ilockNoType) := by
  obtain ⟨s, run, live⟩ : ∃ s : State 1, exec (step 0) (boot 0 (mkfs [])) childRemoved = some s ∧
    (s.proc 0).live = true := by
    decide +kernel
  have spares : ∀ e ∈ trace (step 0) (boot 0 (mkfs []) : State 1) childRemoved, SparesCwd e.1 e.2 := by decide +kernel
  exact ⟨s, run, (no_dangling_inode (mkfs_consistent fits_nil) run spares).2 0 _ live⟩

inductive Reachable (T : Table) : Inum → Prop where
  | root : Reachable T ROOTINO
  | step {d : Inum} {e : Dirent} : Reachable T d → e ∈ (T d).entries →
    e.live → (T e.inum).type = .dir → Reachable T e.inum

open Classical in
/-- The entries other than `.` that name `i`, in the directories that can be reached from the root. -/
noncomputable def nameCount (T : Table) (i : Inum) : Nat :=
  ∑ d, if Reachable T d then (T d).entries.countP fun e => e.live ∧ e.name ≠ dot ∧ e.inum = i else 0

theorem Tree.reachable_iff (h : Tree T) : Reachable T d ↔ LinkedDir (T d) := by
  constructor
  · intro reachable
    induction reachable with
    | root => exact h.root
    | step _ member live isDir ih => exact ⟨isDir, (h.closed ih member live).2⟩
  intro dir
  have down := h.down d dir
  induction down with
  | root => exact .root
  | step _ upper member live linked ih => exact .step (ih upper) (List.mem_of_mem_drop member) live linked.1

theorem Tree.nameCount_eq (h : Tree T) (nonzero : i ≠ 0) : nameCount T i = links T i := by
  refine Finset.sum_congr rfl fun d _ => ?_
  unfold refers
  simp only [h.reachable_iff]
  split_ifs with dir
  · rw [h.shape d dir, List.tail_cons, names_cons, List.countP_cons, List.countP_cons, names]
    have same : (rest (T d)).countP
      (fun e => e.live ∧ e.name ≠ dot ∧ e.inum = i) = (rest (T d)).countP (·.inum = i) := by
      refine List.countP_congr fun e member => ?_
      simp only [decide_eq_true_eq]
      refine ⟨fun all => all.2.2, fun names => ?_⟩
      have live : e.live := by simpa [Dirent.live, names] using nonzero
      exact ⟨live, (h.plain d e dir member live).1, names⟩
    have up : (Dirent.live ⟨parent (T d), dotdot⟩ = true ∧ dotdot ≠ dot ∧ parent (T d) = i) ↔ parent (T d) = i := by
      refine ⟨fun all => all.2.2, fun names => ⟨?_, by decide, names⟩⟩
      simpa [Dirent.live, names] using nonzero
    rw [same]
    simp [up]
  · rfl

theorem link_counts {files : List (Name × Nat)} (fits : Fits files) {initproc : Fin n} {calls : List (Fin n × Call n)}
    {s : State n} (run : exec (step initproc) (boot initproc (mkfs files)) calls = some s)
    (spares : ∀ e ∈ trace (step initproc) (boot initproc (mkfs files)) calls, SparesCwd e.1 e.2) (i : Inum)
    (used : (s.inode i).type ≠ .none) :
    (s.inode i).nlink.toInt = nameCount s.inode i ∧
    (nameCount s.inode i = 0 → (s.inode i).nlink = 0 ∧ 0 < s.ref i) := by
  have h := sound (mkfs_consistent fits) run spares
  have count := h.tree.count i used
  rw [← h.tree.nameCount_eq (h.tree.nonzero used)] at count
  refine ⟨count, fun none => ?_⟩
  rw [none] at count
  have unlinked : (s.inode i).nlink = 0 := by
    rw [← Int16.toInt_inj, Int16.toInt_zero]
    exact count
  exact ⟨unlinked, (h.orphan i ⟨used, unlinked⟩).2⟩

theorem link_counts_childRemoved : ∃ s : State 1, exec (step 0) (boot 0 (mkfs [])) childRemoved = some s ∧
    (s.inode 2).nlink = 1 ∧ nameCount s.inode 2 = 1 := by
  obtain ⟨s, run, used, one⟩ : ∃ s : State 1, exec (step 0) (boot 0 (mkfs [])) childRemoved = some s ∧
      (s.inode 2).type ≠ .none ∧ (s.inode 2).nlink = 1 := by
    decide +kernel
  have spares : ∀ e ∈ trace (step 0) (boot 0 (mkfs []) : State 1) childRemoved, SparesCwd e.1 e.2 := by decide +kernel
  refine ⟨s, run, one, ?_⟩
  have count := (link_counts fits_nil run spares 2 used).1
  rw [one] at count
  exact Int.ofNat_inj.mp count.symm

def createdInRemoved : List (Fin 1 × Call 1) :=
  [(0, .mkdir nameA), (0, .chdir nameA), (0, .unlink (slash :: nameA)), (0, .open nameB O_CREATE)]

theorem lost_file : Fits [] ∧ ∃ s : State 1, exec (step 0) (boot 0 (mkfs [])) createdInRemoved = some s ∧
    (s.inode 3).type = .file ∧ (s.inode 3).nlink.toInt ≠ nameCount s.inode 3 := by
  refine ⟨fits_nil, ?_⟩
  obtain ⟨s, run, type, one, alone⟩ : ∃ s : State 1, exec (step 0) (boot 0 (mkfs [])) createdInRemoved = some s ∧
      (s.inode 3).type = .file ∧ (s.inode 3).nlink = 1 ∧
      ∀ e ∈ (s.inode ROOTINO).entries, e.live → e.inum = ROOTINO := by
    decide +kernel
  refine ⟨s, run, type, ?_⟩
  have reachable {d : Inum} (reachable : Reachable s.inode d) : d = ROOTINO := by
    induction reachable with
    | root => rfl
    | step _ member live _ ih =>
      subst ih
      exact alone _ member live
  have none : nameCount s.inode 3 = 0 := by
    refine Finset.sum_eq_zero fun d _ => ?_
    split_ifs with isReachable
    · obtain rfl := reachable isReachable
      refine List.countP_eq_zero.mpr fun e member same => ?_
      obtain ⟨live, _, names⟩ := of_decide_eq_true same
      rw [alone e member live] at names
      exact absurd names (by decide)
    · rfl
  rw [none, one]
  decide

end Xv6.Namespace
