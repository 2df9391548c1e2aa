import Xv6.Kernel.Namespace
import Xv6.Library.Tally

namespace Xv6.Namespace
open Xv6.Library Xv6.Directory
open Function (update update_of_ne)

abbrev Table := Inum → Dinode

variable {T T' : Table} {d i j : Inum} {x y : Dinode} {e : Dirent} {l l' : List Dirent}

def Linked (x : Dinode) : Prop := x.type ≠ .none ∧ x.nlink ≠ 0

def LinkedDir (x : Dinode) : Prop := x.type = .dir ∧ x.nlink ≠ 0

instance (x : Dinode) : Decidable (LinkedDir x) := inferInstanceAs (Decidable (_ ∧ _))

theorem LinkedDir.linked (h : LinkedDir x) : Linked x := ⟨by simp [h.1], h.2⟩

def names (l : List Dirent) (j : Inum) : Nat := l.countP (·.inum = j)

def parent (x : Dinode) : Inum := (x.entries.getD 1 ⟨0, []⟩).inum

def rest (x : Dinode) : List Dirent := x.entries.drop 2

def refers (x : Dinode) (j : Inum) : Nat := if LinkedDir x then names x.entries.tail j else 0

def links (T : Table) (j : Inum) : Nat := ∑ d, refers (T d) j

inductive Down (T : Table) : Inum → Prop where
  | root : Down T ROOTINO
  | step {d : Inum} {e : Dirent} : Down T d → LinkedDir (T d) →
    e ∈ rest (T d) → e.live → LinkedDir (T e.inum) → Down T e.inum

structure Tree (T : Table) : Prop where
  root : LinkedDir (T ROOTINO)
  rootParent : parent (T ROOTINO) = ROOTINO
  shape : ∀ d, LinkedDir (T d) → (T d).entries = ⟨d, dot⟩ :: ⟨parent (T d), dotdot⟩ :: rest (T d)
  plain : ∀ d e, LinkedDir (T d) → e ∈ rest (T d) → e.live → e.name ≠ dot ∧ e.name ≠ dotdot ∧ e.inum ≠ ROOTINO ∧
    (T e.inum).type ≠ .none ∧ ((T e.inum).type = .dir → parent (T e.inum) = d)
  single : ∀ d j, LinkedDir (T d) → (T j).type = .dir → names (rest (T d)) j ≤ 1
  down : ∀ d, LinkedDir (T d) → Down T d
  count : ∀ j, (T j).type ≠ .none → (T j).nlink.toInt = links T j
  free : (T 0).type = .none

theorem nlink_ne_zero_iff (x : Int16) : x ≠ 0 ↔ x.toInt ≠ 0 := by
  rw [ne_eq, ← Int16.toInt_inj, Int16.toInt_zero]

theorem names_cons (e : Dirent) (l : List Dirent) (j : Inum) :
    names (e :: l) j = names l j + if e.inum = j then 1 else 0 := by
  simp [names, List.countP_cons]

theorem names_pos (member : e ∈ l) (same : e.inum = j) : 1 ≤ names l j :=
  List.countP_pos_iff.mpr ⟨e, member, by simpa using same⟩

theorem links_update (T : Table) (d : Inum) (y : Dinode) (j : Inum) :
    links (update T d y) j + refers (T d) j = links T j + refers y j :=
  sum_update (fun x => refers x j) T d y

theorem refers_le_links (T : Table) (d j : Inum) : refers (T d) j ≤ links T j := le_sum (fun d => refers (T d) j) d

namespace Tree

theorem refers_eq (h : Tree T) (dir : LinkedDir (T d)) (j : Inum) :
    refers (T d) j = names (rest (T d)) j + if parent (T d) = j then 1 else 0 := by
  rw [refers, if_pos dir, h.shape d dir, List.tail_cons, names_cons]

theorem nlink_pos (h : Tree T) (used : (T j).type ≠ .none) (named : 1 ≤ links T j) : (T j).nlink ≠ 0 := by
  have count := h.count j used
  rw [nlink_ne_zero_iff]
  omega

theorem linked_of_mem (h : Tree T) (dir : LinkedDir (T d)) (member : e ∈ rest (T d)) (live : e.live) :
    Linked (T e.inum) := by
  obtain ⟨_, _, _, used, _⟩ := h.plain d e dir member live
  refine ⟨used, h.nlink_pos used ?_⟩
  have pos := names_pos member rfl
  have le := refers_le_links T d e.inum
  rw [h.refers_eq dir] at le
  omega

theorem parent_linked (h : Tree T) (dir : LinkedDir (T d)) : LinkedDir (T (parent (T d))) := by
  cases h.down d dir with
  | root =>
    rw [h.rootParent]
    exact h.root
  | step _ upper member live linked =>
    obtain ⟨_, _, _, _, same⟩ := h.plain _ _ upper member live
    rw [same linked.1]
    exact upper

theorem closed (h : Tree T) (dir : LinkedDir (T d)) (member : e ∈ (T d).entries) (live : e.live) :
    Linked (T e.inum) := by
  rw [h.shape d dir] at member
  rcases List.mem_cons.mp member with rfl | member
  · exact dir.linked
  · rcases List.mem_cons.mp member with rfl | member
    · exact (h.parent_linked dir).linked
    · exact h.linked_of_mem dir member live

theorem links_eq_zero (h : Tree T) (nonzero : j ≠ 0) (unlinked : ¬Linked (T j)) : links T j = 0 := by
  refine Finset.sum_eq_zero fun d _ => ?_
  unfold refers
  split_ifs with dir
  · refine List.countP_eq_zero.mpr fun e member same => unlinked ?_
    obtain rfl : e.inum = j := by simpa using same
    exact h.closed dir (List.mem_of_mem_tail member) (by simpa [Dirent.live] using nonzero)
  · rfl

end Tree

theorem Down.map (keep : ∀ d e, LinkedDir (T d) → e ∈ rest (T d) → e.live → LinkedDir (T' e.inum) →
    LinkedDir (T' d) ∧ e ∈ rest (T' d)) (down : Down T j) (linked : LinkedDir (T' j)) : Down T' j := by
  induction down with
  | root => exact .root
  | step _ dir member live _ ih =>
    obtain ⟨upper, member⟩ := keep _ _ dir member live linked
    exact .step (ih upper) upper member live linked

structure Adds (l l' : List Dirent) (e : Dirent) : Prop where
  count : ∀ j, j ≠ 0 → names l' j = names l j + if e.inum = j then 1 else 0
  mem : ∀ x, x.live → (x ∈ l' ↔ x = e ∨ x ∈ l)

structure Drops (l l' : List Dirent) (e : Dirent) : Prop where
  count : ∀ j, j ≠ 0 → names l' j + (if e.inum = j then 1 else 0) = names l j
  old : ∀ x, x.live → x ∈ l' → x ∈ l
  kept : ∀ x, x.live → x ∈ l → x ≠ e → x ∈ l'

theorem put_cons (a : Dirent) (l : List Dirent) (off : Nat) (e : Dirent) :
    put (a :: l) (off + 1) e = a :: put l off e := by
  simp only [put, List.length_cons, Nat.add_lt_add_iff_right, List.set_cons_succ, List.cons_append]
  split_ifs <;> rfl

theorem put_inside {off : Nat} {o : Dirent} (here : l[off]? = some o) :
    ∃ a b, l = a ++ o :: b ∧ ∀ e, put l off e = a ++ e :: b := by
  obtain ⟨inside, rfl⟩ := List.getElem?_eq_some_iff.mp here
  refine ⟨l.take off, l.drop (off + 1), by simp, fun e => ?_⟩
  rw [put, if_pos inside, List.set_eq_take_append_cons_drop, if_pos inside]

theorem put_adds {off : Nat} (place : ∀ o, l[off]? = some o → o.live = false) : Adds l (put l off e) e := by
  cases here : l[off]? with
  | some o =>
    obtain ⟨a, b, rfl, replaced⟩ := put_inside here
    have dead : o.inum = 0 := by simpa [Dirent.live] using place o here
    rw [replaced]
    constructor
    · intro j nonzero
      simp only [names, List.countP_append, List.countP_cons, dead, decide_eq_true_eq, if_neg nonzero.symm]
      omega
    intro x live
    have other : x ≠ o := by
      rintro rfl
      simp [Dirent.live, dead] at live
    simp only [List.mem_append, List.mem_cons, other, false_or]
    tauto
  | none =>
    have outside : ¬off < l.length := by simpa using here
    rw [put, if_neg outside]
    constructor
    · intro j _
      simp [names, List.countP_append, List.countP_cons]
    · intro x _
      simp [or_comm]

theorem put_drops {off : Nat} (here : l[off]? = some e) : Drops l (put l off ⟨0, []⟩) e := by
  obtain ⟨a, b, rfl, replaced⟩ := put_inside here
  rw [replaced]
  refine ⟨fun j nonzero => ?_, fun x live member => ?_, fun x live member other => ?_⟩
  · simp only [names, List.countP_append, List.countP_cons, decide_eq_true_eq, if_neg nonzero.symm]
    omega
  · have notFree : x ≠ ⟨0, []⟩ := by
      rintro rfl
      simp [Dirent.live] at live
    simp only [List.mem_append, List.mem_cons, notFree, false_or] at member ⊢
    tauto
  · simp only [List.mem_append, List.mem_cons, other, false_or] at member ⊢
    tauto

theorem parent_of_shape {p : Inum} (shape : x.entries = ⟨d, dot⟩ :: ⟨p, dotdot⟩ :: l) :
    parent x = p := by simp [parent, shape]

theorem rest_of_shape {p : Inum} (shape : x.entries = ⟨d, dot⟩ :: ⟨p, dotdot⟩ :: l) :
    rest x = l := by simp [rest, shape]

theorem refers_of_shape {p : Inum} (linked : LinkedDir x)
    (shape : x.entries = ⟨d, dot⟩ :: ⟨p, dotdot⟩ :: l) (j : Inum) :
    refers x j = names l j + if p = j then 1 else 0 := by
  rw [refers, if_pos linked, shape, List.tail_cons, names_cons]

theorem links_update₂ (T : Table) {d i : Inum} (ne : d ≠ i) (x y : Dinode) (j : Inum) :
    links (update (update T i x) d y) j + refers (T d) j + refers (T i) j = links T j + refers y j + refers x j := by
  have outer := links_update (update T i x) d y j
  have inner := links_update T i x j
  rw [update_of_ne ne] at outer
  omega

namespace Tree

theorem nonzero (h : Tree T) (used : (T j).type ≠ .none) : j ≠ 0 := by
  rintro rfl
  exact used h.free

theorem nlink_pos_of_dir (h : Tree T) (dir : LinkedDir (T d)) : 1 ≤ (T d).nlink.toInt := by
  have count := h.count d dir.linked.1
  have := (nlink_ne_zero_iff _).mp dir.2
  omega

end Tree

/-- A name for `i` is added to the directory `d`; `x` and `y` are the two inodes afterwards. -/
structure Adding (T : Table) (d i : Inum) (x y : Dinode) (l : List Dirent) (name : Name) : Prop where
  tree : Tree T
  dir : LinkedDir (T d)
  nonzero : i ≠ 0
  notRoot : i ≠ ROOTINO
  plain : name ≠ dot ∧ name ≠ dotdot
  adds : Adds (rest (T d)) l ⟨i, name⟩
  old : (T i).type = .none ∨ (T i).type = x.type ∧ x.type ≠ .dir
  used : x.type ≠ .none
  nlink : x.nlink.toInt = links T i + 1
  dots : x.type = .dir → x.entries = [⟨i, dot⟩, ⟨d, dotdot⟩]
  type : y.type = .dir
  shape : y.entries = ⟨d, dot⟩ :: ⟨parent (T d), dotdot⟩ :: l
  nlink' : y.nlink.toInt = (T d).nlink.toInt + if x.type = .dir then 1 else 0

namespace Adding
variable {name : Name} (h : Adding T d i x y l name)
include h

theorem notDir : (T i).type ≠ .dir := by
  rcases h.old with none | ⟨same, other⟩
  · simp [none]
  · rwa [same]

theorem ne : d ≠ i := by
  rintro rfl
  exact h.notDir h.dir.1

theorem linked : LinkedDir y := by
  refine ⟨h.type, (nlink_ne_zero_iff _).mpr ?_⟩
  have one := h.tree.nlink_pos_of_dir h.dir
  have nlink' := h.nlink'
  split_ifs at nlink' <;> omega

theorem new (isDir : x.type = .dir) : LinkedDir x ∧ rest x = [] ∧ parent x = d ∧ links T i = 0 := by
  have nlink := h.nlink
  refine ⟨⟨isDir, (nlink_ne_zero_iff _).mpr (by omega)⟩,
    rest_of_shape (h.dots isDir), parent_of_shape (h.dots isDir), ?_⟩
  refine h.tree.links_eq_zero h.nonzero fun both => ?_
  rcases h.old with none | ⟨_, other⟩
  · exact both.1 none
  · exact other isDir

theorem unnamed (isDir : x.type = .dir) (upper : LinkedDir (T j)) : names (rest (T j)) i = 0 := by
  have le := refers_le_links T j i
  rw [(h.new isDir).2.2.2, h.tree.refers_eq upper] at le
  omega

theorem refers_new : refers x j = if x.type = .dir then if d = j then 1 else 0 else 0 := by
  by_cases isDir : x.type = .dir
  · rw [if_pos isDir, refers_of_shape (h.new isDir).1 (h.dots isDir)]
    simp [names]
  · rw [if_neg isDir, refers, if_neg fun both => isDir both.1]

variable (eq : update (update T i x) d y = T')
include eq

omit h in
theorem atDir : T' d = y := by simp [← eq]

theorem atNew : T' i = x := by simp [← eq, h.ne.symm]

omit h in
theorem others (first : j ≠ d) (second : j ≠ i) : T' j = T j := by simp [← eq, first, second]

theorem atZero : T' 0 = T 0 := others eq (h.tree.nonzero h.dir.linked.1).symm h.nonzero.symm

theorem links_eq (nonzero : j ≠ 0) :
    links T' j = links T j + (if i = j then 1 else 0) + if x.type = .dir then if d = j then 1 else 0 else 0 := by
  have grows := links_update₂ T h.ne x y j
  rw [eq, show refers (T i) j = 0 from if_neg fun both => h.notDir both.1, h.tree.refers_eq h.dir,
    refers_of_shape h.linked h.shape, h.adds.count j nonzero, h.refers_new] at grows
  simp only at grows
  omega

theorem types (used : (T j).type ≠ .none) : (T' j).type ≠ .none ∧
    ((T' j).type = .dir → (T j).type = .dir ∧ parent (T' j) = parent (T j)) := by
  by_cases first : j = d
  · subst first
    rw [atDir eq]
    exact ⟨by simp [h.type], fun _ => ⟨h.dir.1, parent_of_shape h.shape⟩⟩
  by_cases second : j = i
  · subst second
    rw [h.atNew eq]
    refine ⟨h.used, fun isDir => ?_⟩
    rcases h.old with none | ⟨_, other⟩
    · exact absurd none used
    · exact absurd isDir other
  · rw [others eq first second]
    exact ⟨used, fun isDir => ⟨isDir, rfl⟩⟩

theorem dirs (upper : LinkedDir (T j)) : LinkedDir (T' j) ∧ ∀ e, e.live → e ∈ rest (T j) → e ∈ rest (T' j) := by
  by_cases first : j = d
  · subst first
    rw [atDir eq, rest_of_shape h.shape]
    exact ⟨h.linked, fun e live member => (h.adds.mem e live).mpr (.inr member)⟩
  have second : j ≠ i := by
    rintro rfl
    exact h.notDir upper.1
  rw [others eq first second]
  exact ⟨upper, fun _ _ member => member⟩

section
variable (upper : LinkedDir (T' j))
include upper

theorem isOld (other : j ≠ i) : LinkedDir (T j) := by
  by_cases first : j = d
  · exact first ▸ h.dir
  · rwa [others eq first other] at upper

theorem shape_kept : (T' j).entries = ⟨j, dot⟩ :: ⟨parent (T' j), dotdot⟩ :: rest (T' j) := by
  by_cases first : j = d
  · subst first
    rw [atDir eq, parent_of_shape h.shape, rest_of_shape h.shape]
    exact h.shape
  by_cases second : j = i
  · subst second
    rw [h.atNew eq] at upper ⊢
    rw [(h.new upper.1).2.1, (h.new upper.1).2.2.1]
    exact h.dots upper.1
  · rw [others eq first second] at upper ⊢
    exact h.tree.shape j upper

theorem mem_rest (live : e.live) (member : e ∈ rest (T' j)) :
    j = d ∧ e = ⟨i, name⟩ ∨ LinkedDir (T j) ∧ e ∈ rest (T j) := by
  by_cases first : j = d
  · subst first
    rw [atDir eq, rest_of_shape h.shape] at member
    exact ((h.adds.mem e live).mp member).imp (fun same => ⟨rfl, same⟩) fun old => ⟨h.dir, old⟩
  by_cases second : j = i
  · subst second
    rw [h.atNew eq] at upper member
    rw [(h.new upper.1).2.1] at member
    cases member
  · rw [others eq first second] at upper member
    exact .inr ⟨upper, member⟩

theorem plain_kept (member : e ∈ rest (T' j)) (live : e.live) : e.name ≠ dot ∧ e.name ≠ dotdot ∧
    e.inum ≠ ROOTINO ∧ (T' e.inum).type ≠ .none ∧ ((T' e.inum).type = .dir → parent (T' e.inum) = j) := by
  obtain ⟨rfl, rfl⟩ | ⟨upper, member⟩ := h.mem_rest eq upper live member
  · rw [h.atNew eq]
    exact ⟨h.plain.1, h.plain.2, h.notRoot, h.used, fun isDir => (h.new isDir).2.2.1⟩
  obtain ⟨first, second, third, used, same⟩ := h.tree.plain j e upper member live
  obtain ⟨still, before⟩ := h.types eq used
  refine ⟨first, second, third, still, fun isDir => ?_⟩
  rw [(before isDir).2, same (before isDir).1]

theorem single_kept {k : Inum} (isDir : (T' k).type = .dir) : names (rest (T' j)) k ≤ 1 := by
  have nonzero : k ≠ 0 := by
    rintro rfl
    rw [h.atZero eq, h.tree.free] at isDir
    cases isDir
  have old {j : Inum} (upper : LinkedDir (T j)) : names (rest (T j)) k + (if i = k then 1 else 0) ≤ 1 := by
    by_cases second : i = k
    · subst second
      rw [h.atNew eq] at isDir
      rw [h.unnamed isDir upper, if_pos rfl]
    rw [if_neg second]
    refine h.tree.single j k upper ?_
    by_cases first : k = d
    · exact first ▸ h.dir.1
    · rwa [others eq first (Ne.symm second)] at isDir
  by_cases first : j = d
  · subst first
    rw [atDir eq, rest_of_shape h.shape, h.adds.count k nonzero]
    exact old h.dir
  by_cases second : j = i
  · subst second
    rw [h.atNew eq] at upper ⊢
    rw [(h.new upper.1).2.1]
    exact Nat.zero_le 1
  · rw [others eq first second] at upper ⊢
    exact le_trans (Nat.le_add_right ..) (old upper)

theorem down_kept : Down T' j := by
  have downs {j : Inum} (down : Down T j) (linked : LinkedDir (T' j)) : Down T' j :=
    down.map (fun d e upper member live _ => ⟨(h.dirs eq upper).1, (h.dirs eq upper).2 e live member⟩) linked
  by_cases second : j = i
  · subst second
    have live : Dirent.live ⟨j, name⟩ := by simpa [Dirent.live] using h.nonzero
    have member : ⟨j, name⟩ ∈ rest (T' d) := by
      rw [atDir eq, rest_of_shape h.shape]
      exact (h.adds.mem _ live).mpr (.inl rfl)
    have dir := (h.dirs eq h.dir).1
    exact .step (e := ⟨j, name⟩) (downs (h.tree.down d h.dir) dir) dir member live upper
  · exact downs (h.tree.down j (h.isOld eq upper second)) upper

end

theorem count_kept (used : (T' j).type ≠ .none) : (T' j).nlink.toInt = links T' j := by
  have nonzero : j ≠ 0 := by
    rintro rfl
    rw [h.atZero eq] at used
    exact used h.tree.free
  rw [h.links_eq eq nonzero]
  by_cases first : j = d
  · subst first
    rw [atDir eq, h.nlink', h.tree.count j h.dir.linked.1, if_neg h.ne.symm, if_pos rfl]
    split_ifs <;> omega
  by_cases second : j = i
  · subst second
    rw [h.atNew eq, h.nlink, if_pos rfl, if_neg h.ne, ite_self]
    omega
  · rw [others eq first second] at used ⊢
    rw [h.tree.count j used, if_neg (Ne.symm second), if_neg (Ne.symm first), ite_self]
    omega

end Adding

namespace Tree

theorem add {name : Name} (h : Adding T d i x y l name) : Tree (update (update T i x) d y) where
  root := (h.dirs rfl h.tree.root).1
  rootParent := ((h.types rfl h.tree.root.linked.1).2 (h.dirs rfl h.tree.root).1.1).2.trans h.tree.rootParent
  shape _ := h.shape_kept rfl
  plain _ _ := h.plain_kept rfl
  single _ _ upper := h.single_kept rfl upper
  down _ := h.down_kept rfl
  count _ := h.count_kept rfl
  free := h.atZero rfl ▸ h.tree.free

section Remove

variable (h : Tree T) (dir : LinkedDir (T d)) (member : e ∈ rest (T d)) (live : e.live)
include h dir member live

theorem not_parent (empty : ∀ o ∈ rest (T e.inum), o.live = false) {c : Inum} (child : LinkedDir (T c)) :
    parent (T c) ≠ e.inum := by
  intro same
  cases h.down c child with
  | root =>
    rw [h.rootParent] at same
    exact (h.plain d e dir member live).2.2.1 same.symm
  | step _ upper inside alive linked =>
    obtain ⟨_, _, _, _, parents⟩ := h.plain _ _ upper inside alive
    rw [parents linked.1] at same
    subst same
    rw [empty _ inside] at alive
    cases alive

theorem refers_parent (isDir : (T e.inum).type = .dir)
    (empty : ∀ o ∈ rest (T e.inum), o.live = false) (nonzero : j ≠ 0) :
    refers (T e.inum) j = if d = j then 1 else 0 := by
  have linked := h.linked_of_mem dir member live
  obtain ⟨_, _, _, _, parents⟩ := h.plain d e dir member live
  have none : names (rest (T e.inum)) j = 0 := by
    refine List.countP_eq_zero.mpr fun o inside same => ?_
    have dead := empty o inside
    simp only [Dirent.live, decide_eq_false_iff_not, not_not] at dead
    have zero : 0 = j := by simpa [dead] using same
    exact nonzero zero.symm
  rw [h.refers_eq ⟨isDir, linked.2⟩, none, parents isDir, zero_add]

theorem links_of_empty (isDir : (T e.inum).type = .dir) (empty : ∀ o ∈ rest (T e.inum), o.live = false) :
    links T e.inum = 1 := by
  obtain ⟨_, _, _, _, parents⟩ := h.plain d e dir member live
  have here : refers (T d) e.inum = 1 := by
    rw [h.refers_eq dir, if_neg (h.not_parent dir member live empty dir)]
    exact le_antisymm (h.single d e.inum dir isDir) (names_pos member rfl)
  rw [← here]
  refine Finset.sum_eq_single d (fun a _ other => ?_) fun not => absurd (Finset.mem_univ d) not
  unfold refers
  split_ifs with upper
  · have := h.refers_eq upper e.inum
    rw [refers, if_pos upper] at this
    rw [this, if_neg (h.not_parent dir member live empty upper), add_zero]
    refine List.countP_eq_zero.mpr fun o inside same => other ?_
    have same : o.inum = e.inum := by simpa using same
    obtain ⟨_, _, _, _, parents'⟩ := h.plain a o upper inside (by simpa [Dirent.live, same] using live)
    rw [same] at parents'
    rw [← parents' isDir, parents isDir]
  · rfl

theorem two_le_nlink (isDir : (T e.inum).type = .dir) (empty : ∀ o ∈ rest (T e.inum), o.live = false) :
    2 ≤ (T d).nlink.toInt := by
  have own : refers (T e.inum) d = 1 := by
    rw [h.refers_parent dir member live isDir empty (h.nonzero dir.linked.1), if_pos rfl]
  obtain ⟨a, other, _⟩ : ∃ a, a ≠ e.inum ∧ 1 ≤ refers (T a) d := by
    cases h.down d dir with
    | root =>
      refine ⟨ROOTINO, (h.plain _ e dir member live).2.2.1.symm, ?_⟩
      rw [h.refers_eq dir, h.rootParent, if_pos rfl]
      exact Nat.le_add_left ..
    | @step a o _ upper inside alive =>
      refine ⟨a, ?_, ?_⟩
      · rintro rfl
        rw [empty _ inside] at alive
        cases alive
      · rw [h.refers_eq upper]
        exact le_trans (names_pos inside rfl) (Nat.le_add_right ..)
  have pair : ∑ c ∈ ({a, e.inum} : Finset Inum), refers (T c) d ≤ links T d :=
    Finset.sum_le_sum_of_subset (Finset.subset_univ _)
  rw [Finset.sum_pair other, own] at pair
  have := h.count d dir.linked.1
  omega

theorem remove (drops : Drops (rest (T d)) l e) (empty : (T e.inum).type = .dir → ∀ o ∈ rest (T e.inum), o.live = false)
    (same : x.type = (T e.inum).type ∧ x.entries = (T e.inum).entries)
    (nlink : x.nlink.toInt = (T e.inum).nlink.toInt - 1)
    (type : y.type = .dir) (shape : y.entries = ⟨d, dot⟩ :: ⟨parent (T d), dotdot⟩ :: l)
    (nlink' : y.nlink.toInt = (T d).nlink.toInt - if (T e.inum).type = .dir then 1 else 0) :
    Tree (update (update T e.inum x) d y) := by
  have ne : d ≠ e.inum := by
    intro same
    have dead := empty (same ▸ dir.1) e (same ▸ member)
    rw [dead] at live
    cases live
  have target := h.linked_of_mem dir member live
  have nonzero := h.nonzero target.1
  have linked : LinkedDir y := by
    refine ⟨type, (nlink_ne_zero_iff _).mpr ?_⟩
    have one := h.nlink_pos_of_dir dir
    split_ifs at nlink' with isDir
    · have := h.two_le_nlink dir member live isDir (empty isDir)
      omega
    · omega
  have gone (isDir : (T e.inum).type = .dir) : x.nlink = 0 := by
    have count := h.count e.inum target.1
    rw [h.links_of_empty dir member live isDir (empty isDir)] at count
    rw [← Int16.toInt_inj, Int16.toInt_zero]
    omega
  have notDir : ¬LinkedDir x := fun both => both.2 (gone (same.1 ▸ both.1))
  have parents : parent x = parent (T e.inum) := by rw [parent, same.2, parent]
  generalize eq : update (update T e.inum x) d y = T'
  have atDir : T' d = y := by simp [← eq]
  have atOld : T' e.inum = x := by simp [← eq, ne.symm]
  have others (j : Inum) (first : j ≠ d) (second : j ≠ e.inum) : T' j = T j := by simp [← eq, first, second]
  have links' (j : Inum) (nonzero : j ≠ 0) :
      links T' j + (if e.inum = j then 1 else 0) +
        (if (T e.inum).type = .dir then if d = j then 1 else 0 else 0) = links T j := by
    have shrinks := links_update₂ T ne x y j
    have count := drops.count j nonzero
    rw [eq, h.refers_eq dir, refers_of_shape linked shape, show refers x j = 0 from if_neg notDir] at shrinks
    by_cases isDir : (T e.inum).type = .dir
    · rw [h.refers_parent dir member live isDir (empty isDir) nonzero] at shrinks
      rw [if_pos isDir]
      omega
    · rw [show refers (T e.inum) j = 0 from if_neg fun both => isDir both.1] at shrinks
      rw [if_neg isDir]
      omega
  have types {k : Inum} : (T' k).type = (T k).type ∧ parent (T' k) = parent (T k) := by
    by_cases first : k = d
    · subst first
      rw [atDir]
      exact ⟨type.trans dir.1.symm, parent_of_shape shape⟩
    by_cases second : k = e.inum
    · subst second
      rw [atOld]
      exact ⟨same.1, parents⟩
    · rw [others k first second]
      exact ⟨rfl, rfl⟩
  have isOld {j : Inum} (upper : LinkedDir (T' j)) : LinkedDir (T j) ∧ j ≠ e.inum := by
    have other : j ≠ e.inum := by
      rintro rfl
      rw [atOld] at upper
      exact notDir upper
    refine ⟨?_, other⟩
    by_cases first : j = d
    · exact first ▸ dir
    · rwa [others j first other] at upper
  have dirs {j : Inum} (upper : LinkedDir (T j)) (other : j ≠ e.inum) : LinkedDir (T' j) := by
    by_cases first : j = d
    · rw [first, atDir]
      exact linked
    · rwa [others j first other]
  have entries {j : Inum} {o : Dirent} (other : j ≠ e.inum)
    (alive : o.live) (inside : o ∈ rest (T' j)) : o ∈ rest (T j) := by
    by_cases first : j = d
    · subst first
      rw [atDir, rest_of_shape shape] at inside
      exact drops.old o alive inside
    · rwa [others j first other] at inside
  have root : ROOTINO ≠ e.inum := (h.plain d e dir member live).2.2.1.symm
  refine ⟨dirs h.root root, types.2.trans h.rootParent, fun j upper => ?_, fun j o upper inside alive => ?_,
    fun j k upper isDir => ?_, fun j upper => ?_, fun j used => ?_, types.1.trans h.free⟩
  · by_cases first : j = d
    · subst first
      rw [atDir, parent_of_shape shape, rest_of_shape shape]
      exact shape
    · have other := (isOld upper).2
      rw [others j first other] at upper ⊢
      exact h.shape j upper
  · obtain ⟨upper, other⟩ := isOld upper
    obtain ⟨first, second, third, used, parents⟩ := h.plain j o upper (entries other alive inside) alive
    exact ⟨first, second, third, types.1 ▸ used, fun isDir => types.2.trans (parents (types.1 ▸ isDir))⟩
  · have nonzero' : k ≠ 0 := by
      rintro rfl
      rw [types.1, h.free] at isDir
      cases isDir
    obtain ⟨upper, other⟩ := isOld upper
    refine le_trans ?_ (h.single j k upper (types.1 ▸ isDir))
    by_cases first : j = d
    · subst first
      rw [atDir, rest_of_shape shape, ← drops.count k nonzero']
      exact Nat.le_add_right ..
    · rw [others j first other]
  · refine (h.down j (isOld upper).1).map (fun a o upper inside alive linked' => ?_) upper
    have other : a ≠ e.inum := by
      rintro rfl
      rw [empty upper.1 o inside] at alive
      cases alive
    refine ⟨dirs upper other, ?_⟩
    by_cases first : a = d
    · subst first
      rw [atDir, rest_of_shape shape]
      refine drops.kept o alive inside ?_
      rintro rfl
      exact (isOld linked').2 rfl
    · rwa [others a first other]
  · rw [types.1] at used
    have links' := links' j (h.nonzero used)
    have count := h.count j used
    by_cases first : j = d
    · subst first
      rw [if_neg ne.symm, if_pos rfl] at links'
      rw [atDir, nlink', count]
      split_ifs at links' ⊢ <;> omega
    rw [if_neg (Ne.symm first)] at links'
    by_cases second : j = e.inum
    · subst second
      rw [if_pos rfl] at links'
      rw [atOld, nlink, count]
      split_ifs at links' <;> omega
    · rw [if_neg (Ne.symm second)] at links'
      rw [others j first second, count]
      split_ifs at links' <;> omega

end Remove

theorem release (h : Tree T) (unlinked : (T i).nlink = 0) (none : x.type = .none) : Tree (update T i x) := by
  have notDir : ¬LinkedDir (T i) := fun both => both.2 unlinked
  have notDir' : ¬LinkedDir x := fun both => by rw [both.1] at none; cases none
  generalize eq : update T i x = T'
  have here : T' i = x := by simp [← eq]
  have others (j : Inum) (other : j ≠ i) : T' j = T j := by simp [← eq, other]
  have dirs {j : Inum} (upper : LinkedDir (T' j)) : j ≠ i := by
    rintro rfl
    rw [here] at upper
    exact notDir' upper
  have dirs' {j : Inum} (upper : LinkedDir (T j)) : j ≠ i := by
    rintro rfl
    exact notDir upper
  have links' (j : Inum) : links T' j = links T j := by
    have := links_update T i x j
    rw [eq, show refers (T i) j = 0 from if_neg notDir, show refers x j = 0 from if_neg notDir'] at this
    omega
  have root := dirs' h.root
  refine ⟨by rw [others _ root]; exact h.root, by rw [others _ root]; exact h.rootParent, fun j upper => ?_,
    fun j e upper member live => ?_, fun j k upper isDir => ?_, fun j upper => ?_, fun j used => ?_, ?_⟩
  · have other := dirs upper
    rw [others j other] at upper ⊢
    exact h.shape j upper
  · have still := dirs upper
    rw [others j still] at upper member
    have other : e.inum ≠ i := by
      intro same
      exact (h.linked_of_mem upper member live).2 (same ▸ unlinked)
    rw [others _ other]
    exact h.plain j e upper member live
  · have still := dirs upper
    rw [others j still] at upper ⊢
    have other : k ≠ i := by
      rintro rfl
      rw [here, none] at isDir
      cases isDir
    rw [others k other] at isDir
    exact h.single j k upper isDir
  · have upper' := upper
    rw [others j (dirs upper)] at upper'
    refine (h.down j upper').map (fun a e upper member _ _ => ?_) upper
    rw [others a (dirs' upper)]
    exact ⟨upper, member⟩
  · have other : j ≠ i := by
      rintro rfl
      rw [here] at used
      exact used none
    rw [others j other] at used ⊢
    rw [links', h.count j used]
  · by_cases zero : (0 : Inum) = i
    · rw [zero, here]
      exact none
    · rw [others 0 zero]
      exact h.free

end Tree

structure Room (T : Table) (mapped : Inum → Nat) (free : Nat) : Prop where
  total : ∑ i, blocks (mapped i) + free ≤ FSSIZE
  holds : ∀ i, (T i).entries.length ≤ DPB * mapped i + if i = ROOTINO then DPB else 0

theorem Room.links_lt {mapped : Inum → Nat} {free : Nat} (room : Room T mapped free) (j : Inum) :
    links T j + 1 < 2 ^ 15 := by
  have le : links T j ≤ ∑ i, (DPB * mapped i + if i = ROOTINO then DPB else 0) := by
    refine Finset.sum_le_sum fun i _ => le_trans ?_ (room.holds i)
    unfold refers
    split_ifs
    · exact le_trans List.countP_le_length (by simp)
    · exact Nat.zero_le _
  have counts : ∑ i, mapped i ≤ ∑ i, blocks (mapped i) := Finset.sum_le_sum fun i _ => Nat.le_add_right ..
  rw [Finset.sum_add_distrib, ← Finset.mul_sum, Finset.sum_ite_eq' Finset.univ, if_pos (Finset.mem_univ _)] at le
  have := room.total
  simp only [DPB, FSSIZE] at *
  omega

theorem toInt_succ {v : Int16} (lower : 0 ≤ v.toInt) (upper : v.toInt + 1 < 2 ^ 15) : (v + 1).toInt = v.toInt + 1 := by
  rw [Int16.toInt_add, Int16.toInt_one]
  exact Int.bmod_eq_of_le (by omega) (by omega)

theorem toInt_pred {v : Int16} (lower : 1 ≤ v.toInt) (upper : v.toInt < 2 ^ 15) : (v - 1).toInt = v.toInt - 1 := by
  rw [Int16.toInt_sub, Int16.toInt_one]
  exact Int.bmod_eq_of_le (by omega) (by omega)

end Xv6.Namespace
