import Xv6.Library.Spec
import Xv6.Library.Transition
import Xv6.Proof.Tree

namespace Xv6.Namespace
open Xv6.Library Xv6.Directory
open Function (update update_of_ne)

variable {n : Nat} {s s' s'' : State n} {O : Inum → Prop} {due due' : Inum → Int} {i ip dp : Inum}
  {E : Stop → Prop} {Q : Unit → State n → Prop} {k off : Nat} {p : Dirent → Bool} {l : List Dirent} {t : Fin n}

def Fine (e : Stop) : Prop := e ≠ .panic .ilockNoType

@[simp] theorem spec_panicIf {c : Prop} [Decidable c] {p : Panic} :
    Spec (panicIf c p) s E Q ↔ (c → E (.panic p)) ∧ (¬c → Q () s) := by
  unfold panicIf
  by_cases h : c <;> simp [h]

@[simp] theorem spec_getInode {Q : Dinode → State n → Prop} : Spec (getInode ip) s E Q ↔ Q (s.inode ip) s := Iff.rfl

@[simp] theorem spec_setInode {x : Dinode} :
    Spec (setInode ip x) s E Q ↔ Q () { s with inode := update s.inode ip x } := Iff.rfl

def one (i : Inum) : Inum → Int := fun j => if j = i then 1 else 0

structure Moves (O : Inum → Prop) (s s' : State n) (due : Inum → Int) : Prop where
  file : s'.file = s.file
  proc : s'.proc = s.proc
  ref : ∀ i, (s'.ref i : Int) = s.ref i + due i
  valid : ∀ i, O i → s.valid i = true → s'.valid i = true
  mapped : ∀ i, s.mapped i ≤ s'.mapped i
  blocks : ∑ i, blocks (s'.mapped i) + s'.free = ∑ i, blocks (s.mapped i) + s.free

theorem Moves.refl (s : State n) : Moves O s s 0 :=
  ⟨rfl, rfl, fun i => by simp, fun _ _ valid => valid, fun _ => le_rfl, rfl⟩

theorem Moves.trans (first : Moves O s s' due) (second : Moves O s' s'' due') : Moves O s s'' (due + due') where
  file := second.file.trans first.file
  proc := second.proc.trans first.proc
  ref i := by
    rw [second.ref, first.ref, Pi.add_apply]
    omega
  valid i orphan valid := second.valid i orphan (first.valid i orphan valid)
  mapped i := (first.mapped i).trans (second.mapped i)
  blocks := second.blocks.trans first.blocks

theorem Moves.of_table {T : Table} (h : Moves O { s with inode := T } s' due) : Moves O s s' due :=
  ⟨h.file, h.proc, h.ref, h.valid, h.mapped, h.blocks⟩

theorem Moves.of_due (h : Moves O s s' due) (same : due = due') : Moves O s s' due' := same ▸ h

structure Calm (O : Inum → Prop) (s s' : State n) (due : Inum → Int) : Prop extends Moves O s s' due where
  inode : s'.inode = s.inode

theorem Calm.refl (s : State n) : Calm O s s 0 := ⟨.refl s, rfl⟩

theorem Calm.trans (first : Calm O s s' due) (second : Calm O s' s'' due') : Calm O s s'' (due + due') :=
  ⟨first.toMoves.trans second.toMoves, second.inode.trans first.inode⟩

theorem Calm.of_due (h : Calm O s s' due) (same : due = due') : Calm O s s' due' := same ▸ h

theorem blocks_succ (k : Nat) : blocks (k + 1) = blocks k + 1 + if k = NDIRECT then 1 else 0 := by
  unfold blocks NDIRECT
  split_ifs <;> omega

theorem Calm.balloc {free : Nat} (unmapped : k = s.mapped ip)
    (taken : free + 1 + (if k = NDIRECT then 1 else 0) = s.free) :
    Calm O s { s with mapped := update s.mapped ip (k + 1), free := free } 0 := by
  refine ⟨⟨rfl, rfl, fun i => by simp, fun _ _ valid => valid, fun i => ?_, ?_⟩, rfl⟩
  · by_cases same : i = ip
    · subst same
      simp [unmapped]
    · simp [same]
  have swap := sum_update blocks s.mapped ip (k + 1)
  rw [blocks_succ, unmapped] at swap
  rw [unmapped] at taken ⊢
  simp only
  omega

variable (O)

theorem bmap_spec (ip : Inum) {bn : Nat} (front : bn ≤ s.mapped ip) :
    Spec (bmap ip bn) s Fine fun _ s' => Calm O s s' 0 ∧ bn < s'.mapped ip := by
  unfold bmap Namespace.balloc
  simp only [spec_bind, spec_get]
  refine .ite (fun inside => ⟨.refl s, inside⟩) fun _ => ?_
  have next : bn = s.mapped ip := by omega
  simp only [spec_bind, spec_panicIf, spec_modify]
  refine ⟨fun _ => by simp [Fine], fun _ => .ite (fun _ => ?_) fun _ => ?_⟩
  · simp only [spec_bind, spec_get, spec_panicIf, spec_modify]
    refine ⟨fun _ => by simp [Fine], fun first => ⟨fun _ => by simp [Fine], fun _ => ⟨.balloc next ?_, ?_⟩⟩⟩
    · rw [if_pos (by omega)]
      omega
    · simp
  simp only [spec_pure, spec_get]
  refine ⟨fun _ => by simp [Fine], fun _ => ⟨.balloc next ?_, ?_⟩⟩
  · rw [if_neg (by omega)]
    omega
  · simp

variable {O} in
theorem Calm.count {v : Nat} {valid : Inum → Bool} {locked : Inum → Bool}
    {inUse : Nat} {d : Int} (refs : (v : Int) = s.ref i + d)
    (orphans : ∀ j, O j → s.valid j = true → valid j = true) :
    Calm O s { s with ref := update s.ref i v, valid, locked, inUse } (fun j => if j = i then d else 0) := by
  refine ⟨⟨rfl, rfl, fun j => ?_, orphans, fun _ => le_rfl, rfl⟩, rfl⟩
  by_cases same : j = i
  · subst same
    simpa using refs
  · simp [same]

theorem iget_spec (i : Inum) (orphan : O i → 0 < s.ref i) :
    Spec (iget i) s Fine fun r s' => r = i ∧ Calm O s s' (one i) := by
  unfold iget
  simp only [spec_bind, spec_get]
  refine .ite (fun _ => ?_) fun absent => ?_
  · simp only [spec_bind, spec_set, spec_pure]
    exact ⟨trivial, .count rfl fun _ _ valid => valid⟩
  simp only [spec_bind, spec_set, spec_pure, spec_panicIf]
  refine ⟨fun _ => by simp [Fine], fun _ => ⟨trivial, .count (by omega) fun j isOrphan _ => ?_⟩⟩
  have other : j ≠ i := by
    rintro rfl
    exact absent (orphan isOrphan)
  rwa [update_of_ne other]

theorem idup_spec (i : Inum) : Spec (idup i) s Fine fun r s' => r = i ∧ Calm O s s' (one i) :=
  ⟨rfl, .count rfl fun _ _ valid => valid⟩

theorem ilock_spec (used : (s.inode i).type ≠ .none) :
    Spec (ilock i) s Fine fun _ s' => Calm O s s' 0 ∧ s'.valid i = true ∧ 0 < s'.ref i := by
  unfold ilock acquiresleep
  simp only [spec_bind, spec_get, spec_panicIf]
  refine ⟨fun _ => by simp [Fine], fun held => .ite (fun _ => by simp [Fine]) fun _ => ?_⟩
  simp only [spec_modify]
  refine .ite (fun _ => ?_) fun valid => ?_
  · simp only [spec_bind, spec_set, spec_panicIf]
    refine ⟨fun none => absurd none used,
      fun _ => ⟨⟨⟨rfl, rfl, fun j => by simp, fun j _ valid => ?_, fun _ => le_rfl, rfl⟩, rfl⟩, ?_, ?_⟩⟩
    · by_cases same : j = i
      · simp [same]
      · simpa [same] using valid
    · simp
    · exact Nat.pos_of_ne_zero (by simpa using held)
  · exact ⟨⟨⟨rfl, rfl, fun j => by simp, fun _ _ valid => valid, fun _ => le_rfl, rfl⟩, rfl⟩,
      by simpa using valid, Nat.pos_of_ne_zero (by simpa using held)⟩

theorem iunlock_spec (i : Inum) :
    Spec (iunlock i) s Fine fun _ s' => Calm O s s' 0 ∧ s'.valid = s.valid ∧ 0 < s'.ref i := by
  unfold iunlock releasesleep
  simp only [spec_bind, spec_get, spec_panicIf, spec_modify]
  refine ⟨fun _ => by simp [Fine], fun held => ⟨?_, trivial, ?_⟩⟩
  · exact ⟨⟨rfl, rfl, fun j => by simp, fun _ _ valid => valid, fun _ => le_rfl, rfl⟩, rfl⟩
  simp only [not_or, not_lt] at held
  exact held.2

theorem iput_spec_kept (kept : ¬(s.valid i = true ∧ (s.inode i).nlink = 0 ∧ s.ref i = 1))
    (held : 0 < s.ref i) : Spec (iput i) s Fine fun _ s' => Calm O s s' (-one i) ∧ s'.valid = s.valid := by
  unfold iput acquiresleep releasesleep
  simp only [spec_bind, spec_get]
  refine .ite (fun _ => by simp [Fine]) fun _ => ?_
  simp only [spec_modify]
  rw [if_neg kept]
  simp only [spec_pure]
  have same : (-one i) = fun j => if j = i then -1 else 0 := by
    funext j
    simp only [Pi.neg_apply, one]
    split_ifs <;> rfl
  rw [same]
  exact ⟨.count (by omega) fun _ _ valid => valid, trivial⟩

theorem iput_spec (linked : (s.inode i).nlink ≠ 0) (held : 0 < s.ref i) :
    Spec (iput i) s Fine fun _ s' => Calm O s s' (-one i) :=
  (iput_spec_kept O (fun both => linked both.2.1) held).mono fun _ _ ⟨calm, _⟩ => calm

def freed (s : State n) (i : Inum) : State n :=
  { s with
    inode := update s.inode i ⟨.none, (s.inode i).nlink, []⟩
    mapped := update s.mapped i 0
    free := s.free + blocks (s.mapped i)
    ref := update s.ref i 0
    valid := update s.valid i false
    locked := update s.locked i false
    inUse := s.inUse - 1 }

theorem iput_spec_freed (last : s.valid i = true ∧ (s.inode i).nlink = 0 ∧ s.ref i = 1) :
    Spec (iput i) s Fine fun _ s' => s' = freed s i := by
  unfold iput acquiresleep releasesleep ifree itrunc
  simp only [spec_bind, spec_get]
  refine .ite (fun _ => by simp [Fine]) fun _ => ?_
  simp only [spec_modify]
  rw [if_pos last]
  simp [freed, last.2.2]

theorem iunlockput_spec (linked : (s.inode i).nlink ≠ 0) :
    Spec (iunlockput i) s Fine fun _ s' => Calm O s s' (-one i) := by
  unfold iunlockput
  rw [spec_bind]
  refine (iunlock_spec O i).mono fun _ _ ⟨calm, _, held⟩ => ?_
  refine (iput_spec O (by rwa [calm.inode]) held).mono fun _ _ calm' => ?_
  exact (calm.trans calm').of_due (zero_add _)

def seek (p : Dirent → Bool) : List Dirent → Nat → Option (Nat × Dirent)
  | [], _ => none
  | e :: es, i => if p e then some (i, e) else seek p es (i + 1)

theorem seek_none (none : seek p l k = none) : ∀ e ∈ l, p e = false := by
  induction l generalizing k with
  | nil => simp
  | cons e _ ih =>
    rw [seek] at none
    split_ifs at none with here
    intro o member
    rcases List.mem_cons.mp member with rfl | member
    · simpa using here
    · exact ih none o member

theorem seek_some {e : Dirent} (found : seek p l k = some (off, e)) : k ≤ off ∧ l[off - k]? = some e ∧ p e = true := by
  induction l generalizing k with
  | nil => cases found
  | cons o _ ih =>
    rw [seek] at found
    split_ifs at found with here
    · cases found
      simpa using here
    obtain ⟨_, place, found⟩ := ih found
    refine ⟨by omega, ?_, found⟩
    rw [show off - k = off - (k + 1) + 1 by omega, List.getElem?_cons_succ]
    exact place

theorem scan_spec (p : Dirent → Bool) (l : List Dirent) {k : Nat} (front : k ≤ DPB * s.mapped dp) :
    Spec (scan dp p l k) s Fine fun r s' => r = seek p l k ∧ Calm O s s' 0 ∧
      ((r.map Prod.fst).getD (k + l.length)) ≤ DPB * s'.mapped dp := by
  induction l generalizing k s with
  | nil => exact ⟨rfl, .refl s, by simpa using front⟩
  | cons e es ih =>
    rw [scan, spec_bind]
    have inside : k / DPB ≤ s.mapped dp := Nat.div_le_of_le_mul front
    refine (bmap_spec O dp inside).mono fun _ s₁ ⟨calm, mapped⟩ => ?_
    have next : k + 1 ≤ DPB * s₁.mapped dp := by
      unfold DPB at mapped ⊢
      omega
    rw [seek]
    refine .ite (fun here => ?_) fun other => ?_
    · rw [if_pos here]
      exact ⟨rfl, calm, by simpa using Nat.le_of_succ_le next⟩
    rw [if_neg other]
    refine (ih next).mono fun r _ ⟨same, calm', le⟩ => ⟨same, (calm.trans calm').of_due (zero_add _), ?_⟩
    rw [List.length_cons, Nat.add_comm es.length, ← Nat.add_assoc]
    exact le

def lookup (x : Dinode) (name : Name) : Option (Nat × Dirent) := seek (Dirent.matches name) x.entries 0

theorem lookup_some {x : Dinode} {name : Name} {e : Dirent} (found : lookup x name = some (off, e)) :
    x.entries[off]? = some e ∧ e.live ∧ cut name = cut e.name := by
  obtain ⟨_, place, isMatch⟩ := seek_some found
  simp only [Dirent.matches, Bool.and_eq_true, namecmp_iff] at isMatch
  exact ⟨place, isMatch⟩

def Closed (O : Inum → Prop) (x : Dinode) (T : Table) : Prop :=
  ∀ e ∈ x.entries, e.live → Linked (T e.inum) ∧ ¬O e.inum

theorem dirlookup_spec (name : Name) (closed : Closed O (s.inode dp) s.inode) :
    Spec (dirlookup dp name) s Fine fun r s' => (s.inode dp).type = .dir ∧
      match lookup (s.inode dp) name with
      | none => r = none ∧ Calm O s s' 0 ∧ (s.inode dp).entries.length ≤ DPB * s'.mapped dp
      | some (off, e) => r = some (e.inum, off) ∧ Calm O s s' (one e.inum) ∧ off ≤ DPB * s'.mapped dp := by
  unfold dirlookup
  simp only [spec_bind, spec_getInode, spec_panicIf]
  refine ⟨fun _ => by simp [Fine], fun isDir => ?_⟩
  simp only [ne_eq, not_not] at isDir
  refine (scan_spec O (Dirent.matches name) (s.inode dp).entries (Nat.zero_le _)).mono ?_
  rintro r _ ⟨same, calm, le⟩
  subst same
  cases found : lookup (s.inode dp) name with
  | none =>
    rw [lookup] at found
    rw [found] at le ⊢
    exact ⟨isDir, rfl, calm, by simpa using le⟩
  | some pair =>
    obtain ⟨_, e⟩ := pair
    obtain ⟨place, live, _⟩ := lookup_some found
    rw [lookup] at found
    rw [found] at le ⊢
    simp only [spec_bind, spec_pure]
    refine (iget_spec O e.inum fun orphan => absurd orphan (closed e (List.mem_of_getElem? place) live).2).mono ?_
    rintro r _ ⟨same, calm'⟩
    refine ⟨isDir, by rw [same], (calm.trans calm').of_due (zero_add _), ?_⟩
    exact le_trans le (Nat.mul_le_mul_left _ (calm'.mapped dp))

def linkIn (T : Table) (dp : Inum) (off : Nat) (e : Dirent) : Table :=
  update T dp { T dp with entries := put (T dp).entries off e }

theorem seek_free (l : List Dirent) (same : off = ((seek (fun e => !e.live) l 0).map Prod.fst).getD l.length) :
    off ≤ l.length ∧ ∀ o, l[off]? = some o → o.live = false := by
  cases found : seek (fun e => !e.live) l 0 with
  | none =>
    rw [found] at same
    simp only [Option.map_none, Option.getD_none] at same
    subst same
    exact ⟨le_rfl, by simp⟩
  | some =>
    obtain ⟨place, dead⟩ := (seek_some found).2
    rw [found] at same
    simp only [Option.map_some, Option.getD_some] at same
    subst same
    simp only [Nat.sub_zero] at place
    refine ⟨Nat.le_of_lt (List.getElem?_eq_some_iff.mp place).1, fun o here => ?_⟩
    obtain rfl := Option.mem_unique place here
    simpa using dead

theorem dirlink_spec (name : Name) (inum : Inum) (closed : Closed O (s.inode dp) s.inode) :
    Spec (dirlink dp name inum) s Fine fun r s' => Moves O s s' 0 ∧
      match r with
      | false => s'.inode = s.inode
      | true => lookup (s.inode dp) name = none ∧ ∃ off, (∀ o, (s.inode dp).entries[off]? = some o → o.live = false) ∧
          off ≤ (s.inode dp).entries.length ∧ s'.inode = linkIn s.inode dp off ⟨inum, cut name⟩ ∧
          off < DPB * s'.mapped dp ∧ (s.inode dp).entries.length ≤ DPB * s'.mapped dp := by
  unfold dirlink
  simp only [spec_bind]
  refine (dirlookup_spec O name closed).mono ?_
  rintro r s₁ ⟨_, found⟩
  cases result : lookup (s.inode dp) name with
  | some pair =>
    obtain ⟨off, e⟩ := pair
    rw [result] at found
    obtain ⟨rfl, calm, _⟩ := found
    obtain ⟨place, live, _⟩ := lookup_some result
    obtain ⟨linked, _⟩ := closed e (List.mem_of_getElem? place) live
    simp only [spec_bind, spec_pure]
    have held : 0 < s₁.ref e.inum := by
      have := calm.ref e.inum
      simp only [one, if_true] at this
      omega
    refine (iput_spec O (by rw [calm.inode]; exact linked.2) held).mono fun _ s₂ calm' => ?_
    have back := (calm.trans calm').of_due (add_neg_cancel _)
    exact ⟨back.toMoves, back.inode⟩
  | none =>
    rw [result] at found
    obtain ⟨rfl, calm, room⟩ := found
    simp only [spec_bind, spec_getInode, spec_panicIf, spec_setInode, spec_pure]
    rw [calm.inode]
    refine (scan_spec O (fun e => !e.live) (s.inode dp).entries (Nat.zero_le _)).mono ?_
    rintro r _ ⟨same, calm₂, le⟩
    subst same
    rw [Nat.zero_add] at le
    generalize eq : ((seek (fun e => !e.live) (s.inode dp).entries 0).map Prod.fst).getD
      (s.inode dp).entries.length = off at le ⊢
    obtain ⟨inside, dead⟩ := seek_free _ eq.symm
    refine ⟨fun _ => by simp [Fine], fun _ => ?_⟩
    refine (bmap_spec O dp (Nat.div_le_of_le_mul le)).mono ?_
    rintro _ s₃ ⟨calm₃, mapped⟩
    have all : Calm O s s₃ 0 := ((calm.trans calm₂).trans calm₃).of_due (by simp)
    refine ⟨⟨all.file, all.proc, all.ref, all.valid, all.mapped, all.blocks⟩, trivial, off, dead, inside, ?_, ?_, ?_⟩
    · simp only [linkIn, all.inode]
    · unfold DPB at mapped ⊢
      omega
    · exact le_trans room (Nat.mul_le_mul_left _ ((calm₂.trans calm₃).mapped dp))

variable {O}

def resolveFrom (T : Table) : Nat → Inum → Path → Option Inum
  | 0, ip, _ => some ip
  | fuel + 1, ip, path =>
    match skipelem path with
    | none => some ip
    | some (name, path) =>
      if (T ip).type = .dir then (lookup (T ip) name).bind fun e => resolveFrom T fuel e.2.inum path else none

theorem resolveFrom_nil (T : Table) (fuel : Nat) (ip : Inum) : resolveFrom T fuel ip [] = some ip := by
  cases fuel <;> rfl

def Finds (T : Table) (par : Bool) (fuel : Nat) (ip : Inum) (path : Path) (i : Inum) (name : Name) : Prop :=
  if par then (T i).type = .dir ∧ resolveFrom T fuel ip path = (lookup (T i) name).map fun e => e.2.inum
  else resolveFrom T fuel ip path = some i

theorem namexEnd_spec (par : Bool) {fuel : Nat} (name : Name) {path : Path} (linked : Linked (s.inode ip))
    (held : 0 < s.ref ip) (resolved : resolveFrom s.inode fuel ip path = some ip) :
    Spec (namexFrom.namexEnd par ip name) s Fine fun r s' =>
      match r with
      | none => Calm O s s' (-one ip)
      | some (i, name) =>
        Calm O s s' (one i - one ip) ∧ Linked (s.inode i) ∧ Finds s.inode par fuel ip path i name := by
  cases par with
  | true => exact spec_bind.mpr ((iput_spec O linked.2 held).mono fun _ _ calm => calm)
  | false => exact ⟨(Calm.refl s).of_due (sub_self _).symm, linked, resolved⟩

theorem namexFrom_spec (par : Bool) (fuel : Nat) (name : Name) (path : Path)
    (dirs : ∀ d, LinkedDir (s.inode d) → Closed O (s.inode d) s.inode)
    (linked : Linked (s.inode ip)) (held : 0 < s.ref ip) :
    Spec (namexFrom par fuel ip name path) s Fine fun r s' =>
      match r with
      | none => Calm O s s' (-one ip)
      | some (i, name) =>
        Calm O s s' (one i - one ip) ∧ Linked (s.inode i) ∧ Finds s.inode par fuel ip path i name := by
  induction fuel generalizing s ip name path with
  | zero => exact namexEnd_spec par name linked held rfl
  | succ fuel ih =>
    rw [namexFrom]
    cases elem : skipelem path with
    | none => exact namexEnd_spec par name linked held (by rw [resolveFrom, elem])
    | some pair =>
      obtain ⟨name, path'⟩ := pair
      simp only [spec_bind]
      refine (ilock_spec O linked.1).mono ?_
      rintro _ _ ⟨calm, _, _⟩
      rw [spec_getInode, calm.inode]
      refine .ite (fun _ => ?_) fun isDir => ?_
      · rw [spec_bind]
        refine (iunlockput_spec O (by rw [calm.inode]; exact linked.2)).mono fun _ s₂ calm' => ?_
        exact (calm.trans calm').of_due (zero_add _)
      simp only [ne_eq, not_not] at isDir
      have resolve : resolveFrom s.inode (fuel + 1) ip path =
          (lookup (s.inode ip) name).bind fun e => resolveFrom s.inode fuel e.2.inum path' := by
        rw [resolveFrom, elem]
        exact if_pos isDir
      refine .ite (fun last => ?_) fun _ => ?_
      · obtain ⟨rfl, rfl⟩ := last
        rw [spec_bind]
        refine (iunlock_spec O ip).mono ?_
        rintro _ s₂ ⟨calm', _, _⟩
        refine ⟨?_, linked, isDir, ?_⟩
        · exact (calm.trans calm').of_due (by simp)
        · rw [resolve]
          simp only [resolveFrom_nil]
          exact Option.map_eq_bind.symm
      have closed := dirs ip ⟨isDir, linked.2⟩
      rw [spec_bind]
      refine (dirlookup_spec O name (by rw [calm.inode]; exact closed)).mono ?_
      rintro r _ ⟨_, found⟩
      rw [calm.inode] at found
      cases result : lookup (s.inode ip) name with
      | none =>
        rw [result] at found
        obtain ⟨rfl, calm₂, _⟩ := found
        simp only [spec_bind]
        refine (iunlockput_spec O (by rw [calm₂.inode, calm.inode]; exact linked.2)).mono fun _ s₃ calm₃ => ?_
        exact ((calm.trans calm₂).trans calm₃).of_due (by simp)
      | some pair =>
        obtain ⟨_, e⟩ := pair
        rw [result] at found
        obtain ⟨rfl, calm₂, _⟩ := found
        obtain ⟨place, live, _⟩ := lookup_some result
        obtain ⟨next, _⟩ := closed e (List.mem_of_getElem? place) live
        simp only [spec_bind]
        refine (iunlockput_spec O (by rw [calm₂.inode, calm.inode]; exact linked.2)).mono fun _ s₃ calm₃ => ?_
        have all : Calm O s s₃ (one e.inum - one ip) :=
          ((calm.trans calm₂).trans calm₃).of_due (by simp [sub_eq_add_neg])
        have held' : 0 < s₃.ref e.inum := by
          have := all.ref e.inum
          simp only [Pi.sub_apply, one, if_true] at this
          split_ifs at this with same
          · rw [same] at this ⊢
            omega
          · omega
        have rest := ih (s := s₃) name path' (by rw [all.inode]; exact dirs) (by rw [all.inode]; exact next) held'
        refine rest.mono fun r _ found => ?_
        rw [all.inode] at found
        rcases r with _ | ⟨i, name⟩
        · exact (all.trans found).of_due (by abel)
        obtain ⟨calm₄, linked', finds⟩ := found
        refine ⟨(all.trans calm₄).of_due (by abel), linked', ?_⟩
        unfold Finds at finds ⊢
        rw [resolve, result]
        exact finds

structure Walks (O : Inum → Prop) (s : State n) (t : Fin n) : Prop where
  dirs : ∀ d, LinkedDir (s.inode d) → Closed O (s.inode d) s.inode
  root : Linked (s.inode ROOTINO) ∧ ¬O ROOTINO
  cwd : Linked (s.inode (s.proc t).cwd)

def origin (s : State n) (t : Fin n) (path : Path) : Inum := if path.head? = some slash then ROOTINO else (s.proc t).cwd

def resolve (s : State n) (t : Fin n) (path : Path) : Option Inum :=
  resolveFrom s.inode path.length (origin s t path) path

theorem namexStart_spec (path : Path) (walks : Walks O s t) :
    Spec (namexStart t path) s Fine fun r s' => r = origin s t path ∧ Calm O s s' (one r) ∧ Linked (s.inode r) := by
  unfold namexStart origin
  refine .ite (fun absolute => ?_) fun relative => ?_
  · rw [if_pos absolute]
    refine (iget_spec O ROOTINO fun orphan => absurd orphan walks.root.2).mono fun r s₁ ⟨same, calm⟩ => ?_
    subst same
    exact ⟨rfl, calm, walks.root.1⟩
  rw [if_neg relative, spec_bind, spec_get]
  refine (idup_spec O (s.proc t).cwd).mono fun r _ ⟨same, calm⟩ => ?_
  subst same
  exact ⟨rfl, calm, walks.cwd⟩

theorem namex_spec (path : Path) (par : Bool) (walks : Walks O s t) : Spec (namex t path par) s Fine fun r s' =>
      match r with
      | none => Calm O s s' 0
      | some (i, name) => Calm O s s' (one i) ∧ Linked (s.inode i) ∧
          Finds s.inode par path.length (origin s t path) path i name := by
  unfold namex
  rw [spec_bind]
  refine (namexStart_spec path walks).mono fun ip s₁ ⟨same, calm, linked⟩ => ?_
  have held : 0 < s₁.ref ip := by
    have := calm.ref ip
    simp only [one, if_true] at this
    omega
  have rest := namexFrom_spec (O := O) (s := s₁) par path.length [] path (by rw [calm.inode]; exact walks.dirs)
    (by rw [calm.inode]; exact linked) held
  refine rest.mono fun r _ found => ?_
  rw [calm.inode] at found
  match r, found with
  | none, calm₂ => exact (calm.trans calm₂).of_due (by abel)
  | some (i, name), ⟨calm₂, linked', finds⟩ => exact ⟨(calm.trans calm₂).of_due (by abel), linked', same ▸ finds⟩

theorem namei_spec (path : Path) (walks : Walks O s t) : Spec (namei t path) s Fine fun r s' =>
      match r with
      | none => Calm O s s' 0
      | some i => Calm O s s' (one i) ∧ Linked (s.inode i) := by
  unfold namei
  rw [spec_bind]
  refine (namex_spec path false walks).mono fun r _ found => ?_
  match r, found with
  | none, calm => exact calm
  | some (i, name), ⟨calm, linked, _⟩ => exact ⟨calm, linked⟩

end Xv6.Namespace
