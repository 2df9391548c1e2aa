import Xv6.Proof.PathResolution

namespace Xv6.Namespace
open Xv6.Library Xv6.Directory
open Function (update update_self update_of_ne update_idem update_eq_self update_eq_self_iff update_comm)

variable {n : Nat} {s u v : State n} {E : Stop → Prop} {i d dp ip inum : Inum} {name : Name} {α β : Type}
  {x : Dinode} {m : M n α} {f : α → M n β} {e : Stop}

section Dirlink

def slot (x : Dinode) : Nat := ((seek (fun e => !e.live) x.entries 0).map Prod.fst).getD x.entries.length

def State.visited (u : State n) (i : Inum) : State n :=
  { u with valid := if u.ref i = 0 then update u.valid i false else u.valid }

theorem iput_taken {Q : Unit → State n → Prop} :
    Spec (iput i) (u.taken i) E Q ↔ if u.locked i then E .deadlock else Q () (u.visited i) := by
  have frame := taken_frame u i
  by_cases locked : u.locked i = true
  · rw [if_pos locked]
    unfold iput acquiresleep
    simp only [spec_bind, spec_get, frame.2.2.2.2.2, locked, if_true, spec_throw]
  rw [if_neg locked, iput_iff]
  · have after : (u.taken i).dropped i = u.visited i := by
      unfold State.taken State.visited
      by_cases held : 0 < u.ref i
      · have more : u.ref i + 1 ≠ 1 := by omega
        simp only [if_pos held, if_neg held.ne', State.dropped, update_self,
          update_idem, Nat.add_sub_cancel, update_eq_self, if_neg more]
      have none : u.ref i = 0 := by omega
      have back : update u.ref i 0 = u.ref := update_eq_self_iff.mpr none.symm
      simp only [if_neg held, if_pos none, State.dropped, update_self,
        update_idem, Nat.sub_self, back, if_true, Nat.add_sub_cancel]
    rw [after]
  · rw [frame.2.2.2.2.2]
    simpa using locked
  · rintro ⟨valid, -, last⟩
    have held := (taken_valid valid).2 rfl
    rw [taken_ref, if_pos rfl] at last
    omega

theorem reach_le (p : Dirent → Bool) (l : List Dirent) : reach p l 0 ≤ (l.length + DPB - 1) / DPB := by
  unfold reach
  cases found : seek p l 0 with
  | none => rw [Nat.zero_add]
  | some =>
    have inside := (List.getElem?_eq_some_iff.mp (seek_some found).2.1).1
    unfold DPB
    dsimp only
    omega

theorem slot_le (x : Dinode) : slot x ≤ x.entries.length := (seek_free x.entries rfl).1

theorem dirlink_iff {Q : Bool → State n → Prop} (dir : (u.inode dp).type = .dir) : Spec (dirlink dp name inum) u E Q ↔
    if u.Fits dp (depth (u.inode dp) name) then
      match lookup (u.inode dp) name with
      | some (_, e) =>
        if u.ref e.inum = 0 ∧ NINODE ≤ u.inUse then E (.panic .igetNoInodes)
        else if u.locked e.inum then E .deadlock
        else Q false ((u.extended dp (depth (u.inode dp) name)).visited e.inum)
      | none =>
        if MAXFILE * DPB ≤ slot (u.inode dp) then E (.panic .dirlink)
        else if (u.extended dp (depth (u.inode dp) name)).Fits dp (slot (u.inode dp) / DPB + 1) then
          Q true { (u.extended dp (depth (u.inode dp) name)).extended dp (slot (u.inode dp) / DPB + 1) with
            inode := linkIn u.inode dp (slot (u.inode dp)) ⟨inum, cut name⟩ }
        else E (.panic (u.shortage dp))
    else E (.panic (u.shortage dp)) := by
  unfold dirlink
  rw [spec_bind, dirlookup_iff dir]
  by_cases fits : u.Fits dp (depth (u.inode dp) name)
  · rw [if_pos fits, if_pos fits]
    have ref : (u.extended dp (depth (u.inode dp) name)).ref = u.ref := rfl
    have inUse : (u.extended dp (depth (u.inode dp) name)).inUse = u.inUse := rfl
    have inode : (u.extended dp (depth (u.inode dp) name)).inode = u.inode := rfl
    have locked : (u.extended dp (depth (u.inode dp) name)).locked = u.locked := rfl
    have shortage := shortage_extended fits
    have mapped : depth (u.inode dp) name ≤ (u.extended dp (depth (u.inode dp) name)).mapped dp := by
      rw [extended_mapped]
      exact le_max_right _ _
    cases found : lookup (u.inode dp) name with
    | some pair =>
      dsimp only
      rw [iget_iff, ref, inUse]
      by_cases full : u.ref pair.2.inum = 0 ∧ NINODE ≤ u.inUse
      · rw [if_pos full, if_pos full]
      · rw [if_neg full, if_neg full, spec_bind, iput_taken, locked]
        exact Iff.rfl
    | none =>
      -- all blocks have been read, so the search for a free entry maps none
      have all : depth (u.inode dp) name = ((u.inode dp).entries.length + DPB - 1) / DPB := by
        rw [lookup] at found
        rw [depth, reach, found, Nat.zero_add]
      generalize u.extended dp (depth (u.inode dp) name) = w at ref inUse inode locked shortage mapped ⊢
      rw [all] at mapped
      have inside : reach (fun e => !e.live) (u.inode dp).entries 0 ≤ w.mapped dp := (reach_le _ _).trans mapped
      have front : slot (u.inode dp) / DPB ≤ w.mapped dp := by
        have := slot_le (u.inode dp)
        unfold DPB at mapped ⊢
        omega
      simp only [spec_bind, spec_getInode]
      rw [inode, scan_iff (Nat.zero_le _), if_pos (.inl inside), extended_of_le inside]
      simp only [spec_panicIf, spec_setInode, spec_pure]
      have place : ((seek (fun e => !e.live) (u.inode dp).entries 0).map Prod.fst).getD
        (u.inode dp).entries.length = slot (u.inode dp) := rfl
      rw [place, bmap_iff front, shortage]
      by_cases full : MAXFILE * DPB ≤ slot (u.inode dp)
      · simp [full]
      simp only [full, false_implies, not_false_eq_true, true_implies, true_and, if_false]
      have same : linkIn u.inode dp (slot (u.inode dp))
        ⟨inum, cut name⟩ = update (w.extended dp (slot (u.inode dp) / DPB + 1)).inode dp
          { u.inode dp with entries := put (u.inode dp).entries (slot (u.inode dp)) ⟨inum, cut name⟩ } := by
        rw [show (w.extended dp (slot (u.inode dp) / DPB + 1)).inode = u.inode from inode]
        rfl
      rw [same]
  · rw [if_neg fits, if_neg fits]

end Dirlink

section Crashes

def Tame (e : Stop) : Prop := e ≠ .panic .dirlink ∧ e ≠ .panic .createDirlink

/-- The directories of `u` are directories of `s`, with the same entries. -/
def Within (s u : State n) : Prop :=
  ∀ d, (u.inode d).type = .dir → (s.inode d).type = .dir ∧ (u.inode d).entries = (s.inode d).entries

theorem Within.refl (s : State n) : Within s s := fun _ dir => ⟨dir, rfl⟩

theorem Within.trans (first : Within s u) (second : Within u v) : Within s v := fun d dir =>
  have ⟨before, same⟩ := second d dir
  have ⟨start, same'⟩ := first d before
  ⟨start, same.trans same'⟩

theorem Within.of_eq (same : u.inode = s.inode) : Within s u := fun d dir => by
  rw [same] at dir ⊢
  exact ⟨dir, rfl⟩

theorem Within.update (keeps : x.type = .dir → (s.inode i).type = .dir ∧ x.entries = (s.inode i).entries) :
    Within s { s with inode := update s.inode i x } := by
  intro d dir
  by_cases this : d = i
  · subst this
    simp only [update_self] at dir ⊢
    exact keeps dir
  · simp only [update_of_ne this] at dir ⊢
    exact ⟨dir, trivial⟩

def Mild (m : M n α) : Prop := ∀ u, Spec m u Tame fun _ v => Within u v

theorem Mild.bind (first : Mild m) (second : ∀ a, Mild (f a)) : Mild (m >>= f) := fun u => by
  rw [spec_bind]
  exact (first u).mono fun a v within => (second a v).mono fun b w later => within.trans later

theorem Mild.pure (a : α) : Mild (pure a : M n α) := fun u => Within.refl u

theorem Mild.ite {c : Prop} [Decidable c] {m' : M n α} (pos : c → Mild m) (neg : ¬c → Mild m') :
    Mild (if c then m else m') := by
  split_ifs with h
  · exact pos h
  · exact neg h

theorem Mild.panicIf {c : Prop} [Decidable c] {p : Panic} (tame : Tame (.panic p)) :
    Mild (n := n) (panicIf c p) := fun u => by
  rw [spec_panicIf]
  exact ⟨fun _ => tame, fun _ => .refl u⟩

theorem Mild.modify {f : State n → State n} (within : ∀ u, Within u (f u)) : Mild (modify f) := within

theorem Mild.get {f : State n → M n α} (each : ∀ u, Mild (f u)) : Mild (do f (← get)) := fun u => each u u

theorem mild_balloc : Mild (balloc : M n Unit) :=
  .get fun u => .bind (.panicIf (by simp [Tame])) fun _ => .modify fun u => .of_eq rfl

theorem mild_bmap (ip : Inum) (bn : Nat) : Mild (n := n) (bmap ip bn) :=
  .get fun u => .ite (fun _ => .pure ()) fun _ => .bind (.panicIf (by simp [Tame])) fun _ =>
    .bind (.ite (fun _ => mild_balloc) fun _ => .pure ())
      fun _ => .bind mild_balloc fun _ => .modify fun u => .of_eq rfl

theorem mild_iget (i : Inum) : Mild (n := n) (iget i) := fun u => by
  rw [iget_iff]
  split_ifs
  · exact ⟨by simp, by simp⟩
  · exact .of_eq (taken_frame u i).1

theorem mild_idup (i : Inum) : Mild (n := n) (idup i) := .bind (.modify fun _ => .of_eq rfl) fun _ => .pure i

theorem mild_acquiresleep (i : Inum) : Mild (n := n) (acquiresleep i) :=
  .get fun _ => .ite (fun _ _ => ⟨by simp, by simp⟩) fun _ => .modify fun _ => .of_eq rfl

theorem mild_ilock (i : Inum) : Mild (n := n) (ilock i) := by
  unfold ilock
  refine .get fun u => .bind (.panicIf (by simp [Tame])) fun _ => .bind (mild_acquiresleep i) fun _ => fun u => ?_
  simp only [spec_bind, spec_get]
  refine .ite (fun _ => ?_) fun _ => .refl u
  simp only [spec_bind, spec_set, spec_panicIf]
  exact ⟨fun _ => by simp [Tame], fun _ => .of_eq rfl⟩

theorem mild_iunlock (i : Inum) : Mild (n := n) (iunlock i) :=
  .get fun _ => .bind (.panicIf (by simp [Tame])) fun _ => .modify fun u => .of_eq rfl

theorem mild_iput (i : Inum) : Mild (n := n) (iput i) := by
  refine .bind (mild_acquiresleep i) fun _ => .get fun u => .bind (.ite (fun _ u => ?_) fun _ => .pure ()) fun _ => ?_
  · unfold ifree itrunc
    simp only [spec_bind, spec_modify]
    rw [update_idem]
    exact .update (by rintro ⟨⟩)
  · exact .bind (.modify fun u => .of_eq rfl) fun _ => .modify fun u => .of_eq rfl

theorem mild_iunlockput (i : Inum) : Mild (n := n) (iunlockput i) := .bind (mild_iunlock i) fun _ => mild_iput i

theorem mild_scan (d : Inum) (p : Dirent → Bool) (l : List Dirent) (k : Nat) : Mild (n := n) (scan d p l k) := by
  induction l generalizing k with
  | nil => exact .pure none
  | cons e _ ih => exact .bind (mild_bmap d (k / DPB)) fun _ => .ite (fun _ => .pure _) fun _ => ih (k + 1)

theorem mild_getInode {f : Dinode → M n α} (each : ∀ x, Mild (f x)) : Mild (getInode i >>= f) := fun u => each _ u

theorem mild_dirlookup (d : Inum) (name : Name) : Mild (n := n) (dirlookup d name) := by
  refine mild_getInode fun x => .bind (.panicIf (by simp [Tame])) fun _ => .bind (mild_scan _ _ _ _) fun found => ?_
  cases found with
  | none => exact .pure none
  | some => exact .bind (mild_iget _) fun _ => .pure _

theorem mild_namexEnd (par : Bool) (ip : Inum) (name : Name) : Mild (n := n) (namexFrom.namexEnd par ip name) :=
  .ite (fun _ => .bind (mild_iput ip) fun _ => .pure none) fun _ => .pure _

theorem mild_namexFrom (par : Bool) (fuel : Nat) (ip : Inum) (name : Name) (path : Path) :
    Mild (n := n) (namexFrom par fuel ip name path) := by
  induction fuel generalizing ip name path with
  | zero => exact mild_namexEnd par ip name
  | succ _ ih =>
    rw [namexFrom]
    cases skipelem path with
    | none => exact mild_namexEnd par ip name
    | some =>
      have fails : Mild (n := n) (do iunlockput ip; return none : M n (Option (Inum × Name))) :=
        .bind (mild_iunlockput ip) fun _ => .pure none
      refine .bind (mild_ilock ip) fun _ => mild_getInode fun x => .ite (fun _ => fails) fun _ => ?_
      refine .ite (fun _ => .bind (mild_iunlock ip) fun _ => .pure _)
        fun _ => .bind (mild_dirlookup ip _) fun found => ?_
      cases found with
      | none => exact fails
      | some => exact .bind (mild_iunlockput ip) fun _ => ih _ _ _

theorem mild_namex (t : Fin n) (path : Path) (par : Bool) : Mild (namex t path par) :=
  .bind (.ite (fun _ => mild_iget ROOTINO) fun _ => .get fun _ => mild_idup _) fun _ => mild_namexFrom _ _ _ _ _

theorem mild_linkBad (ip : Inum) : Mild (n := n) (linkBad ip) := by
  refine .bind (mild_ilock ip) fun _ => fun u => ?_
  simp only [spec_bind, spec_getInode, spec_setInode]
  have lowered : Within u { u with inode := update u.inode ip { u.inode ip with nlink := (u.inode ip).nlink - 1 } } :=
    .update fun dir => ⟨dir, rfl⟩
  exact (mild_iunlockput ip _).mono fun _ v within => lowered.trans within

def Full (x : Dinode) (e : Stop) : Prop := e ≠ .panic .createDirlink ∧ (e = .panic .dirlink → MAXFILE * DPB ≤ slot x)

theorem Tame.full (tame : Tame e) : Full x e := ⟨tame.2, fun same => absurd same tame.1⟩

theorem tame_shortage (u : State n) (d : Inum) : Tame (.panic (u.shortage d)) := by
  unfold State.shortage
  split_ifs <;> simp [Tame]

theorem dirlink_notDir (notDir : (u.inode dp).type ≠ .dir) : Spec (dirlink dp name inum) u Tame fun _ _ => False := by
  unfold dirlink dirlookup
  simp only [spec_bind, spec_getInode, spec_panicIf]
  exact ⟨fun _ => by simp [Tame], fun dir => absurd notDir dir⟩

theorem put_length (l : List Dirent) (off : Nat) (e : Dirent) : (put l off e).length ≤ l.length + 1 := by
  unfold put
  split_ifs <;> simp

theorem linkIn_frame (T : Table) (off : Nat) (e : Dirent) : (∀ j, j ≠ dp → linkIn T dp off e j = T j) ∧
    (linkIn T dp off e dp).type = (T dp).type ∧ (linkIn T dp off e dp).entries.length ≤ (T dp).entries.length + 1 := by
  unfold linkIn
  rw [update_self]
  exact ⟨fun j other => update_of_ne other .., rfl, put_length _ _ _⟩

theorem dirlink_frame (dp : Inum) (name : Name) (inum : Inum) (u : State n) :
    Spec (dirlink dp name inum) u (Full (u.inode dp)) fun r v =>
    (lookup (u.inode dp) name = none → r = true) ∧
      (∀ j, j ≠ dp → v.inode j = u.inode j) ∧ (v.inode dp).type = (u.inode dp).type ∧
      (v.inode dp).entries.length ≤ (u.inode dp).entries.length + 1 := by
  by_cases dir : (u.inode dp).type = .dir
  · rw [dirlink_iff dir]
    by_cases fits : u.Fits dp (depth (u.inode dp) name)
    · rw [if_pos fits]
      cases lookup (u.inode dp) name with
      | some =>
        dsimp only
        split_ifs
        · exact Tame.full (by simp [Tame])
        · exact Tame.full (by simp [Tame])
        · exact ⟨nofun, fun _ _ => rfl, rfl, Nat.le_succ _⟩
      | none =>
        dsimp only
        split_ifs with full
        · exact ⟨by simp, fun _ => full⟩
        · exact ⟨fun _ => rfl, linkIn_frame _ _ _⟩
        · exact (tame_shortage u dp).full
    · rw [if_neg fits]
      exact (tame_shortage u dp).full
  · exact (dirlink_notDir dir).imp (fun _ => Tame.full) fun _ _ no => no.elim

def Brim (s : State n) (e : Stop) : Prop :=
  e ≠ .panic .createDirlink ∧ (e = .panic .dirlink → ∃ d, (s.inode d).type = .dir ∧ MAXFILE * DPB ≤ slot (s.inode d))

theorem Tame.brim (tame : Tame e) : Brim s e := ⟨tame.2, fun same => absurd same tame.1⟩

theorem Full.brim (dir : (s.inode d).type = .dir) (same : x.entries = (s.inode d).entries) (full : Full x e) :
    Brim s e := by
  refine ⟨full.1, fun stops => ⟨d, dir, ?_⟩⟩
  have := full.2 stops
  unfold slot at this ⊢
  rwa [same] at this

theorem Brim.within (within : Within s u) (brim : Brim u e) : Brim s e := by
  refine ⟨brim.1, fun stops => ?_⟩
  obtain ⟨d, dir, full⟩ := brim.2 stops
  obtain ⟨dir', same⟩ := within d dir
  refine ⟨d, dir', ?_⟩
  unfold slot at full ⊢
  rwa [same] at full

def Wary (m : M n α) : Prop := ∀ u, Spec m u (Brim u) fun _ _ => True

theorem Mild.wary (mild : Mild m) : Wary m := fun u => (mild u).imp (fun _ => Tame.brim) fun _ _ _ => trivial

theorem Wary.within (h : Wary m) (within : Within s u) : Spec m u (Brim s) fun _ _ => True :=
  (h u).imp (fun _ => Brim.within within) fun _ _ => id

theorem Mild.andThen (first : Mild m) (second : ∀ a, Wary (f a)) : Wary (m >>= f) := fun u => by
  rw [spec_bind]
  refine (first u).imp (fun _ => Tame.brim) fun a v within => ?_
  exact (second a).within within

theorem Wary.andThen (first : Wary m) (second : ∀ a, Mild (f a)) : Wary (m >>= f) := fun u => by
  rw [spec_bind]
  exact (first u).mono fun a v _ => ((second a) v).imp (fun _ => Tame.brim) fun _ _ _ => trivial

theorem wary_dirlink (dp : Inum) (name : Name) (inum : Inum) : Wary (n := n) (dirlink dp name inum) := fun u => by
  by_cases dir : (u.inode dp).type = .dir
  · exact (dirlink_frame dp name inum u).imp (fun _ => Full.brim dir rfl) fun _ _ _ => trivial
  · exact (dirlink_notDir dir).imp (fun _ => Tame.brim) fun _ _ no => no.elim

theorem wary_linkAt (dp : Inum) (name : Name) (ip : Inum) : Wary (n := n) (linkAt dp name ip) := by
  refine (mild_ilock dp).andThen fun _ => (wary_dirlink dp name ip).andThen fun _ => .ite (fun _ => ?_) fun _ => ?_
  · exact .bind (mild_iunlockput dp) fun _ => .bind (mild_iput ip) fun _ => .pure 0
  · exact .bind (mild_iunlockput dp) fun _ => mild_linkBad ip

theorem wary_sys_link (t : Fin n) (old new : Path) : Wary (sys_link t old new) := by
  refine (Mild.bind (mild_namex t old false) fun _ => .pure _).andThen fun found => ?_
  cases found with
  | none => exact (Mild.pure _).wary
  | some ip =>
    refine (mild_ilock ip).andThen fun _ u => ?_
    simp only [spec_bind, spec_getInode]
    split_ifs
    · exact ((mild_iunlockput ip).bind fun _ => .pure (-1)).wary u
    rw [spec_bind, spec_setInode]
    have raised : Within u { u with inode := update u.inode ip { u.inode ip with nlink := (u.inode ip).nlink + 1 } } :=
      .update fun dir => ⟨dir, rfl⟩
    refine ((mild_iunlock ip).andThen fun _ => (mild_namex t new true).andThen fun parent => ?_).within raised
    cases parent with
    | none => exact (mild_linkBad ip).wary
    | some => exact wary_linkAt _ _ _

theorem ilock_frozen (i : Inum) (u : State n) : Spec (ilock i) u Tame fun _ v => v.inode = u.inode := by
  unfold ilock acquiresleep
  simp only [spec_bind, spec_get, spec_panicIf]
  refine ⟨fun _ => by simp [Tame], fun _ => ?_⟩
  split_ifs
  · exact ⟨by simp, by simp⟩
  rw [spec_modify]
  split_ifs
  · simp only [spec_bind, spec_set, spec_panicIf]
    exact ⟨fun _ => by simp [Tame], fun _ => trivial⟩
  · exact rfl

theorem createDots_frame (apart : dp ≠ ip) (empty : (u.inode ip).entries = []) :
    Spec (createDots ip dp) u Tame fun _ v =>
    (v.inode dp).type = (u.inode dp).type ∧ (v.inode dp).entries = (u.inode dp).entries := by
  have small {x : Dinode} {e : Stop} (short : x.entries.length ≤ 1) (full : Full x e) : Tame e := by
    refine ⟨fun stops => ?_, full.1⟩
    have most := (full.2 stops).trans (slot_le x)
    have : 1 < MAXFILE * DPB := by decide
    omega
  unfold createDots
  simp only [spec_bind, spec_getInode, spec_setInode]
  refine (dirlink_frame ip dot ip _).imp (fun _ => small ?_) ?_
  · simp [apart.symm, empty]
  rintro r v ⟨_, others, _, length⟩
  rw [spec_panicIf]
  refine ⟨fun _ => by simp [Tame], fun _ => ?_⟩
  refine (dirlink_frame ip dotdot dp v).imp (fun _ => small ?_) ?_
  · refine length.trans ?_
    simp [apart.symm, empty]
  rintro r w ⟨_, others', _, _⟩
  rw [spec_panicIf]
  refine ⟨fun _ => by simp [Tame], fun _ => ?_⟩
  rw [others' dp apart, others dp apart]
  simp

theorem dots_frame (type : FileType) (apart : dp ≠ ip) (empty : (u.inode ip).entries = []) :
    Spec (if type = .dir then createDots ip dp else return) u Tame fun _ v =>
      (v.inode dp).type = (u.inode dp).type ∧ (v.inode dp).entries = (u.inode dp).entries :=
  .ite (fun _ => createDots_frame apart empty) fun _ => ⟨rfl, rfl⟩

theorem ialloc_frame (type : FileType) (u : State n) : Spec (ialloc type) u Tame fun ip v =>
    (u.inode ip).type = .none ∧ v.inode = update u.inode ip ⟨type, 0, []⟩ := by
  unfold ialloc
  simp only [spec_bind, spec_get]
  cases free : (List.finRange NINODES).find? fun i => i ≠ 0 ∧ (u.inode i).type = .none with
  | none => simp [Tame]
  | some ip =>
    obtain ⟨-, isFree⟩ : ip ≠ 0 ∧ (u.inode ip).type = .none := by simpa using List.find?_some free
    dsimp only
    rw [spec_bind, spec_setInode, iget_iff]
    by_cases cached : u.ref ip = 0 ∧ NINODE ≤ u.inUse
    · rw [if_pos cached]
      simp [Tame]
    · rw [if_neg cached]
      exact ⟨isFree, (taken_frame _ ip).1⟩

theorem createNew_wary {type : FileType} (dir : (u.inode dp).type = .dir) (absent : lookup (u.inode dp) name = none) :
    Spec (createNew dp name type) u (Brim u) fun _ _ => True := by
  unfold createNew
  simp only [spec_bind]
  refine (ialloc_frame type u).imp (fun _ => Tame.brim) ?_
  rintro ip v ⟨isFree, made⟩
  have apart : dp ≠ ip := by
    rintro rfl
    rw [dir] at isFree
    cases isFree
  refine (ilock_frozen ip v).imp (fun _ => Tame.brim) fun _ w locked => ?_
  simp only [spec_getInode, spec_setInode]
  set x : State n := { w with inode := update w.inode ip { w.inode ip with nlink := 1 } } with isX
  have new : (x.inode ip).entries = [] := by
    simp only [isX, update_self, locked, made]
  have same : x.inode dp = u.inode dp := by
    simp only [isX, update_of_ne apart, locked, made]
  refine (dots_frame type apart new).imp (fun _ => Tame.brim) ?_
  rintro _ x ⟨isDir, entries⟩
  rw [same] at isDir entries
  refine (dirlink_frame dp name ip x).imp (fun _ => Full.brim dir entries) ?_
  rintro r y ⟨added, _⟩
  rw [spec_panicIf]
  refine ⟨fun failed => ?_, fun _ => ?_⟩
  · have still : lookup (x.inode dp) name = none := by rwa [lookup, entries]
    rw [added still] at failed
    cases failed
  · exact (mild_iunlockput dp y).imp (fun _ => Tame.brim) fun _ _ _ => trivial

theorem wary_create (t : Fin n) (path : Path) (type : FileType) : Wary (create t path type) := by
  refine (mild_namex t path true).andThen fun parent => ?_
  cases parent with
  | none => exact (Mild.pure none).wary
  | some place =>
    obtain ⟨dp, name⟩ := place
    refine (mild_ilock dp).andThen fun _ u => ?_
    have present (ip : Inum) : Mild (n := n) (do
        iunlockput dp
        ilock ip
        if type = .file ∧ (← getInode ip).type = .file then return some ip else do iunlockput ip; return none) := by
      refine (mild_iunlockput dp).bind fun _ => (mild_ilock ip).bind
        fun _ => mild_getInode fun x => .ite (fun _ => .pure _) fun _ => ?_
      exact (mild_iunlockput ip).bind fun _ => .pure none
    by_cases dir : (u.inode dp).type = .dir
    · rw [spec_bind, dirlookup_iff dir]
      by_cases fits : u.Fits dp (depth (u.inode dp) name)
      · rw [if_pos fits]
        cases absent : lookup (u.inode dp) name with
        | none =>
          dsimp only
          rw [spec_bind]
          exact (@createNew_wary _ (u.extended dp (depth (u.inode dp) name)) dp name type dir absent).imp
            (fun _ => Brim.within (.of_eq rfl)) fun _ _ => id
        | some found =>
          have later := ((mild_iget found.2.inum).bind fun ip => present ip).wary
            (u.extended dp (depth (u.inode dp) name))
          rw [spec_bind] at later
          exact later.imp (fun _ => Brim.within (.of_eq rfl)) fun _ _ => id
      · rw [if_neg fits]
        exact (tame_shortage u dp).brim
    · unfold dirlookup
      simp only [spec_bind, spec_getInode, spec_panicIf]
      exact ⟨fun _ => Tame.brim (by simp [Tame]), fun isDir => absurd dir isDir⟩

end Crashes

section Rollback
variable {t : Fin n}

theorem spec_any (u : State n) : Spec m u (fun _ => True) fun _ _ => True := by
  unfold Spec
  cases m u <;> exact trivial

theorem Settled.blocks {mapped : Inum → Nat} {free : Nat} (settled : Settled s t) :
    Settled { s with mapped := mapped, free := free } t :=
  ⟨settled.unlocked, settled.cwd, settled.loaded, settled.orphans⟩

theorem linkBad_back {T : Table} (settled : Settled u t) (holding : Holding u none v)
    (table : u.inode = update T ip (raised (T ip))) (held : 0 < u.ref ip)
    (others : (T ip).type ≠ .none → (T ip).nlink = 0 → u.ref ip ≠ 1) :
    Spec (linkBad ip) v (fun _ => True) fun _ w => w.inode = T := by
  have ref : v.ref ip = u.ref ip := holding.ref ip
  have unlocked : v.locked ip = false := by rw [holding.locked, settled.unlocked]
  have type : (v.inode ip).type = (T ip).type := by simp [holding.inode, table, raised]
  unfold linkBad
  rw [spec_bind, ilock_iff (by rwa [ref]) unlocked (by rw [holding.inode]; exact holding.loaded ip (by rwa [ref]))]
  split_ifs with isFree
  simp only [spec_bind, spec_getInode, spec_setInode]
  have back : update (v.entered ip).inode ip
    { (v.entered ip).inode ip with nlink := ((v.entered ip).inode ip).nlink - 1 } = T := by
    rw [show (v.entered ip).inode = v.inode from rfl, holding.inode, table, update_idem, update_self]
    simp only [raised, Int16.add_sub_cancel]
    exact update_eq_self ip T
  rw [back, iunlockput, spec_bind, iunlock_iff]
  rotate_left
  · exact ref.symm ▸ held
  · exact update_self ..
  rw [iput_iff]
  · rfl
  · exact update_self ..
  · rintro ⟨-, unlinked, last⟩
    exact others (type ▸ isFree) unlinked (ref.symm.trans last)

theorem Holding.visited {held : Option Inum} (holding : Holding s held u) : Holding s held (u.visited i) :=
  { holding with
    loaded := fun j inUse valid => by
      refine holding.loaded j inUse ?_
      unfold State.visited at valid
      dsimp only at valid
      split_ifs at valid
      · by_cases this : j = i
        · subst this
          simp at valid
        · simpa [this] using valid
      · exact valid }

theorem entered_visited (other : i ≠ dp) : (u.entered dp).visited i = (u.visited i).entered dp := by
  unfold State.visited State.entered
  dsimp only
  split_ifs
  · rw [update_comm other]
  · rfl

theorem linkAt_back {T : Table} (settled : Settled u t) (holding : Holding u (some dp) v)
    (table : u.inode = update T ip (raised (T ip))) (held : 0 < u.ref ip)
    (others : (T ip).type ≠ .none → (T ip).nlink = 0 → u.ref ip ≠ 1) :
    Spec (linkAt dp name ip) v (fun _ => True) fun r w => r = -1 → w.inode = T := by
  unfold linkAt
  rw [spec_bind, ilock_holding settled holding]
  split_ifs with isFree
  rw [spec_bind]
  have isDir : ((v.entered dp).inode dp).type = (v.inode dp).type := rfl
  by_cases dir : (v.inode dp).type = .dir
  · rw [dirlink_iff (isDir.trans dir)]
    by_cases fits : (v.entered dp).Fits dp (depth ((v.entered dp).inode dp) name)
    · rw [if_pos fits]
      cases lookup ((v.entered dp).inode dp) name with
      | some found =>
        dsimp only
        by_cases full : (v.entered dp).ref found.2.inum = 0 ∧ NINODE ≤ (v.entered dp).inUse
        · rw [if_pos full]
          trivial
        rw [if_neg full]
        by_cases locked : (v.entered dp).locked found.2.inum = true
        · rw [if_pos locked]
          trivial
        rw [if_neg locked, if_neg Bool.false_ne_true, spec_bind]
        have other : found.2.inum ≠ dp := fun same => locked (same ▸ update_self ..)
        have after : Holding (u.extended dp (depth (v.inode dp) name)) (some dp)
          ((v.extended dp (depth (v.inode dp) name)).visited found.2.inum) :=
          holding.extended.visited
        have same : ((v.entered dp).extended dp (depth ((v.entered dp).inode dp) name)).visited found.2.inum =
            ((v.extended dp (depth (v.inode dp) name)).visited found.2.inum).entered dp :=
          @entered_visited _ (v.extended dp (depth (v.inode dp) name)) _ _ other
        rw [same, iunlockput_entered settled.extended after isFree]
        exact (linkBad_back settled.extended (after.read isFree).drop table held others).mono fun _ _ back _ => back
      | none =>
        dsimp only
        split_ifs <;> try trivial
        simp only [spec_bind, spec_pure]
        exact (spec_any _).mono fun _ _ _ => (spec_any _).mono fun _ _ _ => by rintro ⟨⟩
    · rw [if_neg fits]
      trivial
  · exact (dirlink_notDir (fun yes => dir (isDir.symm.trans yes))).imp (fun _ _ => trivial) fun _ _ no => no.elim

theorem Settled.raise (settled : Settled s t) (holding : Holding s (some ip) u) (isUsed : (s.inode ip).type ≠ .none) :
    Settled { u.seen ip with inode := update s.inode ip (raised (s.inode ip)) } t := by
  have type (i : Inum) : (update s.inode ip (raised (s.inode ip)) i).type = (s.inode i).type := by
    by_cases this : i = ip
    · rw [this, update_self]
      rfl
    · rw [update_of_ne this]
  constructor
  case unlocked => exact fun i => holding.unlocked settled i
  case cwd =>
    dsimp only [State.seen]
    rw [holding.proc, holding.ref]
    exact Nat.add_pos_left settled.cwd _
  case loaded =>
    intro i held valid
    dsimp only at held valid ⊢
    rw [type]
    exact (holding.read isUsed).loaded i held valid
  case orphans =>
    intro i isUsed unlinked
    dsimp only [State.seen] at isUsed unlinked ⊢
    by_cases this : i = ip
    · rw [this]
      exact holding.held
    · rw [update_of_ne this] at isUsed unlinked
      rw [holding.ref]
      exact Nat.add_pos_left (settled.orphans i isUsed unlinked) _

theorem linkFrom_back {new : Path} (settled : Settled s t) (holding : Holding s (some ip) u) : Spec (do
      ilock ip
      let x ← getInode ip
      if x.type = .dir then do
        iunlockput ip
        return -1
      else do
        setInode ip { x with nlink := x.nlink + 1 }
        iunlock ip
        match ← nameiparent t new with
        | none => linkBad ip
        | some (dp, name) => linkAt dp name ip) u (fun _ => True) fun r v => r = -1 → v.inode = s.inode := by
  rw [spec_bind, ilock_holding settled holding]
  by_cases isFree : (s.inode ip).type = .none
  · rw [if_pos isFree]
    trivial
  rw [if_neg isFree, spec_bind, spec_getInode, show (u.entered ip).inode = s.inode from holding.inode]
  by_cases isDir : (s.inode ip).type = .dir
  · rw [if_pos isDir, spec_bind, iunlockput_entered settled holding isFree]
    exact fun _ => holding.inode
  rw [if_neg isDir]
  simp only [spec_bind, spec_setInode]
  rw [show (u.entered ip).inode = s.inode from holding.inode]
  set w : State n := { u.seen ip with inode := update s.inode ip (raised (s.inode ip)) } with isW
  have later : Settled w t := settled.raise holding isFree
  have held : 0 < w.ref ip := holding.held
  have others : (s.inode ip).type ≠ .none → (s.inode ip).nlink = 0 → w.ref ip ≠ 1 := by
    intro isUsed unlinked _
    have orphan := settled.orphans ip isUsed unlinked
    have mine : w.ref ip = s.ref ip + share (some ip) ip := holding.ref ip
    rw [share, if_pos rfl] at mine
    omega
  have unlocks {Q : Unit → State n → Prop} : Spec (iunlock ip) { w with locked := update w.locked ip true }
    (fun _ => True) Q ↔ Q () w := by
    rw [iunlock_iff (u := { w with locked := update w.locked ip true }) held (update_self ..),
      relock (later.unlocked ip)]
  refine unlocks.mpr ?_
  obtain ⟨finds, stops⟩ := namex_settled later true new
  by_cases clear : Clear w t true new
  · refine (finds clear).imp (fun _ => False.elim) ?_
    rintro r v ⟨_, _, _, holding⟩
    cases r with
    | none => exact (linkBad_back later.blocks holding rfl held others).mono fun _ _ back _ => back
    | some => exact linkAt_back later.blocks holding rfl held others
  · exact (stops clear).imp (fun _ => id) fun _ _ no => no.elim

theorem sys_link_back (settled : Settled s t) (old new : Path) :
    Spec (sys_link t old new) s (fun _ => True) fun r u => r = -1 → u.inode = s.inode := by
  unfold sys_link namei
  simp only [spec_bind]
  obtain ⟨finds, stops⟩ := namex_settled settled false old
  by_cases clear : Clear s t false old
  · refine (finds clear).imp (fun _ => False.elim) ?_
    rintro r u ⟨_, mapped, free, holding⟩
    cases r with
    | none => exact fun _ => holding.inode
    | some => exact linkFrom_back (s := { s with mapped := mapped, free := free }) settled.blocks holding
  · exact (stops clear).mono fun _ _ no => no.elim

end Rollback

section Outcome

/-- What lets `dirlink` return: the inode with this name can be taken and is not locked, as the directory itself is, or
there is a place for a new entry; and there are the blocks. -/
def CanLink (s : State n) (dp : Inum) (name : Name) : Prop :=
  s.Fits dp (depth (s.inode dp) name) ∧
    match lookup (s.inode dp) name with
    | some (_, e) => (0 < s.ref e.inum ∨ s.inUse < NINODE) ∧ s.locked e.inum = false
    | none => slot (s.inode dp) < MAXFILE * DPB ∧
        (s.extended dp (depth (s.inode dp) name)).Fits dp (slot (s.inode dp) / DPB + 1)

/-- The entry has been added, or nothing has changed. -/
structure Linking (s : State n) (dp : Inum) (name : Name) (inum : Inum) (added : Bool) (u : State n) : Prop where
  inode : u.inode = if added then linkIn s.inode dp (slot (s.inode dp)) ⟨inum, cut name⟩ else s.inode
  absent : added = true ↔ lookup (s.inode dp) name = none
  ref : u.ref = s.ref
  locked : u.locked = s.locked
  file : u.file = s.file
  proc : u.proc = s.proc

theorem dirlink_ok (dir : (s.inode dp).type = .dir) (can : CanLink s dp name) :
    Spec (dirlink dp name inum) s (fun _ => False) fun added u => Linking s dp name inum added u := by
  obtain ⟨fits, can⟩ := can
  rw [dirlink_iff dir, if_pos fits]
  cases found : lookup (s.inode dp) name with
  | some pair =>
    rw [found] at can
    dsimp only at can ⊢
    have cached : ¬(s.ref pair.2.inum = 0 ∧ NINODE ≤ s.inUse) := by omega
    have unlocked : ¬s.locked pair.2.inum = true := by simp [can.2]
    rw [if_neg cached, if_neg unlocked]
    exact ⟨rfl, by simp [found], rfl, rfl, rfl, rfl⟩
  | none =>
    rw [found] at can
    dsimp only at can ⊢
    rw [if_neg (Nat.not_le_of_lt can.1), if_pos can.2]
    exact ⟨rfl, by simp [found], rfl, rfl, rfl, rfl⟩

theorem dirlink_stops (dir : (s.inode dp).type = .dir) (cannot : ¬CanLink s dp name) :
    Spec (dirlink dp name inum) s (fun _ => True) fun _ _ => False := by
  rw [dirlink_iff dir]
  by_cases fits : s.Fits dp (depth (s.inode dp) name)
  · have cannot' : ¬_ := fun can => cannot ⟨fits, can⟩
    rw [if_pos fits]
    cases found : lookup (s.inode dp) name with
    | some =>
      rw [found] at cannot'
      dsimp only at cannot' ⊢
      split_ifs with full locked
      exact cannot' ⟨by omega, by simpa using locked⟩
    | none =>
      rw [found] at cannot'
      dsimp only at cannot' ⊢
      split_ifs with full more
      exact cannot' ⟨by omega, more⟩
  · rw [if_neg fits]
    trivial

/-- When `dirlink` adds the entry or returns -1, what `sys_link` leaves when it fails, and when the two panics
happen. -/
theorem dirlink_outcome :
    (∀ (s : State n) (dp inum : Inum) (name : Name), (s.inode dp).type = .dir →
      ((∃ added u, dirlink dp name inum s = .ok (added, u) ∧ Linking s dp name inum added u) ↔ CanLink s dp name)) ∧
    (∀ (s u : State n) (t : Fin n) (old new : Path), Settled s t →
      sys_link t old new s = .ok (-1, u) → u.inode = s.inode) ∧
    ∀ (s : State n) (t : Fin n) (e : Stop),
      (∃ path type, create t path type s = .error e) ∨ (∃ old new, sys_link t old new s = .error e) →
        e ≠ .panic .createDirlink ∧
        (e = .panic .dirlink → ∃ d, (s.inode d).type = .dir ∧ MAXFILE * DPB ≤ slot (s.inode d)) := by
  refine ⟨fun s _ _ _ dir => ⟨?_, fun can => ?_⟩, fun s u t old new settled failed => ?_, fun s t e stopped => ?_⟩
  · rintro ⟨added, u, run, -⟩
    by_contra cannot
    exact (dirlink_stops dir cannot).ok run
  · obtain ⟨added, u, run, linking⟩ := (dirlink_ok dir can).returns
    exact ⟨added, u, run, linking⟩
  · exact (sys_link_back settled old new).ok failed rfl
  · rcases stopped with ⟨path, type, stopped⟩ | ⟨old, new, stopped⟩
    · exact (wary_create t path type s).error stopped
    · exact (wary_sys_link t old new s).error stopped

theorem dirlink_outcome_boot : ∃ added u, dirlink ROOTINO nameA 5 (boot 0 (mkfs []) : State 1) = .ok (added, u) ∧
    Linking (boot 0 (mkfs []) : State 1) ROOTINO nameA 5 added u := by
  apply (dirlink_outcome.1 _ ROOTINO 5 nameA (by decide)).mpr
  refine ⟨.inl (by decide), ?_⟩
  have absent : lookup ((boot 0 (mkfs []) : State 1).inode ROOTINO) nameA = none := by decide
  rw [absent]
  exact ⟨by decide, .inl (by decide)⟩

theorem link_dot : ∃ s : State 1, exec (step 0) (boot 0 (mkfs [])) [(0, .open nameA O_CREATE)] = some s ∧
    sys_link 0 nameA (slash :: dot) s = .error .deadlock := by
  decide +kernel

end Outcome

end Xv6.Namespace
