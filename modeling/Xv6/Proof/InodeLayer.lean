import Xv6.Proof.FsBindings
import Xv6.Proof.EntryCreation
import Xv6.Proof.InodeRefs

/-!
# One inode layer

`Fs` has the blocks of the inodes, `Namespace` their directories and `InodeCache` the places of the cache. The three
count the references to an inode in the same way, and `dirlink` does to the blocks of a directory what it does to its
entries.
-/

namespace Xv6.InodeLayer
open Xv6.Library Xv6.Directory
open Function (update_apply update)

variable {n : Nat} {t : Fin n} {i : Inum}

/-- The references of an inode cache: how many an inode has, and how many inodes have one. -/
@[ext] structure Refs where
  ref : Inum → Nat
  inUse : Nat

/-- `iget`, for which an inode without a reference needs an empty place. -/
def Refs.get (r : Refs) (i : Inum) : Option Refs :=
  if 0 < r.ref i then some { r with ref := update r.ref i (r.ref i + 1) }
  else if r.inUse < NINODE then some ⟨update r.ref i 1, r.inUse + 1⟩
  else none

/-- The end of `iput`. -/
def Refs.put (r : Refs) (i : Inum) : Refs :=
  ⟨update r.ref i (r.ref i - 1), if r.ref i = 1 then r.inUse - 1 else r.inUse⟩

section Names
open Namespace

def ofNames (s : State n) : Refs := ⟨s.ref, s.inUse⟩

variable {s : State n}

theorem iget_names : Spec (iget i) s
    (fun _ => (ofNames s).get i = none) fun _ u => (ofNames s).get i = some (ofNames u) := by
  rw [iget_iff]
  unfold Refs.get ofNames State.taken
  dsimp only
  split_ifs <;> first | rfl | omega

theorem iput_names (unlocked : s.locked i = false) :
    Spec (iput i) s (fun _ => False) fun _ u => ofNames u = (ofNames s).put i := by
  unfold iput acquiresleep releasesleep ifree itrunc
  simp only [spec_bind, spec_get, unlocked, Bool.false_eq_true, if_false, spec_modify]
  split_ifs <;> rfl

end Names

section Blocks
open Fs

def ofBlocks (s : State n) : Refs := ⟨fun i => (s.inode i).ref, s.cached⟩

variable {s : State n}

theorem iget_blocks (d : Int) :
    (ofBlocks s).get i = (act s t (.iget i) d).bind fun r => if r.2 then some (ofBlocks r.1) else none := by
  unfold Refs.get ofBlocks act State.setInode
  dsimp only
  split_ifs <;> simp [update_apply, funext_iff, Fin.ext_iff, apply_ite Inode.ref]

theorem decRef_blocks (d : Int) : (act s t (.decRef i) d).map (fun r => ofBlocks r.1) = some ((ofBlocks s).put i) := by
  unfold Refs.put ofBlocks act State.setInode
  simp [update_apply, funext_iff, Fin.ext_iff, apply_ite Inode.ref]

end Blocks

section Places
open InodeCache

def ofPlaces (s : Shared n) : Refs where
  ref i := ∑ ip, if (s.inode ip).inum = i then (s.inode ip).ref else 0
  inUse := ∑ ip, if 0 < (s.inode ip).ref then 1 else 0

variable {s u : Shared n} {ip : Slot}

theorem ofPlaces_setInode (s : Shared n) (ip : Slot) (x : Inode n) :
    (∀ i, (ofPlaces (s.setInode ip x)).ref i + (if (s.inode ip).inum = i then (s.inode ip).ref else 0) =
      (ofPlaces s).ref i + if x.inum = i then x.ref else 0) ∧
    (ofPlaces (s.setInode ip x)).inUse + (if 0 < (s.inode ip).ref then 1 else 0) =
      (ofPlaces s).inUse + if 0 < x.ref then 1 else 0 :=
  ⟨fun i => sum_update (fun y : Inode n => if y.inum = i then y.ref else 0) s.inode ip x,
    sum_update (fun y : Inode n => if 0 < y.ref then 1 else 0) s.inode ip x⟩

theorem inUse_le (s : Shared n) : (ofPlaces s).inUse ≤ NINODE := by
  simp only [ofPlaces]
  rw [← Finset.card_filter]
  exact (Finset.card_le_univ _).trans_eq (Fintype.card_fin _)

theorem iget_places (s : Shared n) (i : Inum) : (igetSlot s i).map (fun r => ofPlaces r.1) = (ofPlaces s).get i := by
  unfold igetSlot
  cases hit : cached s i with
  | some ip =>
    have found : 0 < (s.inode ip).ref ∧ (s.inode ip).inum = i := by simpa using List.find?_some hit
    have le := le_sum (fun y => if (s.inode y).inum = i then (s.inode y).ref else 0) ip
    obtain ⟨ref, inUse⟩ := ofPlaces_setInode s ip { s.inode ip with ref := (s.inode ip).ref + 1 }
    rw [if_pos found.2] at le
    have positive : 0 < (ofPlaces s).ref i := found.1.trans_le le
    rw [Refs.get, if_pos positive]
    refine congrArg some (Refs.ext (funext fun j => ?_) ?_)
    · have sum := ref j
      simp only [update_apply]
      grind
    · grind
  | none =>
    have miss (ip : Slot) : 0 < (s.inode ip).ref → (s.inode ip).inum ≠ i := by
      simpa using List.find?_eq_none.mp hit ip (List.mem_finRange ip)
    have absent : (ofPlaces s).ref i = 0 := by
      simp only [ofPlaces]
      refine Finset.sum_eq_zero fun ip _ => ?_
      grind
    rw [Refs.get, if_neg (by omega)]
    cases room : empty s with
    | some ip =>
      have unused : (s.inode ip).ref = 0 := by simpa using List.find?_some room
      obtain ⟨ref, inUse⟩ := ofPlaces_setInode s ip { s.inode ip with inum := i, ref := 1, valid := false }
      have le := inUse_le (s.setInode ip { s.inode ip with inum := i, ref := 1, valid := false })
      have less : (ofPlaces s).inUse < NINODE := by grind
      rw [if_pos less]
      refine congrArg some (Refs.ext (funext fun j => ?_) ?_)
      · have sum := ref j
        simp only [update_apply]
        grind
      · grind
    | none =>
      have every (ip : Slot) : 0 < (s.inode ip).ref := by
        simpa [Nat.pos_iff_ne_zero] using List.find?_eq_none.mp room ip (List.mem_finRange ip)
      have full : (ofPlaces s).inUse = NINODE := by
        simp only [ofPlaces, every, if_true]
        rw [Finset.sum_const, Finset.card_univ, Fintype.card_fin, smul_eq_mul, mul_one]
      rw [if_neg full.not_lt]
      rfl

theorem decRef_places {G : Fin n → Own n} {c : Choice n} (h : Inodes s G) (held : 0 < (s.inode ip).ref) :
    (act s t (.decRef ip) c).map (fun r => ofPlaces r.1) = some ((ofPlaces s).put (s.inode ip).inum) := by
  have only : (ofPlaces s).ref (s.inode ip).inum = (s.inode ip).ref := by
    simp only [ofPlaces]
    rw [Finset.sum_eq_single ip (fun y _ other => ?_) (by simp), if_pos rfl]
    by_contra positive
    rw [ite_eq_right_iff, Classical.not_imp] at positive
    exact other (h.unique y ip (Nat.pos_of_ne_zero positive.2) held positive.1)
  obtain ⟨ref, inUse⟩ := ofPlaces_setInode s ip { s.inode ip with ref := (s.inode ip).ref - 1 }
  refine congrArg some (Refs.ext (funext fun j => ?_) ?_)
  · have sum := ref j
    simp only [Refs.put, update_apply]
    change (ofPlaces (s.setInode ip _)).ref j = _
    grind
  · change (ofPlaces (s.setInode ip _)).inUse = _
    grind [Refs.put]

end Places

/-- While the three have the same references, `iget` finds a place in all of them or in none, and they have the same
again. -/
theorem iget_agree {a : Namespace.State n} {f : Fs.State n} {s : InodeCache.Shared n} (d : Int)
    (names : ofNames a = ofPlaces s) (blocks : ofBlocks f = ofPlaces s) :
    Spec (Namespace.iget i) a (fun _ => InodeCache.igetSlot s i = none)
      (fun _ a' => (InodeCache.igetSlot s i).map (fun r => ofPlaces r.1) = some (ofNames a')) ∧
    (Fs.act f t (.iget i) d).bind (fun r => if r.2 then some (ofBlocks r.1) else none) =
      (InodeCache.igetSlot s i).map fun r => ofPlaces r.1 := by
  rw [← iget_blocks, blocks, iget_places]
  refine ⟨iget_names.imp (fun _ full => ?_) fun _ _ taken => names ▸ taken, rfl⟩
  rwa [names, ← iget_places, Option.map_eq_none_iff] at full

section Directories
open Namespace (lookup seek)

def bytes (name : Name) : List (BitVec 8) := (cut name).map UInt8.toBitVec

/-- What `Fs` reads in an entry. -/
def toSlot (e : Dirent) : Option (List (BitVec 8) × Nat) := if e.live then some (bytes e.name, e.inum) else none

variable {name : Name} {l : List Dirent} {k : Nat}

open Fs

end Directories

end Xv6.InodeLayer
