import Xv6.Library.Slots
import Xv6.Proof.FsChunks

namespace Xv6.Fs
open Xv6.Library

variable {n : Nat} {sb : Superblock} {s u : State n} {t : Fin n} {d : Int} {E : Halt n → Prop}
variable {b x ip dp k m inum : Nat} {name p q bytes de : List Byte}

section Reference
variable {Q : Unit → State n → Prop}

def State.taken (s : State n) (x : Nat) : State n :=
  if 0 < (s.inode x).ref then s.setInode x { s.inode x with ref := (s.inode x).ref + 1 }
  else { s.setInode x { s.inode x with ref := 1, valid := false } with cached := s.cached + 1 }

theorem iget_spec (room : s.cached < NINODE) : Spec (call t d (iget x)) s E Q ↔ Q () (s.taken x) := by
  unfold iget
  simp only [call_bind, spec_bind]
  unfold call perform
  rw [spec_perform]
  unfold State.taken
  by_cases held : 0 < (s.inode x).ref
  · simp only [alone, act, if_pos held]
    exact Iff.rfl
  · simp only [alone, act, if_neg held, if_pos room]
    exact Iff.rfl

theorem taken_ref : ((s.taken x).inode x).ref = (s.inode x).ref + 1 := by
  unfold State.taken
  split_ifs with held
  · simp [State.setInode]
  · simpa [State.setInode] using held

theorem taken_valid (first : ((s.taken x).inode x).ref = 1) : ((s.taken x).inode x).valid = false := by
  rw [taken_ref] at first
  unfold State.taken
  rw [if_neg (by omega)]
  simp [State.setInode]

theorem taken_lock : ((s.taken x).inode ip).lock = (s.inode ip).lock := by
  unfold State.taken
  by_cases this : ip = x
  · subst this
    split_ifs <;> simp [State.setInode]
  · split_ifs <;> simp [State.setInode, this]

theorem taken_other (ne : ip ≠ x) : (s.taken x).inode ip = s.inode ip := by
  unfold State.taken
  split_ifs <;> simp [State.setInode, ne]

theorem taken_buf : (s.taken x).buf = s.buf := by
  unfold State.taken
  split_ifs <;> rfl

theorem taken_alike : Alike sb s (s.taken x) := by
  refine ⟨by unfold State.taken; split_ifs <;> rfl, fun ip => ?_⟩
  by_cases this : ip = x
  · subst this
    unfold State.taken
    split_ifs with held
    · simp [current, State.setInode, held]
    · simp [current, State.setInode, held]
  · exact current_congr (taken_other this) (by unfold State.taken; split_ifs <;> rfl)

def State.opened (sb : Superblock) (s : State n) (t : Fin n) (x : Nat) : State n := (s.taken x).locked sb t x

theorem taken_held : 0 < ((s.taken x).inode x).ref := by
  rw [taken_ref]
  exact Nat.succ_pos _

theorem ilock_taken (real : allocated sb s x) (lock : (s.inode x).lock = none) (quiet : ∀ b, s.buf b = none) :
    Spec (call t d (ilock sb x)) (s.taken x) E Q ↔ Q () (s.opened sb t x) :=
  ilock_spec (taken_alike.allocated.mpr real) taken_held (taken_lock.trans lock) (by rwa [taken_buf])

theorem opened_alike : Alike sb s (s.opened sb t x) := taken_alike.trans (locked_alike taken_held)

theorem opened_inode : ((s.opened sb t x).inode x).ref = (s.inode x).ref + 1 ∧
    ((s.opened sb t x).inode x).valid = true ∧
    ((s.opened sb t x).inode x).lock = some t := by
  simp [State.opened, State.locked, State.setInode, taken_ref]

theorem opened_loaded (quiet : ∀ b, s.buf b = none) : Loaded (s.opened sb t x) x := by
  refine ⟨⟨by rw [opened_inode.1]; exact Nat.succ_pos _, opened_inode.2.1⟩, fun b => ?_⟩
  exact (congrFun taken_buf b).trans (quiet b)

theorem opened_other (ne : ip ≠ x) : (s.opened sb t x).inode ip = s.inode ip :=
  (Function.update_of_ne ne ..).trans (taken_other ne)

def State.dropped (s : State n) (x : Nat) : State n :=
  { s.setInode x { s.inode x with ref := (s.inode x).ref - 1 } with
    cached := if (s.inode x).ref = 1 then s.cached - 1 else s.cached }

theorem call_decRef : Spec (call t d (perform (.decRef x))) s E Q ↔ Q () (s.dropped x) := Iff.rfl

theorem taken_dropped_cached : ((s.taken x).dropped x).cached = s.cached := by
  unfold State.dropped
  dsimp only
  rw [taken_ref]
  unfold State.taken
  split_ifs <;> first | rfl | omega

theorem dropped_other (ne : ip ≠ x) : (s.dropped x).inode ip = s.inode ip := Function.update_of_ne ne ..

/-- Giving back a reference keeps what the inode holds, when it is another one's too or nothing has been read into the
place. -/
theorem dropped_alike (kept : (s.inode x).ref = 1 → (s.inode x).valid = false) : Alike sb s (s.dropped x) := by
  refine ⟨rfl, fun ip => ?_⟩
  by_cases this : ip = x
  · subst this
    by_cases only : (s.inode ip).ref = 1
    · simp [current, State.dropped, State.setInode, only, kept only]
    · have more : 0 < (s.inode ip).ref - 1 ↔ 0 < (s.inode ip).ref := by omega
      simp [current, State.dropped, State.setInode, more]
  · exact current_congr (dropped_other this) rfl

theorem iput_spec (free : (s.inode x).lock = none) (kept : (s.inode x).ref = 1 → (s.inode x).valid = false) :
    Spec (call t d (iput sb x)) s E Q ↔ Q () (s.dropped x) := by
  have here (s : State n) (i : Inode n) : (s.setInode x i).inode x = i := Function.update_self ..
  have finish : Spec (call t d (iputEnd x)) (s.setInode x { s.inode x with lock := some t }) E Q ↔
    Q () (s.dropped x) := by
    unfold iputEnd
    simp only [call_bind, spec_bind]
    refine (call_releasesleep (by rw [here])).trans ?_
    unfold State.unlocked
    rw [setInode_setInode, here, call_decRef]
    unfold State.dropped
    rw [setInode_setInode, here, ← free]
    exact Iff.rfl
  unfold iput
  simp only [call_bind, spec_bind, call_acquiresleep free, call_getInode]
  rw [call_isValid, here]
  split_ifs with last
  · simp only [call_bind, spec_bind]
    rw [call_getRef, here]
    split_ifs with only
    · exact absurd last.1 (by simp [kept only])
    · exact finish
  · exact finish

end Reference

section Names

def stem (name : List Byte) : List Byte := (name.takeWhile (· ≠ 0)).take DIRSIZ

theorem takeWhile_headD (p : List Byte) :
    p.takeWhile (· ≠ 0) = if p.headD 0 = 0 then [] else p.headD 0 :: p.tail.takeWhile (· ≠ 0) := by
  cases p with
  | nil => rfl
  | cons a p =>
    rw [List.takeWhile_cons]
    by_cases zero : a = 0 <;> simp [zero]

theorem strncmp_iff (m : Nat) (p q : List Byte) :
    strncmp m p q = true ↔ (p.takeWhile (· ≠ 0)).take m = (q.takeWhile (· ≠ 0)).take m := by
  induction m generalizing p q with
  | zero => exact ⟨fun _ => rfl, fun _ => rfl⟩
  | succ m ih =>
    rw [strncmp, takeWhile_headD p, takeWhile_headD q]
    have tails := ih p.tail q.tail
    generalize p.headD 0 = a, q.headD 0 = c, p.tail = p', q.tail = q' at tails ⊢
    by_cases same : a = c
    · subst same
      by_cases zero : a = 0
      · rw [if_neg fun both => both.1 zero, if_pos zero, if_pos zero]
        exact ⟨fun _ => rfl, fun _ => decide_eq_true rfl⟩
      · rw [if_pos ⟨zero, rfl⟩, if_neg zero, if_neg zero, tails,
          List.take_succ_cons, List.take_succ_cons, List.cons.injEq]
        exact (and_iff_right rfl).symm
    rw [if_neg fun both => same both.2, decide_eq_true_iff]
    refine ⟨fun equal => absurd equal same, fun equal => ?_⟩
    split_ifs at equal with zero zero' zero'
    · exact zero.trans zero'.symm
    · exact absurd equal nofun
    · exact absurd equal nofun
    · exact (List.cons.inj equal).1

theorem namecmp_iff : strncmp DIRSIZ p q = true ↔ stem p = stem q := strncmp_iff DIRSIZ p q

end Names

section Entries

def entry (bytes : List Byte) (k : Nat) : List Byte := (bytes.drop (16 * k)).take 16

def toSlot (de : List Byte) : Option (List Byte × Nat) :=
  if direntInum de = 0 then none else some (stem (direntName de), direntInum de)

def slots (bytes : List Byte) : List (Option (List Byte × Nat)) :=
  (List.range (bytes.length / 16)).map fun k => toSlot (entry bytes k)

theorem length_slots (bytes : List Byte) : (slots bytes).length = bytes.length / 16 := by simp [slots]

theorem drop_slots (inside : k < bytes.length / 16) :
    (slots bytes).drop k = toSlot (entry bytes k) :: (slots bytes).drop (k + 1) := by
  rw [List.drop_eq_getElem_cons (by rw [length_slots]; exact inside)]
  simp [slots]

theorem slots_append {front : List Byte} (whole : front.length = 16 * m) :
    slots (front ++ bytes) = slots front ++ slots bytes := by
  have size : (front ++ bytes).length / 16 = m + bytes.length / 16 := by
    rw [List.length_append, whole]
    omega
  unfold slots
  rw [size, List.range_add, List.map_append, List.map_map, whole, Nat.mul_div_cancel_left _ (by decide)]
  congr 1
  · refine List.map_congr_left fun j member => ?_
    have less := List.mem_range.mp member
    have room : 16 ≤ (front.drop (16 * j)).length := by
      rw [List.length_drop]
      omega
    rw [entry, entry, List.drop_append_of_le_length (by omega), List.take_append_of_le_length room]
  · refine List.map_congr_left fun j _ => ?_
    have past : 16 * (m + j) - front.length = 16 * j := by omega
    rw [Function.comp_apply, entry, entry, List.drop_append, List.drop_of_length_le (by omega), List.nil_append, past]

theorem slots_single (length : de.length = 16) : slots de = [toSlot de] := by
  have entry : entry de 0 = de := List.take_of_length_le length.le
  rw [slots, length]
  exact congrArg (fun de => [toSlot de]) entry

@[simp] theorem length_dirent (inum : Nat) (name : List Byte) :
    (dirent inum name).length = 16 := by simp [dirent, slice, DIRSIZ]

theorem direntInum_dirent (inum : Nat) (name : List Byte) : direntInum (dirent inum name) = inum % 65536 := by
  have first (i : Nat) (less : i < 2) : (dirent inum name).getD i 0 = setField (fun _ => 0) 0 2 inum i := by
    rw [dirent, List.getD_append _ _ _ _ (by simpa [slice] using less)]
    simp [slice, less]
  unfold direntInum
  exact (field_congr fun i _ _ => first i (by omega)).trans (field_setField_mod ..)

theorem stem_direntName (inum : Nat) (name : List Byte) : stem (direntName (dirent inum name)) = stem name := by
  have padded : direntName (dirent inum name) = stem name ++ (List.replicate DIRSIZ 0).take
    (DIRSIZ - (name.takeWhile (· ≠ 0)).length) := by
    rw [direntName, dirent, List.drop_append_of_le_length (by simp [slice])]
    rw [List.drop_of_length_le (by simp [slice]), List.nil_append, List.take_take, Nat.min_self, List.take_append, stem]
  have clean : ∀ a ∈ stem name, (decide (a ≠ 0)) = true := fun a member =>
    List.all_eq_true.mp List.all_takeWhile a (List.mem_of_mem_take member)
  have zeros (c : Nat) : (List.replicate c (0 : Byte)).takeWhile (· ≠ 0) = [] := by cases c <;> rfl
  rw [padded, stem, List.takeWhile_append_of_pos clean, List.take_replicate, zeros, List.append_nil]
  exact List.take_of_length_le (List.length_take_le ..)

theorem toSlot_dirent (positive : 0 < inum) (small : inum < 65536) :
    toSlot (dirent inum name) = some (stem name, inum) := by
  rw [toSlot, direntInum_dirent, Nat.mod_eq_of_lt small, if_neg (by omega), stem_direntName]

theorem toSlot_zeros : toSlot (List.replicate 16 0) = none := by decide

theorem toSlot_some (live : direntInum de ≠ 0) : toSlot de = some (stem (direntName de), direntInum de) := if_neg live

theorem matches_iff : (direntInum de ≠ 0 ∧ strncmp DIRSIZ name (direntName de) = true) ↔
    (toSlot de).map Prod.fst = some (stem name) := by
  rw [namecmp_iff, toSlot]
  split_ifs with none
  · exact ⟨fun both => absurd none both.1, nofun⟩
  · rw [Option.map_some, Option.some.injEq, and_iff_right none, eq_comm]

def write16 (bytes : List Byte) (k : Nat) (de : List Byte) :
    List Byte := bytes.take (16 * k) ++ de ++ bytes.drop (16 * k + 16)

theorem entry_write16 {j : Nat} (inside : 16 * k ≤ bytes.length) (length : de.length = 16) :
    entry (write16 bytes k de) j = if j = k then de else entry bytes j := by
  have start : (bytes.take (16 * k)).length = 16 * k := List.length_take_of_le inside
  unfold entry write16
  rcases Nat.lt_trichotomy j k with before | rfl | after
  · have room : 16 ≤ ((bytes.take (16 * k)).drop (16 * j)).length := by
      rw [List.length_drop, start]
      omega
    rw [if_neg (by omega), List.append_assoc,
      List.drop_append_of_le_length (by omega), List.take_append_of_le_length room]
    rw [List.drop_take, List.take_take, Nat.min_eq_left (by omega)]
  · rw [if_pos rfl, List.append_assoc, List.drop_append_of_le_length start.ge,
      List.drop_of_length_le start.le, List.nil_append]
    rw [List.take_append_of_le_length length.ge, List.take_of_length_le length.le]
  · have past : (bytes.take (16 * k) ++ de).length = 16 * k + 16 := by rw [List.length_append, start, length]
    rw [if_neg (by omega), List.drop_append, List.drop_of_length_le (by omega), List.nil_append, past, List.drop_drop]
    congr 2
    omega

theorem slots_write16 (whole : bytes.length = 16 * m) (inside : k ≤ m) (length : de.length = 16) :
    slots (write16 bytes k de) = Slots.put (slots bytes) k (toSlot de) := by
  have entries (j : Nat) := entry_write16 (j := j) (show 16 * k ≤ bytes.length by omega) length
  have size : (write16 bytes k de).length = 16 * (if k < m then m else m + 1) := by
    simp only [write16, List.length_append, List.length_take, List.length_drop, length]
    split_ifs <;> omega
  have count : (slots bytes).length = m := by
    rw [length_slots]
    omega
  unfold Slots.put
  rw [count, slots, size, Nat.mul_div_cancel_left _ (by decide)]
  simp only [entries]
  split_ifs with old
  · refine List.ext_getElem (by simp [count]) fun j _ _ => ?_
    simp only [List.getElem_map, List.getElem_range, List.getElem_set, slots]
    rw [apply_ite toSlot]
    exact if_congr eq_comm rfl rfl
  obtain rfl : k = m := by omega
  rw [List.range_succ, List.map_append, slots, whole, Nat.mul_div_cancel_left _ (by decide)]
  congr 1
  · refine List.map_congr_left fun j member => ?_
    rw [if_neg (List.mem_range.mp member).ne]
  · simp

end Entries

section Lookup

/-- `R` holds of the states in which a directory of these bytes is searched. -/
structure Searched (dp : Nat) (bytes : List Byte) (R : State n → Prop) : Prop where
  inode : ∀ u, R u → (u.inode dp).d.type = T_DIR ∧ (u.inode dp).d.size.toNat = bytes.length
  room : ∀ u, R u → u.cached < NINODE
  whole : 16 ∣ bytes.length

def ReadsEntry (sb : Superblock) (t : Fin n) (d : Int) (dp : Nat)
    (bytes : List Byte) (E : Halt n → Prop) (R : State n → Prop)
    (k : Nat) : Prop :=
  ∀ u, R u → Spec (call t d (readi sb dp (UInt32.ofNat (16 * k)) 16)) u E fun r v => R v ∧ r = (16, entry bytes k)

theorem Reader.entry {R : State n → Prop} {limit : Nat} (reader : Reader sb s t d dp limit E R)
    (dir : (current sb s dp).type = T_DIR) (inside : k < (contents sb s dp).length / 16) (below : 16 * k + 16 ≤ limit) :
    ReadsEntry sb t d dp (contents sb s dp) E R k := by
  intro u now
  have small := (current sb s dp).size.toNat_lt
  rw [length_contents] at inside
  have offset : (UInt32.ofNat (16 * k)).toNat = 16 * k := toNat_ofNat (by omega)
  have width : (16 : UInt32).toNat = 16 := rfl
  have length : (Fs.entry (contents sb s dp) k).length = 16 := by
    rw [Fs.entry, List.length_take, List.length_drop, length_contents]
    omega
  have notDevice : (current sb s dp).type ≠ T_DEV := by
    rw [dir]
    decide
  refine (readi_spec reader now notDevice (by rw [offset, width]; omega)).mono fun r v read => ⟨read.1, ?_⟩
  rw [read.2, offset, width]
  by_cases wraps : 2 ^ 32 ≤ 16 * k + 16
  · omega
  rw [if_neg (by omega), ← Fs.entry]
  dsimp only
  rw [length]
  rfl

def State.found (s : State n) : Option (Nat × Nat) → State n
  | none => s
  | some (inum, _) => s.taken inum

variable {R : State n → Prop} (searched : Searched dp bytes R) (now : R u)
include searched now

theorem lookupFrom_spec {fuel : Nat} (enough : bytes.length / 16 < k + fuel)
    (reads : ∀ j, k ≤ j → j < bytes.length / 16 →
      (∀ i, k ≤ i → i < j → (toSlot (entry bytes i)).map Prod.fst ≠ some (stem name)) →
      ReadsEntry sb t d dp bytes E R j) :
    Spec (call t d (lookupFrom sb dp name fuel (16 * k))) u E fun r v =>
      r = (Slots.find (stem name) ((slots bytes).drop k) k).map (Prod.map id (16 * ·)) ∧ ∃ w, R w ∧ v = w.found r := by
  induction fuel generalizing k u with
  | zero =>
    rw [List.drop_of_length_le (by rw [length_slots]; omega)]
    exact ⟨rfl, u, now, rfl⟩
  | succ _ ih =>
    have even := searched.whole
    have size := (searched.inode u now).2
    rw [lookupFrom]
    simp only [call_bind, spec_bind, call_getInode]
    by_cases inside : k < bytes.length / 16
    · rw [if_pos (by omega), drop_slots inside]
      simp only [call_bind, spec_bind]
      refine (reads k le_rfl inside (fun i le less => by omega) u now).mono ?_
      rintro _ v ⟨after, rfl⟩
      rw [if_neg (not_not.mpr rfl)]
      by_cases hit : direntInum (entry bytes k) ≠ 0 ∧ strncmp DIRSIZ name (direntName (entry bytes k)) = true
      · rw [if_pos hit, toSlot_some hit.1, ← namecmp_iff.mp hit.2, Slots.find, if_pos rfl]
        simp only [call_bind, spec_bind]
        exact (iget_spec (searched.room v after)).mpr ⟨rfl, v, after, rfl⟩
      have other := fun same => hit (matches_iff.mpr same)
      rw [if_neg hit, ← Nat.mul_succ, Slots.find_cons other]
      apply ih after (by omega)
      intro j le less early
      refine reads j (by omega) less fun i le less => ?_
      rcases Nat.eq_or_lt_of_le le with rfl | later
      · exact other
      · exact early i later less
    · rw [if_neg (by omega), List.drop_of_length_le (by rw [length_slots]; omega)]
      exact ⟨rfl, u, now, rfl⟩

theorem dirlookup_spec
    (reads : ∀ j, j < bytes.length / 16 → (∀ i, i < j → (toSlot (entry bytes i)).map Prod.fst ≠ some (stem name)) →
      ReadsEntry sb t d dp bytes E R j) :
    Spec (call t d (dirlookup sb dp name)) u E fun r v =>
      r = (Slots.find (stem name) (slots bytes) 0).map (Prod.map id (16 * ·)) ∧ ∃ w, R w ∧ v = w.found r := by
  unfold dirlookup
  simp only [call_bind, spec_bind, call_getInode]
  rw [if_neg (not_not.mpr (searched.inode u now).1), (searched.inode u now).2]
  have enough : bytes.length / 16 < 0 + (bytes.length / 16 + 1) := by omega
  exact lookupFrom_spec searched now enough fun j _ less early => reads j less fun i before => early i i.zero_le before

theorem emptyFrom_spec {fuel : Nat} (start : k ≤ (slots bytes).length) (enough : (slots bytes).length < k + fuel)
    (reads : ∀ j, j < bytes.length / 16 → ReadsEntry sb t d dp bytes E R j) :
    Spec (call t d (emptyFrom sb dp fuel (16 * k))) u E fun r v =>
      r = 16 * Slots.firstFree ((slots bytes).drop k) k ∧ R v := by
  have even := searched.whole
  induction fuel generalizing k u with
  | zero => omega
  | succ _ ih =>
    have size := (searched.inode u now).2
    rw [length_slots] at start enough
    rw [emptyFrom]
    simp only [call_bind, spec_bind, call_getInode]
    by_cases inside : k < bytes.length / 16
    · rw [if_pos (by omega), drop_slots inside]
      simp only [call_bind, spec_bind]
      refine (reads k inside u now).mono ?_
      rintro _ v ⟨after, rfl⟩
      rw [if_neg (not_not.mpr rfl), toSlot]
      split_ifs
      · exact ⟨rfl, after⟩
      · exact ih after (k := k + 1) (by rw [length_slots]; omega) (by rw [length_slots]; omega)
    · rw [if_neg (by omega), List.drop_of_length_le (by rw [length_slots]; omega)]
      exact ⟨by rw [Slots.firstFree], now⟩

end Lookup

/-- The directory `dp`, locked by process `t`, that owns its blocks; it may have holes. -/
structure Directory (sb : Superblock) (s : State n) (t : Fin n) (dp : Nat) : Prop extends Ready (· = dp) sb s dp where
  dir : (current sb s dp).type = T_DIR
  whole : 16 ∣ (current sb s dp).size.toNat
  mine : (s.inode dp).lock = some t
  others : ∀ x, x ≠ dp → (s.inode x).lock = none

/-- The places of the blocks of an inode. -/
def extent (sb : Superblock) (s : State n) (ip : Nat) : Finset Place := span 0 (current sb s ip).size.toNat

structure Seen (sb : Superblock) (s : State n) (t : Fin n) (dp : Nat) (u : State n) : Prop where
  grown : Grown (· = dp) sb s u t dp (extent sb s dp)
  bytes : SameBytes (· = dp) sb s u

theorem Seen.contents (seen : Seen sb s t dp u) : contents sb u dp = Fs.contents sb s dp := by
  unfold Fs.contents
  rw [(seen.grown.kind dp (seen.grown.owned.inode dp rfl)).2]
  exact List.map_congr_left fun k _ => seen.bytes dp k rfl

namespace Directory
variable (directory : Directory sb s t dp)
include directory

theorem bounded : (current sb s dp).size.toNat ≤ MAXFILE * BSIZE := directory.owned.size dp rfl

theorem length_eq : (contents sb s dp).length = 16 * (slots (contents sb s dp)).length := by
  have := directory.whole
  rw [length_slots, length_contents]
  omega

theorem seen (seen : Seen sb s t dp u) : Directory sb u t dp := by
  have kind := seen.grown.kind dp (seen.grown.owned.inode dp rfl)
  constructor
  case toReady => exact seen.grown.ready directory.toReady
  case dir => rw [kind.1, directory.dir]
  case whole =>
    rw [kind.2]
    exact directory.whole
  case mine => rw [(seen.grown.inode dp).2.2, directory.mine]
  case others =>
    intro x ne
    rw [(seen.grown.inode x).2.2, directory.others x ne]

theorem searched (room : s.cached < NINODE) : Searched dp (contents sb s dp) (Seen sb s t dp) where
  inode u seen := by
    have kind := seen.grown.kind dp (seen.grown.owned.inode dp rfl)
    rw [← current_memory (directory.seen seen).memory, kind.1, kind.2, length_contents]
    exact ⟨directory.dir, rfl⟩
  room u seen := by rwa [seen.grown.cached]
  whole := by
    rw [length_contents]
    exact directory.whole

theorem reads (layout : Layout sb) (inside : k < (contents sb s dp).length / 16) :
    ReadsEntry sb t d dp (contents sb s dp) (Full (· = dp) sb s t dp (extent sb s dp)) (Seen sb s t dp) k := by
  have reader : Reader sb s t d dp _ _ _ := .grown layout directory.toReady directory.bounded
  intro u now
  have entry := reader.entry directory.dir inside (by rw [length_contents] at inside; omega) u ⟨now.grown, now.bytes⟩
  exact entry.mono fun r v read => ⟨⟨read.1.1, read.1.2⟩, read.2⟩

theorem still : Seen sb s t dp s := ⟨Grown.refl directory.owned, fun _ _ _ => rfl⟩

theorem dirlookup_spec (layout : Layout sb) (room : s.cached < NINODE) :
    Spec (call t d (dirlookup sb dp name)) s (Full (· = dp) sb s t dp (extent sb s dp)) fun r v =>
      r = (Slots.find (stem name) (slots (contents sb s dp)) 0).map (Prod.map id (16 * ·)) ∧
        ∃ w, Seen sb s t dp w ∧ v = w.found r :=
  Fs.dirlookup_spec (directory.searched room) directory.still fun _ inside _ => directory.reads layout inside

end Directory

end Xv6.Fs
