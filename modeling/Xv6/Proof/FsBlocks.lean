import Xv6.Proof.FsLayout

/-!
# Which block belongs to which inode

A block number stands in a place of an inode: a direct one, the one of the indirect block, or an entry of the indirect
block. `Owned` says that no block number stands in two places and that the bitmap knows them all. `Link` is what one
allocation does.
-/

namespace Xv6.Fs
open Xv6.Library
open Function (update update_of_ne update_idem update_self update_eq_self)

variable {n : Nat} {sb : Superblock} {s u v : State n} {t : Fin n} {device : Int} {E : Halt n → Prop}
variable {b x ip bn : Nat} {data : Bytes} {y k limit bi : Nat} {p : Place} {j : Fin NINDIRECT} {S : Nat → Prop}

def dataStart (sb : Superblock) : Nat := sb.bmapstart + sb.size / BPB + 1

/-- The inodes come before the bitmap and the bitmap before the data. -/
structure Layout (sb : Superblock) : Prop where
  inodes : sb.inodestart + sb.ninodes / IPB + 1 ≤ sb.bmapstart
  bitmap : dataStart sb ≤ sb.size
  size : sb.size < 2 ^ 31

def used (sb : Superblock) (s : State n) (b : Nat) : Bool := bit (s.block (bblock sb b)) (b % BPB)

/-- An inode as it is in memory, and otherwise as it is on the disk. -/
def current (sb : Superblock) (s : State n) (x : Nat) : Dinode :=
  if 0 < (s.inode x).ref ∧ (s.inode x).valid = true then (s.inode x).d else getDinode (s.block (iblock sb x)) x

def allocated (sb : Superblock) (s : State n) (x : Nat) : Prop := x < sb.ninodes ∧ (current sb s x).type ≠ 0

inductive Place where
  | direct (i : Fin NDIRECT)
  | indirect
  | entry (j : Fin NINDIRECT)
  deriving DecidableEq

instance : NeZero NDIRECT := ⟨by decide⟩
instance : NeZero NINDIRECT := ⟨by decide⟩

def placeOf (bn : Nat) : Place :=
  if bn < NDIRECT then .direct (Fin.ofNat NDIRECT bn) else .entry (Fin.ofNat NINDIRECT (bn - NDIRECT))

def addrAt (block : Nat → Bytes) (d : Dinode) : Place → Nat
  | .direct i => (d.addrs i.castSucc).toNat
  | .indirect => (d.addrs indirect).toNat
  | .entry j => if d.addrs indirect = 0 then 0 else getAddr (block (d.addrs indirect).toNat) j

def addrOf (sb : Superblock) (s : State n) (x : Nat) (p : Place) : Nat := addrAt s.block (current sb s x) p

/-- The blocks before the data are marked used, and so are those of the inodes in `S`, each of which stands in one
place. -/
structure Owned (S : Nat → Prop) (sb : Superblock) (s : State n) : Prop where
  inode : ∀ x, S x → x < sb.ninodes
  reserved : ∀ b, b < dataStart sb → used sb s b = true
  data : ∀ x p, S x → addrOf sb s x p ≠ 0 →
    dataStart sb ≤ addrOf sb s x p ∧ addrOf sb s x p < sb.size ∧ used sb s (addrOf sb s x p) = true
  distinct : ∀ x y p p', S x → S y → addrOf sb s x p ≠ 0 → addrOf sb s x p = addrOf sb s y p' → x = y ∧ p = p'
  size : ∀ x, S x → (current sb s x).size.toNat ≤ MAXFILE * BSIZE

/-- The inode has no hole. -/
def Mapped (sb : Superblock) (s : State n) (x : Nat) : Prop :=
  ∀ bn, bn * BSIZE < (current sb s x).size.toNat → addrOf sb s x (placeOf bn) ≠ 0

theorem Owned.congr {T : Nat → Prop} (owned : Owned S sb s) (same : ∀ x, T x → S x) : Owned T sb s where
  inode x mine := owned.inode x (same x mine)
  reserved := owned.reserved
  data x p mine := owned.data x p (same x mine)
  distinct x y p p' mine mine' := owned.distinct x y p p' (same x mine) (same y mine')
  size x mine := owned.size x (same x mine)

section Numbers

theorem bblock_lt (inside : b < sb.size) : sb.bmapstart ≤ bblock sb b ∧ bblock sb b < dataStart sb := by
  have le := Nat.div_le_div_right (c := BPB) inside.le
  unfold bblock dataStart
  generalize b / BPB = k, sb.size / BPB = m at le
  omega

theorem Layout.iblock_lt (h : Layout sb) (inside : x < sb.ninodes) : iblock sb x < sb.bmapstart := by
  have le := Nat.div_le_div_right (c := IPB) inside.le
  have inodes := h.inodes
  unfold iblock
  generalize x / IPB = k, sb.ninodes / IPB = m at le inodes
  omega

theorem mod_ne_of_iblock (block : iblock sb x = iblock sb y) (other : x ≠ y) : x % IPB ≠ y % IPB := by
  intro rest
  have high : x / IPB = y / IPB := Nat.add_right_cancel block
  exact other (by rw [← Nat.div_add_mod x IPB, ← Nat.div_add_mod y IPB, rest, high])

theorem bmapstart_le (sb : Superblock) : sb.bmapstart ≤ dataStart sb := (Nat.le_add_right ..).trans (Nat.le_succ _)

theorem dataStart_pos (sb : Superblock) : 0 < dataStart sb := Nat.succ_pos _

theorem placeOf_inj (small : bn < MAXFILE) (small' : k < MAXFILE) (same : placeOf bn = placeOf k) : bn = k := by
  have value : NDIRECT = 12 ∧ NINDIRECT = 128 ∧ MAXFILE = 140 := by decide
  unfold placeOf at same
  split_ifs at same with first second
  · have := congrArg Fin.val (Place.direct.inj same)
    simp only [Fin.val_ofNat] at this
    rw [Nat.mod_eq_of_lt first, Nat.mod_eq_of_lt second] at this
    exact this
  have := congrArg Fin.val (Place.entry.inj same)
  simp only [Fin.val_ofNat] at this
  rw [Nat.mod_eq_of_lt (by omega), Nat.mod_eq_of_lt (by omega)] at this
  omega

theorem placeOf_ne_indirect (bn : Nat) : placeOf bn ≠ .indirect := by
  unfold placeOf
  split_ifs <;> nofun

end Numbers

section Frame

theorem used_congr (same : u.block (bblock sb b) = s.block (bblock sb b)) : used sb u b = used sb s b := by
  rw [used, used, same]

theorem current_congr (inode : u.inode x = s.inode x) (block : u.block (iblock sb x) = s.block (iblock sb x)) :
    current sb u x = current sb s x := by
  rw [current, current, inode, block]

theorem allocated_congr (same : x < sb.ninodes → (current sb u x).type = (current sb s x).type) :
    allocated sb u x ↔ allocated sb s x :=
  and_congr_right fun inode => by rw [same inode]

theorem addrOf_congr (same : current sb u x = current sb s x) (block : ∀ j, p = .entry j → addrOf sb s x .indirect ≠ 0 →
      u.block (addrOf sb s x .indirect) = s.block (addrOf sb s x .indirect)) : addrOf sb u x p = addrOf sb s x p := by
  unfold addrOf
  rw [same]
  cases p with
  | direct i => rfl
  | indirect => rfl
  | entry j =>
    simp only [addrAt]
    split_ifs with none
    · rfl
    · have there := block j rfl fun zero => none (UInt32.toNat_inj.mp zero)
      exact congrArg (getAddr · j) there

theorem addrOf_entry (some : addrOf sb s x .indirect ≠ 0) :
    addrOf sb s x (.entry j) = getAddr (s.block (addrOf sb s x .indirect)) j := by
  have number : (current sb s x).addrs indirect ≠ 0 := fun zero => some (by simp [addrOf, addrAt, zero])
  exact if_neg number

end Frame

section Operations
variable {Q : Unit → State n → Prop}

def State.hold (s : State n) (t : Fin n) (b : Nat) : State n := { s with buf := update s.buf b (some t) }

def State.release (s : State n) (b : Nat) : State n := { s with buf := update s.buf b none }

def State.store (s : State n) (t : Fin n) (b : Nat) (data : Bytes) : State n :=
  { s with block := update s.block b data, log := update s.log t (s.log t ++ [b]) }

@[simp] theorem call_pure {α : Type} {a : α} : call t device (pure a : Program α) = pure a := rfl

@[simp] theorem call_bind {α β : Type} {p : Program α} {f : α → Program β} :
    call t device (p >>= f) = call t device p >>= fun a => call t device (f a) := eval_bind

theorem call_bread {Q : Bytes → State n → Prop} (free : s.buf b = none) :
    Spec (call t device (bread b)) s E Q ↔ Q (s.block b) (s.hold t b) := by
  unfold call bread perform
  rw [spec_perform]
  simp [alone, act, free, State.hold]

theorem call_log_write (mine : s.buf b = some t) :
    Spec (call t device (log_write b data)) s E Q ↔ Q () (s.store t b data) := by
  unfold call log_write perform
  rw [spec_perform]
  simp [alone, act, mine, State.store]

theorem call_brelse (mine : s.buf b = some t) : Spec (call t device (brelse b)) s E Q ↔ Q () (s.release b) := by
  unfold call brelse perform
  rw [spec_perform]
  simp [alone, act, mine, State.release]

@[simp] theorem call_getInode {Q : Dinode → State n → Prop} :
    Spec (call t device (getInode ip)) s E Q ↔ Q (s.inode ip).d s := Iff.rfl

@[simp] theorem call_setInode {f : Dinode → Dinode} :
    Spec (call t device (setInode ip f)) s E Q ↔
      Q () (s.setInode ip { s.inode ip with d := f (s.inode ip).d }) := Iff.rfl

@[simp] theorem call_panic {α : Type} {message : String} {Q : α → State n → Prop} :
    Spec (call t device (panic message)) s E Q ↔ E ⟨message, s⟩ := Iff.rfl

@[simp] theorem hold_buf_self : (s.hold t b).buf b = some t := update_self ..

theorem hold_buf_ne (other : x ≠ b) : (s.hold t b).buf x = s.buf x := update_of_ne other ..

@[simp] theorem hold_block : (s.hold t b).block = s.block := rfl

@[simp] theorem store_buf : (s.store t b data).buf = s.buf := rfl

@[simp] theorem store_inode : (s.store t b data).inode = s.inode := rfl

@[simp] theorem store_block_self : (s.store t b data).block b = data := update_self ..

theorem store_block_ne (other : x ≠ b) : (s.store t b data).block x = s.block x := update_of_ne other ..

theorem hold_release (free : s.buf b = none) : (s.hold t b).release b = s := by
  have same : update (update s.buf b (some t)) b none = s.buf := by
    rw [update_idem, ← free, update_eq_self]
  unfold State.release State.hold
  rw [same]

theorem hold_store_release (free : s.buf b = none) : ((s.hold t b).store t x data).release b = s.store t x data := by
  have same : update (update s.buf b (some t)) b none = s.buf := by
    rw [update_idem, ← free, update_eq_self]
  unfold State.release State.store State.hold
  dsimp only
  rw [same]

theorem bzero_spec (free : s.buf b = none) : Spec (call t device (bzero b)) s E Q ↔ Q () (s.store t b fun _ => 0) := by
  unfold bzero
  simp only [call_bind, spec_bind, call_bread free, call_log_write hold_buf_self]
  rw [call_brelse (by simp), hold_store_release free]

end Operations

section Alloc

def State.alloc (sb : Superblock) (s : State n) (t : Fin n) (b : Nat) : State n :=
  (s.store t (bblock sb b) (setBit (s.block (bblock sb b)) (b % BPB))).store t b fun _ => 0

theorem firstFree_some (found : firstFree data limit = some bi) : bi < limit ∧ bit data bi = false := by
  refine ⟨List.mem_range.mp (List.mem_of_find?_eq_some found), ?_⟩
  simpa using List.find?_some found

theorem firstFree_none {i : Nat} (none : firstFree data limit = none) (inside : i < limit) : bit data i = true := by
  simpa using List.find?_eq_none.mp none i (List.mem_range.mpr inside)

theorem bblock_add (sb : Superblock) (small : bi < BPB) : bblock sb (k * BPB + bi) = bblock sb (k * BPB) := by
  have positive : 0 < BPB := by decide
  unfold bblock
  rw [Nat.add_comm (k * BPB), Nat.add_mul_div_right _ _ positive,
    Nat.div_eq_of_lt small, Nat.mul_div_cancel _ positive, Nat.zero_add]

theorem mod_add (small : bi < BPB) : (k * BPB + bi) % BPB = bi := by
  rw [Nat.add_comm, Nat.add_mul_mod_self_right, Nat.mod_eq_of_lt small]

variable {Q : Nat → State n → Prop}

theorem ballocFrom_spec (bitmap : ∀ b, b < sb.size → s.buf (bblock sb b) = none)
    (clear : ∀ b, b < sb.size → used sb s b = false → s.buf b = none)
    (found : ∀ b, b < sb.size → used sb s b = false → Q b (s.alloc sb t b))
    (full : (∀ b, b < sb.size → used sb s b = true) → E ⟨"balloc: out of blocks", s⟩) {fuel : Nat}
    (enough : sb.size ≤ (k + fuel) * BPB) (more : ∀ j, j < fuel → (k + j) * BPB < sb.size)
    (before : ∀ b, b < k * BPB → b < sb.size → used sb s b = true) :
    Spec (call t device (ballocFrom sb fuel k)) s E Q := by
  induction fuel generalizing k with
  | zero => exact full fun b inside => before b (lt_of_lt_of_le inside enough) inside
  | succ _ ih =>
    have here : k * BPB < sb.size := more 0 (Nat.succ_pos _)
    have free := bitmap _ here
    rw [ballocFrom]
    simp only [call_bind, spec_bind, call_bread free]
    cases search : firstFree (s.block (bblock sb (k * BPB))) (min BPB (sb.size - k * BPB)) with
    | some bi =>
      obtain ⟨inside, isClear⟩ := firstFree_some search
      have small : bi < BPB := lt_of_lt_of_le inside (Nat.min_le_left ..)
      have within : k * BPB + bi < sb.size := by
        have := lt_of_lt_of_le inside (Nat.min_le_right ..)
        omega
      have unused : used sb s (k * BPB + bi) = false := by
        rw [used, bblock_add sb small, mod_add small]
        exact isClear
      have result := found _ within unused
      rw [State.alloc, bblock_add sb small, mod_add small] at result
      simp only [call_bind, spec_bind, call_log_write hold_buf_self]
      rw [call_brelse (by simp), hold_store_release free, bzero_spec (by simpa using clear _ within unused)]
      exact result
    | none =>
      simp only [call_bind, spec_bind]
      rw [call_brelse hold_buf_self, hold_release free]
      refine ih (by rwa [Nat.add_right_comm]) (fun j less => ?_) fun b less inside => ?_
      · have := more (j + 1) (by omega)
        rwa [← Nat.add_assoc, Nat.add_right_comm] at this
      by_cases earlier : b < k * BPB
      · exact before b earlier inside
      have split : k * BPB + (b - k * BPB) = b := by omega
      have small : b - k * BPB < BPB := by
        rw [Nat.succ_mul] at less
        omega
      have isSet := firstFree_none (i := b - k * BPB) search (by omega)
      rw [used, ← split, bblock_add sb small, mod_add small]
      exact isSet

theorem balloc_spec (bitmap : ∀ b, b < sb.size → s.buf (bblock sb b) = none)
    (clear : ∀ b, b < sb.size → used sb s b = false → s.buf b = none)
    (found : ∀ b, b < sb.size → used sb s b = false → Q b (s.alloc sb t b))
    (full : (∀ b, b < sb.size → used sb s b = true) → E ⟨"balloc: out of blocks", s⟩) :
    Spec (call t device (balloc sb)) s E Q := by
  have value : BPB = 4096 := rfl
  refine ballocFrom_spec bitmap clear found full ?_ ?_ fun b none => ?_
  · rw [value]
    omega
  · intro j less
    rw [value] at less ⊢
    omega
  · rw [Nat.zero_mul] at none
    exact absurd none (Nat.not_lt_zero _)

end Alloc

section Fresh

/-- A block that the bitmap gives as free. -/
structure Fresh (sb : Superblock) (s : State n) (b : Nat) : Prop where
  inside : b < sb.size
  clear : used sb s b = false

variable (layout : Layout sb) (owned : Owned S sb s) (fresh : Fresh sb s b)
include layout owned fresh

omit layout in
theorem Fresh.dataStart_le : dataStart sb ≤ b := by
  by_contra less
  have := owned.reserved b (by omega)
  rw [fresh.clear] at this
  cases this

omit layout in
theorem Fresh.ne_addrOf (real : S x) : addrOf sb s x p ≠ b := by
  intro same
  have start := fresh.dataStart_le owned
  have positive := dataStart_pos sb
  have isUsed := (owned.data x p real (by omega)).2.2
  rw [same, fresh.clear] at isUsed
  cases isUsed

omit layout owned in
theorem alloc_block (notBlock : y ≠ b) (notBitmap : ∀ z, z < sb.size → y ≠ bblock sb z) :
    (s.alloc sb t b).block y = s.block y := by
  rw [State.alloc, store_block_ne notBlock, store_block_ne (notBitmap b fresh.inside)]

omit layout in
theorem alloc_used (inside : y < sb.size) : used sb (s.alloc sb t b) y = (decide (y = b) || used sb s y) := by
  have start := fresh.dataStart_le owned
  have place := bblock_lt inside
  have other : bblock sb y ≠ b := by omega
  unfold used State.alloc
  rw [store_block_ne other]
  by_cases same : bblock sb y = bblock sb b
  · rw [same, store_block_self, bit_setBit]
    congr 1
    refine decide_eq_decide.mpr ⟨fun rest => ?_, fun this => by rw [this]⟩
    have high : y / BPB = b / BPB := Nat.add_right_cancel same
    rw [← Nat.div_add_mod y BPB, ← Nat.div_add_mod b BPB, rest, high]
  rw [store_block_ne same]
  have : y ≠ b := by
    rintro rfl
    exact same rfl
  simp [this]

theorem alloc_current (inode : x < sb.ninodes) : current sb (s.alloc sb t b) x = current sb s x := by
  have before := layout.iblock_lt inode
  have start := fresh.dataStart_le owned
  have le := bmapstart_le sb
  refine current_congr rfl (alloc_block fresh (by omega) fun z inside => ?_)
  have := bblock_lt inside
  omega

omit layout in
theorem alloc_owned_block (real : S x) (some : addrOf sb s x p ≠ 0) :
    (s.alloc sb t b).block (addrOf sb s x p) = s.block (addrOf sb s x p) := by
  have place := (owned.data x p real some).1
  refine alloc_block fresh (fresh.ne_addrOf owned real) fun z inside => ?_
  have := bblock_lt inside
  omega

end Fresh

structure Link (S : Nat → Prop) (sb : Superblock) (s u : State n) (t : Fin n) (ip : Nat) (p : Place) (b : Nat) :
    Prop where
  mine : S ip
  fresh : Fresh sb s b
  empty : addrOf sb s ip p = 0
  kind : ∀ x, x < sb.ninodes → (current sb u x).type = (current sb s x).type ∧
    (current sb u x).size = (current sb s x).size
  addr : ∀ x p', S x → addrOf sb u x p' = if x = ip ∧ p' = p then b else addrOf sb s x p'
  used : ∀ y, y < sb.size → used sb u y = (decide (y = b) || Fs.used sb s y)
  zero : u.block b = fun _ => 0
  block : ∀ x bn, S x → addrOf sb s x (placeOf bn) ≠ 0 →
    u.block (addrOf sb s x (placeOf bn)) = s.block (addrOf sb s x (placeOf bn))
  inode : ∀ x, (u.inode x).ref = (s.inode x).ref ∧
    (u.inode x).valid = (s.inode x).valid ∧ (u.inode x).lock = (s.inode x).lock
  buf : u.buf = s.buf
  cached : u.cached = s.cached
  ops : u.ops = s.ops
  log : ∀ y ∈ u.log t, y ∈ s.log t ∨ y = bblock sb b ∨ y = b ∨
    (∃ j, p = .entry j) ∧ y = addrOf sb s ip .indirect ∧ y ≠ 0

def slotOf (k : Fin (NDIRECT + 1)) : Place := if h : k.val < NDIRECT then .direct ⟨k.val, h⟩ else .indirect

@[simp] theorem slotOf_castSucc (i : Fin NDIRECT) : slotOf i.castSucc = .direct i := dif_pos i.isLt

@[simp] theorem slotOf_indirect : slotOf indirect = .indirect := rfl

theorem addrAt_slotOf (block : Nat → Bytes) (d : Dinode) (k : Fin (NDIRECT + 1)) :
    addrAt block d (slotOf k) = (d.addrs k).toNat := by
  refine Fin.lastCases rfl (fun i => ?_) k
  rw [slotOf_castSucc]
  rfl

theorem toNat_ofNat (small : k < 2 ^ 32) : (UInt32.ofNat k).toNat = k := by
  rw [UInt32.toNat_ofNat', Nat.mod_eq_of_lt small]

theorem addrAt_setAddr {a a' : Nat → Bytes} {d : Dinode} {k : Fin (NDIRECT + 1)} (small : b < 2 ^ 32) (some : b ≠ 0)
    (empty : d.addrs k = 0) (zero : a' b = fun _ => 0)
    (same : ∀ j, p = .entry j → d.addrs indirect ≠ 0 → a' (d.addrs indirect).toNat = a (d.addrs indirect).toNat) :
    addrAt a' (d.setAddr k b) p = if p = slotOf k then b else addrAt a d p := by
  have value := toNat_ofNat small
  cases p with
  | direct i =>
    by_cases here : i.castSucc = k
    · subst here
      simp [addrAt, Dinode.setAddr, value]
    have other : (Place.direct i) ≠ slotOf k := by
      rintro same
      refine here ?_
      unfold slotOf at same
      split_ifs at same with low
      · have value := congrArg Fin.val (Place.direct.inj same)
        exact Fin.ext value
    simp [addrAt, Dinode.setAddr, here, other]
  | indirect =>
    by_cases here : indirect = k
    · subst here
      simp [addrAt, Dinode.setAddr, value]
    have other : Place.indirect ≠ slotOf k := by
      rintro same
      refine here ?_
      unfold slotOf at same
      split_ifs at same with low
      have := k.isLt
      exact Fin.ext (by simp only [indirect, Fin.val_last]; omega)
    simp [addrAt, Dinode.setAddr, here, other]
  | entry j =>
    have other : Place.entry j ≠ slotOf k := by
      unfold slotOf
      split_ifs <;> nofun
    rw [if_neg other]
    by_cases here : indirect = k
    · subst here
      have new : UInt32.ofNat b ≠ 0 := fun none => some (by rw [← value, none]; rfl)
      simp only [addrAt, Dinode.setAddr, update_self, if_neg new, value, zero, getAddr_zero, if_pos empty]
    simp only [addrAt, Dinode.setAddr, update_of_ne here]
    split_ifs with none
    · rfl
    · rw [same j rfl none]

section Linking
variable (layout : Layout sb) (owned : Owned S sb s) (fresh : Fresh sb s b) (real : S ip)
variable (memory : 0 < (s.inode ip).ref ∧ (s.inode ip).valid = true)
include layout owned fresh real memory

omit layout owned fresh real in
theorem current_memory : current sb s ip = (s.inode ip).d := if_pos memory

theorem link_addrs {k : Fin (NDIRECT + 1)} (empty : (s.inode ip).d.addrs k = 0) :
    Link S sb s ((s.alloc sb t b).setInode ip { s.inode ip with d := (s.inode ip).d.setAddr k b }) t ip
      (slotOf k) b := by
  have start := fresh.dataStart_le owned
  have positive := dataStart_pos sb
  have small : b < 2 ^ 32 := by
    have := layout.size
    have := fresh.inside
    omega
  have mine : current sb s ip = (s.inode ip).d := current_memory memory
  have here : current sb ((s.alloc sb t b).setInode ip { s.inode ip with d := (s.inode ip).d.setAddr k b }) ip =
      (s.inode ip).d.setAddr k b := by
    simp [current, State.setInode, memory]
  have there {x : Nat} (other : x ≠ ip) (inode : x < sb.ninodes) :
      current sb ((s.alloc sb t b).setInode ip { s.inode ip with d := (s.inode ip).d.setAddr k b }) x =
        current sb s x := by
    rw [← alloc_current layout owned fresh inode (t := t)]
    exact current_congr (by simp [State.setInode, other]) rfl
  have same (x : Nat) (inode : x < sb.ninodes) :
      (current sb ((s.alloc sb t b).setInode ip { s.inode ip with d := (s.inode ip).d.setAddr k b }) x).type =
        (current sb s x).type ∧
      (current sb ((s.alloc sb t b).setInode ip { s.inode ip with d := (s.inode ip).d.setAddr k b }) x).size =
      (current sb s x).size := by
    by_cases this : x = ip
    · rw [this, here, mine]
      exact ⟨rfl, rfl⟩
    · rw [there this inode]
      exact ⟨rfl, rfl⟩
  have blocks {x : Nat} {p : Place} (isReal : S x) (some : addrOf sb s x p ≠ 0) :=
    alloc_owned_block owned fresh isReal some (t := t)
  constructor
  case mine => exact real
  case fresh => exact fresh
  case empty => rw [addrOf, mine, addrAt_slotOf, empty]; rfl
  case kind => exact same
  case addr =>
    intro x p isReal
    by_cases this : x = ip
    · subst this
      unfold addrOf
      rw [here, mine, addrAt_setAddr (a := s.block) small (by omega) empty]
      · simp
      · exact store_block_self (t := t)
      · intro j _ some
        have block := blocks isReal (p := .indirect) fun zero => some (UInt32.toNat_inj.mp (by rw [← mine]; exact zero))
        simp only [addrOf, addrAt, mine] at block
        exact block
    · rw [if_neg fun both => this both.1]
      exact addrOf_congr (there this (owned.inode x isReal)) fun _ _ some => blocks isReal some
  case used =>
    intro y inside
    exact alloc_used owned fresh inside
  case zero => exact store_block_self (t := t)
  case block => exact fun x _ isReal some => blocks isReal some
  case inode =>
    intro x
    by_cases this : x = ip
    · subst this
      simp [State.setInode]
    · simp only [State.setInode, update_of_ne this]
      exact ⟨rfl, rfl, rfl⟩
  case buf => rfl
  case cached => rfl
  case ops => rfl
  case log =>
    intro y logged
    have cases : y ∈ s.log t ∨ y = bblock sb b ∨ y = b := by
      simpa [State.setInode, State.alloc, State.store, or_assoc, update_idem] using logged
    rcases cases with old | bitmap | new
    · exact .inl old
    · exact .inr (.inl bitmap)
    · exact .inr (.inr (.inl new))

omit memory in
theorem link_entry (some : addrOf sb s ip .indirect ≠ 0) (empty : addrOf sb s ip (.entry j) = 0) :
    Link S sb s ((s.alloc sb t b).store t (addrOf sb s ip .indirect) (setAddr (s.block (addrOf sb s ip .indirect)) j b))
      t ip (.entry j) b := by
  have start := fresh.dataStart_le owned
  have small : b < 2 ^ 32 := by
    have := layout.size
    have := fresh.inside
    omega
  have place := owned.data ip .indirect real some
  have notFresh := fresh.ne_addrOf owned real (p := .indirect)
  have before (x : Nat) (inode : x < sb.ninodes) : iblock sb x ≠ addrOf sb s ip .indirect := by
    have := layout.iblock_lt inode
    have := bmapstart_le sb
    omega
  have same (x : Nat) (inode : x < sb.ninodes) :
      current sb
        ((s.alloc sb t b).store t (addrOf sb s ip .indirect) (setAddr (s.block (addrOf sb s ip .indirect)) j b)) x =
        current sb s x := by
    rw [← alloc_current layout owned fresh inode (t := t)]
    exact current_congr rfl (store_block_ne (before x inode))
  have blocks {x : Nat} {p : Place} (isReal : S x) (isSome : addrOf sb s x p ≠ 0)
      (other : addrOf sb s x p ≠ addrOf sb s ip .indirect) :
      ((s.alloc sb t b).store t (addrOf sb s ip .indirect) (setAddr (s.block (addrOf sb s ip .indirect)) j b)).block
      (addrOf sb s x p) =
        s.block (addrOf sb s x p) := by
    rw [store_block_ne other, alloc_owned_block owned fresh isReal isSome]
  constructor
  case mine => exact real
  case fresh => exact fresh
  case empty => exact empty
  case kind =>
    intro x inode
    rw [same x inode]
    exact ⟨rfl, rfl⟩
  case addr =>
    intro x p isReal
    by_cases this : x = ip
    · subst this
      by_cases inEntry : ∃ i, p = .entry i
      · obtain ⟨i, rfl⟩ := inEntry
        have number := addrOf_congr (p := .indirect) (same x (owned.inode x isReal)) nofun
        rw [addrOf_entry (by rwa [number]), number, store_block_self]
        by_cases at_j : i = j
        · subst at_j
          rw [getAddr_setAddr small]
          simp
        · rw [getAddr_setAddr_ne fun same => at_j (Fin.ext same), if_neg (by simpa using at_j), addrOf_entry some]
      · rw [if_neg (by rintro ⟨-, rfl⟩; exact inEntry ⟨j, rfl⟩)]
        exact addrOf_congr (same x (owned.inode x isReal)) fun i isEntry => absurd ⟨i, isEntry⟩ inEntry
    · rw [if_neg fun both => this both.1]
      refine addrOf_congr (same x (owned.inode x isReal)) fun i _ isSome => blocks isReal isSome fun equal => this ?_
      exact (owned.distinct x ip _ _ isReal real isSome equal).1
  case used =>
    intro y inside
    rw [← alloc_used owned fresh inside (t := t)]
    refine used_congr (store_block_ne ?_)
    have := bblock_lt inside
    omega
  case zero => rw [store_block_ne (Ne.symm notFresh), State.alloc, store_block_self]
  case block =>
    intro x bn isReal isSome
    refine blocks isReal isSome fun equal => ?_
    exact placeOf_ne_indirect bn (owned.distinct x ip _ _ isReal real isSome equal).2
  case inode => exact fun x => ⟨rfl, rfl, rfl⟩
  case buf => rfl
  case cached => rfl
  case ops => rfl
  case log =>
    intro y logged
    have cases : y ∈ s.log t ∨ y = bblock sb b ∨ y = b ∨ y = addrOf sb s ip .indirect := by
      simpa [State.alloc, State.store, or_assoc, update_idem] using logged
    rcases cases with old | bitmap | new | this
    · exact .inl old
    · exact .inr (.inl bitmap)
    · exact .inr (.inr (.inl new))
    · exact .inr (.inr (.inr ⟨⟨j, rfl⟩, this, this ▸ some⟩))

end Linking

theorem Link.owned (h : Link S sb s u t ip p b) (owned : Owned S sb s) : Owned S sb u := by
  have fresh := h.fresh
  have start := fresh.dataStart_le owned
  have positive := dataStart_pos sb
  have old {x : Nat} {p' : Place} (real : S x)
    (some : addrOf sb u x p' ≠ 0) : (x = ip ∧ p' = p ∧ addrOf sb u x p' = b) ∨
        (addrOf sb u x p' = addrOf sb s x p' ∧ addrOf sb s x p' ≠ 0 ∧ addrOf sb s x p' ≠ b) := by
    have there := h.addr x p' real
    by_cases new : x = ip ∧ p' = p
    · rw [if_pos new] at there
      exact .inl ⟨new.1, new.2, there⟩
    · rw [if_neg new] at there
      exact .inr ⟨there, there ▸ some, fresh.ne_addrOf owned real⟩
  constructor
  case inode => exact owned.inode
  case reserved =>
    intro y less
    rw [h.used y (by have := fresh.inside; omega), owned.reserved y less, Bool.or_true]
  case data =>
    intro x p' isReal some
    rcases old isReal some with ⟨-, -, same⟩ | ⟨same, before, -⟩
    · rw [same, h.used b fresh.inside]
      exact ⟨start, fresh.inside, by simp⟩
    · obtain ⟨low, high, isUsed⟩ := owned.data x p' isReal before
      rw [same, h.used _ high, isUsed]
      exact ⟨low, high, Bool.or_true _⟩
  case distinct =>
    intro x y p₁ p₂ realX realY some same
    rcases old realX some with ⟨rfl, rfl, first⟩ | ⟨first, before, notNew⟩
    · rcases old realY (same ▸ some) with ⟨rfl, rfl, -⟩ | ⟨second, -, other⟩
      · exact ⟨rfl, rfl⟩
      · exact absurd (second.symm.trans (same.symm.trans first)) other
    rcases old realY (same ▸ some) with ⟨rfl, rfl, second⟩ | ⟨second, -, -⟩
    · exact absurd (first.symm.trans (same.trans second)) notNew
    · exact owned.distinct x y p₁ p₂ realX realY before (first.symm.trans (same.trans second))
  case size =>
    intro x isReal
    rw [(h.kind x (owned.inode x isReal)).2]
    exact owned.size x isReal

end Xv6.Fs
