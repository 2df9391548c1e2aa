import Xv6.Kernel.Mkfs
import Xv6.Proof.FsChunks

/-!
# How mkfs fills its image

mkfs counts its blocks, and the bitmap on its image is empty until the end. `view` is the image with the bitmap that
mkfs would write now: there each block that mkfs takes is a block that the kernel's `balloc` could have taken.
-/

namespace Xv6.Mkfs
open Xv6.Library Xv6.Fs
open Function (update_of_ne update update_self update_comm)

variable {img img' : Image} {din d' : Dinode} {inum x b : Nat} {p : Place} {P : Finset Place}
  {data : Bytes} {E : String → Prop} {Q : Unit → Image → Prop} {S : Nat → Prop}

section Bitmap

theorem bit_bitmap (k j : Nat) : bit (bitmap k) j = decide (j < k) := by
  unfold bitmap
  induction k with
  | zero => simp [bit]
  | succ k ih =>
    rw [List.range_succ, List.foldl_append, List.foldl_cons, List.foldl_nil, bit_setBit, ih, ← Bool.decide_or]
    exact decide_eq_decide.mpr (by omega)

theorem setBit_bitmap (k : Nat) : setBit (bitmap k) k = bitmap (k + 1) := by
  unfold bitmap
  rw [List.range_succ, List.foldl_append, List.foldl_cons, List.foldl_nil]

theorem bblock_eq (inside : b < FSSIZE) : bblock sb b = sb.bmapstart := by
  have value : FSSIZE = 1000 ∧ BPB = 4096 := by decide
  rw [bblock, Nat.div_eq_of_lt (by omega), Nat.zero_add]

theorem mod_eq (inside : b < FSSIZE) : b % BPB = b := by
  have value : FSSIZE = 1000 ∧ BPB = 4096 := by decide
  exact Nat.mod_eq_of_lt (by omega)

theorem rootino : (ROOTINO : Nat) = 1 := rfl

theorem layout : Layout sb := ⟨by decide, by decide, by decide⟩

theorem dataStart_eq : dataStart sb = nmeta := by decide

end Bitmap

def view (img : Image) : State 1 := boot (update img.block sb.bmapstart (bitmap img.freeblock))

def viewIn (img : Image) (inum : Nat) (din : Dinode) : State 1 := (view img).setInode inum ⟨1, none, true, din⟩

section View

theorem view_bitmap : (view img).block sb.bmapstart = bitmap img.freeblock := by simp [view, boot]

theorem view_used (inside : b < FSSIZE) : used sb (view img) b = decide (b < img.freeblock) := by
  rw [used, bblock_eq inside, mod_eq inside, view_bitmap, bit_bitmap]

theorem viewIn_used (inside : b < FSSIZE) :
    used sb (viewIn img inum din) b = decide (b < img.freeblock) := view_used inside

theorem view_block (other : b ≠ sb.bmapstart) : (view img).block b = img.block b := update_of_ne other ..

theorem view_free : free sb (view img) = FSSIZE - img.freeblock := by
  have same : ((Finset.range sb.size).filter fun b => used sb (view img) b = false) =
    Finset.Ico img.freeblock FSSIZE := by
    ext b
    rw [Finset.mem_filter, Finset.mem_range, Finset.mem_Ico]
    constructor
    · rintro ⟨less, clear⟩
      rw [view_used less, decide_eq_false_iff_not, Nat.not_lt] at clear
      exact ⟨clear, less⟩
    · rintro ⟨le, less⟩
      rw [view_used less, decide_eq_false_iff_not, Nat.not_lt]
      exact ⟨less, le⟩
  rw [free, same, Nat.card_Ico]

theorem viewIn_free : free sb (viewIn img inum din) = FSSIZE - img.freeblock := view_free

end View

structure Open (S : Nat → Prop) (img : Image) (inum : Nat) (din : Dinode) : Prop where
  ready : Ready S sb (viewIn img inum din) inum
  first : img.block 1 = superblock
  start : nmeta ≤ img.freeblock
  bound : img.freeblock ≤ FSSIZE
  zero : ∀ b, img.freeblock ≤ b → b < FSSIZE → img.block b = fun _ => 0

section Place
variable (isOpen : Open S img inum din) (room : img.freeblock < FSSIZE)
include isOpen room

omit isOpen in
theorem next_fresh : Fresh sb (viewIn img inum din) img.freeblock :=
  ⟨room, by rw [viewIn_used room, decide_eq_false_iff_not]; exact Nat.lt_irrefl _⟩

theorem next_block : (Fs.State.alloc sb (viewIn img inum din) 0 img.freeblock).block =
    update img.block sb.bmapstart (bitmap (img.freeblock + 1)) := by
  have value : sb.bmapstart < nmeta := by decide
  have other : img.freeblock ≠ sb.bmapstart := by
    have := isOpen.start
    omega
  funext y
  unfold State.alloc
  rw [bblock_eq room, mod_eq room]
  by_cases isNew : y = img.freeblock
  · rw [isNew, store_block_self, update_of_ne other, isOpen.zero _ le_rfl room]
  rw [store_block_ne isNew]
  by_cases isBitmap : y = sb.bmapstart
  · have now : (viewIn img inum din).block sb.bmapstart = bitmap img.freeblock := view_bitmap
    rw [isBitmap, store_block_self, update_self, now, setBit_bitmap]
  · rw [store_block_ne isBitmap, update_of_ne isBitmap]
    exact view_block isBitmap

theorem link_slot {k : Fin (NDIRECT + 1)} (empty : din.addrs k = 0) :
    Link S sb (viewIn img inum din)
      (viewIn { img with freeblock := img.freeblock + 1 } inum (din.setAddr k img.freeblock)) 0 inum
      (slotOf k) img.freeblock := by
  have here : (viewIn img inum din).inode inum = ⟨1, none, true, din⟩ := update_self ..
  have link := (link_addrs layout isOpen.ready.owned (next_fresh room) isOpen.ready.real isOpen.ready.memory
    (by rw [here]; exact empty) (t := 0)).unlogged
  have same : viewIn { img with freeblock := img.freeblock + 1 } inum (din.setAddr k img.freeblock) =
      { ((viewIn img inum din).alloc sb 0 img.freeblock).setInode inum
          { (viewIn img inum din).inode inum with
            d := ((viewIn img inum din).inode inum).d.setAddr k img.freeblock } with
        log := fun _ => [] } := by
    unfold State.setInode
    rw [next_block isOpen room, here]
    simp [viewIn, view, boot, State.setInode, State.alloc, State.store]
  rw [same]
  exact link

theorem link_cell {j : Fin NINDIRECT} (some : addrOf sb (viewIn img inum din) inum .indirect ≠ 0)
    (empty : addrOf sb (viewIn img inum din) inum (.entry j) = 0) :
    let i := addrOf sb (viewIn img inum din) inum .indirect
    Link S sb (viewIn img inum din) (viewIn { img with
      freeblock := img.freeblock + 1
      block := update img.block i (setAddr (img.block i) j img.freeblock) } inum din) 0 inum
        (.entry j) img.freeblock := by
  intro i
  have place := isOpen.ready.owned.data inum .indirect isOpen.ready.real some
  have value : sb.bmapstart < dataStart sb := by decide
  have other : i ≠ sb.bmapstart := by
    have : dataStart sb ≤ i := place.1
    omega
  have link := (link_entry layout isOpen.ready.owned (next_fresh room) isOpen.ready.real some empty (t := 0)).unlogged
  have now : (viewIn img inum din).block i = img.block i := view_block other
  have same : viewIn { img with
      freeblock := img.freeblock + 1
      block := update img.block i (setAddr (img.block i) j img.freeblock) } inum din =
      { ((viewIn img inum din).alloc sb 0 img.freeblock).store 0 i (setAddr
        ((viewIn img inum din).block i) j img.freeblock) with
        log := fun _ => [] } := by
    unfold State.store
    rw [next_block isOpen room, now]
    simp only [viewIn, view, boot, State.setInode, State.alloc, State.store]
    rw [update_comm other]
  rw [same]
  exact link

omit isOpen room in
theorem viewIn_store (other : b ≠ sb.bmapstart) : viewIn { img with block := update img.block b data } inum din =
    { (viewIn img inum din).store 0 b data with log := fun _ => [] } := by
  simp only [viewIn, view, boot, State.setInode, State.store]
  rw [update_comm other]

end Place

theorem isOpen_current (isOpen : Open S img inum din) : current sb (viewIn img inum din) inum = din := by
  rw [current_memory isOpen.ready.memory]
  simp [viewIn, State.setInode]

theorem Open.of_grown (isOpen : Open S img inum din)
    (grown : Grown S sb (viewIn img inum din) (viewIn img' inum d') 0 inum P)
    (least : img.freeblock ≤ img'.freeblock) (bound : img'.freeblock ≤ FSSIZE)
    (first : img'.block 1 = img.block 1) (zero : ∀ b, img'.freeblock ≤ b → b < FSSIZE → img'.block b = img.block b) :
    Open S img' inum d' where
  ready := grown.ready isOpen.ready
  first := first.trans isOpen.first
  start := isOpen.start.trans least
  bound := bound
  zero b le less := by rw [zero b le less, isOpen.zero b (least.trans le) less]

theorem Open.lt_freeblock (isOpen : Open S img inum din) (isReal : S x)
    (some : addrOf sb (viewIn img inum din) x p ≠ 0) : addrOf sb (viewIn img inum din) x p < img.freeblock := by
  obtain ⟨-, inside, isUsed⟩ := isOpen.ready.owned.data x p isReal some
  rwa [viewIn_used inside, decide_eq_true_iff] at isUsed

theorem rsect_spec {Q : Bytes → Image → Prop} (inside : b < FSSIZE) : Spec (rsect b) img E Q ↔ Q (img.block b) img := by
  unfold rsect
  simp only [spec_bind, spec_get, if_pos inside, spec_pure]

@[simp] theorem wsect_spec : Spec (wsect b data) img E Q ↔ Q () { img with block := update img.block b data } := Iff.rfl

@[simp] theorem nextblock_spec {Q : Nat → Image → Prop} :
    Spec nextblock img E Q ↔ Q img.freeblock { img with freeblock := img.freeblock + 1 } := Iff.rfl

structure Placed (S : Nat → Prop) (img : Image) (inum : Nat) (din : Dinode)
    (P : Finset Place) (p : Place) (r : Dinode × Nat) (img' : Image) : Prop where
  filled : Filled S sb (viewIn img inum din) 0 inum P p r.2 (viewIn img' inum r.1)
  isOpen : Open S img' inum r.1
  freeinode : img'.freeinode = img.freeinode
  least : img.freeblock ≤ img'.freeblock

theorem Placed.trans {r : Dinode × Nat} {img'' : Image} (second : Placed S img' inum d' P p r img'')
    (first : Grown S sb (viewIn img inum din) (viewIn img' inum d') 0 inum P) (real : S inum)
    (bytes : SameBytes S sb (viewIn img inum din) (viewIn img' inum d')) (freeinode : img'.freeinode = img.freeinode)
    (least : img.freeblock ≤ img'.freeblock) : Placed S img inum din P p r img'' where
  filled := second.filled.trans first real bytes
  isOpen := second.isOpen
  freeinode := second.freeinode.trans freeinode
  least := least.trans second.least

section Append
variable (isOpen : Open S img inum din)
include isOpen

omit isOpen in
theorem room_of_need (enough : need sb (viewIn img inum din) inum P ≤ free sb (viewIn img inum din)) (member : p ∈ P)
    (empty : addrOf sb (viewIn img inum din) inum p = 0) : img.freeblock < FSSIZE := by
  have positive := need_pos member empty
  rw [viewIn_free] at enough
  omega

theorem placed_here (some : addrOf sb (viewIn img inum din) inum p ≠ 0) :
    Placed S img inum din P p (din, addrOf sb (viewIn img inum din) inum p) img :=
  ⟨⟨Grown.refl isOpen.ready.owned, fun _ _ _ => rfl, rfl, some⟩, isOpen, rfl, le_rfl⟩

theorem placeIndirect_spec {fbn : Nat} (far : ¬fbn < NDIRECT) (small : fbn < MAXFILE)
    (some : addrOf sb (viewIn img inum din) inum .indirect ≠ 0) (members : placesOf fbn ⊆ P)
    (enough : need sb (viewIn img inum din) inum P ≤ free sb (viewIn img inum din)) :
    Spec (placeIndirect fbn din) img (fun _ => False) (Placed S img inum din P (placeOf fbn)) := by
  have number : (din.addrs indirect).toNat = addrOf sb (viewIn img inum din) inum .indirect := by
    rw [addrOf, isOpen_current isOpen]
    rfl
  obtain ⟨_, inside, -⟩ := isOpen.ready.owned.data inum .indirect isOpen.ready.real some
  have value : sb.bmapstart < dataStart sb := by decide
  have now : (viewIn img inum din).block (addrOf sb (viewIn img inum din) inum .indirect) =
      img.block (addrOf sb (viewIn img inum din) inum .indirect) := view_block (by omega)
  have entry := addrOf_entry (j := ⟨fbn - NDIRECT, entry_lt far small⟩) some
  rw [now] at entry
  unfold placeIndirect
  simp only [spec_bind, number]
  rw [rsect_spec inside, placeOf_entry far small]
  by_cases empty : getAddr (img.block (addrOf sb (viewIn img inum din) inum .indirect)) (fbn - NDIRECT) = 0
  · rw [if_pos empty]
    simp only [spec_bind, nextblock_spec, wsect_spec, spec_pure]
    have member := members (placeOf_mem fbn)
    rw [placeOf_entry far small] at member
    have room := room_of_need enough member (entry.trans empty)
    have link := link_cell isOpen room some (entry.trans empty)
    have filled := link_filled isOpen.ready link member fun _ => members (indirect_mem far)
    have short : img.freeblock < 2 ^ 32 := room.trans (by decide)
    rw [getAddr_setAddr short]
    have first : 1 < dataStart sb := by decide
    refine ⟨filled, isOpen.of_grown filled.grown (Nat.le_succ _) room (update_of_ne (by omega) ..) fun b le _ => ?_,
      rfl, Nat.le_succ _⟩
    have below := isOpen.lt_freeblock isOpen.ready.real some
    exact update_of_ne (by have : img.freeblock + 1 ≤ b := le; omega) ..
  · rw [if_neg empty, spec_pure, ← entry]
    exact placed_here isOpen (by rw [entry]; exact empty)

theorem place_spec {fbn : Nat} (small : fbn < MAXFILE) (members : placesOf fbn ⊆ P)
    (enough : need sb (viewIn img inum din) inum P ≤ free sb (viewIn img inum din)) :
    Spec (place fbn din) img (fun _ => False) (Placed S img inum din P (placeOf fbn)) := by
  have member := members (placeOf_mem fbn)
  unfold place
  by_cases direct : fbn < NDIRECT
  · have slot := slotOf_direct direct
    have number : addrOf sb (viewIn img inum din) inum
      (placeOf fbn) = (din.addrs ⟨fbn, Nat.lt_succ_of_lt direct⟩).toNat := by
      rw [← slot, addrOf, isOpen_current isOpen, addrAt_slotOf]
    rw [dif_pos direct]
    dsimp only
    split_ifs with empty
    · simp only [spec_bind, nextblock_spec, spec_pure]
      have room := room_of_need enough member (by rw [number, empty]; rfl)
      have link := link_slot isOpen room empty
      rw [slot] at link
      have short : img.freeblock < 2 ^ 32 := room.trans (by decide)
      have filled := link_filled isOpen.ready link member (by
        rintro ⟨j, isEntry⟩
        rw [placeOf, if_pos direct] at isEntry
        cases isEntry)
      have result :
        ((din.setAddr ⟨fbn, Nat.lt_succ_of_lt direct⟩ img.freeblock).addrs ⟨fbn, Nat.lt_succ_of_lt direct⟩).toNat =
          img.freeblock := by
        simp [Dinode.setAddr, toNat_ofNat short]
      rw [result]
      exact ⟨filled, isOpen.of_grown filled.grown (Nat.le_succ _) room rfl fun _ _ _ => rfl, rfl, Nat.le_succ _⟩
    · rw [spec_pure, ← number]
      refine placed_here isOpen fun zero => empty (UInt32.toNat_inj.mp ?_)
      rw [← number, zero]
      rfl
  · have hasIndirect := members (indirect_mem direct)
    have number : addrOf sb (viewIn img inum din) inum .indirect = (din.addrs indirect).toNat := by
      rw [addrOf, isOpen_current isOpen]
      rfl
    rw [dif_neg direct]
    split_ifs with empty
    · simp only [spec_bind, nextblock_spec]
      have room := room_of_need enough hasIndirect (by rw [number, empty]; rfl)
      have link := link_slot isOpen room empty
      have filled := link_filled isOpen.ready link hasIndirect (by rintro ⟨_, ⟨⟩⟩)
      have isOpen' := isOpen.of_grown filled.grown (Nat.le_succ _) room rfl fun _ _ _ => rfl
      have balance := filled.grown.balance
      refine (placeIndirect_spec isOpen' direct small
        (by rw [slotOf_indirect] at filled; rw [filled.stands]; exact filled.some)
        members (by omega)).mono fun r _ placed => ?_
      exact placed.trans filled.grown isOpen.ready.real filled.bytes rfl (Nat.le_succ _)
    · refine placeIndirect_spec isOpen direct small (fun zero => empty (UInt32.toNat_inj.mp ?_)) members enough
      rw [← number, zero]
      rfl

end Append

structure Appended (S : Nat → Prop) (img : Image) (inum : Nat) (din : Dinode)
    (P : Finset Place) (off : Nat) (src : List Byte) (r : Dinode × Nat)
    (img' : Image) : Prop where
  grown : Grown S sb (viewIn img inum din) (viewIn img' inum r.1) 0 inum P
  bytes : Patched S sb (viewIn img inum din) (viewIn img' inum r.1) inum off src
  mapped : ∀ bn ∈ touched off src.length, addrOf sb (viewIn img' inum r.1) inum (placeOf bn) ≠ 0
  isOpen : Open S img' inum r.1
  freeinode : img'.freeinode = img.freeinode
  off : r.2 = off + src.length

theorem Appended.nil {off : Nat} (isOpen : Open S img inum din) : Appended S img inum din P off [] (din, off) img :=
  ⟨Grown.refl isOpen.ready.owned, Patched.nil, by simp [mem_touched], isOpen, rfl, rfl⟩

theorem Open.piece {o : Nat} {q : List Byte} (isOpen : Open S img inum din)
    (some : addrOf sb (viewIn img inum din) inum (placeOf (o / BSIZE)) ≠ 0) (fits : o + q.length ≤ MAXFILE * BSIZE)
    (here : o % BSIZE + q.length ≤ BSIZE) (nonempty : 0 < q.length) (member : placeOf (o / BSIZE) ∈ P) :
    let x := addrOf sb (viewIn img inum din) inum (placeOf (o / BSIZE))
    let img' := { img with block := update img.block x (splice (img.block x) (o % BSIZE) q) }
    Grown S sb (viewIn img inum din) (viewIn img' inum din) 0 inum P ∧
      Patched S sb (viewIn img inum din) (viewIn img' inum din) inum o q ∧ Open S img' inum din ∧
      addrOf sb (viewIn img' inum din) inum (placeOf (o / BSIZE)) = x := by
  intro x img'
  have ready := isOpen.ready
  have value : 1 < sb.bmapstart ∧ sb.bmapstart < dataStart sb := by decide
  have low : dataStart sb ≤ x := (ready.owned.data inum _ ready.real some).1
  have other : x ≠ sb.bmapstart := by omega
  have below : x < img.freeblock := isOpen.lt_freeblock ready.real some
  have now : (viewIn img inum din).block x = img.block x := view_block other
  have same : viewIn img' inum din =
    { (viewIn img inum din).store 0 x (splice ((viewIn img inum din).block x) (o % BSIZE) q) with
      log := fun _ => [] } := by
    rw [now]
    exact viewIn_store other
  have grown : Grown S sb (viewIn img inum din) (viewIn img' inum din) 0 inum P := by
    rw [same]
    exact (store_grown layout ready.owned ready.real some member).unlogged
  refine ⟨grown, ?_, isOpen.of_grown grown le_rfl isOpen.bound (update_of_ne (by omega) ..) fun b le _ => ?_, ?_⟩
  · rw [same]
    exact splice_patched layout ready some fits here nonempty (t := 0)
  · exact update_of_ne (by have : img.freeblock ≤ b := le; omega) ..
  · exact grown.addr inum _ ready.real some

theorem appendLoop_spec {fuel off : Nat} {src : List Byte} (last : src.length ≤ fuel) (isOpen : Open S img inum din)
    (fits : off + src.length ≤ MAXFILE * BSIZE) (members : ∀ bn ∈ touched off src.length, placesOf bn ⊆ P)
    (enough : need sb (viewIn img inum din) inum P ≤ free sb (viewIn img inum din)) :
    Spec (appendLoop fuel din off src) img (fun _ => False) (Appended S img inum din P off src) := by
  induction fuel generalizing img din off src with
  | zero =>
    obtain rfl : src = [] := List.eq_nil_of_length_eq_zero (Nat.le_zero.mp last)
    exact Appended.nil isOpen
  | succ _ ih =>
    rw [appendLoop]
    split_ifs with none small
    · subst none
      exact Appended.nil isOpen
    · have value : BSIZE = 512 := rfl
      have nonempty : 0 < src.length := List.length_pos_of_ne_nil none
      have same : (off / BSIZE + 1) * BSIZE - off = BSIZE - off % BSIZE ∧ off - off / BSIZE * BSIZE = off % BSIZE := by
        rw [value]
        omega
      have positive : 0 < min src.length (BSIZE - off % BSIZE) := by
        rw [value]
        omega
      have inBlock : off % BSIZE + min src.length (BSIZE - off % BSIZE) ≤ BSIZE := by
        rw [value]
        omega
      have step (bn : Nat) : bn ∈ touched off src.length ↔ bn = off / BSIZE ∨
          bn ∈ touched (off + min src.length (BSIZE - off % BSIZE))
          (src.length - min src.length (BSIZE - off % BSIZE)) :=
        touched_step nonempty
      have first := members _ ((step _).mpr (.inl rfl))
      rw [same.1, same.2]
      generalize split : min src.length (BSIZE - off % BSIZE) = m at positive inBlock step ⊢
      have le : m ≤ src.length := split ▸ Nat.min_le_left ..
      have amount : (src.take m).length = m := List.length_take_of_le le
      have rest : (src.drop m).length = src.length - m := List.length_drop
      simp only [spec_bind]
      refine (place_spec isOpen small first enough).mono fun r _ placed => ?_
      obtain ⟨⟨grown, same, stands, some⟩, isOpen₁, freeinode, -⟩ := placed
      have inside := (isOpen₁.ready.owned.data inum _ isOpen₁.ready.real (by rwa [stands])).2.1
      rw [stands] at inside
      rw [rsect_spec inside, wsect_spec]
      obtain ⟨grown', patched, isOpen₂, stands'⟩ :=
        isOpen₁.piece (o := off) (q := src.take m) (by rwa [stands]) (by omega)
        (by omega) (by omega) (first (placeOf_mem _))
      rw [stands] at grown' patched isOpen₂ stands'
      have both := grown.trans isOpen.ready.real grown'
      have balance := both.balance
      refine (ih (by omega) isOpen₂ (by omega) (fun bn member => ?_) (by omega)).mono fun _ _ more => ?_
      · exact members bn ((step bn).mpr (.inr (rest ▸ member)))
      refine ⟨both.trans isOpen.ready.real more.grown, ?_, fun bn member => ?_, more.isOpen, ?_, ?_⟩
      · exact (same.patched patched).append le more.bytes
      · rcases (step bn).mp member with rfl | later
        · rw [more.grown.addr inum _ isOpen₂.ready.real (by rwa [stands']), stands']
          exact some
        · exact more.mapped bn (rest.symm ▸ later)
      · exact more.freeinode.trans freeinode
      · rw [more.off, rest]
        omega
    · have first : off / BSIZE ∈ touched off src.length :=
        (touched_step (List.length_pos_of_ne_nil none)).mpr (.inl rfl)
      exact absurd (touched_lt fits first) small

section Span

theorem mem_span_zero {len bn : Nat} (place : p ∈ placesOf bn) (below : bn * BSIZE < len) : p ∈ span 0 len := by
  refine placesOf_subset_span (mem_touched.mpr ⟨by omega, ?_, by omega⟩) place
  rw [Nat.zero_div]
  exact Nat.zero_le _

theorem span_add (a c : Nat) : span 0 (a + c) = span 0 a ∪ span a c := by
  have value : BSIZE = 512 := rfl
  have same : touched 0 (a + c) = touched 0 a ∪ touched a c := by
    ext bn
    rw [Finset.mem_union, mem_touched, mem_touched, mem_touched, value]
    omega
  rw [span, same, Finset.union_biUnion, span, span]

end Span

def cost (len : Nat) : Nat := (len + BSIZE - 1) / BSIZE + if NDIRECT * BSIZE < len then 1 else 0

def total (table : List (List Byte)) : Nat := nmeta + (table.map fun bytes => cost bytes.length).sum

theorem card_span_zero {len : Nat} (fits : len ≤ MAXFILE * BSIZE) : (span 0 len).card = cost len := by
  have value : BSIZE = 512 ∧ NDIRECT = 12 ∧ MAXFILE = 140 := by decide
  have blocks : touched 0 len = Finset.range ((len + BSIZE - 1) / BSIZE) := by
    ext bn
    rw [mem_touched, Finset.mem_range, value.1]
    omega
  have split : span 0 len = (touched 0 len).image placeOf ∪ if NDIRECT * BSIZE < len then {.indirect} else ∅ := by
    ext p
    rw [Finset.mem_union]
    constructor
    · intro member
      obtain ⟨bn, visited, place⟩ := Finset.mem_biUnion.mp member
      have image := Finset.mem_image_of_mem placeOf visited
      unfold placesOf at place
      split_ifs at place with direct
      · rw [Finset.mem_singleton.mp place]
        exact .inl image
      rcases Finset.mem_insert.mp place with rfl | last
      · have below := (mem_touched.mp visited).2.2
        rw [Nat.zero_add] at below
        have far : NDIRECT * BSIZE < len := (Nat.mul_le_mul_right BSIZE (Nat.not_lt.mp direct)).trans_lt below
        rw [if_pos far]
        exact .inr (Finset.mem_singleton_self _)
      · rw [Finset.mem_singleton.mp last]
        exact .inl image
    · rintro (image | isIndirect)
      · obtain ⟨bn, visited, rfl⟩ := Finset.mem_image.mp image
        exact placesOf_subset_span visited (placeOf_mem bn)
      split_ifs at isIndirect with far
      · have place : .indirect ∈ placesOf NDIRECT := indirect_mem (Nat.lt_irrefl NDIRECT)
        rw [Finset.mem_singleton.mp isIndirect]
        exact mem_span_zero place far
      · exact absurd isIndirect (Finset.notMem_empty _)
  have apart : Disjoint ((touched 0 len).image placeOf) (if NDIRECT * BSIZE < len then {.indirect} else ∅) := by
    rw [Finset.disjoint_left]
    intro p image isIndirect
    obtain ⟨bn, -, rfl⟩ := Finset.mem_image.mp image
    split_ifs at isIndirect
    · exact placeOf_ne_indirect bn (Finset.mem_singleton.mp isIndirect)
    · exact absurd isIndirect (Finset.notMem_empty _)
  have injective : Set.InjOn placeOf (touched 0 len) := by
    intro _ visited _ visited' same
    have zero : 0 + len ≤ MAXFILE * BSIZE := by rwa [Nat.zero_add]
    exact placeOf_inj (touched_lt zero visited) (touched_lt zero visited') same
  rw [split, Finset.card_union_of_disjoint apart, Finset.card_image_of_injOn injective, blocks, Finset.card_range, cost]
  split_ifs <;> simp

structure Built (img : Image) (table : List (List Byte)) : Prop where
  owned : Owned (allocated sb (view img)) sb (view img)
  mapped : ∀ x, allocated sb (view img) x → Mapped sb (view img) x
  first : img.block 1 = superblock
  bound : img.freeblock ≤ FSSIZE
  zero : ∀ b, img.freeblock ≤ b → b < FSSIZE → img.block b = fun _ => 0
  few : table.length < NINODES
  real : ∀ x, allocated sb (view img) x ↔ 0 < x ∧ x ≤ table.length
  freeinode : img.freeinode = table.length + 1
  type : ∀ x, allocated sb (view img) x → (current sb (view img) x).type = if x = ROOTINO then T_DIR else T_FILE
  bytes : ∀ i, i < table.length → contents sb (view img) (i + 1) = table.getD i []
  exact : ∀ x p, allocated sb (view img) x → addrOf sb (view img) x p ≠ 0 →
    p ∈ span 0 (current sb (view img) x).size.toNat
  count : img.freeblock = total table

section Iappend

theorem iblock_lt (inside : x < NINODES) : iblock sb x < sb.bmapstart := layout.iblock_lt inside

theorem bmapstart_lt : sb.bmapstart < FSSIZE := by decide

theorem view_current (inside : x < NINODES) : current sb (view img) x = getDinode (img.block (iblock sb x)) x := by
  have other : iblock sb x ≠ sb.bmapstart := (iblock_lt inside).ne
  rw [← view_block other]
  exact if_neg fun both => absurd both.1 (Nat.lt_irrefl 0)

theorem viewIn_alike (inside : inum < NINODES) :
    Alike sb (view img) (viewIn img inum (getDinode (img.block (iblock sb inum)) inum)) := by
  refine ⟨rfl, fun x => ?_⟩
  by_cases this : x = inum
  · subst this
    rw [view_current inside, current_memory (by simp [viewIn, State.setInode])]
    simp [viewIn, State.setInode]
  · exact current_congr (update_of_ne this ..) rfl

theorem saved_alike {size : UInt32} (inside : inum < NINODES) (img : Image) (din : Dinode) :
    Alike sb (((viewIn img inum din).resized inum size).saved sb 0 inum) (view { img with
      block := update img.block (iblock sb inum)
        (putDinode (img.block (iblock sb inum)) inum { din with size := size }) }) := by
  have other : iblock sb inum ≠ sb.bmapstart := (iblock_lt inside).ne
  have now : ((viewIn img inum din).resized inum size).block (iblock sb inum) = img.block (iblock sb inum) :=
    view_block other
  have d : (((viewIn img inum din).resized inum size).inode inum).d = { din with size := size } := by
    simp [viewIn, State.resized, State.setInode]
  have blocks : (view { img with
      block := update img.block (iblock sb inum)
        (putDinode (img.block (iblock sb inum)) inum { din with size := size }) }).block =
      (((viewIn img inum din).resized inum size).saved sb 0 inum).block := by
    unfold State.saved
    rw [now, d]
    simp only [view, boot, State.store]
    rw [update_comm other]
    rfl
  refine ⟨blocks, fun x => ?_⟩
  by_cases this : x = inum
  · subst this
    rw [view_current inside, current_memory (by simp [State.saved, viewIn, State.resized, State.setInode])]
    dsimp only
    rw [update_self, getDinode_putDinode]
    exact d.symm
  have absent : (((viewIn img inum din).resized inum size).saved sb 0 inum).inode x = ⟨0, none, false, .zero⟩ := by
    simp [State.saved, viewIn, State.resized, State.setInode, this, view, boot]
  unfold current
  rw [blocks, absent]
  rfl

theorem winode_spec (inside : inum < NINODES) : Spec (winode inum din) img E Q ↔
    Q () { img with block := update img.block (iblock sb inum) (putDinode (img.block (iblock sb inum)) inum din) } := by
  unfold winode
  simp only [spec_bind]
  rw [rsect_spec ((iblock_lt inside).trans bmapstart_lt), wsect_spec]

theorem rinode_spec {Q : Dinode → Image → Prop} (inside : inum < NINODES) :
    Spec (rinode inum) img E Q ↔ Q (getDinode (img.block (iblock sb inum)) inum) img := by
  unfold rinode
  simp only [spec_bind]
  rw [rsect_spec ((iblock_lt inside).trans bmapstart_lt), spec_pure]

variable {table : List (List Byte)}

section
variable (built : Built img table)
include built

theorem Built.start : nmeta ≤ img.freeblock := by
  rw [built.count]
  exact Nat.le_add_right ..

theorem Built.size {i : Nat} (inside : i < table.length) :
    (current sb (view img) (i + 1)).size.toNat = (table.getD i []).length := by
  rw [← built.bytes i inside, length_contents]

theorem Built.open (isReal : allocated sb (view img) inum) :
    Open (allocated sb (view img)) img inum (getDinode (img.block (iblock sb inum)) inum) := by
  have alike : Alike sb (view img) (viewIn img inum (getDinode (img.block (iblock sb inum)) inum)) :=
    viewIn_alike isReal.1
  exact {
    ready := ⟨⟨by simp [viewIn, State.setInode], fun _ => rfl⟩, alike.owned built.owned, isReal⟩
    first := built.first
    start := built.start
    bound := built.bound
    zero := built.zero }

theorem Built.filled_iff (isReal : allocated sb (view img) x) :
    addrOf sb (view img) x p ≠ 0 ↔ p ∈ span 0 (current sb (view img) x).size.toNat := by
  refine ⟨built.exact x p isReal, fun member => ?_⟩
  obtain ⟨bn, visited, place⟩ := Finset.mem_biUnion.mp member
  have below := (mem_touched.mp visited).2.2
  rw [Nat.zero_add] at below
  have fits := built.owned.size x isReal
  refine places_filled (built.mapped x isReal bn below) (touched_lt ?_ visited) place
  rwa [Nat.zero_add]

theorem Built.need_eq (isReal : allocated sb (view img) x) (len : Nat)
    (fits : (current sb (view img) x).size.toNat + len ≤ MAXFILE * BSIZE) :
    need sb (view img) x (span (current sb (view img) x).size.toNat len) + cost (current sb (view img) x).size.toNat =
      cost ((current sb (view img) x).size.toNat + len) := by
  have same : ((span (current sb (view img) x).size.toNat len).filter fun p => addrOf sb (view img) x p = 0) =
      span (current sb (view img) x).size.toNat len \ span 0 (current sb (view img) x).size.toNat := by
    ext p
    rw [Finset.mem_filter, Finset.mem_sdiff, ← built.filled_iff isReal, not_not]
  rw [need, same, ← card_span_zero fits, ← card_span_zero (by omega),
    span_add, Finset.union_comm, ← Finset.card_sdiff_add_card]

end

structure Extended (img : Image) (inum : Nat) (P : Finset Place) (q : List Byte) (img' : Image) : Prop where
  wrote : Wrote (allocated sb (view img)) sb (view img) (view img') inum P (current sb (view img) inum).size.toNat q
  outside : ∀ p, p ∉ P → addrOf sb (view img') inum p = addrOf sb (view img) inum p
  other : ∀ x p, allocated sb (view img) x → x ≠ inum → addrOf sb (view img') x p = addrOf sb (view img) x p
  first : img'.block 1 = superblock
  bound : img'.freeblock ≤ FSSIZE
  zero : ∀ b, img'.freeblock ≤ b → b < FSSIZE → img'.block b = fun _ => 0
  freeinode : img'.freeinode = img.freeinode

theorem one_lt_iblock (x : Nat) : 1 < iblock sb x := (by decide : 1 < sb.inodestart).trans_le (Nat.le_add_left ..)

theorem iappend_extended {q : List Byte} (built : Built img table) (isReal : allocated sb (view img) inum)
    (fits : (current sb (view img) inum).size.toNat + q.length ≤ MAXFILE * BSIZE)
    (enough : need sb (view img) inum (span (current sb (view img) inum).size.toNat q.length) ≤ free sb (view img)) :
    Spec (iappend inum q) img (fun _ => False)
      fun _ img' => Extended img inum (span (current sb (view img) inum).size.toNat q.length) q img' := by
  have alike : Alike sb (view img) (viewIn img inum (getDinode (img.block (iblock sb inum)) inum)) :=
    viewIn_alike isReal.1
  have isOpen := built.open isReal
  have size : (getDinode (img.block (iblock sb inum)) inum).size = (current sb (view img) inum).size := by
    rw [view_current isReal.1]
  unfold iappend
  simp only [spec_bind]
  rw [rinode_spec isReal.1, size]
  refine (appendLoop_spec le_rfl isOpen fits (fun bn member => placesOf_subset_span member)
    (by rwa [alike.need, alike.free])).mono fun r img₁ appended => ?_
  obtain ⟨grown, patched, mapped, isOpen₁, freeinode, off⟩ := appended
  rw [winode_spec isReal.1, off]
  have sameSize : (current sb (viewIn img inum (getDinode (img.block (iblock sb inum)) inum)) inum).size =
      (current sb (view img) inum).size := by rw [alike.current]
  have value : (UInt32.ofNat ((current sb (view img) inum).size.toNat + q.length)).toNat =
      (current sb (view img) inum).size.toNat + q.length := by
    have : MAXFILE * BSIZE = 71680 := by decide
    exact toNat_ofNat (by omega)
  have written := grown.written_resized layout isOpen.ready patched mapped
    (by rw [sameSize]; exact Nat.le_add_right ..) value fits
  have addr {x : Nat} {p : Place} (real : allocated sb (view img) x) :=
    (saved_alike isReal.1 img₁ r.1).addrOf.trans
      (saved_resized_addrOf (x := x) (p := p) isOpen₁.ready layout (by rw [value]; exact fits) real)
  constructor
  case wrote => exact (saved_alike isReal.1 img₁ r.1).wrote_after (alike.wrote_before written.toWrote)
  case outside =>
    intro p notMember
    rw [addr isReal, grown.outside p notMember, alike.addrOf]
  case other =>
    intro x p real notMine
    rw [addr real, grown.other x p real notMine, alike.addrOf]
  case first =>
    dsimp only
    rw [update_of_ne (one_lt_iblock inum).ne, isOpen₁.first]
  case bound => exact isOpen₁.bound
  case zero =>
    intro b le less
    have low := isOpen₁.start
    have block := iblock_lt isReal.1
    have first : sb.bmapstart < nmeta := by decide
    have le : img₁.freeblock ≤ b := le
    rw [← isOpen₁.zero b le less]
    exact update_of_ne (by omega) ..
  case freeinode => exact freeinode

theorem getD_middle (pre post : List (List Byte)) (old : List Byte) :
    (pre ++ old :: post).getD pre.length [] = old := by simp

theorem getD_other {pre post : List (List Byte)} {old new : List Byte} {i : Nat} (other : i ≠ pre.length) :
    (pre ++ old :: post).getD i [] = (pre ++ new :: post).getD i [] := by
  simp only [List.getD_eq_getElem?_getD, List.getElem?_append, List.getElem?_cons]
  split_ifs with before zero
  · rfl
  · omega
  · rfl

theorem total_middle (pre post : List (List Byte)) (old : List Byte) :
    total (pre ++ old :: post) = total pre + cost old.length + (post.map fun bytes => cost bytes.length).sum := by
  simp only [total, List.map_append, List.map_cons, List.sum_append, List.sum_cons]
  omega

variable {pre post : List (List Byte)} {old q : List Byte}

theorem Built.extend (built : Built img (pre ++ old :: post)) (fits : old.length + q.length ≤ MAXFILE * BSIZE)
    (extended : Extended img (pre.length + 1) (span old.length q.length) q img') : Built img'
    (pre ++ (old ++ q) :: post) := by
  have middle : pre.length < (pre ++ old :: post).length := by simp
  have same : (pre ++ (old ++ q) :: post).length = (pre ++ old :: post).length := by simp
  have isReal : allocated sb (view img) (pre.length + 1) := (built.real _).mpr ⟨Nat.succ_pos _, middle⟩
  have size : (current sb (view img) (pre.length + 1)).size.toNat = old.length := by rw [built.size middle, getD_middle]
  have needs := built.need_eq isReal q.length (by rwa [size])
  obtain ⟨wrote, outside, other, first, bound, zero, freeinode⟩ := extended
  rw [size] at wrote needs
  have stays (x : Nat) : allocated sb (view img') x ↔ allocated sb (view img) x := allocated_congr (wrote.type x)
  constructor
  case owned => exact wrote.owned.congr fun x => (stays x).mp
  case mapped => exact fun x real => wrote.mapped size.ge ((stays x).mp real) (built.mapped x ((stays x).mp real))
  case first => exact first
  case bound => exact bound
  case zero => exact zero
  case few => rw [same]; exact built.few
  case real =>
    intro x
    rw [stays x, built.real x, same]
  case freeinode => rw [freeinode, same, built.freeinode]
  case type =>
    intro x real
    rw [wrote.type x real.1, built.type x ((stays x).mp real)]
  case bytes =>
    intro i inside
    rw [same] at inside
    have there : allocated sb (view img) (i + 1) := (built.real _).mpr ⟨Nat.succ_pos _, inside⟩
    by_cases this : i = pre.length
    · subst this
      rw [wrote.contents isReal (by rw [size]), built.bytes _ middle, getD_middle, getD_middle, List.take_length,
        List.drop_of_length_le (Nat.le_add_right ..), List.append_nil]
    · rw [wrote.contents_ne there (by omega), built.bytes i inside, getD_other this]
  case exact =>
    intro x p real some
    have real' := (stays x).mp real
    have grown := wrote.size x real.1
    by_cases this : x = pre.length + 1
    · subst this
      rw [if_pos rfl, size] at grown
      rw [grown, Nat.max_eq_right (Nat.le_add_right ..), span_add]
      by_cases member : p ∈ span old.length q.length
      · exact Finset.mem_union_right _ member
      rw [outside p member] at some
      have before := built.exact _ p isReal some
      rw [size] at before
      exact Finset.mem_union_left _ before
    · rw [if_neg this] at grown
      rw [grown]
      rw [other x p real' this] at some
      exact built.exact x p real' some
  case count =>
    have balance := wrote.balance
    have filled := wrote.filled fits
    have count := built.count
    have limit := built.bound
    rw [total_middle] at count ⊢
    rw [List.length_append]
    rw [view_free, view_free] at balance
    omega

theorem iappend_spec (built : Built img (pre ++ old :: post)) (fits : old.length + q.length ≤ MAXFILE * BSIZE)
    (room : total (pre ++ (old ++ q) :: post) ≤ FSSIZE) :
    Spec (iappend (pre.length + 1) q) img (fun _ => False) fun _ img' => Built img' (pre ++ (old ++ q) :: post) := by
  have middle : pre.length < (pre ++ old :: post).length := by simp
  have isReal : allocated sb (view img) (pre.length + 1) := (built.real _).mpr ⟨Nat.succ_pos _, middle⟩
  have size : (current sb (view img) (pre.length + 1)).size.toNat = old.length := by rw [built.size middle, getD_middle]
  have needs := built.need_eq isReal q.length (by rwa [size])
  have count := built.count
  rw [size] at needs
  rw [total_middle] at count room
  rw [List.length_append] at room
  refine (iappend_extended built isReal (by rwa [size]) ?_).mono fun _ _ extended => ?_
  · rw [size, view_free]
    omega
  · rw [size] at extended
    exact built.extend fits extended

end Iappend

section Ialloc

def Image.withInode (img : Image) (d : Dinode) : Image := { img with
  freeinode := img.freeinode + 1
  block := update img.block (iblock sb img.freeinode)
    (putDinode (img.block (iblock sb img.freeinode)) img.freeinode d) }

variable {d : Dinode} {table : List (List Byte)}

theorem withInode_current (small : x < NINODES) :
    current sb (view (img.withInode d)) x = if x = img.freeinode then d else current sb (view img) x := by
  rw [view_current small]
  unfold Image.withInode
  dsimp only
  split_ifs with this
  · rw [this, update_self, getDinode_putDinode]
  rw [view_current small]
  by_cases block : iblock sb x = iblock sb img.freeinode
  · rw [block, update_self, getDinode_putDinode_ne (mod_ne_of_iblock block this)]
  · rw [update_of_ne block]

theorem withInode_block (inside : img.freeinode < NINODES) (data : nmeta ≤ b) :
    (view (img.withInode d)).block b = (view img).block b := by
  have block := iblock_lt inside
  have first : sb.bmapstart < nmeta := by decide
  rw [view_block (by omega), view_block (by omega)]
  exact update_of_ne (by omega) ..

theorem withInode_addrOf (built : Built img table)
    (inside : img.freeinode < NINODES) (isReal : allocated sb (view img) x) :
    addrOf sb (view (img.withInode d)) x p = addrOf sb (view img) x p := by
  have notNew : x ≠ img.freeinode := by
    have := (built.real x).mp isReal
    have := built.freeinode
    omega
  refine addrOf_congr ?_ fun _ _ some => withInode_block inside ?_
  · rw [withInode_current isReal.1, if_neg notNew]
  · exact (built.owned.data x .indirect isReal some).1

theorem withInode_addrOf_new (inside : img.freeinode < NINODES) (empty : ∀ k, d.addrs k = 0) :
    addrOf sb (view (img.withInode d)) img.freeinode p = 0 := by
  unfold addrOf
  rw [withInode_current inside, if_pos rfl]
  cases p <;> simp [addrAt, empty]

theorem Built.ialloc (built : Built img table) (room : table.length + 1 < NINODES)
    (empty : ∀ k, d.addrs k = 0) (size : d.size = 0)
    (type : d.type = if table = [] then T_DIR else T_FILE) : Built (img.withInode d) (table ++ [[]]) := by
  have new := built.freeinode
  have inside : img.freeinode < NINODES := by omega
  have longer : (table ++ [[]]).length = table.length + 1 := by simp
  have notZero : d.type ≠ 0 := by
    rw [type]
    split_ifs <;> decide
  have real (x : Nat) : allocated sb (view (img.withInode d)) x ↔ x = img.freeinode ∨ allocated sb (view img) x := by
    constructor
    · rintro ⟨small, isSome⟩
      rw [withInode_current small] at isSome
      split_ifs at isSome with this
      · exact .inl this
      · exact .inr ⟨small, isSome⟩
    rintro (rfl | ⟨small, isSome⟩)
    · exact ⟨inside, by rwa [withInode_current inside, if_pos rfl]⟩
    refine ⟨small, ?_⟩
    rw [withInode_current small]
    split_ifs
    · exact notZero
    · exact isSome
  have old {x : Nat} {p : Place} (isReal : allocated sb (view (img.withInode d)) x)
    (some : addrOf sb (view (img.withInode d)) x p ≠ 0) :
      allocated sb (view img) x ∧ addrOf sb (view (img.withInode d)) x p = addrOf sb (view img) x p := by
    rcases (real x).mp isReal with rfl | before
    · exact absurd (withInode_addrOf_new inside empty) some
    · exact ⟨before, withInode_addrOf built inside before⟩
  have kept {x : Nat} (isReal : allocated sb (view img) x) : current sb
    (view (img.withInode d)) x = current sb (view img) x := by
    rw [withInode_current isReal.1, if_neg]
    have := (built.real x).mp isReal
    omega
  have sameUsed {b : Nat} (small : b < FSSIZE) : used sb (view (img.withInode d)) b = used sb (view img) b := by
    rw [view_used small, view_used small]
    rfl
  have sameBytes {x : Nat} (isReal : allocated sb (view img) x) : contents sb
    (view (img.withInode d)) x = contents sb (view img) x := by
    unfold contents
    rw [kept isReal]
    refine List.map_congr_left fun k _ => ?_
    unfold byteAt
    rw [withInode_addrOf built inside isReal]
    split_ifs with none
    · rfl
    · rw [withInode_block inside (built.owned.data x _ isReal none).1]
  constructor
  case owned =>
    constructor
    case inode => exact fun x isReal => isReal.1
    case reserved =>
      intro b less
      exact (sameUsed (less.trans_le layout.bitmap)).trans (built.owned.reserved b less)
    case data =>
      intro x p isReal some
      obtain ⟨before, same⟩ := old isReal some
      rw [same] at some ⊢
      obtain ⟨low, high, isUsed⟩ := built.owned.data x p before some
      exact ⟨low, high, (sameUsed high).trans isUsed⟩
    case distinct =>
      intro x y p q realX realY some same
      obtain ⟨beforeX, sameX⟩ := old realX some
      obtain ⟨beforeY, sameY⟩ := old realY (same ▸ some)
      exact built.owned.distinct x y p q beforeX beforeY (sameX ▸ some) (sameX.symm.trans (same.trans sameY))
    case size =>
      intro x isReal
      rcases (real x).mp isReal with rfl | before
      · rw [withInode_current inside, if_pos rfl, size]
        exact Nat.zero_le _
      · rw [kept before]
        exact built.owned.size x before
  case mapped =>
    intro x isReal bn below
    rcases (real x).mp isReal with rfl | before
    · rw [withInode_current inside, if_pos rfl, size] at below
      exact absurd below (Nat.not_lt_zero _)
    · rw [kept before] at below
      rw [withInode_addrOf built inside before]
      exact built.mapped x before bn below
  case first =>
    unfold Image.withInode
    dsimp only
    rw [update_of_ne (one_lt_iblock _).ne, built.first]
  case bound => exact built.bound
  case zero =>
    intro b le less
    have low := built.start
    have le : img.freeblock ≤ b := le
    have block := iblock_lt inside
    have first : sb.bmapstart < nmeta := by decide
    rw [← built.zero b le less]
    exact update_of_ne (by omega) ..
  case few => rw [longer]; exact room
  case real =>
    intro x
    rw [real x, built.real x, longer]
    omega
  case freeinode =>
    rw [longer]
    exact congrArg Nat.succ new
  case type =>
    intro x isReal
    rcases (real x).mp isReal with rfl | before
    · rw [withInode_current inside, if_pos rfl, type, new]
      cases table with
      | nil => rfl
      | cons => simp [rootino]
    · rw [kept before, built.type x before]
  case bytes =>
    intro i _
    by_cases this : i < table.length
    · rw [sameBytes ((built.real _).mpr ⟨Nat.succ_pos _, this⟩), built.bytes i this, List.getD_eq_getElem?_getD,
        List.getD_eq_getElem?_getD, List.getElem?_append_left this]
    · obtain rfl : i = table.length := by omega
      rw [← new, contents, withInode_current inside, if_pos rfl, size]
      simp
  case exact =>
    intro x p isReal some
    obtain ⟨before, same⟩ := old isReal some
    rw [kept before]
    exact built.exact x p before (same ▸ some)
  case count =>
    rw [total_middle]
    exact built.count

theorem ialloc_spec {type : UInt16} (built : Built img table) (room : table.length + 1 < NINODES)
    (isType : type = if table = [] then T_DIR else T_FILE) :
    Spec (ialloc type) img (fun _ => False) fun r img' => r = table.length + 1 ∧ Built img' (table ++ [[]]) := by
  have new := built.freeinode
  unfold Mkfs.ialloc
  simp only [spec_bind, spec_get, spec_set]
  rw [winode_spec (by omega), spec_pure]
  exact ⟨new, built.ialloc (d := { Dinode.zero with type := type, nlink := 1 }) room (fun _ => rfl) rfl isType⟩

end Ialloc

end Xv6.Mkfs
