import Xv6.Proof.FsGrowth

namespace Xv6.Fs
open Xv6.Library

variable {n : Nat} {sb : Superblock} {s u v : State n} {t : Fin n} {device : Int} {h : Halt n}
variable {b x ip bn k off len : Nat} {p : Place} {P : Finset Place} {a : Bytes} {src : List Byte}
  {y : Nat} {w : State n} {E : Halt n → Prop} {S : Nat → Prop}

def touched (off len : Nat) : Finset Nat := if len = 0 then ∅ else Finset.Icc (off / BSIZE) ((off + len - 1) / BSIZE)

theorem mem_touched : bn ∈ touched off len ↔ 0 < len ∧ off / BSIZE ≤ bn ∧ bn * BSIZE < off + len := by
  have value : BSIZE = 512 := rfl
  unfold touched
  rw [value]
  split_ifs with none
  · simp [none]
  · rw [Finset.mem_Icc]
    omega

theorem touched_step (some : 0 < len) :
    bn ∈ touched off len ↔ bn = off / BSIZE ∨
      bn ∈ touched (off + min len (BSIZE - off % BSIZE)) (len - min len (BSIZE - off % BSIZE)) := by
  have value : BSIZE = 512 := rfl
  rw [mem_touched, mem_touched, value]
  omega

theorem touched_lt (fits : off + len ≤ MAXFILE * BSIZE) (member : bn ∈ touched off len) : bn < MAXFILE := by
  have value : BSIZE = 512 := rfl
  have := (mem_touched.mp member).2.2
  rw [value] at this fits
  omega

section Store

theorem Owned.of_same (owned : Owned S sb s)
    (used : ∀ y, y < dataStart sb ∨ y < sb.size → used sb u y = Fs.used sb s y)
    (size : ∀ x, S x → (current sb u x).size.toNat ≤ MAXFILE * BSIZE)
    (addr : ∀ x p, S x → addrOf sb u x p = addrOf sb s x p) : Owned S sb u where
  inode := owned.inode
  reserved b less := (used b (.inl less)).trans (owned.reserved b less)
  data x p mine some := by
    rw [addr x p mine] at some ⊢
    obtain ⟨low, high, isUsed⟩ := owned.data x p mine some
    exact ⟨low, high, (used _ (.inr high)).trans isUsed⟩
  distinct x y p q mine mine' some same := by
    rw [addr x p mine] at some same
    rw [addr y q mine'] at same
    exact owned.distinct x y p q mine mine' some same
  size := size

theorem Layout.inside (layout : Layout sb) (either : y < dataStart sb ∨ y < sb.size) : y < sb.size :=
  either.elim (·.trans_le layout.bitmap) id

variable (layout : Layout sb) (owned : Owned S sb s) (real : S ip) (some : addrOf sb s ip (placeOf bn) ≠ 0)
include layout owned real some

omit layout in
theorem store_used (inside : y < sb.size) : used sb (s.store t (addrOf sb s ip (placeOf bn)) a) y = used sb s y := by
  have place := (owned.data ip _ real some).1
  have := bblock_lt inside
  exact used_congr (store_block_ne (by omega))

theorem store_current (inode : x < sb.ninodes) :
    current sb (s.store t (addrOf sb s ip (placeOf bn)) a) x = current sb s x := by
  have place := (owned.data ip _ real some).1
  have := layout.iblock_lt inode
  have := bmapstart_le sb
  exact current_congr rfl (store_block_ne (by omega))

theorem store_addrOf (isReal : S x) : addrOf sb (s.store t (addrOf sb s ip (placeOf bn)) a) x p = addrOf sb s x p := by
  refine addrOf_congr (store_current layout owned real some (owned.inode x isReal))
    fun _ _ indirect => store_block_ne fun same => ?_
  exact placeOf_ne_indirect bn (owned.distinct x ip _ _ isReal real indirect same).2.symm

theorem store_grown (member : placeOf bn ∈ P) : Grown S sb s (s.store t (addrOf sb s ip (placeOf bn)) a) t ip P := by
  have kind (x : Nat) (inode : x < sb.ninodes) := store_current layout owned real some inode (t := t) (a := a)
  have addr {x : Nat} {p : Place} (isReal : S x) :=
    store_addrOf layout owned real some isReal (t := t) (p := p) (a := a)
  have sameUsed {y : Nat} (inside : y < sb.size) := store_used owned real some inside (t := t) (a := a)
  have sameNeed : need sb (s.store t (addrOf sb s ip (placeOf bn)) a) ip P = need sb s ip P :=
    need_congr fun _ => addr real
  constructor
  case owned =>
    refine owned.of_same (fun y either => sameUsed (layout.inside either))
      (fun x isReal => ?_) fun x p isReal => addr isReal
    rw [kind x (owned.inode x isReal)]
    exact owned.size x isReal
  case kind =>
    intro x inode
    rw [kind x inode]
    exact ⟨rfl, rfl⟩
  case addr => exact fun x p isReal _ => addr isReal
  case other => exact fun x p isReal _ => addr isReal
  case outside => exact fun p _ => addr real
  case balance => rw [free_congr fun y inside => sameUsed inside, sameNeed]
  case inode => exact fun x => ⟨rfl, rfl, rfl⟩
  case buf => rfl
  case cached => rfl
  case ops => rfl
  case log =>
    refine ⟨∅, by rw [sameNeed, Finset.card_empty, Nat.zero_add], fun y logged => ?_⟩
    have cases : y ∈ s.log t ∨ y = addrOf sb s ip (placeOf bn) := by simpa [State.store] using logged
    rcases cases with old | new
    · exact .inl old
    · exact .inr (.inr ⟨placeOf bn, member, (addr real).trans new.symm, new ▸ some⟩)

theorem store_byteAt (small : bn < MAXFILE) (isReal : S x) (inside : k < MAXFILE * BSIZE) :
    byteAt sb (s.store t (addrOf sb s ip (placeOf bn)) a) x k =
      if x = ip ∧ k / BSIZE = bn then a (k % BSIZE) else byteAt sb s x k := by
  have less : k / BSIZE < MAXFILE := Nat.div_lt_of_lt_mul (by rwa [Nat.mul_comm])
  unfold byteAt
  rw [store_addrOf layout owned real some isReal]
  by_cases this : x = ip ∧ k / BSIZE = bn
  · rw [if_pos this, this.1, this.2, if_neg some, store_block_self]
  rw [if_neg this]
  split_ifs with none
  · rfl
  rw [store_block_ne]
  intro same
  obtain ⟨sameInode, samePlace⟩ := owned.distinct x ip _ _ isReal real none same
  exact this ⟨sameInode, placeOf_inj less small samePlace⟩

end Store

def contents (sb : Superblock) (s : State n) (x : Nat) : List Byte :=
  (List.range (current sb s x).size.toNat).map (byteAt sb s x)

def Patched (S : Nat → Prop) (sb : Superblock) (s u : State n) (ip off : Nat) (src : List Byte) : Prop :=
  ∀ x k, S x → k < MAXFILE * BSIZE →
    byteAt sb u x k = if x = ip ∧ off ≤ k ∧ k < off + src.length then src.getD (k - off) 0 else byteAt sb s x k

section Write
variable (layout : Layout sb)
include layout

theorem splice_patched (ready : Ready S sb s ip)
    (some : addrOf sb s ip (placeOf (off / BSIZE)) ≠ 0) (fits : off + src.length ≤ MAXFILE * BSIZE)
    (here : off % BSIZE + src.length ≤ BSIZE) (nonempty : 0 < src.length) :
    Patched S sb s (s.store t (addrOf sb s ip (placeOf (off / BSIZE)))
      (splice (s.block (addrOf sb s ip (placeOf (off / BSIZE)))) (off % BSIZE) src)) ip off src := by
  have value : BSIZE = 512 := rfl
  have small : off / BSIZE < MAXFILE := Nat.div_lt_of_lt_mul (by rw [Nat.mul_comm]; omega)
  intro x k isReal inside
  rw [store_byteAt layout ready.owned ready.real some small isReal inside]
  by_cases block : x = ip ∧ k / BSIZE = off / BSIZE
  · obtain ⟨rfl, sameBlock⟩ := block
    have within : (off % BSIZE ≤ k % BSIZE ∧ k % BSIZE < off % BSIZE + src.length) ↔
      (x = x ∧ off ≤ k ∧ k < off + src.length) := by
      rw [value] at sameBlock ⊢
      omega
    have position : k % BSIZE - off % BSIZE = k - off := by
      rw [value] at sameBlock ⊢
      omega
    rw [if_pos ⟨rfl, sameBlock⟩, splice, position]
    simp only [within]
    split_ifs
    · rfl
    · rw [byteAt, sameBlock, if_neg some]
  · rw [if_neg block, if_neg]
    rintro ⟨same, _, _⟩
    refine block ⟨same, ?_⟩
    rw [value] at here ⊢
    omega

omit layout in
theorem Patched.nil : Patched S sb s s ip off [] := by
  intro x k _ _
  rw [if_neg]
  simp

omit layout in
theorem SameBytes.patched (same : SameBytes S sb s u) (second : Patched S sb u w ip off src) :
    Patched S sb s w ip off src := by
  intro x k isReal inside
  rw [second x k isReal inside, same x k isReal]

omit layout in
theorem Patched.append {m : Nat} (first : Patched S sb s u ip off (src.take m)) (le : m ≤ src.length)
    (second : Patched S sb u w ip (off + m) (src.drop m)) : Patched S sb s w ip off src := by
  intro x k isReal inside
  rw [second x k isReal inside, first x k isReal inside]
  simp only [List.length_take, List.length_drop, Nat.min_eq_left le]
  by_cases late : x = ip ∧ off + m ≤ k ∧ k < off + m + (src.length - m)
  · rw [if_pos late, if_pos ⟨late.1, by omega, by omega⟩,
      List.getD_eq_getElem?_getD, List.getD_eq_getElem?_getD, List.getElem?_drop]
    congr 2
    omega
  rw [if_neg late]
  by_cases early : x = ip ∧ off ≤ k ∧ k < off + m
  · rw [if_pos early, if_pos ⟨early.1, early.2.1, by omega⟩, List.getD_eq_getElem?_getD, List.getD_eq_getElem?_getD,
      List.getElem?_take_of_lt (by omega)]
  rw [if_neg early, if_neg]
  rintro ⟨same, low, _⟩
  by_cases k < off + m
  · exact early ⟨same, low, by omega⟩
  · exact late ⟨same, by omega, by omega⟩

theorem piece_spec {α : Type} {Q : α → State n → Prop} {f : Program α} (ready : Ready S sb s ip)
    (fits : off + src.length ≤ MAXFILE * BSIZE) (here : off % BSIZE + src.length ≤ BSIZE) (nonempty : 0 < src.length)
    (members : placesOf (off / BSIZE) ⊆ P) (full : ∀ h, Full S sb s t ip P h → E h)
    (next : ∀ u, Grown S sb s u t ip P → Patched S sb s u ip off src → addrOf sb u ip (placeOf (off / BSIZE)) ≠ 0 →
      Spec (call t device f) u E Q) :
    Spec (call t device (do
      let addr ← bmap sb ip (off / BSIZE)
      let data ← bread addr
      log_write addr (splice data (off % BSIZE) src)
      brelse addr
      f)) s E Q := by
  have small : off / BSIZE < MAXFILE := Nat.div_lt_of_lt_mul (by rw [Nat.mul_comm]; omega)
  simp only [call_bind, spec_bind]
  refine (bmap_spec layout ready small members).imp full fun _ u filled => ?_
  obtain ⟨grown, same, stands, some⟩ := filled
  have ready' := grown.ready ready
  subst stands
  simp only [call_bread (ready'.quiet _), call_log_write hold_buf_self]
  rw [call_brelse (by simp), hold_store_release (ready'.quiet _)]
  refine next _ (grown.trans ready.real (store_grown layout ready'.owned ready'.real some (members (placeOf_mem _))))
    (same.patched ?_) ?_
  · exact splice_patched layout ready' some fits here nonempty
  · rw [store_addrOf layout ready'.owned ready'.real some ready'.real]
    exact some

theorem writeLoop_spec {fuel : Nat} (enough : src.length ≤ fuel)
    (ready : Ready S sb s ip) (fits : off + src.length ≤ MAXFILE * BSIZE)
    (members : ∀ bn ∈ touched off src.length, placesOf bn ⊆ P) :
    Spec (call t device (writeLoop sb ip fuel off src)) s (Full S sb s t ip P) fun _ u =>
      Grown S sb s u t ip P ∧ Patched S sb s u ip off src ∧
        ∀ bn ∈ touched off src.length, addrOf sb u ip (placeOf bn) ≠ 0 := by
  have nothing (off bn : Nat) : bn ∉ touched off ([] : List Byte).length := by simp [mem_touched]
  induction fuel generalizing s off src with
  | zero =>
    obtain rfl : src = [] := List.eq_nil_of_length_eq_zero (Nat.le_zero.mp enough)
    exact ⟨Grown.refl ready.owned, Patched.nil, fun bn member => absurd member (nothing off bn)⟩
  | succ _ ih =>
    rw [writeLoop]
    split_ifs with none
    · subst none
      exact ⟨Grown.refl ready.owned, Patched.nil, fun bn member => absurd member (nothing off bn)⟩
    have value : BSIZE = 512 := rfl
    have nonempty : 0 < src.length := List.length_pos_of_ne_nil none
    have positive : 0 < min src.length (BSIZE - off % BSIZE) := by
      rw [value]
      omega
    have inBlock : off % BSIZE + min src.length (BSIZE - off % BSIZE) ≤ BSIZE := by
      rw [value]
      omega
    have step (bn : Nat) : bn ∈ touched off src.length ↔ bn = off / BSIZE ∨
        bn ∈ touched (off + min src.length (BSIZE - off % BSIZE)) (src.length - min src.length (BSIZE - off % BSIZE)) :=
      touched_step nonempty
    dsimp only
    generalize split : min src.length (BSIZE - off % BSIZE) = m at positive inBlock step ⊢
    have le : m ≤ src.length := split ▸ Nat.min_le_left ..
    have amount : (src.take m).length = m := List.length_take_of_le le
    have rest : (src.drop m).length = src.length - m := List.length_drop
    refine piece_spec layout ready (by omega) (by omega) (by omega)
      (members _ ((step _).mpr (.inl rfl))) (fun h full => full)
      fun u grown patched mapped => ?_
    refine (ih (by omega) (grown.ready ready) (by omega) fun bn member => ?_).imp
      (fun h full => grown.full ready.real full)
      fun _ w more => ?_
    · exact members bn ((step bn).mpr (.inr (rest ▸ member)))
    obtain ⟨grown', patched', mapped'⟩ := more
    refine ⟨grown.trans ready.real grown', patched.append le patched', fun bn member => ?_⟩
    rcases (step bn).mp member with rfl | later
    · rw [grown'.addr ip _ ready.real mapped]
      exact mapped
    · exact mapped' bn (rest.symm ▸ later)

end Write

section Update

def State.saved (sb : Superblock) (s : State n) (t : Fin n) (ip : Nat) : State n :=
  s.store t (iblock sb ip) (putDinode (s.block (iblock sb ip)) ip (s.inode ip).d)

def State.resized (s : State n) (ip : Nat) (size : UInt32) : State n :=
  s.setInode ip { s.inode ip with d := { (s.inode ip).d with size := size } }

theorem iupdate_spec {Q : Unit → State n → Prop} (free : s.buf (iblock sb ip) = none) :
    Spec (call t device (iupdate sb ip)) s E Q ↔ Q () (s.saved sb t ip) := by
  unfold iupdate
  simp only [call_bind, spec_bind, call_bread free, call_getInode, call_log_write hold_buf_self]
  rw [call_brelse (by simp), hold_store_release free]
  exact Iff.rfl

theorem saved_current (memory : 0 < (s.inode ip).ref ∧ (s.inode ip).valid = true) :
    current sb (s.saved sb t ip) x = current sb s x := by
  unfold current State.saved
  rw [store_inode]
  split_ifs with inMemory
  · rfl
  by_cases block : iblock sb x = iblock sb ip
  · have other := mod_ne_of_iblock block fun same => inMemory (same ▸ memory)
    rw [block, store_block_self, getDinode_putDinode_ne other]
  · rw [store_block_ne block]

variable (layout : Layout sb) (owned : Owned S sb s) (inode : ip < sb.ninodes)
include layout inode

theorem saved_block (place : sb.bmapstart ≤ y) : (s.saved sb t ip).block y = s.block y := by
  have := layout.iblock_lt inode
  exact store_block_ne (by omega)

theorem saved_used (inside : y < sb.size) : used sb (s.saved sb t ip) y = used sb s y :=
  used_congr (saved_block layout inode (bblock_lt inside).1)

include owned

theorem saved_data (isReal : S x) (some : addrOf sb s x p ≠ 0) :
    (s.saved sb t ip).block (addrOf sb s x p) = s.block (addrOf sb s x p) :=
  saved_block layout inode ((bmapstart_le sb).trans (owned.data x p isReal some).1)

theorem saved_addrOf (memory : 0 < (s.inode ip).ref ∧ (s.inode ip).valid = true) (isReal : S x) :
    addrOf sb (s.saved sb t ip) x p = addrOf sb s x p :=
  addrOf_congr (saved_current memory) fun _ _ some => saved_data layout owned inode isReal some

theorem saved_owned (memory : 0 < (s.inode ip).ref ∧ (s.inode ip).valid = true) : Owned S sb (s.saved sb t ip) := by
  refine owned.of_same (fun y either => saved_used layout inode (layout.inside either)) (fun x isReal => ?_)
    fun x p isReal => saved_addrOf layout owned inode memory isReal
  rw [saved_current memory]
  exact owned.size x isReal

end Update

section Resize
variable {size : UInt32} (ready : Ready S sb s ip)
include ready

theorem resized_current : current sb (s.resized ip size) x =
    if x = ip then { current sb s ip with size := size } else current sb s x := by
  split_ifs with this
  · subst this
    rw [current_memory ready.memory, current_memory (by simpa [State.resized, State.setInode] using ready.memory)]
    simp [State.resized, State.setInode]
  · exact current_congr (Function.update_of_ne this ..) rfl

theorem resized_type : (current sb (s.resized ip size) x).type = (current sb s x).type := by
  rw [resized_current ready]
  split_ifs with this
  · rw [this]
  · rfl

theorem resized_addrOf : addrOf sb (s.resized ip size) x p = addrOf sb s x p := by
  unfold addrOf
  rw [resized_current ready]
  split_ifs with this
  · rw [this]
    rfl
  · rfl

theorem resized_ready (fits : size.toNat ≤ MAXFILE * BSIZE) : Ready S sb (s.resized ip size) ip where
  owned := by
    refine ready.owned.of_same (fun _ _ => rfl) (fun x isReal => ?_) fun _ _ _ => resized_addrOf ready
    rw [resized_current ready]
    split_ifs
    · exact fits
    · exact ready.owned.size x isReal
  real := ready.real
  memory := by simpa [State.resized, State.setInode] using ready.memory
  quiet := ready.quiet

theorem saved_resized_addrOf (layout : Layout sb) (fits : size.toNat ≤ MAXFILE * BSIZE) (isReal : S x) :
    addrOf sb ((s.resized ip size).saved sb t ip) x p = addrOf sb s x p := by
  have ready' := resized_ready ready fits
  rw [saved_addrOf layout ready'.owned (ready.owned.inode ip ready.real) ready'.memory isReal, resized_addrOf ready]

end Resize

structure Wrote (S : Nat → Prop) (sb : Superblock) (s u : State n)
    (ip : Nat) (P : Finset Place) (off : Nat) (src : List Byte) :
    Prop where
  owned : Owned S sb u
  type : ∀ x, x < sb.ninodes → (current sb u x).type = (current sb s x).type
  size : ∀ x, x < sb.ninodes → (current sb u x).size.toNat =
    if x = ip then max (current sb s x).size.toNat (off + src.length) else (current sb s x).size.toNat
  bytes : Patched S sb s u ip off src
  balance : free sb u + need sb s ip P = free sb s + need sb u ip P
  keeps : ∀ x p, S x → addrOf sb s x p ≠ 0 → addrOf sb u x p ≠ 0
  fills : ∀ bn ∈ touched off src.length, addrOf sb u ip (placeOf bn) ≠ 0

structure Written (S : Nat → Prop) (sb : Superblock) (s u : State n)
    (t : Fin n) (ip : Nat) (P : Finset Place) (off : Nat)
    (src : List Byte) : Prop extends Wrote S sb s u ip P off src where
  inode : ∀ x, (u.inode x).ref = (s.inode x).ref ∧
    (u.inode x).valid = (s.inode x).valid ∧ (u.inode x).lock = (s.inode x).lock
  buf : u.buf = s.buf
  cached : u.cached = s.cached
  ops : u.ops = s.ops
  log : ∃ bitmap : Finset Nat, bitmap.card ≤ need sb s ip P ∧
    ∀ y ∈ u.log t, y ∈ s.log t ∨ y ∈ bitmap ∨ y = iblock sb ip ∨ ∃ p ∈ P, addrOf sb u ip p = y

section Writei
variable (layout : Layout sb) (ready : Ready S sb s ip)

theorem Grown.written (grown : Grown S sb s u t ip P) (patched : Patched S sb s u ip off src)
    (fills : ∀ bn ∈ touched off src.length, addrOf sb u ip (placeOf bn) ≠ 0)
    (inside : off + src.length ≤ (current sb s ip).size.toNat) : Written S sb s u t ip P off src where
  owned := grown.owned
  type x inode := (grown.kind x inode).1
  size x inode := by
    rw [(grown.kind x inode).2]
    split_ifs with this
    · rw [this, Nat.max_eq_left inside]
    · rfl
  bytes := patched
  balance := grown.balance
  keeps x p isReal some := by rwa [grown.addr x p isReal some]
  fills := fills
  inode := grown.inode
  buf := grown.buf
  cached := grown.cached
  ops := grown.ops
  log := by
    obtain ⟨bitmap, _, logged⟩ := grown.log
    refine ⟨bitmap, by omega, fun y last => ?_⟩
    rcases logged y last with old | inBitmap | ⟨p, member, stands, -⟩
    · exact .inl old
    · exact .inr (.inl inBitmap)
    · exact .inr (.inr (.inr ⟨p, member, stands⟩))

include layout ready

theorem Grown.written_resized {size : UInt32} (grown : Grown S sb s u t ip P) (patched : Patched S sb s u ip off src)
    (fills : ∀ bn ∈ touched off src.length, addrOf sb u ip (placeOf bn) ≠ 0)
    (below : (current sb s ip).size.toNat ≤ off + src.length) (value : size.toNat = off + src.length)
    (fits : off + src.length ≤ MAXFILE * BSIZE) : Written S sb s
    ((u.resized ip size).saved sb t ip) t ip P off src := by
  have ready' := grown.ready ready
  have ready'' : Ready S sb (u.resized ip size) ip := resized_ready ready' (value ▸ fits)
  have inum := ready.owned.inode ip ready.real
  have addr {x : Nat} {p : Place} (isReal : S x) : addrOf sb
    ((u.resized ip size).saved sb t ip) x p = addrOf sb u x p :=
    saved_resized_addrOf ready' layout (value ▸ fits) isReal
  have sameUsed {y : Nat} (inside : y < sb.size) : used sb ((u.resized ip size).saved sb t ip) y = used sb u y :=
    saved_used layout inum inside
  have sameCurrent (x : Nat) : current sb ((u.resized ip size).saved sb t ip) x = current sb (u.resized ip size) x :=
    saved_current ready''.memory
  refine ⟨⟨?owned, ?type, ?size, ?bytes, ?balance, ?keeps, ?fills⟩, ?inode, ?buf, ?cached, ?ops, ?log⟩
  case owned => exact saved_owned layout ready''.owned inum ready''.memory
  case type =>
    intro x inode
    rw [sameCurrent, resized_type ready', (grown.kind x inode).1]
  case size =>
    intro x inode
    rw [sameCurrent, resized_current ready']
    split_ifs with this
    · rw [this, Nat.max_eq_right below]
      exact value
    · rw [(grown.kind x inode).2]
  case bytes =>
    intro x k isReal inside
    rw [← patched x k isReal inside]
    unfold byteAt
    rw [addr isReal]
    split_ifs with none
    · rfl
    have same := saved_data layout ready''.owned inum (t := t)
      (p := placeOf (k / BSIZE)) isReal (by rwa [resized_addrOf ready'])
    rw [resized_addrOf ready'] at same
    rw [same]
    rfl
  case balance => rw [free_congr fun y inside => sameUsed inside, need_congr fun _ => addr ready.real, grown.balance]
  case keeps =>
    intro x p isReal some
    rwa [addr isReal, grown.addr x p isReal some]
  case fills =>
    intro bn visited
    rw [addr ready.real]
    exact fills bn visited
  case inode =>
    intro x
    rw [← (grown.inode x).1, ← (grown.inode x).2.1, ← (grown.inode x).2.2]
    by_cases this : x = ip
    · subst this
      simp [State.saved, State.resized, State.setInode]
    · simp [State.saved, State.resized, State.setInode, this]
  case buf => exact grown.buf
  case cached => exact grown.cached
  case ops => exact grown.ops
  case log =>
    obtain ⟨bitmap, _, logged⟩ := grown.log
    refine ⟨bitmap, by omega, fun y last => ?_⟩
    have cases : y ∈ u.log t ∨ y = iblock sb ip := by
      simpa [State.saved, State.store, State.resized, State.setInode] using last
    rcases cases with before | this
    · rcases logged y before with old | inBitmap | ⟨p, member, stands, -⟩
      · exact .inl old
      · exact .inr (.inl inBitmap)
      · exact .inr (.inr (.inr ⟨p, member, (addr ready.real).trans stands⟩))
    · exact .inr (.inr (.inl this))

omit layout ready in
/-- A write at an offset within the file leaves no hole behind. -/
theorem Wrote.mapped (wrote : Wrote S sb s u ip P off src) (start : off ≤ (current sb s ip).size.toNat) (isReal : S x)
    (mapped : Mapped sb s x) : Mapped sb u x := by
  intro bn below
  rw [wrote.size x (wrote.owned.inode x isReal)] at below
  by_cases old : bn * BSIZE < (current sb s x).size.toNat
  · exact wrote.keeps x _ isReal (mapped bn old)
  split_ifs at below with this
  · subst this
    have unit : BSIZE = 512 := rfl
    refine wrote.fills bn (mem_touched.mpr ⟨by omega, ?_, by omega⟩)
    rw [unit] at old ⊢
    omega
  · exact absurd below old

omit layout ready in
theorem writei_guard {size off : UInt32} {len : Nat} (small : len < 2 ^ 32) :
    (¬(off > size ∨ off + UInt32.ofNat len < off) ∧ ¬off + UInt32.ofNat len > UInt32.ofNat (MAXFILE * BSIZE)) ↔
      off.toNat ≤ size.toNat ∧ off.toNat + len ≤ MAXFILE * BSIZE := by
  have value : MAXFILE * BSIZE = 71680 := by decide
  have bound := off.toNat_lt
  simp only [gt_iff_lt, UInt32.lt_iff_toNat_lt, UInt32.toNat_add, toNat_ofNat small, value]
  rw [toNat_ofNat (by decide)]
  omega

theorem writei_spec {off : UInt32} (notDevice : (current sb s ip).type ≠ T_DEV)
    (start : off.toNat ≤ (current sb s ip).size.toNat)
    (fits : off.toNat + src.length ≤ MAXFILE * BSIZE) (members : ∀ bn ∈ touched off.toNat src.length, placesOf bn ⊆ P) :
    Spec (call t device (writei sb ip src off)) s (Full S sb s t ip P) fun r u =>
      r = src.length ∧ Written S sb s u t ip P off.toNat src := by
  have value : MAXFILE * BSIZE = 71680 := by decide
  have small : src.length < 2 ^ 32 := by omega
  obtain ⟨inRange, notLarge⟩ := (writei_guard small).mpr ⟨start, fits⟩
  have mine : current sb s ip = (s.inode ip).d := current_memory ready.memory
  have sum : (off + UInt32.ofNat src.length).toNat = off.toNat + src.length := by
    rw [UInt32.toNat_add, toNat_ofNat small]
    omega
  unfold writei
  simp only [call_bind, spec_bind, call_getInode]
  rw [mine] at notDevice inRange
  rw [if_neg notDevice, if_neg inRange, if_neg notLarge]
  simp only [call_bind, spec_bind, call_getInode]
  refine (writeLoop_spec layout le_rfl ready fits members).mono ?_
  rintro _ u ⟨grown, patched, fills⟩
  have ready' := grown.ready ready
  have sameSize : (u.inode ip).d.size = (current sb s ip).size := by
    rw [← current_memory ready'.memory]
    exact (grown.kind ip (ready.owned.inode ip ready.real)).2
  rw [sameSize]
  split_ifs with grows
  · have more : (current sb s ip).size.toNat < off.toNat + src.length := by
      rw [← sum]
      exact UInt32.lt_iff_toNat_lt.mp grows.2
    simp only [call_bind, spec_bind, call_setInode]
    refine (iupdate_spec (s := u.resized ip (off + UInt32.ofNat src.length)) (ready'.quiet _)).mpr ?_
    exact ⟨rfl, grown.written_resized layout ready patched fills more.le sum fits⟩
  · refine ⟨rfl, grown.written patched fills ?_⟩
    by_contra more
    refine grows ⟨?_, ?_⟩
    · rw [gt_iff_lt, UInt32.lt_iff_toNat_lt, toNat_ofNat small, UInt32.toNat_zero]
      omega
    · rw [gt_iff_lt, UInt32.lt_iff_toNat_lt, sum]
      omega

omit layout in
theorem writei_refused {off : UInt32} {Q : Int → State n → Prop}
    (notDevice : (current sb s ip).type ≠ T_DEV) (small : src.length < 2 ^ 32)
    (refused : ¬(off.toNat ≤ (current sb s ip).size.toNat ∧ off.toNat + src.length ≤ MAXFILE * BSIZE)) :
    Spec (call t device (writei sb ip src off)) s E Q ↔ Q (-1) s := by
  rw [← writei_guard small, current_memory ready.memory] at refused
  rw [current_memory ready.memory] at notDevice
  unfold writei
  simp only [call_bind, spec_bind, call_getInode]
  rw [if_neg notDevice]
  by_cases outside : off > (s.inode ip).d.size ∨ off + UInt32.ofNat src.length < off
  · rw [if_pos outside]
    exact Iff.rfl
  · rw [if_neg outside, if_pos (not_not.mp fun fits => refused ⟨outside, fits⟩)]
    exact Iff.rfl

end Writei

def span (off len : Nat) : Finset Place := (touched off len).biUnion placesOf

theorem placesOf_subset_span {bn : Nat} (member : bn ∈ touched off len) : placesOf bn ⊆ span off len :=
  Finset.subset_biUnion_of_mem placesOf member

section Read

/-- `R` holds of the states in which an inode is read up to `limit`. A hole is filled on the way, so reading can change
the state, but never the bytes. -/
structure Reader (sb : Superblock) (s : State n) (t : Fin n) (device : Int) (ip limit : Nat) (E : Halt n → Prop)
    (R : State n → Prop) : Prop where
  quiet : ∀ u, R u → ∀ b, u.buf b = none
  inode : ∀ u, R u → (u.inode ip).d.type = (current sb s ip).type ∧ (u.inode ip).d.size = (current sb s ip).size
  bmap : ∀ u bn, R u → bn * BSIZE < limit → Spec (call t device (Fs.bmap sb ip bn)) u E fun b v =>
    R v ∧ ∀ i, i < BSIZE → v.block b i = byteAt sb s ip (bn * BSIZE + i)

theorem byteAt_block {i : Nat} (less : i < BSIZE) (some : addrOf sb s ip (placeOf bn) ≠ 0) :
    s.block (addrOf sb s ip (placeOf bn)) i = byteAt sb s ip (bn * BSIZE + i) := by
  have value : BSIZE = 512 := rfl
  have block : (bn * BSIZE + i) / BSIZE = bn := by
    rw [value] at less ⊢
    omega
  have byte : (bn * BSIZE + i) % BSIZE = i := by
    rw [value] at less ⊢
    omega
  rw [byteAt, block, byte, if_neg some]

theorem Reader.fixed {limit : Nat} (loaded : Loaded s ip) (bounded : limit ≤ MAXFILE * BSIZE)
    (mapped : ∀ bn, bn * BSIZE < limit → addrOf sb s ip (placeOf bn) ≠ 0) :
    Reader sb s t device ip limit E (· = s) where
  quiet _ same := same ▸ loaded.quiet
  inode _ same := by
    rw [same, current_memory loaded.memory]
    exact ⟨rfl, rfl⟩
  bmap _ bn same below := by
    subst same
    have value : BSIZE = 512 := rfl
    refine (bmap_mapped loaded (by rw [value] at below bounded; omega) (mapped bn below)).mpr ⟨rfl, fun i less => ?_⟩
    exact byteAt_block less (mapped bn below)

theorem Reader.grown {limit : Nat} (layout : Layout sb) (ready : Ready S sb s ip) (bounded : limit ≤ MAXFILE * BSIZE) :
    Reader sb s t device ip limit (Full S sb s t ip (span 0 limit)) fun u =>
      Grown S sb s u t ip (span 0 limit) ∧ SameBytes S sb s u where
  quiet _ now := (now.1.ready ready).quiet
  inode u now := by
    rw [← current_memory (now.1.ready ready).memory]
    exact now.1.kind ip (ready.owned.inode ip ready.real)
  bmap u bn now below := by
    have value : BSIZE = 512 := rfl
    have visited : bn ∈ touched 0 limit := by
      rw [value] at below
      rw [mem_touched, value]
      omega
    refine (bmap_spec layout (now.1.ready ready) (touched_lt (by omega) visited) (placesOf_subset_span visited)).imp
      ?_ ?_
    · exact fun h full => now.1.full ready.real full
    · intro b v filled
      have after := filled.trans now.1 ready.real now.2
      refine ⟨⟨after.grown, after.bytes⟩, fun i less => ?_⟩
      rw [← after.bytes ip _ ready.real, ← byteAt_block less (filled.stands.symm ▸ filled.some), filled.stands]

section Loop
variable {R : State n → Prop} {limit : Nat} (reader : Reader sb s t device ip limit E R) (now : R u)
include reader now

theorem readLoop_spec {fuel m : Nat} (enough : m ≤ fuel) (inside : off + m ≤ limit) :
    Spec (call t device (readLoop sb ip fuel off m)) u E fun bytes v =>
      bytes = (List.range m).map (fun i => byteAt sb s ip (off + i)) ∧ R v := by
  induction fuel generalizing off m u with
  | zero =>
    obtain rfl : m = 0 := Nat.le_zero.mp enough
    exact ⟨rfl, now⟩
  | succ _ ih =>
    rw [readLoop]
    split_ifs with none
    · subst none
      exact ⟨rfl, now⟩
    have value : BSIZE = 512 := rfl
    simp only [call_bind, spec_bind]
    refine (reader.bmap u (off / BSIZE) now (by rw [value]; omega)).mono fun b v here => ?_
    rw [call_bread (reader.quiet v here.1 _), call_brelse hold_buf_self, hold_release (reader.quiet v here.1 _)]
    have le : min m (BSIZE - off % BSIZE) ≤ m := Nat.min_le_left ..
    have positive : 0 < min m (BSIZE - off % BSIZE) := by
      rw [value]
      omega
    have inBlock : off % BSIZE + min m (BSIZE - off % BSIZE) ≤ BSIZE := by
      rw [value]
      omega
    generalize min m (BSIZE - off % BSIZE) = c at le positive inBlock ⊢
    refine (ih here.1 (m := m - c) (by omega) (by omega)).mono fun rest w after => ⟨?_, after.2⟩
    have first : slice (v.block b) (off % BSIZE) c = (List.range c).map fun i => byteAt sb s ip (off + i) := by
      refine List.map_congr_left fun i member => ?_
      have less := List.mem_range.mp member
      rw [here.2 _ (by omega)]
      congr 1
      rw [value]
      omega
    have split : m = c + (m - c) := by omega
    conv_rhs => rw [split, List.range_add, List.map_append, List.map_map]
    rw [first, after.1]
    simp [Function.comp_def, Nat.add_assoc]

theorem readi_spec {off n' : UInt32} (notDevice : (current sb s ip).type ≠ T_DEV)
    (inside : min (off.toNat + n'.toNat) (current sb s ip).size.toNat ≤ limit) :
    Spec (call t device (readi sb ip off n')) u E fun r v => R v ∧
      r = if (current sb s ip).size.toNat < off.toNat ∨ 2 ^ 32 ≤ off.toNat + n'.toNat then (-1, [])
        else
          let bytes := ((contents sb s ip).drop off.toNat).take n'.toNat
          ((bytes.length : Int), bytes) := by
  obtain ⟨type, size⟩ := reader.inode u now
  have limit := (current sb s ip).size.toNat_lt
  have wraps : (off > (current sb s ip).size ∨ off + n' < off) ↔
      ((current sb s ip).size.toNat < off.toNat ∨ 2 ^ 32 ≤ off.toNat + n'.toNat) := by
    have := off.toNat_lt
    have := n'.toNat_lt
    simp only [gt_iff_lt, UInt32.lt_iff_toNat_lt, UInt32.toNat_add]
    omega
  unfold readi
  simp only [call_bind, spec_bind, call_getInode]
  rw [type, size, if_neg notDevice]
  by_cases outside : (current sb s ip).size.toNat < off.toNat ∨ 2 ^ 32 ≤ off.toNat + n'.toNat
  · rw [if_pos outside, if_pos (wraps.mpr outside)]
    exact ⟨now, rfl⟩
  have amount : (if off + n' > (current sb s ip).size then (current sb s ip).size - off else n').toNat =
      min n'.toNat ((current sb s ip).size.toNat - off.toNat) := by
    rw [apply_ite UInt32.toNat, UInt32.toNat_sub_of_le _ _ (UInt32.le_iff_toNat_le.mpr (by omega))]
    simp only [gt_iff_lt, UInt32.lt_iff_toNat_lt, UInt32.toNat_add]
    rw [Nat.mod_eq_of_lt (by omega)]
    split_ifs <;> omega
  rw [if_neg outside, if_neg fun refused => outside (wraps.mp refused)]
  simp only [call_bind, spec_bind]
  rw [amount]
  refine (readLoop_spec reader now le_rfl (by omega)).mono fun bytes v after => ⟨after.2, ?_⟩
  rw [after.1, contents, take_drop_map_range]
  simp

end Loop

end Read

theorem Wrote.contents {u : State n} (written : Wrote S sb s u ip P off src) (real : S ip)
    (start : off ≤ (current sb s ip).size.toNat) : Fs.contents sb u ip =
      (Fs.contents sb s ip).take off ++ src ++ (Fs.contents sb s ip).drop (off + src.length) := by
  have limit := written.owned.size ip real
  have size := written.size ip (written.owned.inode ip real)
  rw [if_pos rfl] at size
  unfold Fs.contents
  rw [← map_range_overwrite start, size]
  refine List.map_congr_left fun k member => ?_
  have less := List.mem_range.mp member
  rw [written.bytes ip k real (by omega)]
  simp

theorem Wrote.contents_ne {u : State n} (written : Wrote S sb s u ip P off src) (isReal : S x) (other : x ≠ ip) :
    Fs.contents sb u x = Fs.contents sb s x := by
  have limit := written.owned.size x isReal
  have size := written.size x (written.owned.inode x isReal)
  rw [if_neg other] at size
  unfold Fs.contents
  rw [size]
  refine List.map_congr_left fun k member => ?_
  have less := List.mem_range.mp member
  rw [written.bytes x k isReal (by omega), if_neg fun both => other both.1]

@[simp] theorem length_contents : (contents sb s x).length = (current sb s x).size.toNat := by simp [contents]

section Sample

def sampleSb : Superblock := ⟨8, 2, 2, 3⟩

def sampleInode : Dinode := ⟨T_FILE, 0, 0, 1, 3, fun i => if i.val = 0 then 4 else 0⟩

def sample : State 1 where
  block b :=
    if b = 3 then fun i => if i = 0 then 31 else 0
    else if b = 4 then fun i => [97, 98, 99].getD i 0
    else fun _ => 0
  buf _ := none
  cached := 1
  inode x := if x = 1 then ⟨1, none, true, sampleInode⟩ else ⟨0, none, false, .zero⟩
  log _ := []
  ops _ := []

theorem sample_layout : Layout sampleSb := ⟨by decide, by decide, by decide⟩

theorem sample_addr (p : Place) : addrOf sampleSb sample 1 p = if p = .direct 0 then 4 else 0 := by
  cases p with
  | direct i => revert i; decide
  | indirect => rfl
  | entry j => rfl

section Single
variable {s : State 1} {b : Nat} (addr : ∀ p, addrOf sb s 1 p = if p = .direct 0 then b else 0)
include addr

theorem Owned.single (reserved : ∀ b, b < dataStart sb → used sb s b = true) (inode : 1 < sb.ninodes)
    (data : dataStart sb ≤ b ∧ b < sb.size ∧ used sb s b = true)
    (small : (current sb s 1).size.toNat ≤ MAXFILE * BSIZE) :
    Owned (· = 1) sb s := by
  have first {p : Place} (some : addrOf sb s 1 p ≠ 0) : p = .direct 0 := by
    by_contra no
    rw [addr, if_neg no] at some
    exact some rfl
  constructor
  case inode => exact fun x this => this ▸ inode
  case reserved => exact reserved
  case data =>
    intro x p this some
    subst this
    rw [addr, if_pos (first some)]
    exact data
  case distinct =>
    intro x y p q this that some same
    subst this that
    exact ⟨rfl, (first some).trans (first (same ▸ some)).symm⟩
  case size => exact fun x this => this ▸ small

theorem Mapped.single (positive : b ≠ 0) (small : (current sb s 1).size.toNat ≤ BSIZE) : Mapped sb s 1 := by
  intro bn below
  obtain rfl : bn = 0 := by
    by_contra no
    have := Nat.le_mul_of_pos_left BSIZE (Nat.pos_of_ne_zero no)
    omega
  rw [addr]
  exact positive

end Single

theorem sample_owned : Owned (· = 1) sampleSb sample :=
  .single sample_addr (by decide +kernel) (by decide) (by decide +kernel) (by decide)

theorem sample_mapped : Mapped sampleSb sample 1 := .single sample_addr (by decide) (by decide)

end Sample

end Xv6.Fs
