import Xv6.Proof.FsBlocks

namespace Xv6.Fs
open Xv6.Library

variable {n : Nat} {sb : Superblock} {s u v : State n} {t : Fin n} {device : Int} {h : Halt n}
variable {b x ip bn k : Nat} {p : Place} {P : Finset Place} {S : Nat → Prop}
  {E : Halt n → Prop} {j : Fin NINDIRECT} {Q : Nat → State n → Prop}

def free (sb : Superblock) (s : State n) : Nat := ((Finset.range sb.size).filter fun b => used sb s b = false).card

def need (sb : Superblock) (s : State n) (ip : Nat) (P : Finset Place) :
    Nat := (P.filter fun p => addrOf sb s ip p = 0).card

def placesOf (bn : Nat) : Finset Place := if bn < NDIRECT then {placeOf bn} else {.indirect, placeOf bn}

def byteAt (sb : Superblock) (s : State n) (x k : Nat) : Byte :=
  if addrOf sb s x (placeOf (k / BSIZE)) = 0 then 0 else s.block (addrOf sb s x (placeOf (k / BSIZE))) (k % BSIZE)

theorem placeOf_mem (bn : Nat) : placeOf bn ∈ placesOf bn := by
  unfold placesOf
  split_ifs <;> simp

theorem placeOf_eq {bn k : Nat} (member : placeOf k ∈ placesOf bn) : placeOf k = placeOf bn := by
  unfold placesOf at member
  split_ifs at member
  · exact Finset.mem_singleton.mp member
  · rcases Finset.mem_insert.mp member with isIndirect | same
    · exact absurd isIndirect (placeOf_ne_indirect k)
    · exact Finset.mem_singleton.mp same

theorem indirect_mem (far : ¬bn < NDIRECT) : .indirect ∈ placesOf bn := by
  rw [placesOf, if_neg far]
  exact Finset.mem_insert_self ..

structure Grown (S : Nat → Prop) (sb : Superblock) (s u : State n) (t : Fin n) (ip : Nat) (P : Finset Place) :
    Prop where
  owned : Owned S sb u
  kind : ∀ x, x < sb.ninodes → (current sb u x).type = (current sb s x).type ∧
    (current sb u x).size = (current sb s x).size
  addr : ∀ x p, S x → addrOf sb s x p ≠ 0 → addrOf sb u x p = addrOf sb s x p
  other : ∀ x p, S x → x ≠ ip → addrOf sb u x p = addrOf sb s x p
  outside : ∀ p, p ∉ P → addrOf sb u ip p = addrOf sb s ip p
  balance : free sb u + need sb s ip P = free sb s + need sb u ip P
  inode : ∀ x, (u.inode x).ref = (s.inode x).ref ∧
    (u.inode x).valid = (s.inode x).valid ∧ (u.inode x).lock = (s.inode x).lock
  buf : u.buf = s.buf
  cached : u.cached = s.cached
  ops : u.ops = s.ops
  -- what has been logged since: a block of the bitmap for each place filled, and blocks that stand in places of P
  log : ∃ bitmap : Finset Nat, bitmap.card + need sb u ip P ≤ need sb s ip P ∧
    ∀ y ∈ u.log t, y ∈ s.log t ∨ y ∈ bitmap ∨ ∃ p ∈ P, addrOf sb u ip p = y ∧ y ≠ 0

theorem Grown.refl (owned : Owned S sb s) : Grown S sb s s t ip P where
  owned := owned
  kind _ _ := ⟨rfl, rfl⟩
  addr _ _ _ _ := rfl
  other _ _ _ _ := rfl
  outside _ _ := rfl
  balance := rfl
  inode _ := ⟨rfl, rfl, rfl⟩
  buf := rfl
  cached := rfl
  ops := rfl
  log := ⟨∅, by simp, fun _ logged => .inl logged⟩

theorem Grown.trans (first : Grown S sb s u t ip P) (real : S ip) (second : Grown S sb u v t ip P) :
    Grown S sb s v t ip P where
  owned := second.owned
  kind x inode :=
    ⟨(second.kind x inode).1.trans (first.kind x inode).1, (second.kind x inode).2.trans (first.kind x inode).2⟩
  addr x p isReal some := by
    have step := first.addr x p isReal some
    rw [second.addr x p isReal (by rwa [step]), step]
  other x p isReal notMine := (second.other x p isReal notMine).trans (first.other x p isReal notMine)
  outside p notMember := (second.outside p notMember).trans (first.outside p notMember)
  balance := by
    have := first.balance
    have := second.balance
    omega
  inode x := by
    obtain ⟨ref, valid, lock⟩ := first.inode x
    obtain ⟨ref', valid', lock'⟩ := second.inode x
    exact ⟨ref'.trans ref, valid'.trans valid, lock'.trans lock⟩
  buf := second.buf.trans first.buf
  cached := second.cached.trans first.cached
  ops := second.ops.trans first.ops
  log := by
    obtain ⟨bitmap, _, logged⟩ := first.log
    obtain ⟨bitmap', _, logged'⟩ := second.log
    refine ⟨bitmap ∪ bitmap', ?_, fun y last => ?_⟩
    · have := Finset.card_union_le bitmap bitmap'
      omega
    rcases logged' y last with old | inBitmap | placed
    · rcases logged y old with older | inBitmap | ⟨p, member, stands, some⟩
      · exact .inl older
      · exact .inr (.inl (Finset.mem_union_left _ inBitmap))
      · refine .inr (.inr ⟨p, member, ?_, some⟩)
        rw [second.addr ip p real (stands ▸ some), stands]
    · exact .inr (.inl (Finset.mem_union_right _ inBitmap))
    · exact .inr (.inr placed)

section Counts

theorem free_zero (full : ∀ b, b < sb.size → used sb s b = true) : free sb s = 0 := by
  refine Finset.card_eq_zero.mpr (Finset.filter_eq_empty_iff.mpr fun b inside clear => ?_)
  rw [full b (Finset.mem_range.mp inside)] at clear
  cases clear

theorem free_congr (same : ∀ y, y < sb.size → used sb u y = used sb s y) : free sb u = free sb s :=
  congrArg Finset.card (Finset.filter_congr fun y inside => by rw [same y (Finset.mem_range.mp inside)])

theorem need_congr (same : ∀ p, addrOf sb u ip p = addrOf sb s ip p) : need sb u ip P = need sb s ip P := by
  unfold need
  simp only [same]

theorem need_le_card : need sb s ip P ≤ P.card := Finset.card_filter_le ..

theorem need_pos (member : p ∈ P) (empty : addrOf sb s ip p = 0) : 0 < need sb s ip P :=
  Finset.card_pos.mpr ⟨p, Finset.mem_filter.mpr ⟨member, empty⟩⟩

theorem Link.free (link : Link S sb s u t ip p b) : Fs.free sb u + 1 = Fs.free sb s := by
  have member : b ∈ (Finset.range sb.size).filter fun b => Fs.used sb s b = false :=
    Finset.mem_filter.mpr ⟨Finset.mem_range.mpr link.fresh.inside, link.fresh.clear⟩
  have same : ((Finset.range sb.size).filter fun b => Fs.used sb u b = false) =
      ((Finset.range sb.size).filter fun b => Fs.used sb s b = false).erase b := by
    ext y
    simp only [Finset.mem_erase, Finset.mem_filter, Finset.mem_range]
    constructor
    · rintro ⟨inside, clear⟩
      rw [link.used y inside, Bool.or_eq_false_iff, decide_eq_false_iff_not] at clear
      exact ⟨clear.1, inside, clear.2⟩
    · rintro ⟨other, inside, clear⟩
      rw [link.used y inside, clear, Bool.or_false, decide_eq_false_iff_not]
      exact ⟨inside, other⟩
  rw [Fs.free, Fs.free, same, Finset.card_erase_add_one member]

theorem Link.need (link : Link S sb s u t ip p b) (owned : Owned S sb s) (member : p ∈ P) :
    Fs.need sb u ip P + 1 = Fs.need sb s ip P := by
  have start := link.fresh.dataStart_le owned
  have positive := dataStart_pos sb
  have isEmpty : p ∈ P.filter fun p => addrOf sb s ip p = 0 := Finset.mem_filter.mpr ⟨member, link.empty⟩
  have same : (P.filter fun p => addrOf sb u ip p = 0) = (P.filter fun p => addrOf sb s ip p = 0).erase p := by
    ext q
    simp only [Finset.mem_erase, Finset.mem_filter]
    rw [link.addr ip q link.mine]
    by_cases this : q = p
    · rw [if_pos ⟨rfl, this⟩]
      simp only [this, ne_eq, not_true_eq_false, false_and, iff_false, not_and]
      omega
    · rw [if_neg fun both => this both.2]
      simp [this]
  rw [Fs.need, Fs.need, same, Finset.card_erase_add_one isEmpty]

end Counts

theorem Link.grown (link : Link S sb s u t ip p b) (owned : Owned S sb s) (member : p ∈ P)
    (closed : (∃ j, p = .entry j) → .indirect ∈ P) : Grown S sb s u t ip P where
  owned := link.owned owned
  kind := link.kind
  addr x q isReal some := by
    rw [link.addr x q isReal, if_neg]
    rintro ⟨rfl, rfl⟩
    exact some link.empty
  other x q isReal notMine := by rw [link.addr x q isReal, if_neg fun both => notMine both.1]
  outside q notMember := by
    rw [link.addr ip q link.mine, if_neg]
    rintro ⟨-, rfl⟩
    exact notMember member
  balance := by
    have := link.free
    have := link.need owned member
    omega
  inode := link.inode
  buf := link.buf
  cached := link.cached
  ops := link.ops
  log := by
    have start := link.fresh.dataStart_le owned
    have positive := dataStart_pos sb
    refine ⟨{bblock sb b}, ?_, fun y logged => ?_⟩
    · rw [Finset.card_singleton, Nat.add_comm, link.need owned member]
    rcases link.log y logged with old | bitmap | new | ⟨entry, stands, some⟩
    · exact .inl old
    · exact .inr (.inl (Finset.mem_singleton.mpr bitmap))
    · refine .inr (.inr ⟨p, member, ?_, by omega⟩)
      rw [link.addr ip p link.mine, if_pos ⟨rfl, rfl⟩, new]
    · refine .inr (.inr ⟨.indirect, closed entry, ?_, some⟩)
      obtain ⟨j, rfl⟩ := entry
      rw [link.addr ip .indirect link.mine, if_neg (by simp), stands]

theorem Link.byteAt (link : Link S sb s u t ip p b) (isReal : S x) : Fs.byteAt sb u x k = Fs.byteAt sb s x k := by
  unfold Fs.byteAt
  rw [link.addr x _ isReal]
  by_cases new : x = ip ∧ placeOf (k / BSIZE) = p
  · have empty := link.empty
    rw [← new.1, ← new.2] at empty
    rw [if_pos new, empty, link.zero]
    simp
  rw [if_neg new]
  split_ifs with none
  · rfl
  · rw [link.block x _ isReal none]

theorem Link.unlogged (link : Link S sb s u t ip p b) : Link S sb s { u with log := fun _ => [] } t ip p b :=
  { link with log := by simp }

theorem Grown.unlogged (grown : Grown S sb s u t ip P) : Grown S sb s { u with log := fun _ => [] } t ip P := by
  obtain ⟨bitmap, count, -⟩ := grown.log
  have owned := grown.owned
  exact { grown with
    owned := ⟨owned.inode, owned.reserved, owned.data, owned.distinct, owned.size⟩
    log := ⟨bitmap, count, by simp⟩ }

def SameBytes (S : Nat → Prop) (sb : Superblock) (s u : State n) :
    Prop := ∀ x k, S x → byteAt sb u x k = byteAt sb s x k

structure Loaded (s : State n) (ip : Nat) : Prop where
  memory : 0 < (s.inode ip).ref ∧ (s.inode ip).valid = true
  quiet : ∀ b, s.buf b = none

structure Ready (S : Nat → Prop) (sb : Superblock) (s : State n) (ip : Nat) : Prop extends Loaded s ip where
  owned : Owned S sb s
  real : S ip

theorem Grown.ready (grown : Grown S sb s u t ip P) (ready : Ready S sb s ip) : Ready S sb u ip where
  owned := grown.owned
  real := ready.real
  memory := by
    obtain ⟨ref, valid, -⟩ := grown.inode ip
    rw [ref, valid]
    exact ready.memory
  quiet b := by rw [grown.buf, ready.quiet b]

def Full (S : Nat → Prop) (sb : Superblock) (s : State n) (t : Fin n) (ip : Nat) (P : Finset Place) (h : Halt n) :
    Prop :=
  h.message = "balloc: out of blocks" ∧
    ∃ u, Grown S sb s u t ip P ∧ free sb u < need sb u ip P ∧ h.state.log = u.log ∧ h.state.ops = u.ops

theorem Grown.full (grown : Grown S sb s u t ip P) (real : S ip) (full : Full S sb u t ip P h) :
    Full S sb s t ip P h := by
  obtain ⟨message, v, more, few, log, ops⟩ := full
  exact ⟨message, v, grown.trans real more, few, log, ops⟩

theorem Full.few (full : Full S sb s t ip P h) : free sb s < need sb s ip P := by
  obtain ⟨-, u, grown, _, -, -⟩ := full
  have := grown.balance
  omega

section Bmap
variable (layout : Layout sb) (ready : Ready S sb s ip)
include layout ready

structure Filled (S : Nat → Prop) (sb : Superblock) (s : State n) (t : Fin n)
    (ip : Nat) (P : Finset Place) (p : Place) (addr : Nat) (u : State n) :
    Prop where
  grown : Grown S sb s u t ip P
  bytes : SameBytes S sb s u
  stands : addrOf sb u ip p = addr
  some : addr ≠ 0

omit layout ready in
theorem Filled.trans {addr : Nat} (second : Filled S sb u t ip P p addr v) (first : Grown S sb s u t ip P) (real : S ip)
    (same : SameBytes S sb s u) : Filled S sb s t ip P p addr v where
  grown := first.trans real second.grown
  bytes x k isReal := (second.bytes x k isReal).trans (same x k isReal)
  stands := second.stands
  some := second.some

omit layout in
theorem link_filled (link : Link S sb s u t ip p b) (member : p ∈ P) (closed : (∃ j, p = .entry j) → .indirect ∈ P) :
    Filled S sb s t ip P p b u where
  grown := link.grown ready.owned member closed
  bytes _ _ isReal := link.byteAt isReal
  stands := by rw [link.addr ip p link.mine, if_pos ⟨rfl, rfl⟩]
  some := by
    have := link.fresh.dataStart_le ready.owned
    have := dataStart_pos sb
    omega

omit layout in
theorem full_of_empty (member : p ∈ P) (empty : addrOf sb s ip p = 0) (none : ∀ b, b < sb.size → used sb s b = true)
    (log : u.log = s.log) (ops : u.ops = s.ops) : Full S sb s t ip P ⟨"balloc: out of blocks", u⟩ := by
  refine ⟨rfl, s, Grown.refl ready.owned, ?_, log, ops⟩
  rw [free_zero none]
  exact need_pos member empty

theorem addrs_spec {α : Type} {k : Fin (NDIRECT + 1)} {Q : α → State n → Prop} {f : Nat → Program α}
    (member : slotOf k ∈ P) (empty : (s.inode ip).d.addrs k = 0) (full : ∀ h, Full S sb s t ip P h → E h)
    (next : ∀ addr u, Filled S sb s t ip P (slotOf k) addr u → Spec (call t device (f addr)) u E Q) :
    Spec (call t device (do
      let addr ← balloc sb
      setInode ip (·.setAddr k addr)
      f addr)) s E Q := by
  have mine : current sb s ip = (s.inode ip).d := current_memory ready.memory
  have isEmpty : addrOf sb s ip (slotOf k) = 0 := by
    rw [addrOf, mine, addrAt_slotOf, empty]
    rfl
  have notEntry : (∃ j, slotOf k = .entry j) → .indirect ∈ P := by
    rintro ⟨j, isEntry⟩
    unfold slotOf at isEntry
    split_ifs at isEntry
  simp only [call_bind, spec_bind, call_setInode]
  refine balloc_spec (fun _ _ => ready.quiet _) (fun _ _ _ => ready.quiet _) (fun b inside clear => ?_) fun none => ?_
  · have link := link_addrs layout ready.owned ⟨inside, clear⟩ ready.real ready.memory empty (t := t)
    exact next b _ (link_filled ready link member notEntry)
  · exact full _ (full_of_empty ready member isEmpty none rfl rfl)

omit layout ready in
theorem bmapIndirect_mapped (loaded : Loaded s ip)
    (some : addrOf sb s ip (.entry j) ≠ 0) (indirect : addrOf sb s ip .indirect ≠ 0) :
    Spec (call t device (bmapIndirect sb j (addrOf sb s ip .indirect))) s E Q ↔ Q (addrOf sb s ip (.entry j)) s := by
  unfold bmapIndirect
  simp only [call_bind, spec_bind, call_bread (loaded.quiet _)]
  rw [← addrOf_entry indirect, if_neg some]
  simp only [call_bind, spec_bind]
  rw [call_brelse hold_buf_self, hold_release (loaded.quiet _)]
  exact Iff.rfl

theorem bmapIndirect_spec (some : addrOf sb s ip .indirect ≠ 0) (member : .entry j ∈ P)
    (indirect : .indirect ∈ P) : Spec (call t device (bmapIndirect sb j (addrOf sb s ip .indirect))) s
    (Full S sb s t ip P)
      (Filled S sb s t ip P (.entry j)) := by
  have owned := ready.owned
  obtain ⟨_, _, isUsed⟩ := owned.data ip .indirect ready.real some
  by_cases empty : addrOf sb s ip (.entry j) = 0
  · unfold bmapIndirect
    simp only [call_bind, spec_bind, call_bread (ready.quiet _)]
    rw [← addrOf_entry some, if_pos empty]
    simp only [call_bind, spec_bind]
    refine balloc_spec (fun b within => ?_) (fun b within clear => ?_) (fun b within clear => ?_) fun none => ?_
    · have := bblock_lt within
      rw [hold_buf_ne (by omega), ready.quiet]
    · have clear : used sb s b = false := clear
      rw [hold_buf_ne (by rintro rfl; simp [isUsed] at clear), ready.quiet]
    · have link := link_entry layout owned ⟨within, clear⟩ ready.real some empty (t := t)
      have same : (((s.hold t (addrOf sb s ip .indirect)).alloc sb t b).store t (addrOf sb s ip .indirect)
          (setAddr (s.block (addrOf sb s ip .indirect)) j b)).release (addrOf sb s ip .indirect) =
          (s.alloc sb t b).store t (addrOf sb s ip .indirect) (setAddr (s.block (addrOf sb s ip .indirect)) j b) :=
        hold_store_release (s := s.alloc sb t b) (ready.quiet _)
      rw [call_log_write (by simp [State.alloc]), call_brelse (by simp [State.alloc]), same]
      exact link_filled ready link member fun _ => indirect
    · exact full_of_empty ready member empty none rfl rfl
  · exact (bmapIndirect_mapped ready.toLoaded empty some).mpr ⟨Grown.refl owned, fun _ _ _ => rfl, rfl, empty⟩

omit layout ready in
theorem slotOf_direct (direct : bn < NDIRECT) : slotOf ⟨bn, Nat.lt_succ_of_lt direct⟩ = placeOf bn := by
  rw [placeOf, if_pos direct, slotOf, dif_pos direct]
  exact congrArg Place.direct (Fin.ext (Nat.mod_eq_of_lt direct).symm)

omit layout ready in
theorem entry_lt (direct : ¬bn < NDIRECT) (small : bn < MAXFILE) : bn - NDIRECT < NINDIRECT := by
  have value : NDIRECT = 12 ∧ NINDIRECT = 128 ∧ MAXFILE = 140 := by decide
  omega

omit layout ready in
theorem placeOf_entry (direct : ¬bn < NDIRECT) (small : bn < MAXFILE) :
    placeOf bn = .entry ⟨bn - NDIRECT, entry_lt direct small⟩ := by
  rw [placeOf, if_neg direct]
  exact congrArg Place.entry (Fin.ext (Nat.mod_eq_of_lt (entry_lt direct small)))

omit layout ready in
theorem indirect_ne_zero (some : addrOf sb s x (.entry j) ≠ 0) : addrOf sb s x .indirect ≠ 0 := by
  intro zero
  have none : (current sb s x).addrs indirect = 0 := UInt32.toNat_inj.mp zero
  exact some (if_pos none)

omit layout ready in
theorem bmap_mapped (loaded : Loaded s ip) (small : bn < MAXFILE) (some : addrOf sb s ip (placeOf bn) ≠ 0) :
    Spec (call t device (bmap sb ip bn)) s E Q ↔ Q (addrOf sb s ip (placeOf bn)) s := by
  have mine : current sb s ip = (s.inode ip).d := current_memory loaded.memory
  unfold bmap
  simp only [call_bind, spec_bind, call_getInode]
  by_cases direct : bn < NDIRECT
  · have number : addrOf sb s ip (placeOf bn) = ((s.inode ip).d.addrs ⟨bn, Nat.lt_succ_of_lt direct⟩).toNat := by
      rw [← slotOf_direct direct, addrOf, mine, addrAt_slotOf]
    have notZero : (s.inode ip).d.addrs ⟨bn, Nat.lt_succ_of_lt direct⟩ ≠ 0 :=
      fun zero => some (by rw [number, zero]; rfl)
    rw [dif_pos direct, if_neg notZero, number]
    exact Iff.rfl
  rw [placeOf_entry direct small] at some ⊢
  have filled := indirect_ne_zero some
  have number : ((s.inode ip).d.addrs indirect).toNat = addrOf sb s ip .indirect := by
    rw [addrOf, mine]
    rfl
  have notZero : (s.inode ip).d.addrs indirect ≠ 0 := fun zero => filled (by rw [← number, zero]; rfl)
  rw [dif_neg direct, if_pos (entry_lt direct small), if_neg notZero, number]
  exact bmapIndirect_mapped loaded (j := ⟨bn - NDIRECT, entry_lt direct small⟩) some filled

theorem bmap_spec (small : bn < MAXFILE) (members : placesOf bn ⊆ P) :
    Spec (call t device (bmap sb ip bn)) s (Full S sb s t ip P)
    (Filled S sb s t ip P (placeOf bn)) := by
  by_cases some : addrOf sb s ip (placeOf bn) ≠ 0
  · exact (bmap_mapped ready.toLoaded small some).mpr ⟨Grown.refl ready.owned, fun _ _ _ => rfl, rfl, some⟩
  have member := members (placeOf_mem bn)
  have mine : current sb s ip = (s.inode ip).d := current_memory ready.memory
  unfold bmap
  simp only [call_bind, spec_bind, call_getInode]
  by_cases direct : bn < NDIRECT
  · have slot := slotOf_direct direct
    have empty : (s.inode ip).d.addrs ⟨bn, Nat.lt_succ_of_lt direct⟩ = 0 := by
      rw [not_not, ← slot, addrOf, mine, addrAt_slotOf] at some
      exact UInt32.toNat_inj.mp some
    rw [dif_pos direct, if_pos empty]
    refine addrs_spec layout ready (slot ▸ member) empty (fun h full => full) fun addr u filled => ?_
    rw [slot] at filled
    exact filled
  have hasIndirect := members (indirect_mem direct)
  rw [placeOf_entry direct small] at member ⊢
  rw [dif_neg direct, if_pos (entry_lt direct small)]
  split_ifs with empty
  · refine addrs_spec layout ready hasIndirect empty (fun h full => full) fun addr u filled => ?_
    have ready' := filled.grown.ready ready
    have number : addr = addrOf sb u ip .indirect := filled.stands.symm
    rw [number]
    refine (bmapIndirect_spec layout ready' (j := ⟨bn - NDIRECT, entry_lt direct small⟩) (number ▸ filled.some) member
      hasIndirect).imp (fun h full => filled.grown.full ready.real full) fun _ v more => ?_
    exact more.trans filled.grown ready.real filled.bytes
  · have number : ((s.inode ip).d.addrs indirect).toNat = addrOf sb s ip .indirect := by
      rw [addrOf, mine]
      rfl
    have filled : addrOf sb s ip .indirect ≠ 0 := fun zero => empty (UInt32.toNat_inj.mp (number.trans zero))
    rw [number]
    exact bmapIndirect_spec layout ready (j := ⟨bn - NDIRECT, entry_lt direct small⟩) filled member hasIndirect

end Bmap

theorem places_filled (some : addrOf sb s ip (placeOf bn) ≠ 0) (small : bn < MAXFILE) (member : p ∈ placesOf bn) :
    addrOf sb s ip p ≠ 0 := by
  unfold placesOf at member
  split_ifs at member with direct
  · rw [Finset.mem_singleton.mp member]
    exact some
  rcases Finset.mem_insert.mp member with rfl | last
  · rw [placeOf_entry direct small] at some
    exact indirect_ne_zero some
  · rw [Finset.mem_singleton.mp last]
    exact some

end Xv6.Fs
