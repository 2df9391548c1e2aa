import Xv6.Proof.FsFile

namespace Xv6.Fs
open Xv6.Library

variable {n : Nat} {sb : Superblock} {s u v w : State n} {t : Fin n} {d : Int} {h : Halt n} {E : Halt n → Prop}
variable {b x ip bn k o : Nat} {p : Place} {P : Finset Place}
    {src : List Byte} {off : UInt32} {len : Nat} {S : Nat → Prop}

structure Alike (sb : Superblock) (s u : State n) : Prop where
  block : u.block = s.block
  current : ∀ x, current sb u x = current sb s x

namespace Alike
variable (same : Alike sb s u)
include same

theorem allocated : allocated sb u x ↔ Fs.allocated sb s x := by
  unfold Fs.allocated
  rw [same.current]

theorem used : used sb u b = Fs.used sb s b := used_congr (by rw [same.block])

theorem addrOf : addrOf sb u x p = Fs.addrOf sb s x p := addrOf_congr (same.current x) fun _ _ _ => by rw [same.block]

theorem byteAt : byteAt sb u x k = Fs.byteAt sb s x k := by
  unfold Fs.byteAt
  rw [same.addrOf, same.block]

theorem contents : contents sb u x = Fs.contents sb s x := by
  unfold Fs.contents
  rw [same.current]
  exact List.map_congr_left fun _ _ => same.byteAt

theorem free : free sb u = Fs.free sb s := free_congr fun _ _ => same.used

theorem need : need sb u ip P = Fs.need sb s ip P := need_congr fun _ => same.addrOf

theorem owned (owned : Owned S sb s) : Owned S sb u := by
  refine owned.of_same (fun _ _ => same.used) (fun x isReal => ?_) fun _ _ _ => same.addrOf
  rw [same.current]
  exact owned.size x isReal

theorem wrote_before (wrote : Wrote S sb u v ip P o src) : Wrote S sb s v ip P o src where
  owned := wrote.owned
  type x inode := by rw [wrote.type x inode, same.current]
  size x inode := by rw [wrote.size x inode, same.current]
  bytes x k real inside := by rw [wrote.bytes x k real inside, same.byteAt]
  balance := by
    have := wrote.balance
    rwa [same.free, same.need] at this
  keeps x p real some := wrote.keeps x p real (by rwa [same.addrOf])
  fills := wrote.fills

theorem wrote_after (wrote : Wrote S sb v s ip P o src) : Wrote S sb v u ip P o src where
  owned := same.owned wrote.owned
  type x inode := by rw [same.current, wrote.type x inode]
  size x inode := by rw [same.current, wrote.size x inode]
  bytes x k real inside := by rw [same.byteAt, wrote.bytes x k real inside]
  balance := by
    rw [same.free, same.need]
    exact wrote.balance
  keeps x p real some := by
    rw [same.addrOf]
    exact wrote.keeps x p real some
  fills bn visited := by
    rw [same.addrOf]
    exact wrote.fills bn visited

end Alike

theorem Alike.trans (first : Alike sb s u) (second : Alike sb u v) : Alike sb s v :=
  ⟨second.block.trans first.block, fun x => (second.current x).trans (first.current x)⟩

theorem Wrote.append {m : Nat} (first : Wrote S sb s u ip P o (src.take m)) (le : m ≤ src.length) (mine : S ip)
    (second : Wrote S sb u v ip P (o + m) (src.drop m)) : Wrote S sb s v ip P o src where
  owned := second.owned
  type x inode := (second.type x inode).trans (first.type x inode)
  size x inode := by
    rw [second.size x inode, first.size x inode]
    split_ifs
    · rw [List.length_drop, List.length_take_of_le le]
      omega
    · rfl
  bytes := first.bytes.append le second.bytes
  balance := by
    have := first.balance
    have := second.balance
    omega
  keeps x p real some := second.keeps x p real (first.keeps x p real some)
  fills bn visited := by
    have value : BSIZE = 512 := rfl
    have early := first.fills bn
    have late := second.fills bn
    rw [mem_touched, value, List.length_take_of_le le] at early
    rw [mem_touched, value, List.length_drop] at late
    rw [mem_touched, value] at visited
    by_cases before : 0 < m ∧ bn * 512 < o + m
    · exact second.keeps ip _ mine (early ⟨before.1, visited.2.1, before.2⟩)
    · exact late (by omega)

theorem Wrote.nil (owned : Owned S sb s) (start : o ≤ (current sb s ip).size.toNat) : Wrote S sb s s ip P o [] where
  owned := owned
  type _ _ := rfl
  size x _ := by
    split_ifs with this
    · rw [this]
      exact (Nat.max_eq_left start).symm
    · rfl
  bytes := Patched.nil
  balance := rfl
  keeps _ _ _ some := some
  fills _ visited := absurd (mem_touched.mp visited).1 (Nat.lt_irrefl 0)

theorem Wrote.filled (wrote : Wrote S sb s u ip (span o src.length) o src) (fits : o + src.length ≤ MAXFILE * BSIZE) :
    need sb u ip (span o src.length) = 0 := by
  refine Finset.card_eq_zero.mpr (Finset.filter_eq_empty_iff.mpr fun p member => ?_)
  obtain ⟨bn, visited, place⟩ := Finset.mem_biUnion.mp member
  exact places_filled (wrote.fills bn visited) (touched_lt fits visited) place

theorem Wrote.enough (wrote : Wrote S sb s u ip (span o src.length) o src) (fits : o + src.length ≤ MAXFILE * BSIZE) :
    need sb s ip (span o src.length) ≤ free sb s := by
  have := wrote.filled fits
  have := wrote.balance
  omega

/-- An inode that no process has locked, and that owns its blocks. -/
structure Idle (sb : Superblock) (s : State n) (ip : Nat) : Prop where
  owned : Owned (· = ip) sb s
  real : allocated sb s ip
  ref : 0 < (s.inode ip).ref
  lock : (s.inode ip).lock = none
  quiet : ∀ b, s.buf b = none

section Transaction

def State.begin (s : State n) (t : Fin n) : State n := { s with log := Function.update s.log t [] }

def State.commit (s : State n) (t : Fin n) : State n := { s with ops := Function.update s.ops t (s.ops t ++ [s.log t]) }

def State.locked (sb : Superblock) (s : State n) (t : Fin n) (ip : Nat) : State n :=
  s.setInode ip ⟨(s.inode ip).ref, some t, true, current sb s ip⟩

def State.unlocked (s : State n) (ip : Nat) : State n := s.setInode ip { s.inode ip with lock := none }

variable {Q : Unit → State n → Prop}

theorem call_begin_op : Spec (call t d (perform .begin_op)) s E Q ↔ Q () (s.begin t) := Iff.rfl

theorem call_end_op : Spec (call t d (perform .end_op)) s E Q ↔ Q () (s.commit t) := Iff.rfl

theorem call_getRef {Q : Nat → State n → Prop} :
    Spec (call t d (perform (.getRef ip))) s E Q ↔ Q (s.inode ip).ref s := Iff.rfl

theorem call_holdingsleep {Q : Bool → State n → Prop} :
    Spec (call t d (perform (.holdingsleep ip))) s E Q ↔ Q (decide ((s.inode ip).lock = some t)) s := Iff.rfl

theorem call_releasesleep (mine : (s.inode ip).lock = some t) :
    Spec (call t d (perform (.releasesleep ip))) s E Q ↔ Q () (s.unlocked ip) := by
  unfold call perform
  rw [spec_perform]
  simp [alone, act, mine, State.unlocked]

theorem iunlock_spec (mine : (s.inode ip).lock = some t) (ref : 0 < (s.inode ip).ref) :
    Spec (call t d (iunlock ip)) s E Q ↔ Q () (s.unlocked ip) := by
  unfold iunlock
  simp only [call_bind, spec_bind]
  rw [call_holdingsleep, call_getRef, if_neg (by simp [mine]; omega), call_releasesleep mine]

theorem call_acquiresleep (free : (s.inode ip).lock = none) :
    Spec (call t d (perform (.acquiresleep ip))) s E Q ↔ Q () (s.setInode ip { s.inode ip with lock := some t }) := by
  unfold call perform
  rw [spec_perform]
  simp [alone, act, free]

theorem call_isValid {Q : Bool → State n → Prop} :
    Spec (call t d (perform (.isValid ip))) s E Q ↔ Q (s.inode ip).valid s := Iff.rfl

theorem call_setValid {valid : Bool} :
    Spec (call t d (perform (.setValid ip valid))) s E Q ↔
      Q () (s.setInode ip { s.inode ip with valid := valid }) := Iff.rfl

theorem setInode_setInode {i j : Inode n} : (s.setInode ip i).setInode ip j = s.setInode ip j := by
  unfold State.setInode
  rw [Function.update_idem]

theorem ilock_spec (real : allocated sb s ip) (ref : 0 < (s.inode ip).ref) (lock : (s.inode ip).lock = none)
    (quiet : ∀ b, s.buf b = none) : Spec (call t d (ilock sb ip)) s E Q ↔ Q () (s.locked sb t ip) := by
  have here (i : Inode n) : (s.setInode ip i).inode ip = i := Function.update_self ..
  unfold ilock
  simp only [call_bind, spec_bind]
  rw [call_getRef, if_neg (Nat.not_lt.mpr ref)]
  simp only [call_bind, spec_bind, call_acquiresleep lock]
  rw [call_isValid, here]
  by_cases valid : (s.inode ip).valid = true
  · have loaded : current sb s ip = (s.inode ip).d := current_memory ⟨ref, valid⟩
    simp only [State.locked, loaded, valid]
    exact Iff.rfl
  have loaded : current sb s ip = getDinode (s.block (iblock sb ip)) ip := if_neg fun both => valid both.2
  have type := real.2
  rw [loaded] at type
  rw [if_neg valid]
  have nobody : (s.setInode ip { s.inode ip with lock := some t }).buf (iblock sb ip) = none := quiet _
  simp only [call_bind, spec_bind, call_bread nobody, call_setInode]
  have released (i : Inode n) :
    (((s.setInode ip { s.inode ip with lock := some t }).hold t (iblock sb ip)).setInode ip i).release
      (iblock sb ip) = s.setInode ip i := by
    change (((s.setInode ip _).hold t (iblock sb ip)).release (iblock sb ip)).setInode ip i = _
    rw [hold_release nobody, setInode_setInode]
  rw [call_brelse (by exact hold_buf_self), released, call_setValid, setInode_setInode, here]
  have block : (s.setInode ip { s.inode ip with lock := some t }).block = s.block := rfl
  rw [block, if_neg type, State.locked, loaded]
  have taken : ((s.setInode ip { s.inode ip with lock := some t }).hold t (iblock sb ip)).inode ip =
      { s.inode ip with lock := some t } := here _
  rw [taken]
  exact Iff.rfl

theorem Idle.ilock_spec (idle : Idle sb s ip) : Spec (call t d (ilock sb ip)) s E Q ↔ Q () (s.locked sb t ip) :=
  Fs.ilock_spec idle.real idle.ref idle.lock idle.quiet

theorem begin_alike : Alike sb s (s.begin t) := ⟨rfl, fun _ => rfl⟩

theorem commit_alike : Alike sb s (s.commit t) := ⟨rfl, fun _ => rfl⟩

theorem unlocked_alike : Alike sb s (s.unlocked ip) := by
  refine ⟨rfl, fun x => ?_⟩
  by_cases this : x = ip
  · subst this
    simp [current, State.unlocked, State.setInode]
  · exact current_congr (Function.update_of_ne this ..) rfl

theorem locked_alike (ref : 0 < (s.inode ip).ref) : Alike sb s (s.locked sb t ip) := by
  refine ⟨rfl, fun x => ?_⟩
  by_cases this : x = ip
  · subst this
    rw [current_memory (by simpa [State.locked, State.setInode] using ref)]
    simp [State.locked, State.setInode]
  · exact current_congr (Function.update_of_ne this ..) rfl

theorem Idle.locked_ready (idle : Idle sb s ip) : Ready (· = ip) sb (s.locked sb t ip) ip where
  owned := (locked_alike idle.ref).owned idle.owned
  real := rfl
  memory := by simpa [State.locked, State.setInode] using idle.ref
  quiet := idle.quiet

theorem Idle.begin (idle : Idle sb s ip) : Idle sb (s.begin t) ip :=
  ⟨begin_alike.owned idle.owned, begin_alike.allocated.mpr idle.real, idle.ref, idle.lock, idle.quiet⟩

theorem Idle.leave (ready : Ready (· = ip) sb w ip) (real : allocated sb w ip) :
    Idle sb ((w.unlocked ip).commit t) ip where
  owned := commit_alike.owned (unlocked_alike.owned ready.owned)
  real := commit_alike.allocated.mpr (unlocked_alike.allocated.mpr real)
  ref := by simpa [State.commit, State.unlocked, State.setInode] using ready.memory.1
  lock := by simp [State.commit, State.unlocked, State.setInode]
  quiet := ready.quiet

theorem transaction_spec {α : Type} {Q : α → State n → Prop} {f : Int → Program α} (idle : Idle sb s ip)
    (body : Spec (call t d (writei sb ip src off)) ((s.begin t).locked sb t ip) E fun r w =>
      ((w.inode ip).lock = some t ∧ 0 < (w.inode ip).ref) ∧ Spec (call t d (f r)) ((w.unlocked ip).commit t) E Q) :
    Spec (call t d (do
      perform .begin_op
      ilock sb ip
      let r ← writei sb ip src off
      iunlock ip
      perform .end_op
      f r)) s E Q := by
  simp only [call_bind, spec_bind]
  rw [call_begin_op, idle.begin.ilock_spec]
  refine body.mono ?_
  rintro r w ⟨⟨mine, ref⟩, next⟩
  rw [iunlock_spec mine ref, call_end_op]
  exact next

structure Turn (sb : Superblock) (s u : State n) (t : Fin n) (ip : Nat) (P : Finset Place) (o : Nat) (src : List Byte) :
    Prop where
  wrote : Wrote (· = ip) sb s u ip P o src
  idle : Idle sb u ip
  ops : ∃ log, u.ops t = s.ops t ++ [log] ∧ ∃ bitmap : Finset Nat, bitmap.card ≤ need sb s ip P ∧
    ∀ y ∈ log, y ∈ bitmap ∨ y = iblock sb ip ∨ ∃ p ∈ P, addrOf sb u ip p = y

theorem Written.turn (idle : Idle sb s ip) (written : Written (· = ip) sb ((s.begin t).locked sb t ip) w t ip P o src) :
    Turn sb s ((w.unlocked ip).commit t) t ip P o src := by
  have before : Alike sb (s.begin t) ((s.begin t).locked sb t ip) := locked_alike idle.ref
  have ready : Ready (· = ip) sb ((s.begin t).locked sb t ip) ip := idle.begin.locked_ready
  have real : allocated sb w ip := by
    rw [allocated_congr (written.type ip), before.allocated, begin_alike.allocated]
    exact idle.real
  have ready' : Ready (· = ip) sb w ip := by
    refine ⟨⟨?_, fun b => ?_⟩, written.owned, rfl⟩
    · obtain ⟨ref, valid, -⟩ := written.inode ip
      rw [ref, valid]
      exact ready.memory
    · rw [written.buf]
      exact ready.quiet b
  constructor
  case wrote =>
    exact commit_alike.wrote_after
      (unlocked_alike.wrote_after (begin_alike.wrote_before (before.wrote_before written.toWrote)))
  case idle => exact Idle.leave ready' real
  case ops =>
    obtain ⟨bitmap, count, logged⟩ := written.log
    refine ⟨w.log t, ?_, bitmap, ?_, fun y member => ?_⟩
    · have : w.ops t = s.ops t := congrFun written.ops t
      simp [State.commit, State.unlocked, State.setInode, this]
    · rwa [before.need, begin_alike.need] at count
    · rcases logged y member with old | inBitmap | this | ⟨p, placed, stands⟩
      · simp [State.locked, State.begin, State.setInode] at old
      · exact .inl inBitmap
      · exact .inr (.inl this)
      · refine .inr (.inr ⟨p, placed, ?_⟩)
        rw [commit_alike.addrOf, unlocked_alike.addrOf]
        exact stands

theorem turn_spec {α : Type} {Q : α → State n → Prop} {f : Int → Program α} (layout : Layout sb) (idle : Idle sb s ip)
    (notDevice : (current sb s ip).type ≠ T_DEV) (start : off.toNat ≤ (current sb s ip).size.toNat)
    (fits : off.toNat + src.length ≤ MAXFILE * BSIZE) (members : ∀ bn ∈ touched off.toNat src.length, placesOf bn ⊆ P)
    (full : ∀ h, Full (· = ip) sb ((s.begin t).locked sb t ip) t ip P h → E h)
    (next : ∀ u, Turn sb s u t ip P off.toNat src → Spec (call t d (f src.length)) u E Q) :
    Spec (call t d (do
      perform .begin_op
      ilock sb ip
      let r ← writei sb ip src off
      iunlock ip
      perform .end_op
      f r)) s E Q := by
  have same : current sb ((s.begin t).locked sb t ip) ip = current sb s ip := (locked_alike idle.begin.ref).current ip
  refine transaction_spec idle ?_
  refine (writei_spec layout idle.begin.locked_ready (same ▸ notDevice) (same ▸ start) fits members).imp full ?_
  rintro r w ⟨rfl, written⟩
  refine ⟨?_, next _ (written.turn idle)⟩
  rw [(written.inode ip).2.2, (written.inode ip).1]
  simpa [State.locked, State.setInode] using idle.begin.ref

theorem refused_spec {α : Type} {Q : α → State n → Prop} {f : Int → Program α} (idle : Idle sb s ip)
    (notDevice : (current sb s ip).type ≠ T_DEV) (small : src.length < 2 ^ 32)
    (refused : ¬(off.toNat ≤ (current sb s ip).size.toNat ∧ off.toNat + src.length ≤ MAXFILE * BSIZE))
    (next : ∀ u, Alike sb s u → u.ops t = s.ops t ++ [[]] → Spec (call t d (f (-1))) u E Q) :
    Spec (call t d (do
      perform .begin_op
      ilock sb ip
      let r ← writei sb ip src off
      iunlock ip
      perform .end_op
      f r)) s E Q := by
  have like : Alike sb s ((s.begin t).locked sb t ip) := begin_alike.trans (locked_alike idle.begin.ref)
  refine transaction_spec idle ?_
  refine (writei_refused idle.begin.locked_ready (by rwa [like.current]) small (by rwa [like.current])).mpr
    ⟨?_, next _ ?_ ?_⟩
  · simpa [State.locked, State.setInode] using idle.begin.ref
  · exact like.trans (unlocked_alike.trans commit_alike)
  · simp [State.commit, State.unlocked, State.locked, State.begin, State.setInode]

end Transaction

theorem touched_mono {o' len' : Nat} (low : o ≤ o') (high : o' + len' ≤ o + len) (member : bn ∈ touched o' len') :
    bn ∈ touched o len := by
  have value : BSIZE = 512 := rfl
  rw [mem_touched, value] at member ⊢
  omega

section Loop

def accepted (o rest : Nat) : Nat :=
  if o + rest ≤ MAXFILE * BSIZE then rest else (MAXFILE * BSIZE - o) / maxChunk * maxChunk

theorem chunk_limits : MAXFILE * BSIZE = 71680 ∧ maxChunk = 1536 := by decide

theorem accepted_step {rest : Nat} (fits : o + min rest maxChunk ≤ MAXFILE * BSIZE) :
    accepted o rest = min rest maxChunk + accepted (o + min rest maxChunk) (rest - min rest maxChunk) := by
  have value := chunk_limits
  unfold accepted
  rw [value.1, value.2] at fits ⊢
  split_ifs <;> omega

theorem accepted_zero {rest : Nat} (refused : MAXFILE * BSIZE < o + min rest maxChunk) : accepted o rest = 0 := by
  have value := chunk_limits
  unfold accepted
  rw [value.1, value.2] at refused ⊢
  split_ifs <;> omega

theorem accepted_le (o rest : Nat) : accepted o rest ≤ rest := by
  have value := chunk_limits
  unfold accepted
  rw [value.1, value.2]
  split_ifs <;> omega

variable (layout : Layout sb)
include layout

theorem filewriteFrom_spec {fuel i : Nat} (enough : src.length - i ≤ fuel)
    (inside : i ≤ src.length) (idle : Idle sb s ip)
    (notDevice : (current sb s ip).type ≠ T_DEV) (start : off.toNat ≤ (current sb s ip).size.toNat)
    (members : ∀ bn ∈ touched off.toNat (accepted off.toNat (src.length - i)), placesOf bn ⊆ P) :
    Spec (call t d (filewriteFrom sb ip src fuel i off)) s
      (fun h => h.message = "balloc: out of blocks" ∧ free sb s < need sb s ip P) fun r u =>
        r = (i + accepted off.toNat (src.length - i), off + UInt32.ofNat (accepted off.toNat (src.length - i))) ∧
        Wrote (· = ip) sb s u ip P off.toNat ((src.drop i).take (accepted off.toNat (src.length - i))) := by
  have none (o : Nat) : accepted o 0 = 0 := Nat.le_zero.mp (accepted_le o 0)
  have still (off : UInt32) : off + UInt32.ofNat 0 = off := UInt32.add_zero off
  induction fuel generalizing s i off with
  | zero =>
    obtain rfl : i = src.length := by omega
    rw [Nat.sub_self, none, still, List.take_zero]
    exact ⟨rfl, Wrote.nil idle.owned start⟩
  | succ _ ih =>
    rw [filewriteFrom]
    split_ifs with less
    · have value := chunk_limits
      have bounded := idle.owned.size ip rfl
      have positive : 0 < min (src.length - i) maxChunk := by omega
      have le : min (src.length - i) maxChunk ≤ src.length - i := Nat.min_le_left ..
      have chunk : min (src.length - i) maxChunk ≤ maxChunk := Nat.min_le_right ..
      have step (fits : off.toNat + min (src.length - i) maxChunk ≤ MAXFILE * BSIZE) := accepted_step fits
      have stop (refused : MAXFILE * BSIZE < off.toNat + min (src.length - i) maxChunk) := accepted_zero refused
      dsimp only
      generalize min (src.length - i) maxChunk = m at positive le chunk step stop ⊢
      have amount : ((src.drop i).take m).length = m := by
        rw [List.length_take, List.length_drop]
        omega
      by_cases fits : off.toNat + m ≤ MAXFILE * BSIZE
      · specialize step fits
        have advance : (off + UInt32.ofNat m).toNat = off.toNat + m := by
          rw [UInt32.toNat_add, toNat_ofNat (by omega)]
          omega
        have rest : src.length - (i + m) = src.length - i - m := by omega
        refine turn_spec layout idle notDevice start (by omega)
          (fun bn member => members bn ?_) (fun h full => ?_) fun u turn => ?_
        · rw [amount] at member
          exact touched_mono le_rfl (by omega) member
        · refine ⟨full.1, ?_⟩
          have few := full.few
          rwa [(locked_alike idle.begin.ref).free, (locked_alike idle.begin.ref).need,
            begin_alike.free, begin_alike.need] at few
        · have wrote := turn.wrote
          have grown := wrote.size ip idle.real.1
          rw [if_pos rfl, amount] at grown
          rw [amount]
          rw [if_neg (by omega), if_neg (by simp), if_pos (by omega), Int.toNat_natCast]
          have further : (off + UInt32.ofNat m).toNat ≤ (current sb u ip).size.toNat := by omega
          have more := ih (i := i + m) (by omega) (by omega) turn.idle (wrote.type ip idle.real.1 ▸ notDevice) further
          rw [advance, rest] at more
          refine (more fun bn member => members bn ?_).imp (fun h few => ?_) fun r v ⟨result, after⟩ => ?_
          · exact touched_mono (Nat.le_add_right ..) (by omega) member
          · have := wrote.balance
            exact ⟨few.1, by omega⟩
          · rw [step]
            refine ⟨?_, ?_⟩
            · rw [result, UInt32.add_assoc, ← UInt32.ofNat_add, Nat.add_assoc]
            have short : ((src.drop i).take (m + accepted (off.toNat + m) (src.length - i - m))).take m =
              (src.drop i).take m := by
              rw [List.take_take, Nat.min_eq_left (Nat.le_add_right ..)]
            have long : ((src.drop i).take (m + accepted (off.toNat + m) (src.length - i - m))).drop m =
                (src.drop (i + m)).take (accepted (off.toNat + m) (src.length - i - m)) := by
              rw [List.drop_take, List.drop_drop, Nat.add_sub_cancel_left]
            refine Wrote.append (m := m) (short.symm ▸ wrote) ?_ rfl (long.symm ▸ after)
            rw [List.length_take, List.length_drop]
            omega
      · rw [stop (by omega), still, List.take_zero]
        refine refused_spec idle notDevice (by omega) (fun _ => by omega) fun u like _ => ?_
        rw [if_pos (by decide), if_neg (by decide)]
        exact ⟨rfl, like.wrote_after (Wrote.nil idle.owned start)⟩
    · obtain rfl : i = src.length := by omega
      rw [Nat.sub_self, none, still, List.take_zero]
      exact ⟨rfl, Wrote.nil idle.owned start⟩

theorem filewrite_spec (idle : Idle sb s ip) (notDevice : (current sb s ip).type ≠ T_DEV)
    (start : off.toNat ≤ (current sb s ip).size.toNat) (fits : off.toNat + src.length ≤ MAXFILE * BSIZE) :
    Spec (call t d (filewrite sb ip src off)) s
      (fun h => h.message = "balloc: out of blocks" ∧ free sb s < need sb s ip (span off.toNat src.length)) fun r u =>
        r = ((src.length : Int), off + UInt32.ofNat src.length) ∧
          Wrote (· = ip) sb s u ip (span off.toNat src.length) off.toNat src := by
  unfold filewrite
  simp only [call_bind, spec_bind]
  have all : accepted off.toNat (src.length - 0) = src.length := if_pos fits
  refine (filewriteFrom_spec (P := span off.toNat src.length) layout
    (Nat.sub_le ..) (Nat.zero_le _) idle notDevice start fun _ member =>
    placesOf_subset_span (all ▸ member)).mono ?_
  rintro r u ⟨result, wrote⟩
  rw [all, List.drop_zero, List.take_length] at wrote
  refine ⟨?_, wrote⟩
  rw [result, all, Nat.zero_add]
  exact congrArg₂ Prod.mk (if_pos rfl) rfl

theorem ilock_writei_iunlock_spec (idle : Idle sb s ip) (notDevice : (current sb s ip).type ≠ T_DEV)
    (start : off.toNat ≤ (current sb s ip).size.toNat) (fits : off.toNat + src.length ≤ MAXFILE * BSIZE) :
    Spec (call t d (do
      ilock sb ip
      let r ← writei sb ip src off
      iunlock ip
      return r)) s
      (fun h => h.message = "balloc: out of blocks" ∧ free sb s < need sb s ip (span off.toNat src.length)) fun r u =>
        r = src.length ∧ Wrote (· = ip) sb s u ip (span off.toNat src.length) off.toNat src := by
  have same : Alike sb s (s.locked sb t ip) := locked_alike idle.ref
  simp only [call_bind, spec_bind]
  rw [idle.ilock_spec]
  refine (writei_spec layout idle.locked_ready (same.current ip ▸ notDevice) (same.current ip ▸ start) fits
    fun _ member => placesOf_subset_span member).imp (fun h full => ?_) ?_
  · refine ⟨full.1, ?_⟩
    have few := full.few
    rwa [same.free, same.need] at few
  rintro r w ⟨rfl, written⟩
  have mine : (w.inode ip).lock = some t ∧ 0 < (w.inode ip).ref := by
    rw [(written.inode ip).2.2, (written.inode ip).1]
    simpa [State.locked, State.setInode] using idle.ref
  rw [iunlock_spec mine.1 mine.2]
  exact ⟨rfl, unlocked_alike.wrote_after (same.wrote_before written.toWrote)⟩

end Loop

theorem filewrite_eq_writei (layout : Layout sb) (idle : Idle sb s ip) (file : (current sb s ip).type = T_FILE)
    (start : off.toNat ≤ (contents sb s ip).length) (fits : off.toNat + src.length ≤ MAXFILE * BSIZE) :
    (need sb s ip (span off.toNat src.length) ≤ free sb s → ∃ u v,
      call t d (filewrite sb ip src off) s = .ok ((src.length, off + UInt32.ofNat src.length), u) ∧
      call t d (do
        ilock sb ip
        let r ← writei sb ip src off
        iunlock ip
        return r) s = .ok (src.length, v) ∧
      contents sb u ip = contents sb v ip ∧ (current sb u ip).size = (current sb v ip).size ∧
      contents sb u ip = (contents sb s ip).take off.toNat ++ src ++ (contents sb s ip).drop (off.toNat + src.length)) ∧
    (free sb s < need sb s ip (span off.toNat src.length) →
      (∃ h, call t d (filewrite sb ip src off) s = .error h ∧ h.message = "balloc: out of blocks") ∧
      ∃ h, call t d (do
        ilock sb ip
        let r ← writei sb ip src off
        iunlock ip
        return r) s = .error h ∧ h.message = "balloc: out of blocks") := by
  have notDevice : (current sb s ip).type ≠ T_DEV := by
    rw [file]
    decide
  rw [length_contents] at start
  have chunked := (filewrite_spec layout (t := t) (d := d) idle notDevice start fits).cases
  have single := (ilock_writei_iunlock_spec layout (t := t) (d := d) idle notDevice start fits).cases
  constructor
  · intro enough
    obtain ⟨h, -, -, few⟩ | ⟨r, u, run, rfl, wrote⟩ := chunked
    · exact absurd few (Nat.not_lt.mpr enough)
    obtain ⟨h, -, -, few⟩ | ⟨r, v, run', rfl, wrote'⟩ := single
    · exact absurd few (Nat.not_lt.mpr enough)
    have result := wrote.contents rfl start
    have result' := wrote'.contents rfl start
    refine ⟨u, v, run, run', result.trans result'.symm, UInt32.toNat_inj.mp ?_, result⟩
    rw [wrote.size ip idle.real.1, wrote'.size ip idle.real.1]
  · intro few
    constructor
    · obtain ⟨h, run, message, -⟩ | ⟨r, u, -, -, wrote⟩ := chunked
      · exact ⟨h, run, message⟩
      · exact absurd (wrote.enough fits) (Nat.not_le.mpr few)
    · obtain ⟨h, run, message, -⟩ | ⟨r, u, -, -, wrote⟩ := single
      · exact ⟨h, run, message⟩
      · exact absurd (wrote.enough fits) (Nat.not_le.mpr few)

theorem sample_idle : Idle sampleSb sample 1 := ⟨sample_owned, ⟨by decide, by decide⟩, by decide, rfl, fun _ => rfl⟩

theorem filewrite_eq_writei_twoChunks : need sampleSb sample 1 (span 3 2000) = 3 ∧ free sampleSb sample = 3 ∧ ∃ u v,
    call 0 0 (filewrite sampleSb 1 (List.replicate 2000 7) 3) sample = .ok ((2000, 2003), u) ∧
    call 0 0 (do
      ilock sampleSb 1
      let r ← writei sampleSb 1 (List.replicate 2000 7) 3
      iunlock 1
      return r) sample = .ok (2000, v) ∧ contents sampleSb u 1 = contents sampleSb v 1 := by
  have short : need sampleSb sample 1 (span 3 2000) = 3 := by decide +kernel
  have left : free sampleSb sample = 3 := by decide +kernel
  have amount : (List.replicate 2000 (7 : Byte)).length = 2000 := List.length_replicate
  obtain ⟨u, v, run, run', same, -⟩ :=
    (@filewrite_eq_writei 1 sampleSb sample 0 0 1 (List.replicate 2000 7) 3 sample_layout
    sample_idle (by decide) (by decide +kernel) (by rw [amount]; decide)).1
    (by rw [amount]; exact (short.trans left.symm).le)
  rw [amount] at run run'
  exact ⟨short, left, u, v, run, run', same⟩

section Reservation

theorem card_touched (chunk : len ≤ maxChunk) :
    (touched o len).card ≤ 3 ∨ (touched o len).card = 4 ∧ o % BSIZE ≠ 0 ∧ o / BSIZE ∈ touched o len := by
  have value : BSIZE = 512 ∧ maxChunk = 1536 := by decide
  rw [mem_touched]
  unfold touched
  rw [value.1]
  split_ifs with none
  · exact .inl (by simp)
  · rw [Nat.card_Icc]
    omega

theorem card_span : (span o len).card ≤ (touched o len).card + 1 := by
  have sub : span o len ⊆ insert .indirect ((touched o len).image placeOf) := by
    intro p member
    obtain ⟨_, visited, place⟩ := Finset.mem_biUnion.mp member
    have image := Finset.mem_image_of_mem placeOf visited
    unfold placesOf at place
    split_ifs at place
    · rw [Finset.mem_singleton.mp place]
      exact Finset.mem_insert_of_mem image
    rcases Finset.mem_insert.mp place with rfl | last
    · exact Finset.mem_insert_self ..
    · rw [Finset.mem_singleton.mp last]
      exact Finset.mem_insert_of_mem image
  calc (span o len).card ≤ (insert .indirect ((touched o len).image placeOf)).card := Finset.card_le_card sub
    _ ≤ ((touched o len).image placeOf).card + 1 := Finset.card_insert_le ..
    _ ≤ (touched o len).card + 1 := Nat.add_le_add_right Finset.card_image_le 1

theorem need_lt (member : p ∈ P) (some : addrOf sb s ip p ≠ 0) : need sb s ip P < P.card :=
  Finset.card_lt_card (Finset.filter_ssubset.mpr ⟨p, member, some⟩)

theorem need_add_card_span (mapped : Mapped sb s ip) (start : o ≤ (current sb s ip).size.toNat)
    (chunk : len ≤ maxChunk) : need sb s ip (span o len) + 1 + (span o len).card ≤ MAXOPBLOCKS := by
  have limit : MAXOPBLOCKS = 10 := rfl
  have places : (span o len).card ≤ (touched o len).card + 1 := card_span
  have filtered : need sb s ip (span o len) ≤ (span o len).card := Finset.card_filter_le ..
  rcases card_touched (o := o) chunk with few | ⟨four, middle, visited⟩
  · omega
  have value : BSIZE = 512 := rfl
  have some := mapped (o / BSIZE) (by rw [value] at middle ⊢; omega)
  have less := need_lt (placesOf_subset_span visited (placeOf_mem _)) some
  omega

theorem card_log {log : List Nat} {bitmap : Finset Nat} {f : Place → Nat} (mapped : Mapped sb s ip)
    (start : o ≤ (current sb s ip).size.toNat) (chunk : len ≤ maxChunk)
    (count : bitmap.card ≤ need sb s ip (span o len))
    (logged : ∀ y ∈ log, y ∈ bitmap ∨ y = iblock sb ip ∨ ∃ p ∈ span o len, f p = y) :
    log.toFinset.card ≤ MAXOPBLOCKS := by
  have sub : log.toFinset ⊆ insert (iblock sb ip) bitmap ∪ (span o len).image f := by
    intro y member
    rcases logged y (List.mem_toFinset.mp member) with inBitmap | this | ⟨p, place, rfl⟩
    · exact Finset.mem_union_left _ (Finset.mem_insert_of_mem inBitmap)
    · exact Finset.mem_union_left _ (this ▸ Finset.mem_insert_self ..)
    · exact Finset.mem_union_right _ (Finset.mem_image_of_mem f place)
  calc log.toFinset.card ≤ (insert (iblock sb ip) bitmap ∪ (span o len).image f).card := Finset.card_le_card sub
    _ ≤ (insert (iblock sb ip) bitmap).card + ((span o len).image f).card := Finset.card_union_le ..
    _ ≤ bitmap.card + 1 + (span o len).card := Nat.add_le_add (Finset.card_insert_le ..) Finset.card_image_le
    _ ≤ need sb s ip (span o len) + 1 + (span o len).card := by omega
    _ ≤ MAXOPBLOCKS := need_add_card_span mapped start chunk

def Reserved (s : State n) (t : Fin n) (u : State n) : Prop :=
  ∃ new, u.ops t = s.ops t ++ new ∧ ∀ log ∈ new, log.toFinset.card ≤ MAXOPBLOCKS

theorem Reserved.refl : Reserved s t s := ⟨[], by simp, by simp⟩

theorem Reserved.trans (first : Reserved s t u) (second : Reserved u t v) : Reserved s t v := by
  obtain ⟨new, ops, fits⟩ := first
  obtain ⟨new', ops', fits'⟩ := second
  refine ⟨new ++ new', by rw [ops', ops, List.append_assoc], fun log member => ?_⟩
  rcases List.mem_append.mp member with early | late
  · exact fits log early
  · exact fits' log late

theorem filewriteFrom_reserved {fuel i : Nat} (layout : Layout sb) (idle : Idle sb s ip) (mapped : Mapped sb s ip)
    (notDevice : (current sb s ip).type ≠ T_DEV) (start : off.toNat ≤ (current sb s ip).size.toNat) :
    Spec (call t d (filewriteFrom sb ip src fuel i off)) s
      (fun h => Reserved s t h.state ∧ (h.state.log t).toFinset.card ≤ MAXOPBLOCKS) fun _ u => Reserved s t u := by
  induction fuel generalizing s i off with
  | zero => exact Reserved.refl
  | succ _ ih =>
    rw [filewriteFrom]
    split_ifs with less
    · have value := chunk_limits
      have positive : 0 < min (src.length - i) maxChunk := by omega
      have le : min (src.length - i) maxChunk ≤ src.length - i := Nat.min_le_left ..
      have chunk : min (src.length - i) maxChunk ≤ maxChunk := Nat.min_le_right ..
      dsimp only
      generalize min (src.length - i) maxChunk = m at positive le chunk ⊢
      have amount : ((src.drop i).take m).length = m := by
        rw [List.length_take, List.length_drop]
        omega
      by_cases fits : off.toNat + m ≤ MAXFILE * BSIZE
      · refine turn_spec (P := span off.toNat m) layout idle notDevice start (by omega)
          (fun _ member => placesOf_subset_span (amount ▸ member)) (fun h full => ?_) fun u turn => ?_
        · obtain ⟨-, u, grown, -, log, ops⟩ := full
          obtain ⟨bitmap, count, logged⟩ := grown.log
          refine ⟨⟨[], ?_, by simp⟩, ?_⟩
          · rw [ops, grown.ops, List.append_nil]
            rfl
          rw [log]
          rw [(locked_alike idle.begin.ref).need, begin_alike.need] at count
          refine card_log (f := addrOf sb u ip) mapped start chunk
            ((Nat.le_add_right ..).trans count) fun y member => ?_
          rcases logged y member with old | inBitmap | ⟨p, place, stands, -⟩
          · simp [State.locked, State.begin, State.setInode] at old
          · exact .inl inBitmap
          · exact .inr (.inr ⟨p, place, stands⟩)
        obtain ⟨log, ops, _, count, logged⟩ := turn.ops
        have reserved : Reserved s t u := by
          refine ⟨[log], ops, fun _ member => ?_⟩
          rw [List.mem_singleton.mp member]
          exact card_log mapped start chunk count logged
        have grown := turn.wrote.size ip idle.real.1
        have advance : (off + UInt32.ofNat m).toNat = off.toNat + m := by
          rw [UInt32.toNat_add, toNat_ofNat (by omega)]
          omega
        rw [if_pos rfl, amount] at grown
        rw [amount, if_neg (by omega), if_neg (by simp), if_pos (by omega), Int.toNat_natCast]
        have mapped' := turn.wrote.mapped start rfl mapped
        refine (ih turn.idle mapped' (turn.wrote.type ip idle.real.1 ▸ notDevice) (by omega)).imp
          (fun h rest => ?_) fun r v rest => ?_
        · exact ⟨reserved.trans rest.1, rest.2⟩
        · exact reserved.trans rest
      · refine refused_spec idle notDevice (by omega) (fun _ => by omega) fun u _ ops => ?_
        refine ⟨[[]], ops, ?_⟩
        simp
    · exact Reserved.refl

theorem filewrite_reserved (layout : Layout sb) (idle : Idle sb s ip) (mapped : Mapped sb s ip)
    (notDevice : (current sb s ip).type ≠ T_DEV) (start : off.toNat ≤ (contents sb s ip).length) :
    (∀ r u, call t d (filewrite sb ip src off) s = .ok (r, u) →
      ∃ new, u.ops t = s.ops t ++ new ∧ ∀ log ∈ new, log.toFinset.card ≤ MAXOPBLOCKS) ∧
    ∀ h, call t d (filewrite sb ip src off) s = .error h →
      (∃ new, h.state.ops t = s.ops t ++ new ∧ ∀ log ∈ new, log.toFinset.card ≤ MAXOPBLOCKS) ∧
        (h.state.log t).toFinset.card ≤ MAXOPBLOCKS := by
  rw [length_contents] at start
  have spec : Spec (call t d (filewrite sb ip src off)) s
      (fun h => Reserved s t h.state ∧ (h.state.log t).toFinset.card ≤ MAXOPBLOCKS) fun _ u => Reserved s t u := by
    unfold filewrite
    simp only [call_bind, spec_bind]
    exact (filewriteFrom_reserved layout idle mapped notDevice start).mono fun r u reserved => reserved
  exact ⟨fun r u run => spec.ok run, fun h run => spec.error run⟩

theorem filewrite_reserved_sample : (contents sampleSb sample 1).length = 3 ∧
    ∀ r u, call 0 0 (filewrite sampleSb 1 (List.replicate 2000 7) 3) sample = .ok (r, u) →
      ∃ new, u.ops 0 = [] ++ new ∧ ∀ log ∈ new, log.toFinset.card ≤ MAXOPBLOCKS :=
  ⟨by decide +kernel,
    (@filewrite_reserved 1 sampleSb sample 0 0 1
      (List.replicate 2000 7) 3 sample_layout sample_idle sample_mapped (by decide)
      (by decide +kernel)).1⟩

def clearedSb : Superblock := ⟨4 * BPB, 2, 2, 3⟩

def clearedInode : Dinode := ⟨T_FILE, 0, 0, 1, 5633, fun i => if i.val < NDIRECT then UInt32.ofNat (100 + i.val) else 0⟩

def cleared : State 1 where
  block b :=
    if b = 3 then fun
      | 0 => 0xfe
      | 1 => 0xfd
      | _ + 2 => 0xff
    else fun
      | 0 => 0xfe
      | _ + 1 => 0xff
  buf _ := none
  cached := 1
  inode x := if x = 1 then ⟨1, none, true, clearedInode⟩ else ⟨0, none, false, .zero⟩
  log _ := []
  ops _ := []

/-- The indirect block is block 0, so that `addrs[NDIRECT]` is still 0 and a second one is allocated. -/
theorem filewrite_overruns : Layout clearedSb ∧ (current clearedSb cleared 1).type = T_FILE ∧
    Mapped clearedSb cleared 1 ∧
    (5633 : UInt32).toNat ≤ (current clearedSb cleared 1).size.toNat ∧
    ∃ r u, call 0 0 (filewrite clearedSb 1 (List.replicate 1536 7) 5633) cleared = .ok (r, u) ∧
      ∃ log ∈ u.ops 0, MAXOPBLOCKS < log.toFinset.card := by
  refine ⟨⟨by decide, by decide, by decide⟩, rfl, fun bn below => ?_, le_rfl, ?_⟩
  · have less : bn * 512 < 5633 := below
    have small : bn < 12 := by omega
    have all : ∀ i : Fin 12, addrOf clearedSb cleared 1 (placeOf i) ≠ 0 := by decide
    exact all ⟨bn, small⟩
  have runs : (match call 0 0 (filewrite clearedSb 1 (List.replicate 1536 7) 5633) cleared with
      | .ok (_, u) => (u.ops 0).any fun log => decide (MAXOPBLOCKS < log.toFinset.card)
      | .error _ => false) = true := by decide +kernel
  cases result : call 0 0 (filewrite clearedSb 1 (List.replicate 1536 7) 5633) cleared with
  | error h =>
    rw [result] at runs
    cases runs
  | ok value =>
    rw [result] at runs
    obtain ⟨log, member, large⟩ := List.any_eq_true.mp runs
    exact ⟨value.1, value.2, rfl, log, member, of_decide_eq_true large⟩

end Reservation

end Xv6.Fs
