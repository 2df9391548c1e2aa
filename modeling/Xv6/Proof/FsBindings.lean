import Xv6.Proof.FsDirectory

namespace Xv6.Fs
open Xv6.Library

variable {n : Nat} {sb : Superblock} {s u v : State n} {t : Fin n} {d : Int} {E : Halt n → Prop}
variable {x dp i k inum : Nat} {name de : List Byte} {Q : Int → State n → Prop}

theorem call_acquiresleep_held {Q : Unit → State n → Prop} {r : Fin n} (held : (s.inode x).lock = some r) :
    Spec (call t d (perform (.acquiresleep x))) s E Q ↔ E ⟨"deadlock", s⟩ := by
  unfold call perform
  rw [spec_perform]
  simp [alone, act, held]

theorem need_union {P P' : Finset Place} : need sb s dp (P ∪ P') ≤ need sb s dp P + need sb s dp P' := by
  unfold need
  rw [Finset.filter_union]
  exact Finset.card_union_le ..

theorem need_mono {P P' : Finset Place} (sub : P ⊆ P') : need sb s dp P ≤ need sb s dp P' :=
  Finset.card_le_card (Finset.filter_subset_filter _ sub)

theorem need_le_two : need sb s dp (span (16 * i) 16) ≤ 2 := by
  have value : BSIZE = 512 := rfl
  have one : touched (16 * i) 16 = {16 * i / BSIZE} := by
    ext bn
    rw [mem_touched, Finset.mem_singleton, value]
    omega
  rw [span, one, Finset.singleton_biUnion]
  refine need_le_card.trans ?_
  unfold placesOf
  split_ifs
  · exact (Finset.card_singleton _).le.trans (by decide)
  · exact Finset.card_le_two

/-- The blocks that are missing in an inode, with those of the indirect block. -/
def holes (sb : Superblock) (s : State n) (dp : Nat) : Nat := need sb s dp (extent sb s dp)

theorem need_extended (inside : 16 * i ≤ (current sb s dp).size.toNat) :
    need sb s dp (span 0 (max (current sb s dp).size.toNat (16 * i + 16))) ≤ holes sb s dp + 2 := by
  have value : BSIZE = 512 := rfl
  have sub : span 0 (max (current sb s dp).size.toNat (16 * i + 16)) ⊆ extent sb s dp ∪ span (16 * i) 16 := by
    intro p member
    obtain ⟨bn, visited, place⟩ := Finset.mem_biUnion.mp member
    rw [mem_touched, value] at visited
    by_cases old : bn * 512 < (current sb s dp).size.toNat
    · refine Finset.mem_union_left _ (placesOf_subset_span (mem_touched.mpr ?_) place)
      rw [value]
      omega
    · refine Finset.mem_union_right _ (placesOf_subset_span (mem_touched.mpr ?_) place)
      rw [value]
      omega
  have two : need sb s dp (span (16 * i) 16) ≤ 2 := need_le_two
  calc need sb s dp (span 0 (max (current sb s dp).size.toNat (16 * i + 16)))
      ≤ need sb s dp (extent sb s dp ∪ span (16 * i) 16) := need_mono sub
    _ ≤ holes sb s dp + need sb s dp (span (16 * i) 16) := need_union
    _ ≤ holes sb s dp + 2 := Nat.add_le_add_left two _

theorem Alike.holes (same : Alike sb s u) : holes sb u dp = Fs.holes sb s dp := by
  unfold Fs.holes extent
  rw [same.need, same.current]

theorem Seen.balance (seen : Seen sb s t dp u) : free sb u + holes sb s dp = free sb s + holes sb u dp := by
  have balance := seen.grown.balance
  unfold holes
  rwa [extent, extent, (seen.grown.kind dp (seen.grown.owned.inode dp rfl)).2]

namespace Directory
variable (directory : Directory sb s t dp)
include directory

theorem alike (same : Alike sb s u) (inode : ∀ y, (u.inode y).lock = (s.inode y).lock)
    (memory : 0 < (u.inode dp).ref ∧ (u.inode dp).valid = true) (quiet : u.buf = s.buf) : Directory sb u t dp where
  memory := memory
  quiet := quiet ▸ directory.quiet
  owned := same.owned directory.owned
  real := rfl
  dir := by rw [same.current, directory.dir]
  whole := by
    rw [same.current]
    exact directory.whole
  mine := by rw [inode, directory.mine]
  others y ne := by rw [inode, directory.others y ne]

theorem dropped (ne : x ≠ dp) (kept : (s.inode x).ref = 1 → (s.inode x).valid = false) :
    Directory sb (s.dropped x) t dp := by
  refine directory.alike (dropped_alike kept) (fun y => ?_) ?_ rfl
  · by_cases this : y = x
    · subst this
      simp [State.dropped, State.setInode]
    · rw [dropped_other this]
  · rw [dropped_other ne.symm]
    exact directory.memory

theorem taken : Directory sb (s.taken x) t dp := by
  refine directory.alike taken_alike (fun y => taken_lock) ?_ taken_buf
  by_cases this : dp = x
  · subst this
    have held := directory.memory
    simp [State.taken, State.setInode, held.1, held.2]
  · rw [taken_other this]
    exact directory.memory

theorem written {P : Finset Place} (written : Written (· = dp) sb s u t dp P (16 * k) de)
    (inside : k ≤ (slots (contents sb s dp)).length) (length : de.length = 16) :
    Directory sb u t dp ∧ slots (contents sb u dp) = Slots.put (slots (contents sb s dp)) k (toSlot de) := by
  have inode := directory.owned.inode dp rfl
  have size := written.size dp inode
  rw [if_pos rfl, length] at size
  have count := directory.length_eq
  rw [length_contents] at count
  constructor
  · obtain ⟨ref, valid, lock⟩ := written.inode dp
    constructor
    case toReady =>
      refine ⟨⟨?_, fun b => ?_⟩, written.owned, rfl⟩
      · rw [ref, valid]
        exact directory.memory
      · rw [written.buf]
        exact directory.quiet b
    case dir => rw [written.type dp inode, directory.dir]
    case whole =>
      have := directory.whole
      rw [size]
      omega
    case mine => rw [lock, directory.mine]
    case others => exact fun y ne => by rw [(written.inode y).2.2, directory.others y ne]
  · rw [written.contents rfl (by omega), length]
    exact slots_write16 directory.length_eq inside length

theorem writeEntry_spec (layout : Layout sb)
    (inside : i ≤ (slots (contents sb s dp)).length) (room : 16 * i + 16 ≤ MAXFILE * BSIZE)
    (length : de.length = 16) : Spec (call t d (writei sb dp de (UInt32.ofNat (16 * i)))) s
      (Full (· = dp) sb s t dp (span 0 (max (current sb s dp).size.toNat (16 * i + 16)))) fun r u =>
      r = 16 ∧ Written (· = dp) sb s u t dp (span 0 (max (current sb s dp).size.toNat (16 * i + 16))) (16 * i) de := by
  have limit : MAXFILE * BSIZE = 71680 := by decide
  have count := directory.length_eq
  rw [length_contents] at count
  have offset : (UInt32.ofNat (16 * i)).toNat = 16 * i := toNat_ofNat (by omega)
  have notDevice : (current sb s dp).type ≠ T_DEV := by
    rw [directory.dir]
    decide
  refine (writei_spec layout directory.toReady notDevice ?_ ?_ ?_).mono fun r u after => ?_
  · rw [offset]
    omega
  · rw [offset, length]
    exact room
  · rw [offset, length]
    exact fun _ member => placesOf_subset_span (touched_mono (Nat.zero_le _) (by omega) member)
  · rw [offset] at after
    exact ⟨by rw [after.1, length]; rfl, after.2⟩

end Directory

section Commands

inductive Command where
  | link (name : List Byte) (inum : Nat)
  | unlink (name : List Byte)

abbrev Table := List (Option (List Byte × Nat))

def Command.program (sb : Superblock) (dp : Nat) : Command → Program Int
  | link name inum => dirlink sb dp name inum
  | unlink name => do
    match ← unlinkEntry sb dp name with
    | none => return -1
    | some ip => do
      iput sb ip
      return 0

def dotted (name : List Byte) : Prop := name.take DIRSIZ = [46] ∨ name.take DIRSIZ = [46, 46]

instance : DecidablePred dotted := fun _ => inferInstanceAs (Decidable (_ ∨ _))

def Command.bindings (m : List Byte → Option Nat) : Command → (List Byte → Option Nat)
  | link name inum => if m (name.take DIRSIZ) = none then Function.update m (name.take DIRSIZ) (some inum) else m
  | unlink name => if dotted name then m else Function.update m (name.take DIRSIZ) none

def Command.result (m : List Byte → Option Nat) : Command → Int
  | link name _ => if m (name.take DIRSIZ) = none then 0 else -1
  | unlink name => if dotted name ∨ m (name.take DIRSIZ) = none then -1 else 0

def Command.slots (table : Table) : Command → Table
  | link name inum =>
    if Slots.lookup table (name.take DIRSIZ) = none then Slots.bind table (name.take DIRSIZ) inum else table
  | unlink name => if dotted name then table else Slots.unbind table (name.take DIRSIZ)

def Command.Proper : Command → Prop
  | link name inum => 0 ∉ name ∧ 0 < inum ∧ inum < 65536
  | unlink name => 0 ∉ name

def Command.Below (table : Table) : Command → Prop
  | link _ _ => 16 * table.length < MAXFILE * BSIZE
  | unlink _ => True

def Command.Spares (dp : Nat) (table : Table) : Command → Prop
  | link name _ => Slots.lookup table (name.take DIRSIZ) ≠ some dp
  | unlink name => dotted name ∨ Slots.lookup table (name.take DIRSIZ) ≠ some dp

variable {table : Table} {c : Command} {cs : List Command}

instance : Decidable (c.Below table) :=
  match c with
  | .link _ _ => inferInstanceAs (Decidable (_ < _))
  | .unlink _ => inferInstanceAs (Decidable True)

instance : Decidable (c.Spares dp table) :=
  match c with
  | .link _ _ => inferInstanceAs (Decidable (_ ≠ _))
  | .unlink _ => inferInstanceAs (Decidable (_ ∨ _))

theorem stem_eq (clean : 0 ∉ name) : stem name = name.take DIRSIZ := by
  have every : ∀ a ∈ name, decide (a ≠ 0) = true := fun a member => decide_eq_true fun zero => clean (zero ▸ member)
  rw [stem, List.takeWhile_eq_self_iff.mpr every]

theorem Command.distinct (distinct : Slots.Distinct table) : Slots.Distinct (c.slots table) := by
  cases c with
  | link =>
    rw [slots]
    split_ifs with absent
    · exact Slots.distinct_bind distinct (Slots.lookup_eq_none.mp absent)
    · exact distinct
  | unlink =>
    rw [slots]
    split_ifs
    · exact distinct
    · exact Slots.distinct_unbind distinct

theorem Command.lookup_slots (distinct : Slots.Distinct table) :
    Slots.lookup (c.slots table) = c.bindings (Slots.lookup table) := by
  cases c with
  | link =>
    rw [slots, bindings]
    split_ifs with absent
    · exact Slots.lookup_bind absent
    · rfl
  | unlink =>
    rw [slots, bindings]
    split_ifs
    · rfl
    · exact Slots.lookup_unbind distinct

theorem dotted_iff (clean : 0 ∉ name) :
    (strncmp DIRSIZ name [46] = true ∨ strncmp DIRSIZ name [46, 46] = true) ↔ dotted name := by
  have dot : stem [46] = [46] ∧ stem [46, 46] = [46, 46] := by decide
  rw [namecmp_iff, namecmp_iff, stem_eq clean, dot.1, dot.2]
  rfl

theorem lookup_of_find {key : List Byte} (found : Slots.find key table 0 = some (x, i)) :
    Slots.lookup table key = some x := by
  rw [Slots.lookup, found]
  rfl

theorem find_eq_none {key : List Byte} : Slots.find key table 0 = none ↔ Slots.lookup table key = none := by
  rw [Slots.lookup, Option.map_eq_none_iff]

/-- Not even the holes of the directory and two blocks for each command are free. -/
def Exhausted (sb : Superblock) (s : State n) (dp count : Nat) (h : Halt n) : Prop :=
  h.message = "balloc: out of blocks" ∧ free sb s < holes sb s dp + 2 * count

structure Done (sb : Superblock) (s : State n) (t : Fin n) (dp : Nat) (table : Table) (u : State n) : Prop where
  directory : Directory sb u t dp
  slots : slots (contents sb u dp) = table
  cost : free sb s + holes sb u dp ≤ free sb u + holes sb s dp + 2
  cached : u.cached = s.cached

theorem Seen.done (seen : Seen sb s t dp v) (done : Done sb v t dp table u) : Done sb s t dp table u where
  directory := done.directory
  slots := done.slots
  cost := by
    have := seen.balance
    have := done.cost
    omega
  cached := done.cached.trans seen.grown.cached

theorem Seen.exhausted {h : Halt n} (seen : Seen sb s t dp v) (few : Exhausted sb v dp k h) :
    Exhausted sb s dp k h := by
  have := seen.balance
  have := few.2
  exact ⟨few.1, by omega⟩

theorem Full.exhausted {h : Halt n} (full : Full (· = dp) sb s t dp (extent sb s dp) h) : Exhausted sb s dp k h := by
  have few : free sb s < holes sb s dp := full.few
  exact ⟨full.1, by omega⟩

theorem Directory.done (directory : Directory sb s t dp) : Done sb s t dp (slots (contents sb s dp)) s :=
  ⟨directory, rfl, by omega, rfl⟩

section Steps
variable (layout : Layout sb) (directory : Directory sb s t dp)
include layout directory

theorem putEntry_done (inside : k ≤ (slots (contents sb s dp)).length) (below : 16 * k + 16 ≤ MAXFILE * BSIZE)
    (length : de.length = 16) : Spec (call t d (writei sb dp de (UInt32.ofNat (16 * k)))) s
    (Exhausted sb s dp 1) fun r u =>
      r = 16 ∧ (∀ x, (u.inode x).ref = (s.inode x).ref ∧ (u.inode x).valid = (s.inode x).valid) ∧
        Done sb s t dp (Slots.put (slots (contents sb s dp)) k (toSlot de)) u := by
  have count := directory.length_eq
  rw [length_contents] at count
  have more : need sb s dp (span 0 (max (current sb s dp).size.toNat (16 * k + 16))) ≤ holes sb s dp + 2 :=
    need_extended (by omega)
  refine (directory.writeEntry_spec layout inside below length).imp (fun h full => ?_) ?_
  · have few := full.few
    exact ⟨full.1, by omega⟩
  rintro r u ⟨result, written⟩
  obtain ⟨directory', slots'⟩ := directory.written written inside length
  refine ⟨result, fun x => ⟨(written.inode x).1, (written.inode x).2.1⟩, directory', slots', ?_, written.cached⟩
  have size := written.size dp (directory.owned.inode dp rfl)
  rw [if_pos rfl, length] at size
  have balance := written.balance
  rw [holes, extent, size]
  omega

variable (room : s.cached < NINODE) (clean : 0 ∉ name)
include room clean

omit clean in
theorem dirlink_absent (positive : 0 < inum) (small : inum < 65536)
    (below : 16 * (slots (contents sb s dp)).length < MAXFILE * BSIZE)
    (absent : Slots.find (stem name) (slots (contents sb s dp)) 0 = none) :
    Spec (call t d (dirlink sb dp name inum)) s (Exhausted sb s dp 1) fun r u =>
      r = 0 ∧ Done sb s t dp (Slots.bind (slots (contents sb s dp)) (stem name) inum) u := by
  have searched := directory.searched room
  have reads {k : Nat} (inside : k < (contents sb s dp).length / 16) := directory.reads (d := d) layout inside
  have le := Slots.firstFree_le (slots (contents sb s dp))
  have limit : MAXFILE * BSIZE = 16 * 4480 := by decide
  unfold dirlink
  simp only [call_bind, spec_bind]
  refine (directory.dirlookup_spec layout room).imp (fun h full => full.exhausted) ?_
  rintro _ _ ⟨rfl, w, seen, rfl⟩
  rw [absent]
  simp only [Option.map_none, call_bind, spec_bind, call_getInode]
  have size : (w.inode dp).d.size.toNat / 16 = (slots (contents sb s dp)).length := by
    rw [length_slots, (searched.inode w seen).2]
  rw [State.found, size, ← Nat.mul_zero 16]
  refine (emptyFrom_spec searched seen (Nat.zero_le _) (by omega) fun _ => reads).imp (fun h full => full.exhausted) ?_
  rintro _ v ⟨rfl, seen'⟩
  rw [List.drop_zero]
  have put := putEntry_done (d := d) layout (directory.seen seen') (k := Slots.firstFree (slots (contents sb s dp)) 0)
    (by rwa [seen'.contents]) (by omega) (length_dirent inum name)
  refine put.imp (fun h few => seen'.exhausted few) fun r u after => ?_
  obtain ⟨result, -, done⟩ := after
  rw [seen'.contents, toSlot_dirent positive small] at done
  rw [if_neg (not_not.mpr result)]
  exact ⟨rfl, seen'.done done⟩

omit clean in
theorem dirlink_found (found : Slots.find (stem name) (slots (contents sb s dp)) 0 = some (x, i)) :
    Spec (call t d (dirlink sb dp name inum)) s
      (fun h => Exhausted sb s dp 1 h ∨ x = dp ∧ h.message = "deadlock") fun r u =>
      x ≠ dp ∧ r = -1 ∧ Done sb s t dp (slots (contents sb s dp)) u ∧ contents sb u dp = contents sb s dp := by
  unfold dirlink
  simp only [call_bind, spec_bind]
  refine (directory.dirlookup_spec layout room).imp (fun h full => .inl full.exhausted) ?_
  rintro _ _ ⟨rfl, w, seen, rfl⟩
  have directory' := directory.seen seen
  rw [found]
  simp only [Option.map_some, Prod.map_apply, id, State.found, call_bind, spec_bind]
  by_cases self : x = dp
  · subst self
    unfold iput
    simp only [call_bind, spec_bind]
    exact (call_acquiresleep_held (by rw [taken_lock, directory'.mine])).mpr (.inr ⟨trivial, rfl⟩)
  rw [iput_spec (by rw [taken_lock, directory'.others x self]) taken_valid]
  have like : Alike sb w ((w.taken x).dropped x) := taken_alike.trans (dropped_alike taken_valid)
  have same : contents sb ((w.taken x).dropped x) dp = contents sb s dp := by rw [like.contents, seen.contents]
  refine ⟨self, rfl, seen.done
    ⟨directory'.taken.dropped self taken_valid, by rw [same], ?_, taken_dropped_cached⟩, same⟩
  rw [like.free, like.holes]
  omega

theorem link_done (positive : 0 < inum) (small : inum < 65536)
    (below : 16 * (slots (contents sb s dp)).length < MAXFILE * BSIZE)
    (spares : Slots.lookup (slots (contents sb s dp)) (name.take DIRSIZ) ≠ some dp) :
    Spec (call t d (dirlink sb dp name inum)) s (Exhausted sb s dp 1) fun r u =>
      r = (Command.link name inum).result (Slots.lookup (slots (contents sb s dp))) ∧
      Done sb s t dp ((Command.link name inum).slots (slots (contents sb s dp))) u := by
  rw [Command.result, Command.slots, ← stem_eq clean]
  rw [← stem_eq clean] at spares
  cases search : Slots.find (stem name) (slots (contents sb s dp)) 0 with
  | none =>
    have absent := find_eq_none.mp search
    rw [if_pos absent, if_pos absent]
    exact dirlink_absent layout directory room positive small below search
  | some found =>
    obtain ⟨x, i⟩ := found
    have bound := lookup_of_find search
    have ne : x ≠ dp := fun same => spares (same ▸ bound)
    rw [bound, if_neg nofun, if_neg nofun]
    refine (dirlink_found layout directory room search).imp
      (fun h either => ?_) fun r u after => ⟨after.2.1, after.2.2.1⟩
    exact either.resolve_right fun both => ne both.1

theorem unlink_done (spares : dotted name ∨ Slots.lookup (slots (contents sb s dp)) (name.take DIRSIZ) ≠ some dp) :
    Spec (call t d ((Command.unlink name).program sb dp)) s (Exhausted sb s dp 1) fun r u =>
      r = (Command.unlink name).result (Slots.lookup (slots (contents sb s dp))) ∧
      Done sb s t dp ((Command.unlink name).slots (slots (contents sb s dp))) u := by
  rw [Command.program, Command.result, Command.slots]
  unfold unlinkEntry
  simp only [call_bind, spec_bind]
  by_cases dots : dotted name
  · rw [if_pos ((dotted_iff clean).mpr dots), if_pos (.inl dots), if_pos dots]
    exact ⟨rfl, directory.done⟩
  rw [if_neg fun either => dots ((dotted_iff clean).mp either), if_neg dots, Slots.unbind, ← stem_eq clean]
  rw [← stem_eq clean] at spares
  simp only [call_bind, spec_bind]
  refine (directory.dirlookup_spec layout room).imp (fun h full => full.exhausted) ?_
  rintro _ _ ⟨rfl, w, seen, rfl⟩
  have directory' := directory.seen seen
  cases search : Slots.find (stem name) (slots (contents sb s dp)) 0 with
  | none =>
    rw [if_pos (.inr (find_eq_none.mp search))]
    refine ⟨rfl, seen.done ?_⟩
    rw [← seen.contents]
    exact directory'.done
  | some found =>
    obtain ⟨x, i⟩ := found
    have bound := lookup_of_find search
    have self : x ≠ dp := fun same => spares.resolve_left dots (same ▸ bound)
    have inside : i < (slots (contents sb s dp)).length := Slots.find_lt search
    have same : slots (contents sb (w.taken x) dp) = slots (contents sb s dp) := by
      rw [taken_alike.contents, seen.contents]
    have count := directory.length_eq
    have bounded := directory.bounded
    rw [length_contents] at count
    rw [bound, if_neg (not_or.mpr ⟨dots, Option.some_ne_none _⟩)]
    simp only [Option.map_some, Prod.map_apply, id, State.found, call_bind, spec_bind]
    have zeros : (List.replicate 16 (0 : Byte)).length = 16 := List.length_replicate
    have put := putEntry_done (s := w.taken x) (d := d)
      (k := i) layout directory'.taken (by rw [same]; omega) (by omega) zeros
    refine put.imp (fun h few => seen.exhausted ?_) ?_
    · rwa [Exhausted, taken_alike.free, taken_alike.holes] at few
    rintro r u ⟨result, inode, done⟩
    rw [same, toSlot_zeros] at done
    have kept : (u.inode x).ref = 1 → (u.inode x).valid = false := by
      rw [(inode x).1, (inode x).2]
      exact taken_valid
    rw [if_neg (not_not.mpr result)]
    change Spec (call t d (iput sb x >>= fun _ => pure 0)) u _ _
    rw [call_bind, spec_bind, iput_spec (done.directory.others x self) kept]
    have like : Alike sb u (u.dropped x) := dropped_alike kept
    refine ⟨rfl, seen.done ⟨done.directory.dropped self kept, ?_, ?_, ?_⟩⟩
    · rw [like.contents]
      exact done.slots
    · have cost := done.cost
      rw [taken_alike.free, taken_alike.holes] at cost
      rw [like.free, like.holes]
      exact cost
    · rw [← taken_dropped_cached (s := w) (x := x)]
      unfold State.dropped
      dsimp only
      rw [(inode x).1, done.cached]

end Steps

theorem Command.spec (layout : Layout sb) (directory : Directory sb s t dp)
    (room : s.cached < NINODE) (proper : c.Proper)
    (below : c.Below (Fs.slots (contents sb s dp))) (spares : c.Spares dp (Fs.slots (contents sb s dp))) :
    Spec (call t d (c.program sb dp)) s (Exhausted sb s dp 1) fun r u =>
      r = c.result (Slots.lookup (Fs.slots (contents sb s dp))) ∧
        Done sb s t dp (c.slots (Fs.slots (contents sb s dp))) u := by
  cases c with
  | link => exact link_done layout directory room proper.1 proper.2.1 proper.2.2 below spares
  | unlink => exact unlink_done layout directory room proper spares

def runAll (sb : Superblock) (dp : Nat) : List Command → Program (List Int)
  | [] => return []
  | c :: cs => do
    let r ← c.program sb dp
    return r :: (← runAll sb dp cs)

def Along (condition : Table → Command → Prop) : Table → List Command → Prop
  | _, [] => True
  | table, c :: cs => condition table c ∧ Along condition (c.slots table) cs

def results (m : List Byte → Option Nat) : List Command → List Int
  | [] => []
  | c :: cs => c.result m :: results (c.bindings m) cs

structure Ran (sb : Superblock) (s : State n) (t : Fin n) (dp : Nat) (cs : List Command) (u : State n) : Prop where
  directory : Directory sb u t dp
  distinct : Slots.Distinct (slots (contents sb u dp))
  bindings : Slots.lookup (slots (contents sb u dp)) = cs.foldl Command.bindings
    (Slots.lookup (slots (contents sb s dp)))
  cost : free sb s + holes sb u dp ≤ free sb u + holes sb s dp + 2 * cs.length
  cached : u.cached = s.cached

theorem runAll_spec {cs : List Command} (layout : Layout sb)
    (directory : Directory sb s t dp) (room : s.cached < NINODE)
    (distinct : Slots.Distinct (slots (contents sb s dp))) (proper : ∀ c ∈ cs, c.Proper)
    (below : Along Command.Below (slots (contents sb s dp)) cs)
    (spares : Along (Command.Spares dp) (slots (contents sb s dp)) cs) :
    Spec (call t d (runAll sb dp cs)) s (Exhausted sb s dp cs.length) fun r u =>
      r = results (Slots.lookup (slots (contents sb s dp))) cs ∧ Ran sb s t dp cs u := by
  induction cs generalizing s with
  | nil => exact ⟨rfl, directory, distinct, rfl, by simp, rfl⟩
  | cons c _ ih =>
    rw [runAll]
    simp only [call_bind, spec_bind]
    refine (Command.spec layout directory room (proper c List.mem_cons_self) below.1 spares.1).imp
      (fun h few => ⟨few.1, ?_⟩) ?_
    · have := few.2
      rw [List.length_cons]
      omega
    rintro r u ⟨result, done⟩
    have cost := done.cost
    have distinct' : Slots.Distinct (slots (contents sb u dp)) := by
      rw [done.slots]
      exact Command.distinct distinct
    have rest := ih done.directory (by rwa [done.cached]) distinct'
      (fun c member => proper c (List.mem_cons_of_mem _ member))
      (done.slots ▸ below.2) (done.slots ▸ spares.2)
    refine rest.imp (fun h few => ⟨few.1, ?_⟩) ?_
    · have := few.2
      rw [List.length_cons]
      omega
    rintro _ v ⟨result', ran⟩
    have bindings := ran.bindings
    have cost' := ran.cost
    rw [done.slots, Command.lookup_slots distinct] at result' bindings
    refine ⟨?_, ran.directory, ran.distinct, bindings, ?_, ran.cached.trans done.cached⟩
    · rw [results, result, result']
    · rw [List.length_cons]
      omega

theorem namecmp_ne {i j : Nat} {bytes : List Byte}
    (distinct : Slots.Distinct (slots bytes)) (inside : i < bytes.length / 16)
    (inside' : j < bytes.length / 16) (ne : i ≠ j)
    (live : direntInum (entry bytes i) ≠ 0) (live' : direntInum (entry bytes j) ≠ 0) :
    strncmp DIRSIZ (direntName (entry bytes i)) (direntName (entry bytes j)) = false := by
  have slot {k : Nat} (inside : k < bytes.length / 16) (live : direntInum (entry bytes k) ≠ 0) :
      (slots bytes)[k]? = some (some (stem (direntName (entry bytes k)), direntInum (entry bytes k))) := by
    rw [slots, List.getElem?_map, List.getElem?_range inside, Option.map_some, toSlot_some live]
  rw [Bool.eq_false_iff, Ne, namecmp_iff]
  intro same
  have second := slot inside' live'
  rw [← same] at second
  exact ne (distinct.eq (slot inside live) second)

/-- The commands act on the directory as on a finite map from the first `DIRSIZ` bytes of names. -/
theorem directory_finiteMap {cs : List Command} (layout : Layout sb)
    (directory : Directory sb s t dp) (room : s.cached < NINODE)
    (distinct : Slots.Distinct (slots (contents sb s dp))) (proper : ∀ c ∈ cs, c.Proper)
    (below : Along Command.Below (slots (contents sb s dp)) cs)
    (spares : Along (Command.Spares dp) (slots (contents sb s dp)) cs) :
    Spec (call t d (runAll sb dp cs)) s (Exhausted sb s dp cs.length) fun r u =>
      r = results (Slots.lookup (slots (contents sb s dp))) cs ∧
      (∀ i j, i < (contents sb u dp).length / 16 → j < (contents sb u dp).length / 16 → i ≠ j →
        direntInum (entry (contents sb u dp) i) ≠ 0 → direntInum (entry (contents sb u dp) j) ≠ 0 →
          strncmp DIRSIZ (direntName (entry (contents sb u dp) i)) (direntName (entry (contents sb u dp) j)) = false) ∧
      ∀ name, 0 ∉ name →
        let m := cs.foldl Command.bindings (Slots.lookup (slots (contents sb s dp)))
        (Spec (call t d (dirlookup sb dp name)) u (Exhausted sb s dp cs.length) fun found v =>
          found.map Prod.fst = m (name.take DIRSIZ) ∧ contents sb v dp = contents sb u dp) ∧
        ∀ inum x, m (name.take DIRSIZ) = some x → Spec (call t d (dirlink sb dp name inum)) u
          (fun h => Exhausted sb s dp (cs.length + 1) h ∨ x = dp ∧ h.message = "deadlock") fun r v =>
            x ≠ dp ∧ r = -1 ∧ contents sb v dp = contents sb u dp := by
  refine (runAll_spec layout directory room distinct proper below spares).mono ?_
  rintro r u ⟨result, ran⟩
  have room' : u.cached < NINODE := by rwa [ran.cached]
  have later {k : Nat} {h : Halt n} (few : Exhausted sb u dp k h) : Exhausted sb s dp (cs.length + k) h := by
    have := ran.cost
    have := few.2
    exact ⟨few.1, by omega⟩
  refine ⟨result, fun i j inside inside' ne live live' => namecmp_ne ran.distinct inside inside' ne live live',
    fun name clean => ?_⟩
  rw [← ran.bindings, ← stem_eq clean]
  constructor
  · refine (ran.directory.dirlookup_spec layout room').imp (fun h full => later (full.exhausted (k := 0))) ?_
    rintro _ _ ⟨rfl, w, seen, rfl⟩
    rw [Slots.lookup]
    cases Slots.find (stem name) (slots (contents sb u dp)) 0 with
    | none => exact ⟨rfl, seen.contents⟩
    | some found => exact ⟨rfl, taken_alike.contents.trans seen.contents⟩
  · intro _ x bound
    obtain ⟨⟨y, i⟩, search, rfl⟩ := Option.map_eq_some_iff.mp bound
    refine (dirlink_found layout ran.directory room' search).imp
      (fun h either => either.imp later id) fun r v after => ?_
    exact ⟨after.1, after.2.1, after.2.2.2⟩

end Commands

section Sample

def dirSample : State 1 where
  block b :=
    if b = 3 then fun i => if i = 0 then 31 else 0
    else if b = 4 then fun i => (dirent 1 [46] ++ dirent 1 [46, 46]).getD i 0
    else fun _ => 0
  buf _ := none
  cached := 1
  inode x := if x = 1 then ⟨1, some 0, true, { sampleInode with type := T_DIR, size := 32 }⟩
    else ⟨0, none, false, .zero⟩
  log _ := []
  ops _ := []

theorem dirSample_addr (p : Place) : addrOf sampleSb dirSample 1 p = if p = .direct 0 then 4 else 0 := by
  cases p with
  | direct i => revert i; decide
  | indirect => rfl
  | entry j => rfl

theorem dirSample_directory : Directory sampleSb dirSample 0 1 where
  owned := .single dirSample_addr (by decide +kernel) (by decide) (by decide +kernel) (by decide)
  real := rfl
  memory := by decide
  quiet _ := rfl
  dir := by decide
  whole := by decide
  mine := rfl
  others x ne := by simp [dirSample, ne]

theorem dirSample_slots :
    slots (contents sampleSb dirSample 1) = [some ([46], 1), some ([46, 46], 1)] := by decide +kernel

theorem dirSample_distinct : Slots.Distinct (slots (contents sampleSb dirSample 1)) := by
  rw [dirSample_slots]
  unfold Slots.Distinct
  decide

theorem directory_finiteMap_link : ∃ u, call 0 0 (runAll sampleSb 1 [.link [97] 7]) dirSample = .ok ([0], u) ∧
    ∃ found v, call 0 0 (dirlookup sampleSb 1 [97]) u = .ok (found, v) ∧ found.map Prod.fst = some 7 := by
  have spec := @directory_finiteMap 1 sampleSb dirSample 0 0 1
    [.link [97] 7] sample_layout dirSample_directory (by decide)
    dirSample_distinct (by simp [Command.Proper]) (by rw [dirSample_slots]; exact ⟨by decide, trivial⟩)
    (by rw [dirSample_slots]; exact ⟨by decide, trivial⟩)
  have enough (h : Halt 1) : ¬Exhausted sampleSb dirSample 1 1 h := fun few => absurd few.2 (by decide +kernel)
  rw [dirSample_slots] at spec
  obtain ⟨h, -, few⟩ | ⟨r, u, run, result, -, maps⟩ := spec.cases
  · exact absurd few (enough h)
  obtain ⟨h, -, few⟩ | ⟨found, v, search, value, -⟩ := (maps [97] (by decide)).1.cases
  · exact absurd few (enough h)
  · exact ⟨u, by rw [run, result]; rfl, found, v, search, value.trans (by decide)⟩

theorem dirlink_dot : Directory sampleSb dirSample 0 1 ∧ dirSample.cached < NINODE ∧
    Slots.Distinct (slots (contents sampleSb dirSample 1)) ∧ (Command.link [46] 7).Proper ∧
    (Command.link [46] 7).Below (slots (contents sampleSb dirSample 1)) ∧
    ∃ h, call 0 0 (dirlink sampleSb 1 [46] 7) dirSample = .error h ∧ h.message = "deadlock" := by
  refine ⟨dirSample_directory, by decide, dirSample_distinct, by simp [Command.Proper],
    by rw [dirSample_slots]; decide, ?_⟩
  have spec := @dirlink_found 1 sampleSb dirSample 0 0 1 1 0 7 [46] sample_layout dirSample_directory (by decide)
    (by rw [dirSample_slots]; decide)
  obtain ⟨h, run, few | ⟨-, message⟩⟩ | ⟨r, u, -, no, -⟩ := spec.cases
  · exact absurd few.2 (by decide +kernel)
  · exact ⟨h, run, message⟩
  · exact absurd rfl no

end Sample

end Xv6.Fs
