import Xv6.Proof.MkfsImage

namespace Xv6.Mkfs
open Xv6.Library Xv6.Fs

variable {img : Image} {files : List Input} {f : Input} {i j x k : Nat} {p : Place}

structure Named (files : List Input) : Prop where
  distinct : (files.map Input.name).Nodup
  short : ∀ f ∈ files, f.name.length ≤ DIRSIZ
  clean : ∀ f ∈ files, 0 ∉ f.name
  undotted : ∀ f ∈ files, f.name ≠ [46] ∧ f.name ≠ [46, 46]

theorem Named.stem (named : Named files) (member : f ∈ files) : stem f.name = f.name := by
  have every : ∀ a ∈ f.name, decide (a ≠ 0) = true :=
    fun a byte => decide_eq_true fun zero => named.clean f member (zero ▸ byte)
  rw [Fs.stem, List.takeWhile_eq_self_iff.mpr every]
  exact List.take_of_length_le (named.short f member)

section Root

def table : Nat → List Input → List (Option (List Byte × Nat))
  | _, [] => []
  | i, f :: rest => some (stem f.name, i) :: table (i + 1) rest

theorem slots_listing (positive : 0 < i) (small : i + files.length ≤ 65536) :
    slots (listing i files) = table i files := by
  induction files generalizing i with
  | nil => simp [listing, slots, table]
  | cons f _ ih =>
    rw [List.length_cons] at small
    have whole : (dirent i f.name).length = 16 * 1 := length_dirent ..
    rw [listing, slots_append whole, slots_single (length_dirent ..),
      toSlot_dirent positive (by omega), ih (by omega) (by omega)]
    rfl

theorem find_table (distinct : (files.map fun f => stem f.name).Nodup) (here : files[j]? = some f) :
    Slots.find (stem f.name) (table i files) k = some (i + j, k + j) := by
  induction files generalizing i j k with
  | nil => exact absurd here nofun
  | cons g rest ih =>
    rw [List.map_cons, List.nodup_cons] at distinct
    rw [table, Slots.find]
    cases j with
    | zero =>
      cases here
      rw [if_pos rfl]
      rfl
    | succ j =>
      have later : rest[j]? = some f := here
      have other : stem g.name ≠ stem f.name := fun same =>
        distinct.1 (same ▸ List.mem_map_of_mem (List.mem_of_getElem? later))
      rw [if_neg other, ih distinct.2 later]
      congr 2 <;> omega

theorem slots_root (small : 2 + files.length ≤ 65536) :
    slots (dots ++ listing 2 files) = some ([46], 1) :: some ([46, 46], 1) :: table 2 files := by
  have first : (dirent ROOTINO [46]).length = 16 * 1 := length_dirent ..
  have stems : stem [46] = [46] ∧ stem [46, 46] = [46, 46] := by decide
  have root : 0 < ROOTINO.val ∧ ROOTINO.val < 65536 := by decide
  rw [slots_append (m := 2) length_dots, slots_listing (by decide) small,
    dots, slots_append first, slots_single (length_dirent ..),
    slots_single (length_dirent ..), toSlot_dirent root.1 root.2, toSlot_dirent root.1 root.2, stems.1, stems.2]
  rfl

theorem find_root (fits : Fits files) (named : Named files) (here : files[j]? = some f) :
    Slots.find (stem f.name) (slots (dots ++ listing 2 files)) 0 = some (2 + j, 2 + j) := by
  have member := List.mem_of_getElem? here
  have few := fits.few
  have value : NINODES = 200 := rfl
  have stems : files.map (fun f => stem f.name) = files.map Input.name :=
    List.map_congr_left fun g inside => named.stem inside
  obtain ⟨notDot, notDots⟩ := named.undotted f member
  rw [slots_root (by omega), named.stem member, Slots.find,
    if_neg (Ne.symm notDot), Slots.find, if_neg (Ne.symm notDots),
    ← named.stem member]
  exact find_table (stems ▸ named.distinct) here

end Root

section Fixed

theorem fixed_byteAt (built : Built img (finalTable files)) (isReal : allocated sb (view img) x) :
    byteAt sb (view img.fixed) x k = byteAt sb (view img) x k := by
  unfold byteAt
  rw [fixed_addrOf built isReal]
  split_ifs with none
  · rfl
  · rw [fixed_block (built.owned.data x _ isReal none).1]

theorem fixed_root (fits : Fits files) (built : Built img (finalTable files)) :
    ∃ padding, contents sb (view img.fixed) ROOTINO = (dots ++ listing 2 files) ++ padding := by
  have real := root_real built
  have bytes : contents sb (view img) ROOTINO = dots ++ listing 2 files := built.bytes 0 (by simp [finalTable])
  have value : BSIZE = 512 := rfl
  have more : 16 * (files.length + 2) ≤ rootSize (files.length + 2) := by
    rw [rootSize, value]
    omega
  have size : (current sb (view img.fixed) ROOTINO).size.toNat = rootSize (files.length + 2) := by
    rw [fixed_current built real.1, if_pos rfl]
    exact rootSize_toNat fits
  refine ⟨(contents sb (view img.fixed) ROOTINO).drop (16 * (files.length + 2)), ?_⟩
  conv_lhs => rw [← List.take_append_drop (16 * (files.length + 2)) (contents sb (view img.fixed) ROOTINO)]
  congr 1
  rw [← bytes, contents, contents, size, root_size built, ← List.map_take, List.take_range, Nat.min_eq_left more]
  exact List.map_congr_left fun k _ => fixed_byteAt built real

theorem fixed_contents (built : Built img (finalTable files)) (isReal : allocated sb (view img) x) (ne : x ≠ ROOTINO) :
    contents sb (view img.fixed) x = contents sb (view img) x := by
  rw [contents, contents, fixed_current built isReal.1, if_neg ne]
  exact List.map_congr_left fun k _ => fixed_byteAt built isReal

end Fixed

def lookupRead (sb : Superblock) (name : List Byte) (off n : UInt32) : Program (Option (Nat × Int × List Byte)) := do
  iget ROOTINO
  ilock sb ROOTINO
  match ← dirlookup sb ROOTINO name with
  | none => return none
  | some (ip, _) => do
    iunlock ROOTINO
    ilock sb ip
    let d ← getInode ip
    let (r, dst) ← readi sb ip off n
    return some (d.size.toNat, r, dst)

section Lookup
variable (fits : Fits files) (named : Named files) (built : Built img (finalTable files)) (here : files[j]? = some f)
include fits named built here

theorem root_lookup {E : Halt 1 → Prop} {device : Int} :
    Spec (call 0 device (dirlookup sb ROOTINO f.name)) ((view img.fixed).opened sb 0 ROOTINO) E fun r u =>
      r = some (2 + j, 16 * (2 + j)) ∧ u = ((view img.fixed).opened sb 0 ROOTINO).taken (2 + j) := by
  have same : Alike sb (view img.fixed) ((view img.fixed).opened sb 0 ROOTINO) := opened_alike
  have real := root_real built
  have inside : j < files.length := (List.getElem?_eq_some_iff.mp here).1
  have few := fits.few
  have value : NINODES = 200 ∧ BSIZE = 512 ∧ MAXFILE = 140 := by decide
  have type : (current sb (view img.fixed) ROOTINO).type = T_DIR := (fixed_type built real.1).trans (built.type _ real)
  have size : (current sb (view img.fixed) ROOTINO).size.toNat = rootSize (files.length + 2) := by
    rw [fixed_current built real.1, if_pos rfl]
    exact rootSize_toNat fits
  obtain ⟨_, bytes⟩ := fixed_root fits built
  have found : Slots.find (stem f.name) (slots (contents sb (view img.fixed) ROOTINO)) 0 = some (2 + j, 2 + j) := by
    rw [bytes, slots_append (length_root files)]
    exact Slots.find_append (find_root fits named here)
  have loaded : Loaded ((view img.fixed).opened sb 0 ROOTINO) ROOTINO := opened_loaded fun _ => rfl
  have searched : Searched ROOTINO (contents sb (view img.fixed) ROOTINO)
    (· = (view img.fixed).opened sb 0 ROOTINO) := by
    refine ⟨fun u isRoot => ?_, fun u isRoot => ?_, ?_⟩
    · rw [isRoot, ← current_memory loaded.memory, same.current, type, length_contents]
      exact ⟨rfl, rfl⟩
    · rw [isRoot]
      exact Nat.succ_lt_succ (Nat.succ_pos _)
    · rw [length_contents, size, rootSize, value.2.1]
      omega
  have reader : Reader sb ((view img.fixed).opened sb 0 ROOTINO) 0 device ROOTINO (16 * (files.length + 2)) E
      (· = (view img.fixed).opened sb 0 ROOTINO) := by
    refine .fixed loaded (by rw [value.2.1, value.2.2]; omega) fun bn below => ?_
    rw [same.addrOf, fixed_addrOf built real]
    exact built.mapped _ real bn (by rwa [root_size built])
  refine (dirlookup_spec searched rfl fun k inside early => ?_).mono fun r u after => ?_
  rotate_left
  · rw [found] at after
    obtain ⟨rfl, _, rfl, rfl⟩ := after
    exact ⟨rfl, rfl⟩
  -- the search stops at the entry of the file, before the hole that the root directory may have
  have near : k ≤ 2 + j := by
    by_contra far
    have slot := Slots.find_some found
    rw [slots, List.getElem?_map, Option.map_eq_some_iff] at slot
    obtain ⟨i, position, slot⟩ := slot
    obtain ⟨_, rfl⟩ := List.getElem?_eq_some_iff.mp position
    rw [List.getElem_range] at slot
    refine early (2 + j) (by omega) ?_
    rw [slot]
    rfl
  rw [← same.contents] at inside ⊢
  exact reader.entry (by rw [same.current, type]) inside (by omega)

omit fits named in
theorem file_contents : allocated sb (view img) (2 + j) ∧ contents sb (view img.fixed) (2 + j) = f.bytes := by
  obtain ⟨_, rfl⟩ := List.getElem?_eq_some_iff.mp here
  have length : (finalTable files).length = files.length + 1 := by simp [finalTable]
  have real : allocated sb (view img) (2 + j) := (built.real _).mpr ⟨by omega, by omega⟩
  have other : 2 + j ≠ ROOTINO := by
    rw [rootino]
    omega
  have bytes := built.bytes (j + 1) (by omega)
  rw [show j + 1 + 1 = 2 + j by omega] at bytes
  refine ⟨real, ?_⟩
  rw [fixed_contents built real other, bytes, finalTable,
    List.getD_cons_succ, List.getD_eq_getElem?_getD, List.getElem?_map, here]
  rfl

theorem lookupRead_spec {off n : UInt32} {device : Int}
    (inRange : off.toNat ≤ f.bytes.length) (noWrap : off.toNat + n.toNat < 2 ^ 32) :
    Spec (call 0 device (lookupRead sb f.name off n)) (view img.fixed) (fun _ => False) fun r _ =>
      r = some (f.bytes.length, (((f.bytes.drop off.toNat).take n.toNat).length : Int),
        (f.bytes.drop off.toNat).take n.toNat) := by
  obtain ⟨real, bytes⟩ := file_contents built here
  have realFixed := (fixed_allocated built).mpr real
  unfold lookupRead
  simp only [call_bind, spec_bind]
  rw [iget_spec (by exact boot_room), ilock_taken ((fixed_allocated built).mpr (root_real built)) rfl fun _ => rfl]
  refine (root_lookup fits named built here).mono ?_
  rintro _ _ ⟨rfl, rfl⟩
  simp only [call_bind, spec_bind]
  have other : ROOTINO ≠ 2 + j := by
    rw [rootino]
    omega
  set w := (((view img.fixed).opened sb 0 ROOTINO).taken (2 + j)).unlocked ROOTINO with isW
  have like : Alike sb (view img.fixed) w := (opened_alike.trans taken_alike).trans unlocked_alike
  have inode : w.inode (2 + j) = (((view img.fixed).opened sb 0 ROOTINO).taken (2 + j)).inode (2 + j) :=
    Function.update_of_ne other.symm ..
  have held : 0 < (w.inode (2 + j)).ref := by
    rw [inode]
    exact taken_held
  have lock : (w.inode (2 + j)).lock = none := by rw [inode, taken_lock, opened_other other.symm]; rfl
  have like' : Alike sb (view img.fixed) (w.locked sb 0 (2 + j)) := like.trans (locked_alike held)
  have quiet : ∀ b, w.buf b = none := congrFun taken_buf
  have loaded : Loaded (w.locked sb 0 (2 + j)) (2 + j) := ⟨by simpa [State.locked, State.setInode] using held, quiet⟩
  have mine : ((((view img.fixed).opened sb 0 ROOTINO).taken (2 + j)).inode ROOTINO).lock = some 0 := by
    rw [taken_other other, opened_inode.2.2]
  have bounded := built.owned.size _ real
  have rooted : 0 < ((((view img.fixed).opened sb 0 ROOTINO).taken (2 + j)).inode ROOTINO).ref := by
    rw [taken_other other, opened_inode.1]
    exact Nat.succ_pos _
  rw [iunlock_spec mine rooted, ← isW, ilock_spec (like.allocated.mpr realFixed) held lock quiet, call_getInode]
  have size : (current sb (view img.fixed) (2 + j)).size.toNat = f.bytes.length := by rw [← bytes, length_contents]
  have sameSize : current sb (view img.fixed) (2 + j) = current sb (view img) (2 + j) := by
    rw [fixed_current built real.1, if_neg other.symm]
  have memory : ((w.locked sb 0 (2 + j)).inode (2 + j)).d.size.toNat = f.bytes.length := by
    have copy : current sb (w.locked sb 0 (2 + j)) (2 + j) = ((w.locked sb 0 (2 + j)).inode (2 + j)).d :=
      current_memory loaded.memory
    rw [← copy, like'.current, size]
  have reader : Reader sb (w.locked sb 0 (2 + j)) 0 device (2 + j) (current sb (view img) (2 + j)).size.toNat
      (fun _ => False) (· = w.locked sb 0 (2 + j)) := by
    refine .fixed loaded bounded fun bn below => ?_
    rw [like'.addrOf, fixed_addrOf built real]
    exact built.mapped _ real bn below
  have notDevice : (current sb (w.locked sb 0 (2 + j)) (2 + j)).type ≠ T_DEV := by
    rw [like'.current, fixed_type built real.1, built.type _ real, if_neg other.symm]
    decide
  refine (readi_spec reader rfl notDevice (by rw [like'.current, sameSize]; exact Nat.min_le_right ..)).mono ?_
  rintro _ _ ⟨rfl, rfl⟩
  rw [like'.current, like'.contents, bytes, size, if_neg (by omega), memory]
  exact rfl

end Lookup

/-- Every name leads to the bytes of its file. -/
theorem mkfs_lookup (fits : Fits files) (named : Named files) :
    ∃ block, mkfs files = .ok block ∧ readsb (block 1) = sb ∧
    ∀ f ∈ files, ∀ (off n : UInt32) (device : Int), off.toNat ≤ f.bytes.length → off.toNat + n.toNat < 2 ^ 32 →
      ∃ u, call 0 device (lookupRead sb f.name off n) (boot block : State 1) =
        .ok
        (some (f.bytes.length, (((f.bytes.drop off.toNat).take n.toNat).length : Int),
          (f.bytes.drop off.toNat).take n.toNat), u) := by
  obtain ⟨img, built, run⟩ := mkfs_eq fits
  refine ⟨_, run, ?_, fun f member _ n device inRange noWrap => ?_⟩
  · have first : (view img.fixed).block 1 = superblock := by
      rw [view_block (by decide)]
      unfold Image.fixed
      dsimp only
      rw [Function.update_of_ne (one_lt_iblock _).ne, built.first]
    rw [first]
    decide +kernel
  · obtain ⟨j, inside, rfl⟩ := List.getElem_of_mem member
    have here : files[j]? = some files[j] := List.getElem?_eq_getElem inside
    have spec (device : Int) : Spec (call 0 device _) _ _ _ := lookupRead_spec fits named built here inRange noWrap
    obtain ⟨r, u, result, rfl⟩ := (spec device).returns
    exact ⟨u, result⟩

def twoFiles : List Input := [⟨[95, 97], [[1, 2], [3]]⟩, ⟨[98], []⟩]

theorem mkfs_lookup_two : ∃ block, mkfs twoFiles = .ok block ∧
    ∃ u, call 0 0 (lookupRead sb [97] 1 100) (boot block : State 1) = .ok (some (3, 2, [2, 3]), u) := by
  have fits : Fits twoFiles := ⟨by decide, by decide, by decide, by decide⟩
  have named : Named twoFiles := ⟨by decide, by decide, by decide, by decide⟩
  obtain ⟨block, run, -, reads⟩ := mkfs_lookup fits named
  obtain ⟨u, result⟩ := reads ⟨[95, 97], [[1, 2], [3]]⟩ (.head _) 1 100 0 (by decide) (by decide)
  exact ⟨block, run, u, result⟩

end Xv6.Mkfs
