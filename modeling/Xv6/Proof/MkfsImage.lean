import Xv6.Proof.Mkfs
import Xv6.Proof.FsDirectory

namespace Xv6.Mkfs
open Xv6.Library Xv6.Fs
open Function (update_of_ne update update_self)

variable {img img' : Image} {table post done : List (List Byte)}
    {old root q : List Byte} {files rest : List Input} {f : Input}

def listing : Nat → List Input → List Byte
  | _, [] => []
  | i, f :: rest => dirent i f.name ++ listing (i + 1) rest

theorem length_listing (i : Nat) (files : List Input) : (listing i files).length = 16 * files.length := by
  induction files generalizing i with
  | nil => rfl
  | cons f _ ih =>
    rw [listing, List.length_append, length_dirent, ih, List.length_cons]
    omega

section Cost

theorem cost_mono {a c : Nat} (le : a ≤ c) : cost a ≤ cost c := by
  have value : BSIZE = 512 := rfl
  unfold cost
  rw [value]
  split_ifs <;> omega

theorem total_cons (bytes : List Byte) (table : List (List Byte)) :
    total (bytes :: table) = cost bytes.length + total table := by
  simp only [total, List.map_cons, List.sum_cons]
  omega

theorem total_append (table post : List (List Byte)) :
    total (table ++ post) = total table + (post.map fun bytes => cost bytes.length).sum := by
  simp only [total, List.map_append, List.sum_append]
  omega

end Cost

theorem appendAll_spec {reads : List (List Byte)} (built : Built img (table ++ [old]))
    (fits : old.length + reads.flatten.length ≤ MAXFILE * BSIZE)
    (room : total (table ++ [old ++ reads.flatten]) ≤ FSSIZE) :
    Spec (appendAll (table.length + 1) reads) img (fun _ => False)
    fun _ img' => Built img' (table ++ [old ++ reads.flatten]) := by
  induction reads generalizing img old with
  | nil =>
    rw [List.flatten_nil, List.append_nil]
    exact built
  | cons buf reads ih =>
    rw [List.flatten_cons, List.length_append] at fits
    rw [List.flatten_cons, ← List.append_assoc] at room ⊢
    rw [appendAll]
    simp only [spec_bind]
    have less : cost (old ++ buf).length ≤ cost (old ++ buf ++ reads.flatten).length := cost_mono (by simp)
    rw [total_middle] at room
    refine (iappend_spec built (by omega) ?_).mono fun _ _ built' => ?_
    · rw [total_middle]
      omega
    refine ih built' ?_ ?_
    · rw [List.length_append]
      omega
    · rw [total_middle]
      exact room

theorem appendRoot_spec (built : Built img (root :: done)) (fits : root.length + q.length ≤ MAXFILE * BSIZE)
    (room : total ((root ++ q) :: done) ≤ FSSIZE) :
    Spec (iappend ROOTINO q) img (fun _ => False) fun _ img' => Built img' ((root ++ q) :: done) := by
  have number : ([] : List (List Byte)).length + 1 = ROOTINO := rfl
  have whole (bytes : List Byte) : [] ++ bytes :: done = bytes :: done := List.nil_append _
  rw [← whole] at built room
  have spec := iappend_spec built fits room
  rw [number] at spec
  exact spec

theorem addFile_spec (built : Built img (root :: done))
    (noSlash : (47 : Byte) ∉ f.arg) (few : done.length + 2 < NINODES)
    (fits : root.length + 16 ≤ MAXFILE * BSIZE) (size : f.bytes.length ≤ MAXFILE * BSIZE)
    (room : total ((root ++ dirent (done.length + 2) f.name) :: (done ++ [f.bytes])) ≤ FSSIZE) :
    Spec (addFile f) img (fun _ => False) fun _ img' => Built img'
    ((root ++ dirent (done.length + 2) f.name) :: (done ++ [f.bytes])) := by
  rw [total_cons, total_append, List.map_singleton, List.sum_singleton] at room
  have small : cost ([] : List Byte).length = 0 := rfl
  unfold addFile
  rw [if_neg noSlash]
  simp only [spec_bind]
  refine (ialloc_spec built few rfl).mono ?_
  rintro r img₁ ⟨number, built₁⟩
  have first : Spec (iappend ROOTINO (dirent r f.name)) img₁ (fun _ => False) fun _ img₂ =>
      Built img₂ ((root ++ dirent r f.name) :: (done ++ [[]])) := by
    refine appendRoot_spec built₁ (by rw [length_dirent]; exact fits) ?_
    rw [total_cons, total_append, List.map_singleton, List.sum_singleton, small, number]
    exact (Nat.add_le_add_left (Nat.add_le_add_left (Nat.zero_le _) _) _).trans room
  refine first.mono fun _ img₂ built₂ => ?_
  rw [number] at built₂ ⊢
  refine appendAll_spec
    (show Built img₂ (((root ++ dirent (done.length + 2) f.name) :: done) ++ [[]]) from built₂) ?_ ?_
  · rw [List.length_nil, Nat.zero_add]
    exact size
  · rw [List.cons_append, total_cons, total_append, List.map_singleton, List.sum_singleton]
    exact room

theorem addFiles_spec (built : Built img (root :: done)) (noSlash : ∀ f ∈ rest, (47 : Byte) ∉ f.arg)
    (few : done.length + rest.length + 1 < NINODES) (fits : root.length + 16 * rest.length ≤ MAXFILE * BSIZE)
    (sizes : ∀ f ∈ rest, f.bytes.length ≤ MAXFILE * BSIZE)
    (room : total ((root ++ listing (done.length + 2) rest) :: (done ++ rest.map Input.bytes)) ≤ FSSIZE) :
    Spec (addFiles rest) img (fun _ => False)
      fun _ img' => Built img' ((root ++ listing (done.length + 2) rest) :: (done ++ rest.map Input.bytes)) := by
  induction rest generalizing img root done with
  | nil =>
    rw [listing, List.append_nil, List.map_nil, List.append_nil]
    exact built
  | cons f rest ih =>
    rw [List.length_cons] at few fits
    have next : (done ++ [f.bytes]).length = done.length + 1 := by simp
    have regroup : done ++ (f :: rest).map Input.bytes = done ++ [f.bytes] ++ rest.map Input.bytes := by simp
    rw [listing, ← List.append_assoc, regroup] at room ⊢
    have less : cost (root ++ dirent (done.length + 2) f.name).length ≤
        cost (root ++ dirent (done.length + 2) f.name ++ listing (done.length + 2 + 1) rest).length :=
        cost_mono (by simp)
    rw [addFiles]
    simp only [spec_bind]
    refine (addFile_spec built (noSlash f (.head _)) (by omega) (by omega) (sizes f (.head _)) ?_).mono
      fun _ _ built' => ?_
    · rw [total_cons]
      rw [total_cons, total_append] at room
      omega
    have more := ih built' (fun g member => noSlash g (.tail _ member)) (by omega)
      (by rw [List.length_append, length_dirent]; omega) (fun g member => sizes g (.tail _ member))
    rw [next] at more
    exact more room

def dots : List Byte := dirent ROOTINO [46] ++ dirent ROOTINO [46, 46]

theorem blank_built : Built { blank with block := update blank.block 1 superblock } [] := by
  have none (x : Nat) : ¬allocated sb (view { blank with block := update blank.block 1 superblock }) x := by
    rintro ⟨small, some⟩
    have other : iblock sb x ≠ 1 := by
      have : 2 ≤ iblock sb x := (by decide : 2 ≤ sb.inodestart).trans (Nat.le_add_left ..)
      omega
    refine some ?_
    rw [view_current small]
    dsimp only
    rw [update_of_ne other]
    exact congrArg UInt16.ofNat (field_zero ..)
  constructor
  case owned =>
    constructor
    case inode => exact fun x real => absurd real (none x)
    case reserved =>
      intro b less
      rw [view_used (less.trans_le layout.bitmap)]
      rw [dataStart_eq] at less
      exact decide_eq_true less
    case data => exact fun x p real => absurd real (none x)
    case distinct => exact fun x y p q real => absurd real (none x)
    case size => exact fun x real => absurd real (none x)
  case mapped => exact fun x real => absurd real (none x)
  case first =>
    dsimp only
    rw [update_self]
  case bound => decide
  case zero =>
    intro b le less
    have le : nmeta ≤ b := le
    have first : 1 < nmeta := by decide
    exact update_of_ne (by omega) ..
  case few => decide
  case real =>
    intro x
    refine ⟨fun real => absurd real (none x), fun ⟨_, le⟩ => ?_⟩
    have : x ≤ 0 := le
    omega
  case freeinode => rfl
  case type => exact fun x real => absurd real (none x)
  case bytes => exact fun i less => absurd less (Nat.not_lt_zero _)
  case exact => exact fun x p real => absurd real (none x)
  case count => rfl

theorem makeRoot_spec (built : Built img []) : Spec makeRoot img (fun _ => False) fun _ img' => Built img' [dots] := by
  have limit : 32 ≤ MAXFILE * BSIZE := by decide
  have small : cost 16 + total ([] : List (List Byte)) ≤ FSSIZE ∧
    cost 32 + total ([] : List (List Byte)) ≤ FSSIZE := by decide
  unfold makeRoot
  simp only [spec_bind]
  refine (ialloc_spec built (by decide) rfl).mono ?_
  rintro r _ ⟨number, built₁⟩
  have root : r = ROOTINO := number
  rw [if_pos root]
  subst root
  simp only [spec_bind]
  refine (appendRoot_spec built₁ ?_ ?_).mono fun _ _ built₂ => ?_
  · rw [length_dirent, List.length_nil]
    omega
  · rw [total_cons, List.nil_append, length_dirent]
    exact small.1
  rw [List.nil_append] at built₂
  refine appendRoot_spec built₂ ?_ ?_
  · rw [length_dirent, length_dirent]
    omega
  · rw [total_cons, List.length_append, length_dirent, length_dirent]
    exact small.2

structure Fits (files : List Input) : Prop where
  noSlash : ∀ f ∈ files, (47 : Byte) ∉ f.arg
  few : files.length + 1 < NINODES
  sizes : ∀ f ∈ files, f.bytes.length ≤ MAXFILE * BSIZE
  room : nmeta + cost (16 * (files.length + 2)) + (files.map fun f => cost f.bytes.length).sum ≤ FSSIZE

def finalTable (files : List Input) : List (List Byte) := (dots ++ listing 2 files) :: files.map Input.bytes

theorem length_dots : dots.length = 32 := by
  unfold dots
  rw [List.length_append, length_dirent, length_dirent]

theorem length_root (files : List Input) : (dots ++ listing 2 files).length = 16 * (files.length + 2) := by
  rw [List.length_append, length_dots, length_listing]
  omega

theorem addFiles_dots (fits : Fits files) (built : Built img [dots]) :
    Spec (addFiles files) img (fun _ => False) fun _ img' => Built img' (finalTable files) := by
  have few : files.length < 199 := by
    have := fits.few
    have : NINODES = 200 := rfl
    omega
  have limit : MAXFILE * BSIZE = 71680 := by decide
  refine addFiles_spec (show Built img (dots :: []) from built) fits.noSlash ?_ ?_ fits.sizes ?_
  · rw [List.length_nil, Nat.zero_add]
    exact fits.few
  · rw [length_dots]
    omega
  · have room := fits.room
    rw [total_cons, List.nil_append, List.length_nil, length_root, total, List.map_map]
    simp only [Function.comp_def]
    omega

def Image.fixed (img : Image) : Image :=
  let din := getDinode (img.block (iblock sb ROOTINO)) ROOTINO
  let size := UInt32.ofNat ((din.size.toNat / BSIZE + 1) * BSIZE)
  let data := putDinode (img.block (iblock sb ROOTINO)) ROOTINO { din with size := size }
  { img with block := update img.block (iblock sb ROOTINO) data }

theorem mkfs_eq (fits : Fits files) :
    ∃ img, Built img (finalTable files) ∧ mkfs files = .ok (view img.fixed).block := by
  have root : ROOTINO < NINODES := by decide
  have spec : Spec (main files) blank (fun _ => False) fun _ img' =>
      ∃ img, Built img (finalTable files) ∧ img'.block = (view img.fixed).block := by
    unfold main
    simp only [spec_bind, wsect_spec]
    refine (makeRoot_spec blank_built).mono fun _ _ built₁ => ?_
    refine (addFiles_dots fits built₁).mono fun _ img built => ?_
    unfold fixRoot
    simp only [spec_bind]
    rw [rinode_spec root, winode_spec root, spec_get]
    have small : img.freeblock < BSIZE * 8 := by
      have := built.bound
      have : FSSIZE = 1000 ∧ BSIZE * 8 = 4096 := by decide
      omega
    unfold balloc
    rw [if_pos small, wsect_spec]
    exact ⟨img, built, rfl⟩
  obtain ⟨a, _, run, img, built, same⟩ := spec.returns
  refine ⟨img, built, ?_⟩
  unfold mkfs
  rw [run]
  exact congrArg Except.ok same

theorem root_real (built : Built img (finalTable files)) : allocated sb (view img) ROOTINO :=
  (built.real _).mpr ⟨by decide, by simp [finalTable, rootino]⟩

theorem root_size (built : Built img (finalTable files)) :
    (current sb (view img) ROOTINO).size.toNat = 16 * (files.length + 2) := by
  rw [← length_root files]
  exact built.size (i := 0) (by simp [finalTable])

section Fixed
variable {x b : Nat} {p : Place}

def rootSize (entries : Nat) : Nat := (16 * entries / BSIZE + 1) * BSIZE

theorem fixed_current (built : Built img (finalTable files)) (small : x < NINODES) : current sb (view img.fixed) x =
    if x = ROOTINO then { current sb (view img) ROOTINO with size := UInt32.ofNat (rootSize (files.length + 2)) }
    else current sb (view img) x := by
  have root : ROOTINO < NINODES := by decide
  have size : (getDinode (img.block (iblock sb ROOTINO)) ROOTINO).size.toNat = 16 * (files.length + 2) := by
    rw [← view_current root]
    exact root_size built
  rw [view_current small]
  unfold Image.fixed
  dsimp only
  rw [size]
  split_ifs with this
  · rw [this, update_self, getDinode_putDinode, view_current root, rootSize]
  rw [view_current small]
  by_cases block : iblock sb x = iblock sb ROOTINO
  · rw [block, update_self, getDinode_putDinode_ne (mod_ne_of_iblock block this)]
  · rw [update_of_ne block]

theorem fixed_type (built : Built img (finalTable files)) (small : x < NINODES) :
    (current sb (view img.fixed) x).type = (current sb (view img) x).type := by
  rw [fixed_current built small]
  split_ifs with this
  · rw [this]
  · rfl

theorem fixed_allocated (built : Built img (finalTable files)) :
    allocated sb (view img.fixed) x ↔ allocated sb (view img) x :=
  and_congr_right fun small => by rw [fixed_type built small]

theorem fixed_block (data : nmeta ≤ b) : (view img.fixed).block b = (view img).block b := by
  have block : iblock sb ROOTINO < sb.bmapstart := iblock_lt (by decide)
  have first : sb.bmapstart < nmeta := by decide
  rw [view_block (by omega), view_block (by omega)]
  exact update_of_ne (by omega) ..

theorem fixed_addrOf (built : Built img (finalTable files)) (isReal : allocated sb (view img) x) :
    addrOf sb (view img.fixed) x p = addrOf sb (view img) x p := by
  have addrs : (current sb (view img.fixed) x).addrs = (current sb (view img) x).addrs := by
    rw [fixed_current built isReal.1]
    split_ifs with this
    · rw [this]
    · rfl
  unfold addrOf
  cases p with
  | direct i => simp only [addrAt, addrs]
  | indirect => simp only [addrAt, addrs]
  | entry j =>
    simp only [addrAt, addrs]
    split_ifs with none
    · rfl
    · have low := (built.owned.data x .indirect isReal fun zero => none (UInt32.toNat_inj.mp zero)).1
      rw [fixed_block (show nmeta ≤ ((current sb (view img) x).addrs indirect).toNat from low)]

theorem fixed_used (inside : b < FSSIZE) : used sb (view img.fixed) b = used sb (view img) b := by
  rw [view_used inside, view_used inside]
  rfl

theorem rootSize_toNat (fits : Fits files) :
    (UInt32.ofNat (rootSize (files.length + 2))).toNat = rootSize (files.length + 2) := by
  have few := fits.few
  have value : NINODES = 200 ∧ BSIZE = 512 := by decide
  unfold rootSize
  rw [value.2]
  exact toNat_ofNat (by omega)

end Fixed

/-- Every block below the size of an inode has an address of its own in the data area, marked in the bitmap. -/
structure HoleFree {n : Nat} (sb : Superblock) (s : State n) : Prop where
  mapped : ∀ x bn, allocated sb s x →
    bn < ((current sb s x).size.toNat + BSIZE - 1) / BSIZE → addrOf sb s x (placeOf bn) ≠ 0
  distinct : ∀ x y bn bn', allocated sb s x → allocated sb s y →
    bn < ((current sb s x).size.toNat + BSIZE - 1) / BSIZE →
    bn' < ((current sb s y).size.toNat + BSIZE - 1) / BSIZE → addrOf sb s x (placeOf bn) = addrOf sb s y (placeOf bn') →
      x = y ∧ bn = bn'
  data : ∀ x bn, allocated sb s x → bn < ((current sb s x).size.toNat + BSIZE - 1) / BSIZE →
    dataStart sb ≤ addrOf sb s x (placeOf bn) ∧ addrOf sb s x (placeOf bn) < sb.size ∧
      used sb s (addrOf sb s x (placeOf bn)) = true

theorem holeFree_of_owned {n : Nat} {sb : Superblock} {s : State n} (owned : Owned (allocated sb s) sb s)
    (whole : ∀ x, allocated sb s x → Mapped sb s x) : HoleFree sb s := by
  have value : BSIZE = 512 := rfl
  have mapped (x bn : Nat) (isReal : allocated sb s x)
    (below : bn < ((current sb s x).size.toNat + BSIZE - 1) / BSIZE) :
      addrOf sb s x (placeOf bn) ≠ 0 := by
    refine whole x isReal bn ?_
    rw [value] at below ⊢
    omega
  have small (x bn : Nat) (isReal : allocated sb s x)
    (below : bn < ((current sb s x).size.toNat + BSIZE - 1) / BSIZE) : bn < MAXFILE := by
    have := owned.size x isReal
    rw [value] at below this
    omega
  refine ⟨mapped, fun x y bn bn' realX realY below below' same => ?_, fun x bn isReal below => ?_⟩
  · obtain ⟨sameInode, samePlace⟩ := owned.distinct x y _ _ realX realY (mapped x bn realX below) same
    exact ⟨sameInode, placeOf_inj (small x bn realX below) (small y bn' realY below') samePlace⟩
  · exact owned.data x _ isReal (mapped x bn isReal below)

theorem fixed_owned (fits : Fits files) (built : Built img (finalTable files)) :
    Owned (allocated sb (view img.fixed)) sb (view img.fixed) := by
  have few := fits.few
  have value : BSIZE = 512 ∧ NINODES = 200 ∧ MAXFILE = 140 := by decide
  refine (built.owned.of_same (fun y either => fixed_used (layout.inside either)) (fun x isReal => ?_) fun x p isReal =>
    fixed_addrOf built isReal).congr fun x => (fixed_allocated built).mp
  rw [fixed_current built isReal.1]
  split_ifs
  · dsimp only
    rw [rootSize_toNat fits, rootSize, value.1, value.2.2]
    omega
  · exact built.owned.size x isReal

theorem fixed_mapped (fits : Fits files) (built : Built img (finalTable files)) (odd : (files.length + 2) % 32 ≠ 0)
    (real : allocated sb (view img.fixed) x) : Mapped sb (view img.fixed) x := by
  intro bn below
  have value : BSIZE = 512 := rfl
  have isReal := (fixed_allocated built).mp real
  rw [fixed_addrOf built isReal]
  refine built.mapped x isReal bn ?_
  rw [fixed_current built isReal.1] at below
  split_ifs at below with this
  · subst this
    rw [root_size built]
    dsimp only at below
    rw [rootSize_toNat fits, rootSize] at below
    rw [value] at below ⊢
    omega
  · exact below

theorem fixed_hole (fits : Fits files) (built : Built img (finalTable files)) (even : (files.length + 2) % 32 = 0) :
    ¬HoleFree sb (view img.fixed) := by
  intro holeFree
  have value : BSIZE = 512 ∧ NINODES = 200 ∧ MAXFILE = 140 := by decide
  have few := fits.few
  have root := root_real built
  have size := root_size built
  have some := holeFree.mapped ROOTINO ((files.length + 2) / 32) ((fixed_allocated built).mpr root) (by
    rw [fixed_current built root.1, if_pos rfl]
    dsimp only
    rw [rootSize_toNat fits, rootSize, value.1]
    omega)
  rw [fixed_addrOf built root] at some
  have member := built.exact ROOTINO _ root some
  obtain ⟨bn, visited, place⟩ := Finset.mem_biUnion.mp member
  obtain ⟨-, -, below⟩ := mem_touched.mp visited
  rw [size, value.1] at below
  have same : (files.length + 2) / 32 = bn := by
    refine placeOf_inj ?_ ?_ (placeOf_eq place)
    · rw [value.2.2]
      omega
    · rw [value.2.2]
      omega
  omega

def readInode (sb : Superblock) (x : Nat) (off n : UInt32) : Program (Int × List Byte) := do
  iget x
  ilock sb x
  readi sb x off n

theorem boot_room {block : Nat → Bytes} : (boot block : State 1).cached < NINODE := Nat.succ_pos _

theorem readInode_block {block : Nat → Bytes} {off n : UInt32} {device : Int} {x : Nat}
    (bounded : (current sb (boot block : State 1) x).size.toNat ≤ MAXFILE * BSIZE)
    (mapped : Mapped sb (boot block : State 1) x)
    (isReal : allocated sb (boot block : State 1) x) (notDevice : (current sb (boot block : State 1) x).type ≠ T_DEV) :
    ∃ result u, call 0 device (readInode sb x off n) (boot block : State 1) = .ok (result, u) ∧ u.block = block := by
  have same : Alike sb (boot block : State 1) ((boot block).opened sb 0 x) := opened_alike
  have spec : Spec (call 0 device (readInode sb x off n))
    (boot block : State 1) (fun _ => False) fun _ u => u.block = block := by
    unfold readInode
    simp only [call_bind, spec_bind]
    rw [iget_spec boot_room, ilock_taken isReal rfl fun _ => rfl]
    have reader : Reader sb ((boot block : State 1).opened sb 0 x) 0 device x
      (current sb (boot block : State 1) x).size.toNat
        (fun _ => False) (· = (boot block).opened sb 0 x) :=
      .fixed (opened_loaded fun _ => rfl) bounded fun bn below => by
        rw [same.addrOf]
        exact mapped bn below
    refine (readi_spec reader rfl (by rwa [same.current]) (by rw [same.current]; exact Nat.min_le_right ..)).mono ?_
    rintro _ _ ⟨rfl, -⟩
    exact same.block
  obtain ⟨result, u, run, kept⟩ := spec.returns
  exact ⟨result, u, run, kept⟩

theorem replicate_fits {m : Nat} (few : m < 198) : Fits (List.replicate m ⟨[97], []⟩) where
  noSlash f member := by
    rw [List.eq_of_mem_replicate member]
    decide
  few := by
    rw [List.length_replicate]
    have : NINODES = 200 := rfl
    omega
  sizes f member := by
    rw [List.eq_of_mem_replicate member]
    exact Nat.zero_le _
  room := by
    have value : BSIZE = 512 ∧ NDIRECT = 12 ∧ nmeta = 59 ∧ FSSIZE = 1000 := by decide
    have none : cost (Input.bytes ⟨[97], []⟩).length = 0 := by decide
    rw [List.length_replicate, List.map_replicate, List.sum_replicate_nat,
      none, cost, value.1, value.2.1, value.2.2.1, value.2.2.2]
    rw [if_neg (by omega)]
    omega

/-- Only a root directory that ends with its last block gets a hole. -/
theorem mkfs_holeFree (fits : Fits files) : ∃ block, mkfs files = .ok block ∧
    ((HoleFree sb (boot block : State 1) ∧ ∀ x off n device, allocated sb (boot block : State 1) x →
        ∃ result u, call 0 device (readInode sb x off n) (boot block : State 1) = .ok (result, u) ∧ u.block = block) ↔
      (files.length + 2) % 32 ≠ 0) := by
  obtain ⟨img, built, run⟩ := mkfs_eq fits
  refine ⟨_, run, fun ⟨holeFree, _⟩ even => fixed_hole fits built even holeFree, fun odd => ?_⟩
  have owned := fixed_owned fits built
  have mapped {x : Nat} := fixed_mapped fits built odd (x := x)
  refine ⟨holeFree_of_owned owned fun _ => mapped, fun x _ n _ isReal => ?_⟩
  refine readInode_block (owned.size x isReal) (mapped isReal) isReal ?_
  have before := (fixed_allocated built).mp isReal
  have type := (fixed_type built before.1).trans (built.type x before)
  have same : (boot (view img.fixed).block : State 1) = view img.fixed := rfl
  rw [same, type]
  split_ifs <;> decide

theorem mkfs_holeFree_odd :
    ∃ block, mkfs (List.replicate 31 ⟨[97], []⟩) = .ok block ∧ HoleFree sb (boot block : State 1) := by
  have fits : Fits (List.replicate 31 ⟨[97], []⟩) := replicate_fits (by decide)
  obtain ⟨block, run, sound⟩ := mkfs_holeFree fits
  exact ⟨block, run, (sound.mpr (by rw [List.length_replicate]; decide)).1⟩

theorem root_hole : ∃ block, mkfs (List.replicate 30 ⟨[97], []⟩) = .ok block ∧ ¬HoleFree sb (boot block : State 1) := by
  have fits : Fits (List.replicate 30 ⟨[97], []⟩) := replicate_fits (by decide)
  obtain ⟨_, built, run⟩ := mkfs_eq fits
  exact ⟨_, run, fixed_hole fits built (by rw [List.length_replicate])⟩

end Xv6.Mkfs
