import Xv6.Kernel.Syscall

namespace Xv6.Syscall

variable {w : World} {p : Proc} {f : File} {ip : Inode} {base off n : Word} {len m size : Nat} {as bs : List Word}

def Inside (base : Word) (len : Nat) (as : List Word) : Prop := ∀ a ∈ as, ∃ k < len, a = base + BitVec.ofNat 32 k

theorem Inside.nil : Inside base len [] := by simp [Inside]

theorem Inside.append (left : Inside base len as) (right : Inside base len bs) : Inside base len (as ++ bs) := by
  intro a member
  exact (List.mem_append.mp member).elim (left a) (right a)

theorem Inside.mono (h : Inside base m as) (le : m ≤ len) : Inside base len as := by
  intro a member
  obtain ⟨k, _, rfl⟩ := h a member
  exact ⟨k, by omega, rfl⟩

theorem Inside.shift (h : Inside (base + BitVec.ofNat 32 m) len as) : Inside base (m + len) as := by
  intro a member
  obtain ⟨k, _, rfl⟩ := h a member
  exact ⟨m + k, by omega, by rw [BitVec.add_assoc, BitVec.ofNat_add]⟩

theorem bytes_inside : Inside base len (bytes base len) := by
  intro a member
  obtain ⟨k, lt, rfl⟩ := List.mem_map.mp member
  exact ⟨k, List.mem_range.mp lt, rfl⟩

theorem bytes_field (fits : m + len ≤ size) : Inside base size (bytes (base + BitVec.ofNat 32 m) len) :=
  bytes_inside.shift.mono fits

theorem bytesUntil_inside (stop : Nat → Bool) : Inside base len (bytesUntil stop base len) := by
  intro a member
  obtain ⟨k, taken, rfl⟩ := List.mem_map.mp member
  exact ⟨k, List.mem_range.mp (List.takeWhile_subset _ taken), rfl⟩

theorem consoleread_inside (k : Nat) : Inside base len (consoleread w k base len) := by
  induction len generalizing k base with
  | zero => exact .nil
  | succ len ih =>
    unfold consoleread
    split
    · exact .nil
    rename_i c _
    have first : Inside base (len + 1) [base] := fun a member => ⟨0, by omega, by simpa using member⟩
    have rest : Inside base (len + 1) (consoleread w (k + 1) (base + 1) len) :=
      (Inside.shift (m := 1) (ih (k + 1))).mono (by omega)
    split_ifs
    · exact .nil
    · exact first
    · exact first.append rest

theorem moveBlocks_inside {n tot off : Nat} (within : tot ≤ n) : Inside base (n - tot) (moveBlocks n tot off base) := by
  fun_induction moveBlocks n tot off base with
  | case1 tot off base lt m ih =>
    have le : m ≤ n - tot := Nat.min_le_left _ _
    exact (bytes_inside.mono le).append ((ih (by omega)).shift.mono (by omega))
  | case2 => exact .nil

theorem readi_inside : Inside base n.toNat (readi w ip base off n) := by
  unfold readi
  split_ifs with device none wraps past
  · exact .nil
  · exact consoleread_inside 0
  · exact .nil
  · refine (moveBlocks_inside (Nat.zero_le _)).mono ?_
    simp only [not_or, gt_iff_lt, BitVec.not_lt] at wraps past
    bv_omega
  · exact (moveBlocks_inside (Nat.zero_le _)).mono (by omega)

theorem writei_inside : Inside base n.toNat (writei ip base off n).1 := by
  unfold writei
  split_ifs
  · exact .nil
  · exact bytes_inside
  · exact .nil
  · exact .nil
  · exact (moveBlocks_inside (Nat.zero_le _)).mono (by omega)

theorem fileread_inside : Inside base n.toNat (fileread w f base n) := by
  unfold fileread piperead
  split_ifs
  · cases f.type with
    | none | pipe => exact .nil
    | inode => exact readi_inside
  · cases f.type with
    | none => exact .nil
    | pipe => exact bytesUntil_inside _
    | inode => exact readi_inside
  · exact .nil

theorem writeChunks_inside {k n i : Nat} (within : i ≤ n) (small : n < 2 ^ 32) :
    Inside base n (writeChunks w k n i base) := by
  fun_induction writeChunks w k n i base with
  | case1 k i lt m moved ok run more =>
    have le : m ≤ n - i := Nat.min_le_left _ _
    have part : Inside (base + BitVec.ofNat 32 i) m moved := by
      have inside : Inside (base + BitVec.ofNat 32 i) (BitVec.ofNat 32 m).toNat
          (writei (w.inode k) (base + BitVec.ofNat 32 i) (w.off k) (BitVec.ofNat 32 m)).1 := writei_inside
      rw [run, BitVec.toNat_ofNat, Nat.mod_eq_of_lt (by omega)] at inside
      exact inside
    refine (part.shift.mono (by omega)).append ?_
    split_ifs
    · exact more (by omega)
    · exact .nil
  | case2 => exact .nil

theorem filewrite_inside : Inside base n.toNat (filewrite w f base n) := by
  unfold filewrite
  split_ifs
  · cases f.type with
    | none => exact .nil
    | pipe => exact bytesUntil_inside _
    | inode => exact writeChunks_inside (Nat.zero_le _) n.isLt
  · exact .nil

theorem stati_inside : Inside base sizeofStat (stati base) := by
  have first : Inside base sizeofStat (bytes base 2) := bytes_inside.mono (by decide)
  have dev : Inside base sizeofStat (bytes (base + 4) 4) := bytes_field (by decide)
  have ino : Inside base sizeofStat (bytes (base + 8) 4) := bytes_field (by decide)
  have nlink : Inside base sizeofStat (bytes (base + 12) 2) := bytes_field (by decide)
  have last : Inside base sizeofStat (bytes (base + 16) 4) := bytes_field (by decide)
  exact (((dev.append ino).append first).append nlink).append last

theorem argptr_some {k size : Word} (valid : argptr p k size = some base) (small : p.sz.toNat < KERNBASE) :
    argint p k = some base ∧ base.toNat + size.toNat ≤ p.sz.toNat := by
  obtain ⟨i, fetched, valid⟩ := Option.bind_eq_some_iff.mp valid
  obtain ⟨refused, same⟩ := Option.ite_none_left_eq_some.mp valid
  cases same
  simp only [not_or, ge_iff_le, gt_iff_lt, BitVec.not_lt, BitVec.not_le] at refused
  obtain ⟨sign, _, _⟩ := refused
  have positive : size.toNat < 2 ^ 31 := by
    have sign : 0 ≤ size.toInt := by simpa [BitVec.slt_iff_toInt_lt] using sign
    rw [BitVec.toInt_eq_toNat_cond] at sign
    split_ifs at sign <;> omega
  refine ⟨fetched, ?_⟩
  unfold KERNBASE at small
  bv_omega

theorem Inside.below (h : Inside base len as) (fits : base.toNat + len ≤ p.sz.toNat) :
    ∀ a ∈ as, a.toNat < p.sz.toNat := by
  intro a member
  obtain ⟨k, _, rfl⟩ := h a member
  have := p.sz.isLt
  rw [BitVec.toNat_add, BitVec.toNat_ofNat, Nat.mod_eq_of_lt (by omega), Nat.mod_eq_of_lt (by omega)]
  omega

def Fits (p : Proc) : Prop := ∀ s, argint p 0 = some s → s.toNat + sizeofProcStat ≤ p.sz.toNat

theorem getpinfo_inside : Inside base sizeofProcStat (getpinfo base) := by
  have pid : Inside base sizeofProcStat (bytes base 4) := bytes_inside.mono (by decide)
  have runtime : Inside base sizeofProcStat (bytes (base + 4) 4) := bytes_field (by decide)
  have num_run : Inside base sizeofProcStat (bytes (base + 8) 4) := bytes_field (by decide)
  have queue : Inside base sizeofProcStat (bytes (base + 12) 4) := bytes_field (by decide)
  refine (((pid.append runtime).append num_run).append queue).append fun a member => ?_
  obtain ⟨i, inRange, member⟩ := List.mem_flatMap.mp member
  have field : Inside (base + 16) 20 (bytes (base + 16 + BitVec.ofNat 32 (4 * i)) 4) :=
    bytes_field (by have := List.mem_range.mp inRange; omega)
  exact (Inside.shift (m := 16) field).mono (by decide) a member

theorem getpinfo_last : base + 35 ∈ getpinfo base := by
  refine List.mem_append_right _ (List.mem_flatMap.mpr ⟨4, by decide, List.mem_map.mpr ⟨3, by decide, ?_⟩⟩)
  simp [BitVec.add_assoc]

theorem syscall_below {call : Call} (small : p.sz.toNat < KERNBASE) (valid : syscall w p call = some as)
    (other : call ≠ .getpinfo) : ∀ a ∈ as, a.toNat < p.sz.toNat := by
  cases call with
  | read =>
    obtain ⟨f, -, valid⟩ := Option.bind_eq_some_iff.mp valid
    obtain ⟨n, -, valid⟩ := Option.bind_eq_some_iff.mp valid
    obtain ⟨addr, checked, valid⟩ := Option.bind_eq_some_iff.mp valid
    exact Option.some.inj valid ▸ fileread_inside.below (argptr_some checked small).2
  | write =>
    obtain ⟨f, -, valid⟩ := Option.bind_eq_some_iff.mp valid
    obtain ⟨n, -, valid⟩ := Option.bind_eq_some_iff.mp valid
    obtain ⟨_, checked, valid⟩ := Option.bind_eq_some_iff.mp valid
    exact Option.some.inj valid ▸ filewrite_inside.below (argptr_some checked small).2
  | fstat =>
    obtain ⟨f, -, valid⟩ := Option.bind_eq_some_iff.mp valid
    obtain ⟨st, checked, valid⟩ := Option.bind_eq_some_iff.mp valid
    have inside : Inside st sizeofStat (filestat f st) := by
      unfold filestat
      cases f.type with
      | none | pipe => exact .nil
      | inode => exact stati_inside
    exact Option.some.inj valid ▸ inside.below (argptr_some checked small).2
  | pipe =>
    obtain ⟨fd, checked, valid⟩ := Option.bind_eq_some_iff.mp valid
    have inside : Inside fd 8 (if w.room then bytes fd 4 ++ bytes (fd + 4) 4 else []) := by
      have second : Inside fd 8 (bytes (fd + 4) 4) := bytes_field (by decide)
      split_ifs
      · exact (bytes_inside.mono (by decide)).append second
      · exact .nil
    exact Option.some.inj valid ▸ inside.below (argptr_some checked small).2
  | waitx =>
    obtain ⟨_, checkedR, valid⟩ := Option.bind_eq_some_iff.mp valid
    obtain ⟨_, checkedW, valid⟩ := Option.bind_eq_some_iff.mp valid
    intro a member
    rw [← Option.some.inj valid, waitx] at member
    split_ifs at member
    · rcases List.mem_append.mp member with member | member
      · exact bytes_inside.below (argptr_some checkedR small).2 a member
      · exact bytes_inside.below (argptr_some checkedW small).2 a member
    · simp at member
  | getpinfo => exact absurd rfl other

theorem syscall_inside {call : Call} (small : p.sz.toNat < KERNBASE) (valid : syscall w p call = some as) :
    (∀ a ∈ as, a.toNat < p.sz.toNat) ↔ (call = .getpinfo → Fits p) := by
  by_cases same : call = .getpinfo
  · subst same
    obtain ⟨s, checked, valid⟩ := Option.bind_eq_some_iff.mp valid
    cases valid
    obtain ⟨fetched, _⟩ := argptr_some checked small
    constructor
    · intro below _ _ fetched'
      obtain rfl := Option.mem_unique fetched fetched'
      have last := below _ getpinfo_last
      unfold KERNBASE at small
      unfold sizeofProcStat
      bv_omega
    · intro fits
      exact getpinfo_inside.below (fits rfl s fetched)
  · exact iff_of_true (syscall_below small valid same) fun getpinfo => absurd getpinfo same

def pageEnd : Proc := ⟨4096, 0, fun _ => 4092, fun _ => none⟩
def pageRead : Proc :=
  ⟨4096, 0, fun a => if a = 4 then 0 else if a = 8 then 4090 else 6, fun _ => some ⟨.pipe, true, false⟩⟩
def calm : World :=
  ⟨fun _ => ⟨false, 0, 0⟩, fun _ => 0, fun _ => false, fun _ => false, false, fun _ => none, true, true⟩

theorem syscall_inside_read : ∃ as, syscall calm pageRead .read = some as ∧ as.length = 6 ∧
    ∀ a ∈ as, a.toNat < pageRead.sz.toNat := by
  obtain ⟨as, valid, length⟩ : ∃ as, syscall calm pageRead .read = some as ∧ as.length = 6 := by decide +kernel
  exact ⟨as, valid, length, (syscall_inside (by decide) valid).mpr (by simp)⟩

theorem syscall_beyond_getpinfo : ∃ as, pageEnd.sz.toNat < KERNBASE ∧ syscall calm pageEnd .getpinfo = some as ∧
    ∃ a ∈ as, pageEnd.sz.toNat ≤ a.toNat := by
  have run : (syscall calm pageEnd .getpinfo).any fun as => as.any fun a => decide (pageEnd.sz.toNat ≤ a.toNat) := by
    decide +kernel
  obtain ⟨as, valid, past⟩ := (Option.any_eq_true _ _).mp run
  obtain ⟨a, member, past⟩ := List.any_eq_true.mp past
  exact ⟨as, by decide, valid, a, member, of_decide_eq_true past⟩

end Xv6.Syscall
