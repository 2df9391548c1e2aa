import Xv6.Library.Instances

/-!
# Windows of a ring with free-running counters

A ring of `N` cells is addressed by counters of 32 bits that are reduced modulo `N` on access and never reset. When `N`
divides `2 ^ 32` the wrap of a counter is not seen: the cells from a counter on are a window of at most `N` values that
grows and shrinks at both ends.
-/

namespace Xv6.Library

variable {N : Nat} [NeZero N] {α : Type} {lo hi : UInt32} {k : Nat} {cells : Fin N → α}

def gap (lo hi : UInt32) : Nat := (hi - lo).toNat

theorem gap_spec (lo hi : UInt32) : hi = lo + UInt32.ofNat (gap lo hi) := by
  unfold gap
  rw [UInt32.ofNat_toNat, UInt32.add_comm, UInt32.sub_add_cancel]

theorem gap_add (lt : k < 2 ^ 32) : gap lo (lo + UInt32.ofNat k) = k := by
  unfold gap
  rw [UInt32.add_comm, UInt32.add_sub_cancel, UInt32.toNat_ofNat']
  exact Nat.mod_eq_of_lt lt

theorem ofNat_succ (k : Nat) : UInt32.ofNat (k + 1) = 1 + UInt32.ofNat k := by
  rw [UInt32.ofNat_add, UInt32.add_comm]
  rfl

theorem gap_lt (lo hi : UInt32) : gap lo hi < 2 ^ 32 := UInt32.toNat_lt _

@[simp] theorem gap_self (lo : UInt32) : gap lo lo = 0 := by
  simp [gap]

theorem gap_eq_zero : gap lo hi = 0 ↔ lo = hi := by
  constructor
  · intro none
    rw [gap_spec lo hi, none]
    simp
  · rintro rfl
    exact gap_self _

theorem gap_succ (room : gap lo hi + 1 < 2 ^ 32) : gap lo (hi + 1) = gap lo hi + 1 := by
  have ahead : hi + 1 = lo + UInt32.ofNat (gap lo hi + 1) := by
    rw [ofNat_succ, UInt32.add_comm 1, ← UInt32.add_assoc, ← gap_spec]
  rw [ahead, gap_add room]

theorem gap_pred (apart : lo ≠ hi) : gap lo hi = gap (lo + 1) hi + 1 := by
  obtain ⟨k, ahead⟩ := Nat.exists_eq_succ_of_ne_zero fun none => apart (gap_eq_zero.mp none)
  have lt := gap_lt lo hi
  have same : hi = lo + 1 + UInt32.ofNat k := by
    have spec := gap_spec lo hi
    rw [ahead] at spec
    rw [UInt32.add_assoc, ← ofNat_succ]
    exact spec
  have behind : gap (lo + 1) hi = k := by
    rw [same]
    exact gap_add (by omega)
  omega

theorem gap_back (apart : lo ≠ hi) : gap lo hi = gap lo (hi - 1) + 1 := by
  have behind : hi - 1 + 1 = hi := UInt32.sub_add_cancel ..
  have short : gap lo (hi - 1) + 1 < 2 ^ 32 := by
    have lt := gap_lt lo (hi - 1)
    refine lt_of_le_of_ne (by omega) fun _ => apart ?_
    have last : gap lo (hi - 1) = 2 ^ 32 - 1 := by omega
    rw [← behind, gap_spec lo (hi - 1), last, UInt32.add_assoc]
    exact (UInt32.add_zero lo).symm
  rw [← gap_succ short, behind]

theorem gap_trans {mid : UInt32} (short : gap lo mid + gap mid hi < 2 ^ 32) : gap lo hi = gap lo mid + gap mid hi := by
  have ahead : hi = lo + UInt32.ofNat (gap lo mid + gap mid hi) := by
    rw [UInt32.ofNat_add, ← UInt32.add_assoc, ← gap_spec, ← gap_spec]
  conv_lhs => rw [ahead]
  exact gap_add short

def slot (N : Nat) [NeZero N] (i : UInt32) : Fin N := Fin.ofNat N i.toNat

def window (cells : Fin N → α) (lo : UInt32) (count : Nat) : List α :=
  (List.range count).map fun k => cells (slot N (lo + UInt32.ofNat k))

theorem slot_add (fits : N ∣ 2 ^ 32) (i : UInt32) (k : Nat) :
    (slot N (i + UInt32.ofNat k)).val = (i.toNat + k) % N := by
  simp only [slot, Fin.val_ofNat, UInt32.toNat_add, UInt32.toNat_ofNat', Nat.add_mod_mod]
  exact Nat.mod_mod_of_dvd _ fits

theorem slot_ne (fits : N ∣ 2 ^ 32) {i : UInt32} {j : Nat} (lt : j < k) (close : k < j + N) :
    slot N (i + UInt32.ofNat j) ≠ slot N (i + UInt32.ofNat k) := by
  intro same
  have value := congrArg Fin.val same
  rw [slot_add fits, slot_add fits] at value
  have divides := Nat.dvd_of_mod_eq_zero (Nat.sub_mod_eq_zero_of_mod_eq value.symm)
  have le := Nat.le_of_dvd (by omega) divides
  omega

@[simp] theorem length_window (cells : Fin N → α) (lo : UInt32) (count : Nat) :
    (window cells lo count).length = count := by
  simp [window]

@[simp] theorem window_zero (cells : Fin N → α) (lo : UInt32) : window cells lo 0 = [] := rfl

theorem window_succ (cells : Fin N → α) (lo : UInt32) (count : Nat) :
    window cells lo (count + 1) = window cells lo count ++ [cells (slot N (lo + UInt32.ofNat count))] := by
  simp [window, List.range_succ]

theorem window_cons (cells : Fin N → α) (lo : UInt32) (count : Nat) :
    window cells lo (count + 1) = cells (slot N lo) :: window cells (lo + 1) count := by
  simp only [window, List.range_succ_eq_map, List.map_cons, List.map_map]
  congr 1
  · simp
  · refine List.map_congr_left fun k _ => ?_
    simp only [Function.comp_apply]
    rw [show k.succ = k + 1 from rfl, ofNat_succ, UInt32.add_assoc]

theorem window_add (cells : Fin N → α) (lo : UInt32) (j k : Nat) :
    window cells lo (j + k) = window cells lo j ++ window cells (lo + UInt32.ofNat j) k := by
  simp only [window, List.range_add, List.map_append, List.map_map]
  congr 1
  refine List.map_congr_left fun i _ => ?_
  simp only [Function.comp_apply]
  rw [UInt32.ofNat_add, UInt32.add_assoc]

theorem window_update (fits : N ∣ 2 ^ 32) {count : Nat} {a : α} (le : count ≤ k) (room : k < N) :
    window (Function.update cells (slot N (lo + UInt32.ofNat k)) a) lo count = window cells lo count := by
  refine List.map_congr_left fun j member => ?_
  have lt := List.mem_range.mp member
  exact Function.update_of_ne (slot_ne fits (by omega) (by omega)) ..

theorem window_push (fits : N ∣ 2 ^ 32) {count : Nat} {a : α} (room : count < N) :
    window (Function.update cells (slot N (lo + UInt32.ofNat count)) a) lo
      (count + 1) = window cells lo count ++ [a] := by
  rw [window_succ, window_update fits (le_refl _) room, Function.update_self]

end Xv6.Library
