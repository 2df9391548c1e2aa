import Xv6.Kernel.Memmove

namespace Xv6.Memmove
open Xv6.Library
open Function (update_of_ne update_self update)

variable {dst src n a : Nat} {m : Bytes}

def moved (dst src n : Nat) (m : Bytes) : Bytes := fun a => if dst ≤ a ∧ a < dst + n then m (src + (a - dst)) else m a

theorem addr_of_lt (small : a < 2 ^ 32) : addr a = a := Nat.mod_eq_of_lt small

theorem update_period (i : Nat) (x : Bytes) :
    update x dst (x src) (src + 1 + i % (dst - src)) = x (src + (i + 1) % (dst - src)) := by
  obtain above | below := (Nat.lt_or_ge src dst).symm
  · rw [Nat.sub_eq_zero_of_le above, Nat.mod_zero, Nat.mod_zero, update_of_ne (by omega)]
    congr 1
    omega
  have small := Nat.mod_lt i (Nat.sub_pos_of_lt below)
  obtain one | many := Nat.eq_or_lt_of_le (Nat.succ_le_of_lt (Nat.sub_pos_of_lt below))
  · rw [← one, Nat.mod_one, Nat.mod_one, show src + 1 + 0 = dst by omega, update_self, Nat.add_zero]
  rw [Nat.add_mod_eq_ite, Nat.mod_eq_of_lt many]
  split_ifs with last
  · rw [show src + 1 + i % (dst - src) = dst by omega, update_self]
    congr 1
    omega
  · rw [update_of_ne (by omega)]
    congr 1
    omega

theorem copyUp_eq (room : dst + n ≤ 2 ^ 32) (room' : src + n ≤ 2 ^ 32) (a : Nat) :
    copyUp n dst src m a = if dst ≤ a ∧ a < dst + n then m (src + (a - dst) % (dst - src)) else m a := by
  induction n generalizing dst src m with
  | zero => exact (if_neg (by omega)).symm
  | succ n ih =>
    have rest : copyUp n (addr (dst + 1)) (addr (src + 1)) (update m dst (m src)) a =
        if dst + 1 ≤ a ∧ a < dst + 1 + n then m (src + (a - dst) % (dst - src)) else update m dst (m src) a := by
      obtain rfl | _ := Nat.eq_zero_or_pos n
      · exact (if_neg (by omega)).symm
      rw [addr_of_lt (by omega), addr_of_lt (by omega), ih (by omega) (by omega), Nat.add_sub_add_right, update_period]
      split_ifs with later
      · rw [show a - (dst + 1) + 1 = a - dst by omega]
      · rfl
    rw [copyUp, rest]
    obtain rfl | other := eq_or_ne a dst
    · rw [if_neg (by omega), if_pos (by omega), update_self, Nat.sub_self, Nat.zero_mod, Nat.add_zero]
    · rw [update_of_ne other]
      exact if_congr (by omega) rfl rfl

theorem copyDown_eq (room : dst + n ≤ 2 ^ 32) (below : src < dst) :
    copyDown n (addr (dst + n)) (addr (src + n)) m = moved dst src n m := by
  induction n generalizing m with
  | zero =>
    funext a
    exact (if_neg (by omega)).symm
  | succ n ih =>
    have last : addr (addr (dst + (n + 1)) + 2 ^ 32 - 1) = addr (dst + n) ∧
      addr (addr (src + (n + 1)) + 2 ^ 32 - 1) = addr (src + n) := by
      simp only [addr]
      omega
    rw [copyDown]
    simp only [last]
    rw [ih (by omega), addr_of_lt (by omega), addr_of_lt (by omega)]
    funext a
    simp only [moved]
    by_cases inside : dst ≤ a ∧ a < dst + n
    · rw [if_pos inside, if_pos (by omega), update_of_ne (by omega)]
    rw [if_neg inside]
    obtain rfl | other := eq_or_ne a (dst + n)
    · rw [update_self, if_pos (by omega), Nat.add_sub_cancel_left]
    · rw [update_of_ne other, if_neg (by omega)]

theorem memmove_moved (room : dst + n ≤ 2 ^ 32) (room' : src + n ≤ 2 ^ 32) :
    Kernel.memmove dst src n m = moved dst src n m := by
  unfold Kernel.memmove
  split_ifs with overlap
  · exact copyDown_eq room overlap.1
  funext a
  rw [copyUp_eq room room', moved]
  refine ite_congr rfl (fun _ => ?_) fun _ => rfl
  obtain above | _ := (Nat.lt_or_ge src dst).symm
  · rw [Nat.sub_eq_zero_of_le above, Nat.mod_zero]
  · have last : addr (src + n) = src + n := addr_of_lt (by omega)
    rw [Nat.mod_eq_of_lt (by omega)]

theorem memmove_overlap_safe (m : Bytes) (dst src n : Nat) (room : dst + n ≤ 2 ^ 32) (room' : src + n ≤ 2 ^ 32) :
    (∀ i < n, Kernel.memmove dst src n m (dst + i) = m (src + i)) ∧
      ∀ a, a < dst ∨ dst + n ≤ a → Kernel.memmove dst src n m a = m a := by
  rw [memmove_moved room room']
  refine ⟨fun i _ => ?_, fun a _ => if_neg (by omega)⟩
  rw [moved, if_pos (by omega), Nat.add_sub_cancel_left]

theorem memmove_overlap_safe_up : Kernel.memmove 1 0 2 (fun a => BitVec.ofNat 8 a) (1 + 1) = 1 :=
  (memmove_overlap_safe (fun a => BitVec.ofNat 8 a) 1 0 2 (by decide) (by decide)).1 1 (by decide)

/-- The two functions leave the same memory unless `dst` lies in the source, above its start, and the bytes of the
source do not repeat from there on. -/
theorem memmove_agree (m : Bytes) (dst src : Nat) (n : Int)
    (nonneg : 0 ≤ n) (room : dst + n ≤ 2 ^ 32) (room' : src + n ≤ 2 ^ 32) :
    User.memmove dst src n m = Kernel.memmove dst src n.toNat m ↔
      ¬(src < dst ∧ dst < src + n) ∨ ∀ i < n.toNat, m (src + i) = m (src + i % (dst - src)) := by
  obtain ⟨k, rfl⟩ := Int.eq_ofNat_of_zero_le nonneg
  rw [Int.toNat_natCast, User.memmove, Int.toNat_natCast, memmove_moved (by omega) (by omega)]
  have same : copyUp k dst src m = moved dst src k m ↔ ∀ i < k, m (src + i) = m (src + i % (dst - src)) := by
    constructor
    · intro same i inside
      have there := congrFun same (dst + i)
      rw [copyUp_eq (by omega) (by omega), moved, if_pos (by omega),
        if_pos (by omega), Nat.add_sub_cancel_left] at there
      exact there.symm
    intro repeats
    funext a
    rw [copyUp_eq (by omega) (by omega), moved]
    exact ite_congr rfl (fun inside => (repeats (a - dst) (by omega)).symm) fun _ => rfl
  rw [same]
  refine ⟨.inr, fun fine i inside => fine.elim (fun _ => ?_) fun repeats => repeats i inside⟩
  obtain above | _ := (Nat.lt_or_ge src dst).symm
  · rw [Nat.sub_eq_zero_of_le above, Nat.mod_zero]
  · rw [Nat.mod_eq_of_lt (by omega)]

theorem memmove_agree_down :
    User.memmove 0 1 2 (fun a => BitVec.ofNat 8 a) = Kernel.memmove 0 1 2 fun a => BitVec.ofNat 8 a :=
  (memmove_agree (fun a => BitVec.ofNat 8 a) 0 1 2 (by decide) (by decide) (by decide)).mpr (.inl (by decide))

theorem memmove_up_differs : User.memmove 1 0 2 (fun a => BitVec.ofNat 8 a) 2 = 0 ∧
    Kernel.memmove 1 0 2 (fun a => BitVec.ofNat 8 a) 2 = 1 := by
  decide

end Xv6.Memmove
