import Xv6.Kernel.Fs

namespace Xv6.Fs
open Xv6.Library

variable {data : Bytes} {i j o addr : Nat} {d : Dinode} {addrs : Fin (NDIRECT + 1) → UInt32}

theorem getAddr_setAddr (small : addr < 2 ^ 32) :
    getAddr (setAddr data i addr) i = addr := field_setField (by simpa using small)

theorem getAddr_setAddr_ne (other : j ≠ i) : getAddr (setAddr data i addr) j = getAddr data j :=
  field_setField_ne (by omega)

@[simp] theorem getAddr_zero (i : Nat) : getAddr (fun _ => 0) i = 0 := field_zero ..

theorem field_putAddrs (k : Fin (NDIRECT + 1)) : field (putAddrs data o addrs) (o + 4 * k.val) 4 = (addrs k).toNat := by
  have bound := k.isLt
  have same : field (putAddrs data o addrs)
    (o + 4 * k.val) 4 = field (setField data (o + 4 * k.val) 4 (addrs k).toNat) (o + 4 * k.val) 4 := by
    refine field_congr fun i le lt => ?_
    have index : (i - o) / 4 = k.val := by omega
    have place : (i - o) % 4 = i - (o + 4 * k.val) := by omega
    rw [putAddrs, setField, dif_pos (by omega), if_pos ⟨le, lt⟩, place]
    simp only [index]
  rw [same, field_setField]
  exact (addrs k).toNat_lt

theorem field_putAddrs_ne {p w : Nat} (apart : p + w ≤ o ∨ o + 52 ≤ p) :
    field (putAddrs data o addrs) p w = field data p w :=
  field_congr fun i le lt => dif_neg (by simp only [NDIRECT]; omega)

theorem getShort_eq {x : UInt16} (same : field data o 2 = x.toNat) : getShort data o = x := by
  rw [getShort, same, UInt16.ofNat_toNat]

theorem getInt_eq {x : UInt32} (same : field data o 4 = x.toNat) : getInt data o = x := by
  rw [getInt, same, UInt32.ofNat_toNat]

theorem getDinode_putDinode : getDinode (putDinode data i d) i = d := by
  have short (x : UInt16) : x.toNat < 256 ^ 2 := x.toNat_lt
  have int (x : UInt32) : x.toNat < 256 ^ 4 := x.toNat_lt
  unfold getDinode putDinode
  dsimp only
  congr 1
  case e_addrs =>
    funext k
    exact getInt_eq (field_putAddrs k)
  case e_size =>
    refine getInt_eq ?_
    rw [field_putAddrs_ne (by omega), field_setField (int _)]
  -- the fields stored later lie behind
  all_goals
    refine getShort_eq ?_
    simp (disch := omega) only [field_putAddrs_ne, field_setField_ne]
    exact field_setField (short _)

theorem getDinode_congr {data' : Bytes}
    (same : ∀ p w, 64 * (i % IPB) ≤ p → p + w ≤ 64 * (i % IPB) + 64 → field data' p w = field data p w) :
    getDinode data' i = getDinode data i := by
  unfold getDinode getShort getInt
  dsimp only
  congr 1
  case e_addrs =>
    funext k
    have bound := k.isLt
    rw [same _ _ (by omega) (by simp only [NDIRECT] at bound; omega)]
  all_goals rw [same _ _ (by omega) (by omega)]

theorem getDinode_putDinode_ne (other : j % IPB ≠ i % IPB) : getDinode (putDinode data i d) j = getDinode data j := by
  refine getDinode_congr fun p w _ _ => ?_
  unfold putDinode
  dsimp only
  rw [field_putAddrs_ne (by omega), field_setField_ne (by omega),
    field_setField_ne (by omega), field_setField_ne (by omega),
    field_setField_ne (by omega), field_setField_ne (by omega)]

end Xv6.Fs
