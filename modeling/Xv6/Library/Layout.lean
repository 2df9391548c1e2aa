import Xv6.Library.Instances

/-!
# Numbers, bits and strings in an array of bytes

An array of bytes read as little-endian numbers, as an array of bits, and written in pieces. A store is seen by a load
of the same place and not by a load of another place.
-/

namespace Xv6.Library

abbrev Byte := BitVec 8

abbrev Bytes := Nat → Byte

variable {b b' : Bytes} {o o' w w' v i j : Nat} {src : List Byte}

/-- The little-endian number of `w` bytes at offset `o`. -/
def field (b : Bytes) (o : Nat) : Nat → Nat
  | 0 => 0
  | w + 1 => (b o).toNat + 256 * field b (o + 1) w

def setField (b : Bytes) (o w v : Nat) : Bytes := fun i =>
  if o ≤ i ∧ i < o + w then BitVec.ofNat 8 (v / 256 ^ (i - o)) else b i

theorem field_congr (same : ∀ i, o ≤ i → i < o + w → b i = b' i) : field b o w = field b' o w := by
  induction w generalizing o with
  | zero => rfl
  | succ w ih => rw [field, field, same o (by omega) (by omega), ih fun i _ _ => same i (by omega) (by omega)]

theorem field_zero (o w : Nat) : field (fun _ => 0) o w = 0 := by
  induction w generalizing o with
  | zero => rfl
  | succ w ih =>
    rw [field, ih]
    rfl

theorem field_setField_mod (b : Bytes) (o w v : Nat) : field (setField b o w v) o w = v % 256 ^ w := by
  induction w generalizing o v b with
  | zero => simp [field, Nat.mod_one]
  | succ w ih =>
    have rest : field (setField b o (w + 1) v) (o + 1) w = field (setField b (o + 1) w (v / 256)) (o + 1) w := by
      refine field_congr fun i _ _ => ?_
      simp only [setField]
      have next : i - o = (i - (o + 1)).succ := by omega
      rw [if_pos (by omega), if_pos (by omega), Nat.div_div_eq_div_mul, ← Nat.pow_succ', next]
    rw [field, rest, ih, Nat.pow_succ', Nat.mod_mul]
    simp [setField]

theorem field_setField (small : v < 256 ^ w) : field (setField b o w v) o w = v := by
  rw [field_setField_mod, Nat.mod_eq_of_lt small]

theorem field_setField_ne (apart : o' + w' ≤ o ∨ o + w ≤ o') : field (setField b o w v) o' w' = field b o' w' := by
  refine field_congr fun i _ _ => if_neg ?_
  omega

def bit (b : Bytes) (i : Nat) : Bool := (b (i / 8)).getLsbD (i % 8)

def setBit (b : Bytes) (i : Nat) : Bytes := Function.update b (i / 8) (b (i / 8) ||| BitVec.twoPow 8 (i % 8))

def clearBit (b : Bytes) (i : Nat) : Bytes := Function.update b (i / 8) (b (i / 8) &&& ~~~BitVec.twoPow 8 (i % 8))

theorem bit_setBit (b : Bytes) (i j : Nat) : bit (setBit b i) j = (decide (j = i) || bit b j) := by
  unfold bit setBit
  by_cases byte : j / 8 = i / 8
  · have same : (decide (i % 8 = j % 8)) = decide (j = i) := decide_eq_decide.mpr (by omega)
    rw [byte, Function.update_self, BitVec.getLsbD_or, BitVec.getLsbD_twoPow, same, Bool.or_comm]
    simp [Nat.mod_lt]
  rw [Function.update_of_ne byte]
  have other : j ≠ i := by
    rintro rfl
    exact byte rfl
  simp [other]

/-- `memmove(b + o, src, m)` for the bytes of `src` -/
def splice (b : Bytes) (o : Nat) (src : List Byte) : Bytes := fun i =>
  if o ≤ i ∧ i < o + src.length then src.getD (i - o) 0 else b i

def slice (b : Bytes) (o m : Nat) : List Byte := (List.range m).map fun j => b (o + j)

theorem take_drop_map_range {f : Bytes} (size o m : Nat) :
    (((List.range size).map f).drop o).take m = (List.range (min m (size - o))).map fun i => f (o + i) := by
  refine List.ext_getElem ?_ fun i _ _ => ?_
  · simp
  · simp

theorem map_range_overwrite {f : Bytes} {size : Nat} (start : o ≤ size) :
    ((List.range (max size (o + src.length))).map fun k =>
        if o ≤ k ∧ k < o + src.length then src.getD (k - o) 0 else f k) =
      ((List.range size).map f).take o ++ src ++ ((List.range size).map f).drop (o + src.length) := by
  have front : (((List.range size).map f).take o).length = o := by simpa using start
  refine List.ext_getElem ?_ fun i _ _ => ?_
  · simp only [List.length_append, List.length_map, List.length_range, List.length_take, List.length_drop]
    omega
  simp only [List.getElem_append, List.length_append, front,
    List.getElem_take, List.getElem_drop, List.getElem_map, List.getElem_range]
  by_cases before : i < o
  · rw [if_neg (by omega), dif_pos (by omega), dif_pos before]
  by_cases inside : i < o + src.length
  · rw [if_pos ⟨by omega, inside⟩, dif_pos inside, dif_neg before, List.getD_eq_getElem?_getD,
      List.getElem?_eq_getElem (by omega), Option.getD_some]
  · rw [if_neg (by omega), dif_neg inside]
    congr 1
    omega

end Xv6.Library
