import Xv6.Library.Instances

/-!
# Ring buffers without a count

A ring of `n` cells with a head and a tail index. The live segment runs from `head` up to, and not
including, `tail`, so `head = tail` is the empty ring and a ring never shows more than `n - 1`
entries: `push` does not look at the head, and the `n`-th live entry empties the ring.
-/

namespace Xv6.Library

structure Ring (n : Nat) (α : Type) where
  head : Fin n
  tail : Fin n
  cells : Fin n → α

namespace Ring

variable {n : Nat} {α : Type} (r : Ring n α)

def advance (i : Fin n) (k : Nat) : Fin n := ⟨(i.val + k) % n, Nat.mod_lt _ i.pos⟩

def next (i : Fin n) : Fin n := advance i 1

def push (r : Ring n α) (x : α) : Ring n α :=
  { r with cells := Function.update r.cells r.tail x, tail := next r.tail }

def drop (r : Ring n α) : Ring n α := { r with head := next r.head }

def count (r : Ring n α) : Nat := (r.tail.val + n - r.head.val) % n

def live (r : Ring n α) : List (Fin n) := (List.range r.count).map (advance r.head)

def toList (r : Ring n α) : List α := r.live.map r.cells

@[simp] theorem push_head (x : α) : (r.push x).head = r.head := rfl
@[simp] theorem push_tail (x : α) : (r.push x).tail = next r.tail := rfl
@[simp] theorem drop_head : r.drop.head = next r.head := rfl
@[simp] theorem drop_tail : r.drop.tail = r.tail := rfl
@[simp] theorem drop_cells : r.drop.cells = r.cells := rfl

theorem next_val (i : Fin n) : (next i).val = if i.val + 1 = n then 0 else i.val + 1 := by
  have bound := i.isLt
  simp only [next, advance]
  split_ifs with wraps
  · rw [wraps, Nat.mod_self]
  · exact Nat.mod_eq_of_lt (by omega)

theorem next_ne (i : Fin n) (two : 2 ≤ n) : next i ≠ i := by
  intro same
  have value := congrArg Fin.val same
  rw [next_val] at value
  split_ifs at value <;> omega

theorem advance_val (i : Fin n) (k : Nat) (small : k ≤ n) :
    (advance i k).val = if i.val + k < n then i.val + k else i.val + k - n := by
  have bound := i.isLt
  simp only [advance]
  split_ifs with within
  · exact Nat.mod_eq_of_lt within
  · rw [Nat.mod_eq_sub_mod (by omega), Nat.mod_eq_of_lt (by omega)]

@[simp] theorem advance_zero (i : Fin n) : advance i 0 = i := by
  apply Fin.ext
  simpa [advance] using Nat.mod_eq_of_lt i.isLt

theorem advance_next (i : Fin n) (k : Nat) : advance (next i) k = advance i (k + 1) := by
  apply Fin.ext
  simp only [next, advance, Nat.mod_add_mod]
  congr 1
  omega

theorem advance_injective (i : Fin n) {j k : Nat} (hj : j < n) (hk : k < n) (same : advance i j = advance i k) :
    j = k := by
  have bound := i.isLt
  have value := congrArg Fin.val same
  rw [advance_val i j hj.le, advance_val i k hk.le] at value
  split_ifs at value <;> omega

theorem count_eq : r.count = if r.head.val ≤ r.tail.val then r.tail.val - r.head.val
      else r.tail.val + n - r.head.val := by
  have hh := r.head.isLt
  have ht := r.tail.isLt
  simp only [count]
  split_ifs with order
  · rw [Nat.mod_eq_sub_mod (by omega), Nat.mod_eq_of_lt (by omega)]
    omega
  · exact Nat.mod_eq_of_lt (by omega)

theorem count_lt : r.count < n := Nat.mod_lt _ r.head.pos

theorem count_eq_zero_iff : r.count = 0 ↔ r.head = r.tail := by
  have hh := r.head.isLt
  have ht := r.tail.isLt
  rw [count_eq, Fin.ext_iff]
  split_ifs <;> omega

theorem advance_head_count : advance r.head r.count = r.tail := by
  have hh := r.head.isLt
  have ht := r.tail.isLt
  apply Fin.ext
  rw [advance_val _ _ r.count_lt.le, count_eq]
  split_ifs <;> omega

theorem advance_ne_tail {k : Nat} (hk : k < r.count) : advance r.head k ≠ r.tail := by
  intro same
  rw [← advance_head_count] at same
  have := advance_injective r.head (hk.trans r.count_lt) r.count_lt same
  omega

theorem count_push (x : α) (room : r.count + 1 < n) : (r.push x).count = r.count + 1 := by
  have hh := r.head.isLt
  have ht := r.tail.isLt
  rw [count_eq] at room ⊢
  rw [count_eq, push_head, push_tail, next_val]
  split_ifs at room ⊢ <;> omega

theorem count_push_full (x : α) (full : r.count + 1 = n) : (r.push x).count = 0 := by
  rw [count_eq_zero_iff, push_head, push_tail, ← advance_head_count r]
  have bound := r.head.isLt
  have within := r.count_lt
  apply Fin.ext
  rw [next_val, advance_val _ _ within.le]
  split_ifs <;> omega

theorem count_drop (live : 0 < r.count) : r.drop.count = r.count - 1 := by
  have hh := r.head.isLt
  have ht := r.tail.isLt
  rw [count_eq] at live ⊢
  rw [count_eq, drop_head, drop_tail, next_val]
  split_ifs at live ⊢ <;> omega

@[simp] theorem length_toList : r.toList.length = r.count := by
  simp [toList, live]

theorem tail_not_live : r.tail ∉ r.live := by
  intro member
  obtain ⟨k, hk, same⟩ := List.mem_map.mp member
  exact advance_ne_tail r (List.mem_range.mp hk) same

theorem mem_toList {r : Ring n α} {x : α} : x ∈ r.toList ↔ ∃ i ∈ r.live, r.cells i = x := by
  simp [toList]

theorem live_drop (some : 0 < r.count) : r.live = r.head :: r.drop.live := by
  obtain ⟨k, hk⟩ := Nat.exists_eq_succ_of_ne_zero some.ne'
  simp only [live, count_drop r some, hk, Nat.succ_eq_add_one, Nat.add_sub_cancel, drop_head,
    List.range_succ_eq_map, List.map_cons, advance_zero, List.map_map]
  congr 1
  apply List.map_congr_left
  intro j _
  exact (advance_next r.head j).symm

theorem toList_drop (some : 0 < r.count) : r.toList = r.cells r.head :: r.drop.toList := by
  rw [toList, live_drop r some, List.map_cons, toList, drop_cells]

theorem live_push (x : α) (room : r.count + 1 < n) : (r.push x).live = r.live ++ [r.tail] := by
  simp only [live, count_push r x room, push_head, List.range_succ,
    List.map_append, List.map_cons, List.map_nil, advance_head_count]

theorem toList_push (x : α) (room : r.count + 1 < n) : (r.push x).toList = r.toList ++ [x] := by
  simp only [toList, live_push r x room, List.map_append, List.map_cons, List.map_nil]
  congr 1
  · apply List.map_congr_left
    intro i member
    have apart : i ≠ r.tail := by
      rintro rfl
      exact tail_not_live r member
    exact Function.update_of_ne apart _ _
  · simp [push]

theorem toList_push_full (x : α) (full : r.count + 1 = n) : (r.push x).toList = [] :=
  List.eq_nil_of_length_eq_zero (by rw [length_toList, count_push_full r x full])

theorem toList_push_sublist (x : α) : (r.push x).toList.Sublist (r.toList ++ [x]) := by
  rcases Nat.lt_or_ge (r.count + 1) n with room | full
  · rw [toList_push r x room]
  · rw [toList_push_full r x (le_antisymm r.count_lt full)]
    exact List.nil_sublist _

theorem toList_eq_nil_iff : r.toList = [] ↔ r.head = r.tail := by
  rw [← count_eq_zero_iff, ← length_toList, List.length_eq_zero_iff]

theorem toList_drops (k : Nat) (live : k ≤ r.count) : (drop^[k] r).toList = r.toList.drop k := by
  induction k generalizing r with
  | zero => rfl
  | succ k ih =>
    have some : 0 < r.count := by omega
    rw [Function.iterate_succ_apply, ih r.drop (by rw [count_drop r some]; omega),
      toList_drop r some, List.drop_succ_cons]

theorem toList_pushes (xs : List α) (room : r.count + xs.length < n) : (xs.foldl push r).toList = r.toList ++ xs := by
  induction xs generalizing r with
  | nil => simp
  | cons x _ ih =>
    rw [List.length_cons] at room
    have less : r.count + 1 < n := by omega
    rw [List.foldl_cons, ih (r.push x) (by rw [count_push r x less]; omega),
      toList_push r x less, List.append_assoc, List.singleton_append]

/-- The entries that a walk from `i` to the tail meets. -/
def Ahead (r : Ring n α) : Fin n → List α → Prop
  | i, [] => i = r.tail
  | i, x :: xs => i ≠ r.tail ∧ r.cells i = x ∧ Ahead r (next i) xs

theorem ahead_toList : r.Ahead r.head r.toList := by
  have walk (k : Nat) (within : k ≤ r.count) : r.Ahead (advance r.head (r.count - k))
    (r.toList.drop (r.count - k)) := by
    induction k with
    | zero =>
      rw [Nat.sub_zero, advance_head_count, ← length_toList, List.drop_length]
      rfl
    | succ k ih =>
      have less : r.count - (k + 1) < r.toList.length := by
        rw [length_toList]
        omega
      have onward : r.count - (k + 1) + 1 = r.count - k := by omega
      rw [List.drop_eq_getElem_cons less, onward]
      refine ⟨advance_ne_tail r (by omega), ?_, ?_⟩
      · simp [toList, live]
      have step : next (advance r.head (r.count - (k + 1))) = advance r.head (r.count - k) := by
        rw [← onward]
        apply Fin.ext
        simp [next, advance, Nat.add_assoc]
      rw [step]
      exact ih (by omega)
  simpa using walk r.count le_rfl

theorem Ahead.frame {r r' : Ring n α} (cells : r'.cells = r.cells) (tail : r'.tail = r.tail) {i : Fin n} {xs : List α}
    (ahead : r.Ahead i xs) : r'.Ahead i xs := by
  induction xs generalizing i with
  | nil => exact ahead.trans tail.symm
  | cons x _ ih => exact ⟨tail ▸ ahead.1, cells ▸ ahead.2.1, ih ahead.2.2⟩

section Seek

/-- Walk from `i` to the tail and return the first cell that is not empty. -/
def seek (r : Ring n (Option α)) : Nat → Fin n → Option α
  | 0, _ => none
  | fuel + 1, i =>
    if i = r.tail then none
    else match r.cells i with
      | some x => some x
      | none => seek r fuel (next i)

def first (r : Ring n (Option α)) : Option α := r.seek n r.head

private theorem seek_eq (r : Ring n (Option α)) (fuel k : Nat) (within : k ≤ r.count) (enough : r.count < k + fuel) :
    r.seek fuel (advance r.head k) =
      ((List.range' k (r.count - k)).map fun j => r.cells (advance r.head j)).findSome? id := by
  induction fuel generalizing k with
  | zero => omega
  | succ _ ih =>
    rw [seek]
    rcases Nat.lt_or_ge k r.count with inside | done
    · rw [if_neg (advance_ne_tail r inside)]
      have split : r.count - k = (r.count - (k + 1)) + 1 := by omega
      rw [split, List.range'_succ, List.map_cons, List.findSome?_cons]
      cases cell : r.cells (advance r.head k) with
      | some x => simp
      | none =>
        have step : next (advance r.head k) = advance r.head (k + 1) := by
          apply Fin.ext
          simp [next, advance, Nat.add_assoc]
        simpa [step] using ih (k + 1) (by omega) (by omega)
    · have last : k = r.count := by omega
      rw [last, advance_head_count, if_pos rfl]
      simp

theorem first_eq (r : Ring n (Option α)) : r.first = r.toList.findSome? id := by
  have search := seek_eq r n 0 (Nat.zero_le _) (by simpa using r.count_lt)
  simpa [first, toList, live, List.range_eq_range', Function.comp_def] using search

end Seek

end Ring

end Xv6.Library
