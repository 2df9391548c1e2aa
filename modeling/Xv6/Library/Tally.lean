import Xv6.Library.Instances

/-!
# Sums of which one term changes
-/

namespace Xv6.Library

open Finset

variable {ι : Type*} [Fintype ι] {i : ι} {f g : ι → Nat}

theorem le_sum (f : ι → Nat) (i : ι) : f i ≤ ∑ j, f j :=
  single_le_sum (fun _ _ => Nat.zero_le _) (mem_univ i)

variable [DecidableEq ι]

theorem pair_le_sum (f : ι → Nat) {i j : ι} (ne : i ≠ j) : f i + f j ≤ ∑ k, f k := by
  have first := add_sum_erase univ f (mem_univ j)
  have second := single_le_sum (f := f) (fun _ _ => Nat.zero_le _) (mem_erase.mpr ⟨ne, mem_univ i⟩)
  omega

theorem sum_swap_le (le : ∀ j, j ≠ i → f j ≤ g j) : ∑ j, f j + g i ≤ ∑ j, g j + f i := by
  have left := add_sum_erase univ f (mem_univ i)
  have right := add_sum_erase univ g (mem_univ i)
  have rest : ∑ j ∈ univ.erase i, f j ≤ ∑ j ∈ univ.erase i, g j :=
    sum_le_sum fun j member => le j (ne_of_mem_erase member)
  omega

omit [Fintype ι] in
theorem sum_swap_on {M : Type*} [AddCommMonoid M] {f g : ι → M} {s : Finset ι} (member : i ∈ s)
    (same : ∀ j, j ≠ i → f j = g j) : ∑ j ∈ s, f j + g i = ∑ j ∈ s, g j + f i := by
  have rest : ∑ j ∈ s.erase i, f j = ∑ j ∈ s.erase i, g j :=
    sum_congr rfl fun j others => same j (ne_of_mem_erase others)
  rw [← add_sum_erase s f member, ← add_sum_erase s g member, rest,
    add_right_comm, add_comm (f i), add_right_comm, add_comm (g i),
    add_right_comm]

theorem sum_swap {M : Type*} [AddCommMonoid M] {f g : ι → M} (same : ∀ j, j ≠ i → f j = g j) :
    ∑ j, f j + g i = ∑ j, g j + f i := sum_swap_on (mem_univ i) same

theorem sum_update {M α : Type*} [AddCommMonoid M] (f : α → M) (g : ι → α) (i : ι) (x : α) :
    ∑ j, f (Function.update g i x j) + f (g i) = ∑ j, f (g j) + f x := by
  have swap := sum_swap (i := i) (f := fun j => f (Function.update g i x j)) (g := fun j => f (g j)) fun j other => by
    simp only [Function.update_of_ne other]
  simpa only [Function.update_self] using swap

section Hits
variable {α : Type*} [DecidableEq α]

/-- How many places of a table hold `a`. -/
def hits (table : ι → Option α) (a : α) : Int := ∑ i, if table i = some a then 1 else 0

theorem hits_update (table : ι → Option α) (i : ι) (x : Option α) (a : α) :
    hits (Function.update table i x) a + (if table i = some a then 1 else 0) =
      hits table a + if x = some a then 1 else 0 :=
  sum_update (fun y => if y = some a then (1 : Int) else 0) table i x

omit [DecidableEq ι] in
theorem hits_nonneg (table : ι → Option α) (a : α) : 0 ≤ hits table a :=
  sum_nonneg fun _ _ => by split_ifs <;> omega

omit [DecidableEq ι] in
theorem hits_pos {table : ι → Option α} {a : α} (member : table i = some a) : 1 ≤ hits table a := by
  have term := single_le_sum (f := fun j => if table j = some a then (1 : Int) else 0)
    (fun j _ => by split_ifs <;> omega) (mem_univ i)
  rw [if_pos member] at term
  exact term

end Hits

end Xv6.Library
