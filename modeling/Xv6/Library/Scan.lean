import Xv6.Library.Instances

/-!
# Scanning for a minimum

A loop over a list that keeps the best element seen so far: an element replaces the best one only if
its key is strictly smaller, so that of several elements with the least key the first one wins.
-/

namespace Xv6.Library

variable {α κ : Type*} [LinearOrder κ]

section Scan
variable (ready : α → Prop) [DecidablePred ready] (key : α → κ)

def visit (best : Option α) (x : α) : Option α :=
  if ready x then
    match best with
    | some b => if key x < key b then some x else some b
    | none => some x
  else best

def scan (xs : List α) : Option α := xs.foldl (visit ready key) none

variable [LinearOrder α]

/-- The element with the least key among those that are ready, the smallest one of several. -/
structure FirstLeast (xs : List α) (m : α) : Prop where
  mem : m ∈ xs
  holds : ready m
  least : ∀ x ∈ xs, ready x → toLex (key m, m) ≤ toLex (key x, x)

end Scan

section Least
variable [LinearOrder α] {ready : α → Prop} {key : α → κ} {xs : List α} {m b x : α}

theorem FirstLeast.unique (h : FirstLeast ready key xs m) (h' : FirstLeast ready key xs b) : m = b := by
  have same := le_antisymm (h.least b h'.mem h'.holds) (h'.least m h.mem h.holds)
  exact (Prod.mk.inj (toLex.injective same)).2

theorem FirstLeast.append (h : FirstLeast ready key xs b) (after : ∀ y ∈ xs, y < x) (hx : ready x) :
    FirstLeast ready key (xs ++ [x]) (if key x < key b then x else b) := by
  split_ifs with smaller
  · refine ⟨by simp, hx, fun y hy ready => ?_⟩
    rcases List.mem_append.mp hy with before | last
    · have best := h.least y before ready
      rw [Prod.Lex.toLex_le_toLex] at best ⊢
      rcases best with lt | ⟨same, -⟩
      · exact .inl (smaller.trans lt)
      · exact .inl (same ▸ smaller)
    · rw [List.mem_singleton.mp last]
  · refine ⟨by simp [h.mem], h.holds, fun y hy ready => ?_⟩
    rcases List.mem_append.mp hy with before | last
    · exact h.least y before ready
    rw [List.mem_singleton.mp last, Prod.Lex.toLex_le_toLex]
    rcases (not_lt.mp smaller).lt_or_eq with lt | same
    · exact .inl lt
    · exact .inr ⟨same, (after b h.mem).le⟩

theorem FirstLeast.skip (h : FirstLeast ready key xs b) (hx : ¬ ready x) : FirstLeast ready key (xs ++ [x]) b := by
  refine ⟨by simp [h.mem], h.holds, fun y hy ready => ?_⟩
  rcases List.mem_append.mp hy with before | last
  · exact h.least y before ready
  · exact absurd (List.mem_singleton.mp last ▸ ready) hx

end Least

variable {ready : α → Prop} [DecidablePred ready] {key : α → κ} {xs : List α} {m x : α}

theorem scan_append : scan ready key (xs ++ [x]) = visit ready key (scan ready key xs) x := by
  simp [scan]

variable [LinearOrder α]

theorem scan_spec (ready : α → Prop) [DecidablePred ready] (key : α → κ) (sorted : xs.Pairwise (· < ·)) :
    (scan ready key xs = none ∧ ∀ x ∈ xs, ¬ ready x) ∨ ∃ m, scan ready key xs = some m ∧ FirstLeast ready key xs m := by
  induction xs using List.reverseRecOn with
  | nil => exact .inl ⟨rfl, by simp⟩
  | append_singleton xs x ih =>
    obtain ⟨front, -, after⟩ := List.pairwise_append.mp sorted
    have last : ∀ y ∈ xs, y < x := fun y hy => after y hy x (by simp)
    rw [scan_append]
    rcases ih front with ⟨nothing, unready⟩ | ⟨b, best, least⟩
    · rw [nothing]
      by_cases hx : ready x
      · refine .inr ⟨x, by simp [visit, hx], by simp, hx, fun y hy ready => ?_⟩
        rcases List.mem_append.mp hy with before | same
        · exact absurd ready (unready y before)
        · rw [List.mem_singleton.mp same]
      refine .inl ⟨by simp [visit, hx], fun y hy => ?_⟩
      rcases List.mem_append.mp hy with before | same
      · exact unready y before
      · rwa [List.mem_singleton.mp same]
    · rw [best]
      by_cases hx : ready x
      · exact .inr ⟨_, by simp only [visit, hx, if_true]; split_ifs <;> rfl, least.append last hx⟩
      · exact .inr ⟨b, by simp [visit, hx], least.skip hx⟩

theorem scan_eq_some_iff (sorted : xs.Pairwise (· < ·)) : scan ready key xs = some m ↔ FirstLeast ready key xs m := by
  rcases scan_spec ready key sorted with ⟨nothing, unready⟩ | ⟨b, best, least⟩
  · rw [nothing]
    exact ⟨(nomatch ·), fun h => absurd h.holds (unready m h.mem)⟩
  · rw [best, Option.some.injEq]
    exact ⟨fun same => same ▸ least, fun h => least.unique h⟩

theorem scan_eq_none_iff (sorted : xs.Pairwise (· < ·)) : scan ready key xs = none ↔ ∀ x ∈ xs, ¬ ready x := by
  rcases scan_spec ready key sorted with ⟨nothing, unready⟩ | ⟨b, best, least⟩
  · exact ⟨fun _ => unready, fun _ => nothing⟩
  · rw [best]
    exact ⟨(nomatch ·), fun h => absurd least.holds (h b least.mem)⟩

end Xv6.Library
