import Xv6.Library.Instances

/-!
# Doubly linked rings

The pointers `next` and `prev` of a set of cells and of a head, which is `none`. `Path k x l y` says that `next` leads
from `x` through the cells `l` to `y`, and `prev` back; a ring is a path from the head to itself.
-/

namespace Xv6.Library

structure Links (α : Type*) where
  next : Option α → Option α
  prev : Option α → Option α

namespace Links

variable {α : Type*} {k m : Links α} {b c : α} {l l' : List α} {x y z : Option α}

def Path (k : Links α) : Option α → List α → Option α → Prop
  | x, [], y => k.next x = y ∧ k.prev y = x
  | x, b :: l, y => (k.next x = some b ∧ k.prev (some b) = x) ∧ Path k (some b) l y

def Ring (k : Links α) (l : List α) : Prop := l.Nodup ∧ k.Path none l none

theorem path_append : k.Path x (l ++ b :: l') y ↔ k.Path x l (some b) ∧ k.Path (some b) l' y := by
  induction l generalizing x with
  | nil => rfl
  | cons c l ih => simp only [List.cons_append, Path, ih, and_assoc]

section
variable (path : k.Path x l y)
include path

theorem Path.congr (head : m.next x = k.next x) (last : m.prev y = k.prev y)
    (next : ∀ c ∈ l, m.next (some c) = k.next (some c)) (prev : ∀ c ∈ l, m.prev (some c) = k.prev (some c)) :
    m.Path x l y := by
  induction l generalizing x with
  | nil => exact ⟨head.trans path.1, last.trans path.2⟩
  | cons b l ih =>
    obtain ⟨first, rest⟩ := path
    refine ⟨⟨head.trans first.1, (prev b List.mem_cons_self).trans first.2⟩, ?_⟩
    exact ih rest (next b List.mem_cons_self) (fun c member => next c (List.mem_cons_of_mem b member))
      fun c member => prev c (List.mem_cons_of_mem b member)

theorem Path.prev_mem : k.prev y = x ∨ ∃ c ∈ l, k.prev y = some c := by
  induction l generalizing x with
  | nil => exact .inl path.2
  | cons b l ih =>
    rcases ih path.2 with here | ⟨c, member, there⟩
    · exact .inr ⟨b, List.mem_cons_self, here⟩
    · exact .inr ⟨c, List.mem_cons_of_mem b member, there⟩

theorem Path.next_prev : k.next (k.prev y) = y := by
  induction l generalizing x with
  | nil => rw [path.2, path.1]
  | cons b l ih => exact ih path.2

theorem Path.inverse :
    k.prev (k.next x) = x ∧ ∀ c ∈ l, k.prev (k.next (some c)) = some c ∧ k.next (k.prev (some c)) = some c := by
  induction l generalizing x with
  | nil => exact ⟨by rw [path.1, path.2], by simp⟩
  | cons b l ih =>
    obtain ⟨first, rest⟩ := path
    obtain ⟨here, there⟩ := ih rest
    refine ⟨by rw [first.1, first.2], fun c member => ?_⟩
    rcases List.mem_cons.mp member with rfl | member
    · exact ⟨here, by rw [first.2, first.1]⟩
    · exact there c member

theorem Path.redirect (nodup : l.Nodup) (start : ∀ c ∈ l, some c ≠ x)
    (bent : m.next (k.prev y) = z ∧ m.prev z = k.prev y) (next : ∀ w, w ≠ k.prev y → m.next w = k.next w)
    (prev : ∀ c ∈ l, m.prev (some c) = k.prev (some c)) : m.Path x l z := by
  induction l generalizing x with
  | nil =>
    rw [path.2] at bent
    exact bent
  | cons b l ih =>
    obtain ⟨first, rest⟩ := path
    obtain ⟨fresh, nodup⟩ := List.nodup_cons.mp nodup
    have other : x ≠ k.prev y := by
      rintro rfl
      rcases rest.prev_mem with here | ⟨c, member, there⟩
      · exact start b List.mem_cons_self here.symm
      · exact start c (List.mem_cons_of_mem b member) there.symm
    refine ⟨⟨(next x other).trans first.1, (prev b List.mem_cons_self).trans first.2⟩, ?_⟩
    refine ih rest nodup (fun c member => ?_) fun c member => prev c (List.mem_cons_of_mem b member)
    rintro ⟨rfl⟩
    exact fresh member

theorem Path.flip : Path ⟨k.prev, k.next⟩ y l.reverse x := by
  induction l generalizing x with
  | nil => exact ⟨path.2, path.1⟩
  | cons b l ih =>
    rw [List.reverse_cons, path_append]
    exact ⟨ih path.2, path.1.2, path.1.1⟩

theorem Path.iterate : (∀ i (inside : i < l.length), k.next^[i + 1] x = some l[i]) ∧ k.next^[l.length + 1] x = y := by
  induction l generalizing x with
  | nil => exact ⟨fun i inside => absurd inside (Nat.not_lt_zero i), path.1⟩
  | cons b l ih =>
    obtain ⟨first, rest⟩ := path
    obtain ⟨inner, last⟩ := ih rest
    refine ⟨fun i inside => ?_, ?_⟩
    · cases i with
      | zero => exact first.1
      | succ i =>
        rw [Function.iterate_succ_apply, first.1, inner i (Nat.lt_of_succ_lt_succ inside)]
        rfl
    · rw [List.length_cons, Function.iterate_succ_apply, first.1, last]

end

/-- The first cell for which `p` holds, looked for along `step` up to the head, in at most as many steps as given. -/
def scan (step : Option α → Option α) (p : α → Bool) : Nat → Option α → Option (Option α)
  | _, none => some none
  | 0, some _ => none
  | fuel + 1, some b => if p b then some (some b) else scan step p fuel (step (some b))

theorem Path.scan (path : k.Path x l none) (p : α → Bool) {fuel : Nat} (enough : l.length ≤ fuel) :
    Links.scan k.next p fuel (k.next x) = some (l.find? p) := by
  induction l generalizing x fuel with
  | nil =>
    rw [path.1]
    cases fuel <;> rfl
  | cons b l ih =>
    obtain ⟨first, rest⟩ := path
    cases fuel with
    | zero => exact absurd enough (Nat.not_succ_le_zero _)
    | succ =>
      rw [first.1, Links.scan, List.find?_cons]
      cases p b with
      | true => rfl
      | false => exact ih rest (Nat.le_of_succ_le_succ enough)

variable [DecidableEq α]

def setNext (k : Links α) (x y : Option α) : Links α := { k with next := Function.update k.next x y }

def setPrev (k : Links α) (x y : Option α) : Links α := { k with prev := Function.update k.prev x y }

def push (k : Links α) (b : α) : Links α :=
  let k := k.setNext (some b) (k.next none)
  let k := k.setPrev (some b) none
  let k := k.setPrev (k.next none) (some b)
  k.setNext none (some b)

def unlink (k : Links α) (b : α) : Links α :=
  let k := k.setPrev (k.next (some b)) (k.prev (some b))
  k.setNext (k.prev (some b)) (k.next (some b))

theorem push_next_head (k : Links α) (b : α) : (k.push b).next none = some b := by simp [push, setNext]

theorem push_next_self (k : Links α) (b : α) : (k.push b).next (some b) = k.next none := by
  simp [push, setNext, setPrev]

theorem push_next_of_ne (k : Links α) (other : c ≠ b) : (k.push b).next (some c) = k.next (some c) := by
  simp [push, setNext, setPrev, other]

theorem push_prev_self (k : Links α) (other : k.next none ≠ some b) : (k.push b).prev (some b) = none := by
  simp [push, setNext, setPrev, Ne.symm other]

theorem push_prev_first (k : Links α) (b : α) : (k.push b).prev (k.next none) = some b := by
  simp [push, setNext, setPrev]

theorem push_prev_of_ne (k : Links α) (other : x ≠ some b) (later : x ≠ k.next none) :
    (k.push b).prev x = k.prev x := by
  simp [push, setNext, setPrev, other, later]

theorem Ring.push (ring : k.Ring l) (fresh : b ∉ l) : (k.push b).Ring (b :: l) := by
  obtain ⟨nodup, path⟩ := ring
  refine ⟨List.nodup_cons.mpr ⟨fresh, nodup⟩, ?_⟩
  cases l with
  | nil =>
    have first : k.next none = none := path.1
    have last := push_prev_first k b
    rw [first] at last
    exact ⟨⟨push_next_head k b, push_prev_self k (by simp [first])⟩, (push_next_self k b).trans first, last⟩
  | cons c l =>
    obtain ⟨⟨first, _⟩, rest⟩ := path
    have second := push_prev_first k b
    rw [first] at second
    rw [List.mem_cons, not_or] at fresh
    obtain ⟨apart, fresh⟩ := fresh
    refine ⟨⟨push_next_head k b, push_prev_self k (by simp [first, Ne.symm apart])⟩,
      ⟨(push_next_self k b).trans first, second⟩, ?_⟩
    have others {d : α} (member : d ∈ l) : d ≠ b ∧ d ≠ c := by
      refine ⟨?_, ?_⟩
      · rintro rfl
        exact fresh member
      · rintro rfl
        exact (List.nodup_cons.mp nodup).1 member
    refine rest.congr (push_next_of_ne k (Ne.symm apart)) (push_prev_of_ne k (by simp) (by simp [first])) ?_ ?_
    · exact fun d member => push_next_of_ne k (others member).1
    · exact fun d member => push_prev_of_ne k (by simp [(others member).1]) (by simp [first, (others member).2])

theorem Ring.unlink (ring : k.Ring l) (member : b ∈ l) : (k.unlink b).Ring (l.erase b) := by
  obtain ⟨nodup, path⟩ := ring
  refine ⟨nodup.erase b, ?_⟩
  obtain ⟨l, r, rfl⟩ := List.append_of_mem member
  obtain ⟨left, right⟩ := path_append.mp path
  rw [List.nodup_append] at nodup
  obtain ⟨nodupLeft, nodupRight, apart⟩ := nodup
  obtain ⟨fresh, nodupRight⟩ := List.nodup_cons.mp nodupRight
  have notLeft : b ∉ l := fun member => apart b member b List.mem_cons_self rfl
  rw [List.erase_append_right _ notLeft, List.erase_cons_head]
  -- where `b` stands between: `next` of the cell before and `prev` of the cell after are bent
  have loose : k.next (some b) ≠ some b := by
    cases r with
    | nil => simp [right.1]
    | cons c r =>
      rw [right.1.1]
      rintro ⟨rfl⟩
      exact fresh List.mem_cons_self
  have prevs : (k.unlink b).prev = Function.update k.prev (k.next (some b)) (k.prev (some b)) := rfl
  have nexts : (k.unlink b).next = Function.update k.next (k.prev (some b)) (k.next (some b)) := by
    simp [Links.unlink, setPrev, setNext, Ne.symm loose]
  have before : k.prev (some b) = none ∨ ∃ c ∈ l, k.prev (some b) = some c := left.prev_mem
  have bent : (k.unlink b).next (k.prev (some b)) = k.next (some b) ∧
    (k.unlink b).prev (k.next (some b)) = k.prev (some b) := by
    simp [prevs, nexts]
  have turned {y : Option α} (after : k.next (some b) = y)
    (outside : ∀ c ∈ l, some c ≠ y) : (k.unlink b).Path none l y := by
    refine left.redirect nodupLeft (by simp) (after ▸ bent) (fun w other => ?_) fun c member => ?_
    · simp [nexts, other]
    · simp [prevs, after, outside c member]
  cases r with
  | nil =>
    rw [List.append_nil]
    exact turned right.1 (by simp)
  | cons c r =>
    obtain ⟨first, rest⟩ := right
    obtain ⟨once, nodupRight⟩ := List.nodup_cons.mp nodupRight
    have behind {d : α} (member : d ∈ c :: r) : some d ≠ k.prev (some b) := by
      intro same
      rcases before with head | ⟨e, inside, there⟩
      · simp [head] at same
      · obtain rfl : d = e := by simpa [there] using same
        exact apart d inside d (List.mem_cons_of_mem b member) rfl
    refine path_append.mpr ⟨turned first.1 fun d inside => ?_, rest.congr ?_ ?_ ?_ ?_⟩
    · intro same
      obtain rfl : d = c := Option.some.inj same
      exact apart d inside d (List.mem_cons_of_mem b List.mem_cons_self) rfl
    · simp [nexts, behind List.mem_cons_self]
    · simp [prevs, first.1]
    · intro d member
      simp [nexts, behind (List.mem_cons_of_mem c member)]
    · intro d inside
      have other : d ≠ c := fun same => once (same ▸ inside)
      simp [prevs, first.1, other]

end Links

end Xv6.Library
