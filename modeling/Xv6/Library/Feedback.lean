import Xv6.Library.Transition

/-!
# Multi-level feedback scheduling over FIFO lists

`n` processors serve processes of type `P` that wait in `L` lists. A processor takes the longest-waiting
process of the first list that is not empty and switches to it up to `slice q` times in a row, as long
as it comes back ready; a process that has used up its slice goes to the tail of list `demote q`. What
the environment decides is in the events: who is created or woken, which processor looks for work, and
whether the process it ran comes back ready.
-/

namespace Xv6.Library.Feedback

structure Rules (L : Nat) where
  top : Fin L
  slice : Fin L → Nat
  demote : Fin L → Fin L
  positive : ∀ q, 0 < slice q

/-- The process a processor serves, the list it came from and the number of switches to it. -/
structure Hand (L : Nat) (P : Type) where
  proc : P
  level : Fin L
  used : Nat

structure Lists (L n : Nat) (P : Type) where
  wait : Fin L → List P
  hand : Fin n → Option (Hand L P)
  -- where a process joins when it wakes up
  level : P → Fin L

inductive Event (n : Nat) (P : Type)
  | create (p : P)
  | wake (p : P)
  | pass (c : Fin n)
  | back (c : Fin n) (ready : Bool)

variable {L n : Nat} {P : Type}

namespace Lists

def take (x : Lists L n P) (q : Fin L) : Lists L n P :=
  { x with wait := Function.update x.wait q (x.wait q).tail }

def serve (x : Lists L n P) (c : Fin n) (hand : Option (Hand L P)) : Lists L n P :=
  { x with hand := Function.update x.hand c hand }

def join [DecidableEq P] (x : Lists L n P) (q : Fin L) (p : P) : Lists L n P :=
  { x with
    wait := Function.update x.wait q (x.wait q ++ [p])
    level := Function.update x.level p q }

/-- The longest-waiting process of the first list that is not empty. -/
def first (x : Lists L n P) : Option (Hand L P) :=
  (List.finRange L).findSome? fun q => (x.wait q).head?.map fun p => ⟨p, q, 1⟩

def Away (x : Lists L n P) (p : P) : Prop := (∀ q, p ∉ x.wait q) ∧ ∀ c, ∀ h ∈ x.hand c, h.proc ≠ p

instance [DecidableEq P] (x : Lists L n P) (p : P) : Decidable (x.Away p) :=
  inferInstanceAs (Decidable (_ ∧ ∀ c, ∀ h ∈ x.hand c, h.proc ≠ p))

end Lists

def idle (level : P → Fin L) : Lists L n P := ⟨fun _ => [], fun _ => none, level⟩

def step [DecidableEq P] (rules : Rules L) (x : Lists L n P) : Event n P → Option (Lists L n P)
  | .create p => if x.Away p then some (x.join rules.top p) else none
  | .wake p => if x.Away p then some (x.join (x.level p) p) else none
  | .pass c =>
    match x.hand c, x.first with
    | none, some h => some ((x.take h.level).serve c (some h))
    | _, _ => none
  | .back c ready =>
    (x.hand c).map fun h =>
      if ready then
        if h.used < rules.slice h.level then x.serve c (some { h with used := h.used + 1 })
        else (x.serve c none).join (rules.demote h.level) h.proc
      else x.serve c none

section Fields
variable (x : Lists L n P) (p r : P) (q l : Fin L) (c d : Fin n) (h : Option (Hand L P))

theorem take_wait : (x.take q).wait l = if l = q then (x.wait q).tail else x.wait l := by
  simp [Lists.take, Function.update_apply]
@[simp] theorem take_level : (x.take q).level = x.level := rfl
@[simp] theorem take_hand : (x.take q).hand = x.hand := rfl
theorem serve_hand : (x.serve c h).hand d = if d = c then h else x.hand d := by
  simp [Lists.serve, Function.update_apply]
@[simp] theorem serve_wait : (x.serve c h).wait = x.wait := rfl
@[simp] theorem serve_level : (x.serve c h).level = x.level := rfl
theorem join_wait [DecidableEq P] : (x.join q p).wait l = if l = q then x.wait q ++ [p] else x.wait l := by
  simp [Lists.join, Function.update_apply]
theorem join_level [DecidableEq P] : (x.join q p).level r = if r = p then q else x.level r := by
  simp [Lists.join, Function.update_apply]
@[simp] theorem join_hand [DecidableEq P] : (x.join q p).hand = x.hand := rfl

end Fields

variable {rules : Rules L} {x y : Lists L n P} {p : P} {q : Fin L} {c : Fin n}

theorem first_eq {rest : List P} (here : x.wait q = p :: rest) (lower : ∀ l < q, x.wait l = []) :
    x.first = some ⟨p, q, 1⟩ := by
  refine List.findSome?_eq_some_iff.mpr ?_
  obtain ⟨before, after, split⟩ := List.append_of_mem (List.mem_finRange q)
  refine ⟨before, q, after, split, by simp [here], fun l early => ?_⟩
  have sorted : (before ++ q :: after).Pairwise (· < ·) := split ▸ List.pairwise_lt_finRange L
  have below := (List.pairwise_append.mp sorted).2.2 l early q (List.mem_cons_self ..)
  simp [lower l below]

/-- No processor switches to its process more often than the slice of its level allows. -/
def Within (rules : Rules L) (x : Lists L n P) : Prop :=
  ∀ c h, x.hand c = some h → 0 < h.used ∧ h.used ≤ rules.slice h.level

theorem first_used {h : Hand L P} (found : x.first = some h) : h.used = 1 := by
  obtain ⟨q, -, here⟩ := List.exists_of_findSome?_eq_some found
  obtain ⟨p, -, rfl⟩ := Option.map_eq_some_iff.mp here
  rfl

theorem Within.serve (within : Within rules x) {hand : Option (Hand L P)}
    (ok : ∀ h, hand = some h → 0 < h.used ∧ h.used ≤ rules.slice h.level) : Within rules (x.serve c hand) := by
  intro d h served
  rw [serve_hand] at served
  split_ifs at served
  · exact ok h served
  · exact within d h served

theorem Within.step [DecidableEq P] {e : Event n P} (within : Within rules x) (action : step rules x e = some y) :
    Within rules y := by
  cases e with
  | create p | wake p =>
    simp only [Feedback.step] at action
    split_ifs at action
    exact Option.some.inj action ▸ within
  | pass c =>
    simp only [Feedback.step] at action
    split at action
    · rename_i h idle found
      have taken : Within rules (x.take h.level) := within
      refine Option.some.inj action ▸ taken.serve fun k same => ?_
      obtain rfl : h = k := Option.some.inj same
      rw [first_used found]
      exact ⟨Nat.one_pos, rules.positive _⟩
    · cases action
  | back c ready =>
    obtain ⟨h, _, rfl⟩ := Option.map_eq_some_iff.mp action
    split_ifs with ready more
    · refine within.serve fun k same => ?_
      obtain rfl : { h with used := h.used + 1 } = k := Option.some.inj same
      exact ⟨Nat.succ_pos _, more⟩
    · have left : Within rules (x.serve c none) := within.serve (by simp)
      exact left
    · exact within.serve (by simp)

theorem Within.exec [DecidableEq P] {es : List (Event n P)} (within : Within rules x)
    (run : Library.exec (Feedback.step rules) x es = some y) : Within rules y :=
  exec_invariant (P := fun _ _ => True) (fun _ _ _ within _ action => within.step action) within run fun _ _ => trivial

end Xv6.Library.Feedback
