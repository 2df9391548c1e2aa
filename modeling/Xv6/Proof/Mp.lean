import Xv6.Kernel.Mp

namespace Xv6.Mp
open Xv6.Library

variable {conf : Bytes} {length p n : Nat} {s t : Scan} {l : List Nat}

def size (type : Byte) : Nat := if type.toNat = 0 then 20 else 8

/-- From `p` to the end of the table there are entries of known types, at the positions `l`. -/
inductive Entries (conf : Bytes) (length : Nat) : Nat → List Nat → Prop where
  | done {p : Nat} : length ≤ p → Entries conf length p []
  | entry {p : Nat} {l : List Nat} : p < length → (conf p).toNat ≤ 4 → Entries conf length (p + size (conf p)) l →
      Entries conf length p (p :: l)

def visit (conf : Bytes) (s : Scan) (p : Nat) : Scan := turn conf { s with p }

theorem turn_known (known : (conf s.p).toNat ≤ 4) :
    (turn conf s).p = s.p + size (conf s.p) ∧ (turn conf s).ismp = s.ismp := by
  unfold turn size
  split <;> simp_all
  omega

theorem turn_unknown (unknown : 4 < (conf s.p).toNat) : turn conf s = { s with ismp := false } := by
  unfold turn
  split <;> first | omega | rfl

theorem scan_known (entries : Entries conf length p l) (here : s.p = p) :
    scan conf length (l.length + 1) s = some (l.foldl (visit conf) s) ∧ (l.foldl (visit conf) s).ismp = s.ismp := by
  induction entries generalizing s with
  | done =>
    rw [List.length_nil, scan, if_neg (by omega)]
    exact ⟨rfl, rfl⟩
  | entry inside known _ ih =>
    subst here
    obtain ⟨moved, same⟩ := turn_known known
    obtain ⟨run, ismp⟩ := ih moved
    rw [List.length_cons, scan, if_pos inside, run, List.foldl_cons]
    exact ⟨rfl, ismp.trans same⟩

theorem entries_of_scan (ends : scan conf length n s = some t) : ∃ l, Entries conf length s.p l := by
  induction n generalizing s with
  | zero => cases ends
  | succ n ih =>
    by_cases inside : s.p < length
    · rw [scan, if_pos inside] at ends
      obtain ⟨l, entries⟩ := ih ends
      by_cases known : (conf s.p).toNat ≤ 4
      · rw [(turn_known known).1] at entries
        exact ⟨s.p :: l, .entry inside known entries⟩
      · rw [turn_unknown (Nat.not_le.mp known)] at entries
        exact ⟨l, entries⟩
    · exact ⟨[], .done (Nat.not_lt.mp inside)⟩

/-- The scan ends, after one visit of each entry if all types are known and in the panic if one is not, exactly when all
entries it comes to are of known types. -/
theorem mpinit_ends (conf : Bytes) (length : Nat) :
    (∃ turns r, mpinit conf length turns = some r ∧
      ((∃ l, Entries conf length header l ∧ turns = l.length + 1 ∧ r = .ok (l.foldl (visit conf) start)) ∨
        (¬∃ l, Entries conf length header l) ∧ r = .error .unsuitable)) ↔
      ∃ l, Entries conf length header l := by
  constructor
  · rintro ⟨_, r, ends, -⟩
    obtain ⟨s, run, -⟩ := Option.map_eq_some_iff.mp ends
    exact entries_of_scan run
  rintro ⟨l, entries⟩
  obtain ⟨run, ismp⟩ := @scan_known conf length header start l entries rfl
  refine ⟨l.length + 1, .ok (l.foldl (visit conf) start), ?_, .inl ⟨l, entries, rfl, rfl⟩⟩
  rw [mpinit, run, Option.map_some, ismp]
  rfl

/-- A table that `mpconfig` accepts, with one entry of type 5. -/
def oddTable : Bytes := fun i => if i = header then 5 else [80, 67, 77, 80, 45, 0, 1, 157].getD i 0

theorem mpinit_unknown : mpconfig oddTable = some 45 ∧ ¬∃ turns r, mpinit oddTable 45 turns = some r := by
  refine ⟨by decide +kernel, ?_⟩
  rintro ⟨_, r, ends⟩
  obtain ⟨s, run, -⟩ := Option.map_eq_some_iff.mp ends
  obtain ⟨l, entries⟩ := entries_of_scan run
  cases entries with
  | done past => exact absurd past (by decide)
  | entry _ known => exact absurd known (by decide)

end Xv6.Mp
