import Xv6.Kernel.Scheduler
import Xv6.Library.Scan

namespace Xv6.Proof
open Xv6.Library Xv6.Kernel State

variable {n : Nat} {s : State n} {p : Slot}

def FirstRunnable (s : State n) (p : Slot) : Prop :=
  (s.proc p).state = .runnable ∧ ∀ r, (s.proc r).state = .runnable → p ≤ r

def LeastPriority (s : State n) (p : Slot) : Prop :=
  (s.proc p).state = .runnable ∧ ∀ r, (s.proc r).state = .runnable →
    toLex (toLex ((s.proc p).priority, (s.proc p).lastExecuted), p) ≤
      toLex (toLex ((s.proc r).priority, (s.proc r).lastExecuted), r)

def LeastCtime (s : State n) (p : Slot) : Prop :=
  (s.proc p).state = .runnable ∧ ∀ r, (s.proc r).state = .runnable →
    toLex ((s.proc p).ctime, p) ≤ toLex ((s.proc r).ctime, r)

theorem firstRunnable_eq_some_iff : s.firstRunnable = some p ↔ FirstRunnable s p := by
  unfold firstRunnable
  rw [List.find?_eq_some_iff_getElem]
  constructor
  · rintro ⟨runnable, i, _, rfl, before⟩
    refine ⟨by simpa using runnable, fun r hr => ?_⟩
    by_contra later
    have lower : r.val < i := by simpa [Fin.lt_def] using later
    simpa [hr] using before r.val lower
  rintro ⟨runnable, first⟩
  refine ⟨by simpa using runnable, p.val, by simp, by simp, fun j lower => ?_⟩
  have other : (s.proc ⟨j, by omega⟩).state ≠ .runnable := fun hj =>
    absurd (first _ hj) (by simpa [Fin.le_def] using lower)
  simpa using other

theorem firstRunnable_eq_none_iff : s.firstRunnable = none ↔ ∀ p, (s.proc p).state ≠ .runnable := by
  unfold firstRunnable
  simp

theorem highPVisit_eq (s : State n) : s.highPVisit = visit (fun p => (s.proc p).state = .runnable)
      fun p => toLex ((s.proc p).priority, (s.proc p).lastExecuted) := by
  funext best p
  cases best with
  | none => rfl
  | some h =>
    by_cases runnable : (s.proc p).state = .runnable
    · simp only [highPVisit, visit, runnable, true_and, if_true, Prod.Lex.toLex_lt_toLex]
      split_ifs <;> first | rfl | omega
    · simp [highPVisit, visit, runnable]

theorem minPVisit_eq (s : State n) :
    s.minPVisit = visit (fun p => (s.proc p).state = .runnable) fun p => (s.proc p).ctime := by
  funext best p
  by_cases runnable : (s.proc p).state = .runnable
  · cases best <;> simp [minPVisit, visit, runnable]
  · simp [minPVisit, visit, runnable]

theorem highP_eq_some_iff : s.highP = some p ↔ LeastPriority s p := by
  rw [highP, highPVisit_eq]
  refine (scan_eq_some_iff (List.pairwise_lt_finRange NPROC)).trans ?_
  exact ⟨fun h => ⟨h.holds, fun r => h.least r (List.mem_finRange r)⟩,
    fun h => ⟨List.mem_finRange p, h.1, fun r _ => h.2 r⟩⟩

theorem highP_eq_none_iff : s.highP = none ↔ ∀ p, (s.proc p).state ≠ .runnable := by
  rw [highP, highPVisit_eq]
  refine (scan_eq_none_iff (List.pairwise_lt_finRange NPROC)).trans ?_
  exact ⟨fun h p => h p (List.mem_finRange p), fun h p _ => h p⟩

theorem minP_eq_some_iff : s.minP = some p ↔ LeastCtime s p := by
  rw [minP, minPVisit_eq]
  refine (scan_eq_some_iff (List.pairwise_lt_finRange NPROC)).trans ?_
  exact ⟨fun h => ⟨h.holds, fun r => h.least r (List.mem_finRange r)⟩,
    fun h => ⟨List.mem_finRange p, h.1, fun r _ => h.2 r⟩⟩

theorem minP_eq_none_iff : s.minP = none ↔ ∀ p, (s.proc p).state ≠ .runnable := by
  rw [minP, minPVisit_eq]
  refine (scan_eq_none_iff (List.pairwise_lt_finRange NPROC)).trans ?_
  exact ⟨fun h p => h p (List.mem_finRange p), fun h p _ => h p⟩

section Pass
variable {c : Fin n}

theorem pass_default (first : FirstRunnable s p) : s.pass .default c = s.dispatch c p 0 := by
  unfold State.pass
  rw [firstRunnable_eq_some_iff.mpr first]

theorem pass_default_none (nobody : ∀ p, (s.proc p).state ≠ .runnable) :
    s.pass .default c = if (s.queue 3).head.val = 3 then s.halt c .fault else s.release := by
  unfold State.pass
  rw [firstRunnable_eq_none_iff.mpr nobody]

theorem pass_pbs (least : LeastPriority s p) :
    s.pass .pbs c = (s.setProc p fun k => { k with lastExecuted := int32 s.ticks }).dispatch c p 0 := by
  unfold State.pass
  rw [highP_eq_some_iff.mpr least]
  exact if_pos least.1

theorem pass_pbs_none (nobody : ∀ p, (s.proc p).state ≠ .runnable) : s.pass .pbs c = s.release := by
  unfold State.pass
  rw [highP_eq_none_iff.mpr nobody, Option.none_or]
  cases (s.cpu c).p with
  | some p => exact if_neg (nobody p)
  | none => rfl

theorem pass_fcfs (least : LeastCtime s p) : s.pass .fcfs c = s.dispatch c p 0 := by
  have chosen : (s.minP.filter fun m => (s.proc m).state = .runnable).or (s.cpu c).p = some p := by
    rw [minP_eq_some_iff.mpr least]
    simp [least.1]
  unfold State.pass
  simp only [chosen]
  exact if_pos least.1

theorem pass_fcfs_none (nobody : ∀ p, (s.proc p).state ≠ .runnable) : s.pass .fcfs c = s.release := by
  unfold State.pass
  rw [minP_eq_none_iff.mpr nobody, Option.filter_none, Option.none_or]
  cases (s.cpu c).p with
  | some p => exact if_neg (nobody p)
  | none => rfl

end Pass

theorem selection_cases (s : State n) : (∀ p, (s.proc p).state ≠ .runnable) ∨
      (∃ p, FirstRunnable s p) ∧ (∃ p, LeastPriority s p) ∧ ∃ p, LeastCtime s p := by
  by_cases nobody : ∀ p, (s.proc p).state ≠ .runnable
  · exact .inl nobody
  refine .inr ⟨?_, ?_, ?_⟩
  · cases found : s.firstRunnable with
    | some p => exact ⟨p, firstRunnable_eq_some_iff.mp found⟩
    | none => exact absurd (firstRunnable_eq_none_iff.mp found) nobody
  · cases found : s.highP with
    | some p => exact ⟨p, highP_eq_some_iff.mp found⟩
    | none => exact absurd (highP_eq_none_iff.mp found) nobody
  · cases found : s.minP with
    | some p => exact ⟨p, minP_eq_some_iff.mp found⟩
    | none => exact absurd (minP_eq_none_iff.mp found) nobody

end Xv6.Proof
