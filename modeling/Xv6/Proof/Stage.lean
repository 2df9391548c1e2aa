import Xv6.Proof.Fate

namespace Xv6.Proof
open Xv6.Library Xv6.Kernel State

variable {n : Nat} {s t : State n} {c : Fin n} {p : Slot} {a : Action} {pol : Policy}

def Enters (s t : State n) (c : Fin n) : Stage → Prop
  | .early => False
  | .boots p => (s.cpu c).mode = .userinit ∧ ∀ r, r ≠ p → (t.proc r).state = (s.proc r).state
  | .reset => s.flag = 0
  | .asleep => ∃ p, s.pick = some p ∧ (s.proc p).state ≠ .runnable
  | .plain | .trap | .late | .stopped => True

theorem Change.stage (change : Change pol s t c a) (d : Fin n) : ((view t).turn d).stage = ((view s).turn d).stage ∨
      d = c ∧ Enters s t c ((view t).turn d).stage := by
  have moves {v : View n} (g : Turn → Turn) (turn : v.turn = (view s).turn)
    (enters : Enters s t c (g (v.turn c)).stage) :
      ((v.setTurn c g).turn d).stage = ((view s).turn d).stage ∨
        d = c ∧ Enters s t c ((v.setTurn c g).turn d).stage := by
    by_cases same : d = c
    · subst same
      exact .inr ⟨rfl, by simpa using enters⟩
    · exact .inl (by simp [same, turn])
  cases change with
  | quiet view | resetHead _ _ view | resetTail _ _ view | fill _ _ _ _ _ _ _ view
  | reap _ _ _ _ view | promote _ _ _ _ _ _ _ _ _ view | block _ _ _ _ _ view | wake _ _ _ _ _ view
  | chpr _ _ _ view =>
    refine .inl ?_
    simp [view]
  | halt view | bootFail _ _ _ _ _ view | dispatch _ _ _ _ _ view | pick _ _ _ _ _ _ _ _ _ view
  | again _ _ _ _ _ _ _ view | requeue _ _ _ _ _ _ _ _ _ view | leave _ _ _ _ _ _ view
  | ageingPanic _ _ _ _ _ _ _ view | charge _ _ _ _ _ _ _ view | yield _ _ _ _ view
  | exit _ _ _ _ view =>
    rw [view]
    exact moves _ rfl trivial
  | timer _ _ _ view =>
    rw [view]
    exact moves ({ · with stage := .trap }) rfl trivial
  | timerDone _ _ view =>
    rw [view]
    exact moves _ rfl trivial
  | resetDone _ view =>
    rw [view]
    exact moves ({ · with stage := .plain }) rfl trivial
  | enterReset _ first view =>
    rw [view]
    exact moves _ rfl first
  | asleep p _ picked stopped view =>
    rw [view]
    exact moves _ rfl ⟨p, picked, stopped⟩
  | alloc o p acts early _ _ _ view =>
    rw [view]
    cases o with
    | inl c' =>
      obtain rfl : c' = c := acts
      refine moves ({ · with stage := .boots p }) rfl ⟨early rfl, fun r other => ?_⟩
      change ((Proof.view t).core r).state = ((Proof.view s).core r).state
      simp [view, View.own, other]
    | inr => exact .inl rfl
  | discard _ _ _ _ _ _ _ view =>
    rw [view]
    exact .inl rfl
  | publish o _ acts _ _ _ _ _ view =>
    rw [view]
    cases o with
    | inl c' =>
      obtain rfl : c' = c := acts
      exact moves ({ · with stage := .plain }) rfl trivial
    | inr => exact .inl rfl

theorem Change.flag (change : Change pol s t c a) :
    (view t).flag = (view s).flag ∨ Proof.stage (s.cpu c).mode = .reset := by
  cases change
  case resetDone stage view => exact .inr stage
  all_goals
    rename view t = _ => view
    exact .inl (by simp [view])

structure Settled (s : State n) : Prop where
  flag : s.flag ≠ 0
  stage : ∀ c, Proof.stage (s.cpu c).mode ≠ .reset

theorem Settled.change (h : Settled s) (change : Change pol s t c a) : Settled t where
  flag := by
    rcases change.flag with same | reset
    · exact fun zero => h.flag (same.symm.trans zero)
    · exact absurd reset (h.stage c)
  stage d := by
    rcases change.stage d with same | ⟨-, enters⟩
    · exact fun reset => h.stage d (same.symm.trans reset)
    intro reset
    change ((view t).turn d).stage = _ at reset
    rw [reset] at enters
    exact h.flag enters

theorem Settled.mode (h : Settled s) (c : Fin n) :
    (∀ i, (s.cpu c).mode ≠ .resetHead i) ∧ ∀ q, (s.cpu c).mode ≠ .resetTail q :=
  ⟨fun i mode => h.stage c (by rw [mode]; rfl), fun q mode => h.stage c (by rw [mode]; rfl)⟩

def inMain : Stage → Bool
  | .early | .boots _ => true
  | _ => false

theorem Change.notMain (change : Change pol s t c a) {d : Fin n}
    (past : inMain (Proof.stage (s.cpu d).mode) = false) : inMain (Proof.stage (t.cpu d).mode) = false := by
  rcases change.stage d with same | ⟨rfl, enters⟩
  · exact (congrArg inMain same).trans past
  cases next : Proof.stage (t.cpu d).mode with
  | early =>
    change ((view t).turn d).stage = _ at next
    rw [next] at enters
    exact enters.elim
  | boots p =>
    change ((view t).turn d).stage = _ at next
    rw [next] at enters
    simp [enters.1, Proof.stage, inMain] at past
  | plain | reset | trap | late | stopped | asleep => rfl

structure Sole (s : State n) : Prop where
  one : ∀ c d, inMain (Proof.stage (s.cpu c).mode) → inMain (Proof.stage (s.cpu d).mode) → c = d
  early : ∀ c, Proof.stage (s.cpu c).mode = .early → ∀ r, (s.proc r).state = .unused
  boots : ∀ c p, Proof.stage (s.cpu c).mode = .boots p → ∀ r, r ≠ p → (s.proc r).state = .unused

theorem sole_boot (bsp : Fin n) : Sole (boot bsp) where
  one c d hc hd := by
    have only (e : Fin n) (main : inMain (Proof.stage ((boot bsp).cpu e).mode)) : e = bsp := by
      by_contra other
      simp [boot, Cpu.zero, other, Proof.stage, inMain] at main
    rw [only c hc, only d hd]
  early _ _ _ := rfl
  boots _ _ _ _ _ := rfl

theorem Sole.change (h : Sole s) (wf : WellFormed s) (change : Change pol s t c a) : Sole t := by
  have main {d : Fin n} (later : inMain (Proof.stage (t.cpu d).mode)) : inMain (Proof.stage (s.cpu d).mode) := by
    by_contra past
    simp [change.notMain (Bool.not_eq_true _ ▸ past)] at later
  have nobody {d : Fin n} (here : inMain (Proof.stage (s.cpu d).mode)) (me : Slot) : (s.proc me).state ≠ .running := by
    cases place : Proof.stage (s.cpu d).mode with
    | early => simp [h.early d place me]
    | boots p =>
      by_cases same : me = p
      · have embryo : (s.proc p).state = .embryo := wf.owned.embryo (.inl d) p place
        simp [same, embryo]
      · simp [h.boots d p place me same]
    | plain | reset | trap | late | stopped | asleep => simp [place, inMain] at here
  -- only the processor in `main()` itself could take a slot, and it would move on
  have keeps {d : Fin n} {r : Slot} (here : inMain (Proof.stage (s.cpu d).mode))
      (same : Proof.stage (t.cpu d).mode = Proof.stage (s.cpu d).mode)
      (unused : (s.proc r).state = .unused) : (t.proc r).state = .unused := by
    cases change.fate r with
    | keep state => exact state.trans unused
    | take _ _ _ taker =>
      rcases taker with ⟨mode, next⟩ | ⟨me, -, running⟩
      · have early : Proof.stage (s.cpu c).mode = .early := by rw [mode]; rfl
        obtain rfl : c = d := h.one c d (by rw [early]; rfl) here
        rw [next, early] at same
        cases same
      · exact absurd running (nobody here me)
    | _ => simp_all
  refine ⟨fun d e hd he => h.one d e (main hd) (main he), fun d place r => ?_, fun d p place r other => ?_⟩
  · have same : Proof.stage (t.cpu d).mode = Proof.stage (s.cpu d).mode := by
      rcases change.stage d with same | ⟨-, enters⟩
      · exact same
      · change ((view t).turn d).stage = _ at place
        rw [place] at enters
        exact enters.elim
    have early := same.symm.trans place
    exact keeps (by rw [early]; rfl) same (h.early d early r)
  · rcases change.stage d with same | ⟨rfl, enters⟩
    · have before : Proof.stage (s.cpu d).mode = .boots p := same.symm.trans place
      exact keeps (by rw [before]; rfl) same (h.boots d p before r other)
    change ((view t).turn d).stage = _ at place
    rw [place] at enters
    rw [enters.2 r other]
    exact h.early d (by rw [enters.1]; rfl) r

end Xv6.Proof
