import Xv6.Proof.Change

namespace Xv6.Proof
open Xv6.Library Xv6.Kernel State

variable {n : Nat} {v w : View n} {p : Slot} {c : Fin n} {o : Fin n ⊕ Slot} {f : Core → Core}
  {g : Turn → Turn} {q : Level}

section
variable (h : Owned v)
include h

theorem Owned.of (owns : ∀ o r, w.Owns o r → v.Owns o r)
    (state : ∀ r, (v.core r).state = .embryo → (w.core r).state = .embryo) : Owned w where
  embryo o r hr := state r (h.embryo o r (owns o r hr))
  inj o o' r ho ho' := h.inj o o' r (owns o r ho) (owns o' r ho')

theorem Owned.setCore (kept : (v.core p).state = .embryo → (f (v.core p)).state = .embryo)
    (owns : (f (v.core p)).owns = (v.core p).owns ∨ (f (v.core p)).owns = none) :
    Owned (v.setCore p f) := by
  refine h.of (fun o r => ?_) fun r hr => ?_
  · cases o with
    | inl d => exact id
    | inr me =>
      by_cases same : me = p
      · subst same
        rcases owns with owns | owns <;> simp [View.Owns, owns]
      · simp [View.Owns, same]
  · by_cases same : r = p
    · subst same
      simpa using kept hr
    · simpa [same] using hr

theorem Owned.setTurn (stage : (g (v.turn c)).stage = (v.turn c).stage ∨ ∀ r, (g (v.turn c)).stage ≠ .boots r) :
    Owned (v.setTurn c g) := by
  refine h.of (fun o r => ?_) fun r hr => hr
  cases o with
  | inl d =>
    by_cases same : d = c
    · subst same
      rcases stage with stage | stage
      · simp [View.Owns, stage]
      · intro booting
        exact absurd (by simpa [View.Owns] using booting) (stage r)
    · simp [View.Owns, same]
  | inr => exact id

theorem Owned.push : Owned (v.push q p) :=
  Owned.setCore (v := v.setRing q _) ⟨h.embryo, h.inj⟩ id (.inl rfl)

theorem Owned.filled : Owned (v.filled o) := by
  cases o with
  | inl c => exact h
  | inr => rw [View.filled]; exact h.setCore id (.inl rfl)

theorem Owned.alloc (unused : (v.core p).state = .unused)
    (embryo : (f (v.core p)).state = .embryo) (owns : (f (v.core p)).owns = (v.core p).owns) :
    Owned ((v.setCore p f).own o p) := by
  have nobody : ∀ o', ¬ v.Owns o' p := by
    intro o' ho'
    rw [h.embryo o' p ho'] at unused
    cases unused
  have before : ∀ o' r, ((v.setCore p f).own o p).Owns o' r → o' = o ∧ r = p ∨ v.Owns o' r := by
    intro o' r ho'
    by_cases same : o = o'
    · subst same
      cases o <;> simp_all [View.Owns, View.own_core, View.own_turn]
    right
    cases o' with
    | inl d => simpa [View.Owns, View.own_turn, same] using ho'
    | inr me =>
      by_cases here : me = p
      · subst here
        simpa [View.Owns, View.own_core, same, owns] using ho'
      · simpa [View.Owns, View.own_core, same, here] using ho'
  have state : ∀ r, (((v.setCore p f).own o p).core r).state = ((v.setCore p f).core r).state := by
    intro r
    rw [View.own_core]
    split_ifs <;> rfl
  refine ⟨fun o' r ho' => ?_, fun o' o'' r ho' ho'' => ?_⟩
  · rw [state]
    rcases before o' r ho' with ⟨-, rfl⟩ | hs'
    · simpa using embryo
    have other : r ≠ p := by
      rintro rfl
      exact nobody o' hs'
    simpa [other] using h.embryo o' r hs'
  · rcases before o' r ho' with ⟨rfl, rfl⟩ | hs' <;> rcases before o'' r ho'' with ⟨rfl, same⟩ | hs''
    · rfl
    · exact absurd hs'' (nobody _)
    · exact absurd (same ▸ hs') (nobody _)
    · exact h.inj o' o'' r hs' hs''

theorem Owned.giveUp (owner : v.Owns o p) (owns : ∀ o' r, w.Owns o' r → o' ≠ o ∧ v.Owns o' r)
    (state : ∀ r, r ≠ p → (w.core r).state = (v.core r).state) : Owned w := by
  refine ⟨fun o' r ho' => ?_, fun o' o'' r ho' ho'' => ?_⟩
  · obtain ⟨other, before⟩ := owns o' r ho'
    have apart : r ≠ p := by
      rintro rfl
      exact other (h.inj o' o r before owner)
    rw [state r apart, h.embryo o' r before]
  · exact h.inj o' o'' r (owns o' r ho').2 (owns o'' r ho'').2

end

theorem owns_disown (owns : (f (v.core p)).owns = (v.core p).owns) {o' : Fin n ⊕ Slot} {r : Slot}
    (h : ((v.setCore p f).disown o).Owns o' r) : o' ≠ o ∧ v.Owns o' r := by
  by_cases same : o = o'
  · subst same
    cases o <;> simp [View.Owns, View.disown_core, View.disown_turn] at h
  refine ⟨Ne.symm same, ?_⟩
  cases o' with
  | inl d => simpa [View.Owns, View.disown_turn, same] using h
  | inr me =>
    by_cases here : me = p
    · subst here
      simpa [View.Owns, View.disown_core, same, owns] using h
    · simpa [View.Owns, View.disown_core, same, here] using h

theorem disown_state (r : Slot) : ((v.disown o).core r).state = (v.core r).state := by
  rw [View.disown_core]
  split_ifs <;> rfl

variable {pol : Policy} {s t : State n} {a : Action}

theorem push_setCore : (v.setCore p f).push q p = (v.setRing q (·.push (some p))).setCore p fun k =>
      { f k with queue := q.val } := by
  simp [View.push, View.setCore, View.setRing]

theorem Owned.change (h : Owned (view s)) (change : Change pol s t c a) : Owned (view t) := by
  have other {r : Slot} {state : ProcState} (known : (s.proc r).state = state) (apart : state ≠ .embryo)
      {P : Prop} : ((view s).core r).state = .embryo → P := by
    intro embryo
    exact absurd (known.symm.trans embryo) apart
  cases change with
  | quiet view => rwa [view]
  | halt view => exact view ▸ h.setTurn (.inr (by simp))
  | timer _ _ _ view =>
    have served := h.setTurn (c := c) (g := ({ · with stage := .trap })) (.inr (by simp))
    exact view ▸ ⟨served.embryo, served.inj⟩
  | timerDone _ _ view => exact view ▸ h.setTurn (.inr (by simp))
  | enterReset _ _ view => exact view ▸ h.setTurn (.inr (by simp))
  | resetDone stage view =>
    have plain := h.setTurn (c := c) (g := ({ · with stage := .plain })) (.inr (by simp))
    exact view ▸ ⟨plain.embryo, plain.inj⟩
  | resetHead q _ view => exact view ▸ ⟨h.embryo, h.inj⟩
  | resetTail q _ view => exact view ▸ ⟨h.embryo, h.inj⟩
  | bootFail p f owner _ unused view =>
    have gone : Owned (((Proof.view s).setCore p f).disown (.inl c)) :=
      h.giveUp owner (fun o' r => owns_disown (unused _).owns) fun r apart => by simp [disown_state, apart]
    rw [view]
    simpa [View.disown, View.setTurn_setTurn] using
      gone.setTurn (c := c) (g := ({ · with stage := .stopped })) (.inr (by simp))
  | alloc o p _ _ _ unused _ view =>
    have allocated := h.alloc (o := o) (f := ({ · with
      state := .embryo, pid := s.nextpid, priority := 60, queue := 0 })) unused rfl rfl
    exact view ▸ ⟨allocated.embryo, allocated.inj⟩
  | fill o p _ _ _ _ _ view => exact view ▸ (h.setCore id (.inr rfl)).filled
  | discard _ p f _ owner _ unused view =>
    rw [view]
    exact h.giveUp owner (fun o' r => owns_disown (unused _).owns) fun r apart => by
      simp [disown_state, apart]
  | publish o p _ _ _ owner embryo _ view =>
    rw [view, push_setCore]
    have same : Owned ((Proof.view s).setRing 0 (·.push (some p))) := ⟨h.embryo, h.inj⟩
    exact same.giveUp owner (fun _ r => owns_disown rfl) fun r apart => by simp [disown_state, apart]
  | reap p f zombie unused view =>
    exact view ▸ h.setCore (other zombie (by decide)) (.inl (unused _).owns)
  | dispatch p _ _ _ selects view =>
    have runnable : (s.proc p).state = .runnable := selects.runnable
    exact view ▸ (h.setCore (other runnable (by decide)) (.inl rfl)).setTurn (.inr (by simp))
  | pick p q _ _ _ _ _ runnable _ view =>
    have dropped : Owned ((Proof.view s).drop q) := ⟨h.embryo, h.inj⟩
    exact view ▸ (dropped.setCore (other runnable (by decide)) (.inl rfl)).setTurn (.inr (by simp))
  | asleep p _ _ _ view => exact view ▸ h.setTurn (.inr (by simp))
  | again p _ _ _ _ runnable _ view =>
    exact view ▸ (h.setCore (other runnable (by decide)) (.inl rfl)).setTurn (.inr (by simp))
  | requeue p q _ _ _ _ _ _ _ view =>
    exact view ▸ h.push.setTurn (.inr (by simp))
  | leave p _ _ _ _ _ view => exact view ▸ h.setTurn (.inr (by simp))
  | promote q m i p _ _ _ _ _ view =>
    have dropped : Owned ((Proof.view s).drop q) := ⟨h.embryo, h.inj⟩
    exact view ▸ dropped.push
  | ageingPanic q i p _ _ _ _ view =>
    have dropped : Owned ((Proof.view s).drop q) := ⟨h.embryo, h.inj⟩
    exact view ▸ dropped.setTurn (.inr (by simp))
  | charge p q _ _ _ _ _ view =>
    exact view ▸ (h.setCore id (.inl rfl)).setTurn (.inr (by simp))
  | yield p _ _ running view =>
    exact view ▸ (h.setCore (other running (by decide)) (.inl rfl)).setTurn (.inr (by simp))
  | exit p _ _ _ view => exact view ▸ (h.setCore id (.inl rfl)).setTurn (.inr (by simp))
  | block p _ _ running _ view =>
    exact view ▸ h.setCore (other running (by decide)) (.inl rfl)
  | wake p q asleep _ _ view =>
    exact view ▸ (h.setCore (other asleep (by decide)) (.inl rfl)).push
  | chpr p _ _ view => exact view ▸ h.setCore id (.inl rfl)

section
variable (h : Bounded v)
include h

theorem Bounded.setCore (bound : 0 ≤ (f (v.core p)).queue ∧ (f (v.core p)).queue ≤ 4) : Bounded (v.setCore p f) := by
  intro r
  by_cases same : r = p
  · subst same
    simpa using bound
  · simpa [same] using h r

theorem Bounded.push : Bounded (v.push q p) := by
  have bound := q.isLt
  exact Bounded.setCore (v := v.setRing q _) h ⟨by simp, by simp only; omega⟩

theorem Bounded.disown : Bounded (v.disown o) := by
  intro r
  rw [View.disown_core]
  split_ifs <;> exact h r

theorem Bounded.filled : Bounded (v.filled o) := by
  intro r
  rw [View.filled_core]
  split_ifs <;> exact h r

theorem Bounded.own : Bounded (v.own o p) := by
  intro r
  rw [View.own_core]
  split_ifs <;> exact h r

theorem Bounded.keep (same : (f (v.core p)).queue = (v.core p).queue) : Bounded (v.setCore p f) :=
  h.setCore (by rw [same]; exact h p)

theorem Bounded.setTurn : Bounded (v.setTurn c g) := h

theorem Bounded.drop : Bounded (v.drop q) := h

end

theorem Bounded.change (h : Bounded (view s)) (change : Change pol s t c a) : Bounded (view t) := by
  cases change with
  | quiet view | halt view | timer _ _ _ view | timerDone _ _ view | enterReset _ _ view | resetDone _ view
  | resetHead _ _ view | resetTail _ _ view | asleep _ _ _ _ view
  | leave _ _ _ _ _ _ view | ageingPanic _ _ _ _ _ _ _ view => exact view ▸ h
  | bootFail p f _ _ unused view => exact view ▸ (h.keep (unused _).queue).setTurn
  | alloc o p _ _ _ _ _ view =>
    have allocated : Bounded ((Proof.view s).setCore p ({ · with
      state := .embryo, pid := s.nextpid, priority := 60, queue := 0 })) := h.setCore (by simp)
    exact view ▸ allocated.own
  | fill o p _ _ _ _ _ view => exact view ▸ (h.keep rfl).filled
  | discard _ p f _ _ _ unused view => exact view ▸ (h.keep (unused _).queue).disown
  | publish o p _ _ _ _ _ _ view => exact view ▸ (h.keep rfl).push.disown
  | reap p f _ unused view => exact view ▸ h.keep (unused _).queue
  | dispatch p _ _ _ _ view => exact view ▸ (h.keep rfl).setTurn
  | pick p q _ _ _ _ _ _ _ view => exact view ▸ (h.drop.keep rfl).setTurn
  | again p _ _ _ _ _ _ view => exact view ▸ (h.keep rfl).setTurn
  | requeue p q _ _ _ _ _ _ _ view => exact view ▸ h.push.setTurn
  | promote q m i p _ _ _ _ _ view => exact view ▸ h.drop.push
  | charge p q _ _ _ _ _ view => exact view ▸ (h.keep rfl).setTurn
  | yield p _ _ _ view => exact view ▸ (h.keep rfl).setTurn
  | exit p _ _ _ view => exact view ▸ (h.keep rfl).setTurn
  | block p _ _ _ _ view => exact view ▸ h.keep rfl
  | wake p q _ _ _ view => exact view ▸ (h.keep rfl).push
  | chpr p _ _ view => exact view ▸ h.keep rfl

theorem WellFormed.step (h : WellFormed s) (action : step pol s (c, a) = some t) : WellFormed t :=
  have change := step_change h action
  ⟨transition_control h (step_transition action), h.owned.change change, h.bounded.change change⟩

theorem WellFormed.exec (h : WellFormed s) {as : List (Fin n × Action)} (run : exec (Kernel.step pol) s as = some t) :
    WellFormed t :=
  exec_invariant (P := fun _ _ => True) (fun _ _ _ h _ action => h.step action) h run (by simp)

end Xv6.Proof
