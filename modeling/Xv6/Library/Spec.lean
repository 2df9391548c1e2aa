import Xv6.Library.Instances

/-!
# Rules for programs with a state and errors

`Spec m s E Q` says that `m`, run in the state `s`, either stops with an error of `E` or returns a value and a state of
`Q`.
-/

namespace Xv6.Library

variable {σ ε α β : Type} {m : StateT σ (Except ε) α} {f : α → StateT σ (Except ε) β} {s : σ} {E : ε → Prop}
variable {Q : α → σ → Prop} {R : β → σ → Prop}
  {a : α} {t : σ} {e : ε} {Q' : α → σ → Prop} {m' : StateT σ (Except ε) α}

def Spec (m : StateT σ (Except ε) α) (s : σ) (E : ε → Prop) (Q : α → σ → Prop) : Prop :=
  match m s with
  | .error e => E e
  | .ok (a, t) => Q a t

instance decidableEqError [DecidableEq ε] {r : Except ε α} {e : ε} : Decidable (r = .error e) :=
  match r with
  | .ok _ => isFalse nofun
  | .error e' => decidable_of_iff (e' = e) ⟨congrArg _, Except.error.inj⟩

@[simp] theorem spec_pure : Spec (pure a) s E Q ↔ Q a s := Iff.rfl

@[simp] theorem spec_get {Q : σ → σ → Prop} : Spec get s E Q ↔ Q s s := Iff.rfl

@[simp] theorem spec_set {Q : PUnit → σ → Prop} : Spec (set t) s E Q ↔ Q ⟨⟩ t := Iff.rfl

@[simp] theorem spec_modify {g : σ → σ} {Q : PUnit → σ → Prop} : Spec (modify g) s E Q ↔ Q ⟨⟩ (g s) := Iff.rfl

@[simp] theorem spec_throw : Spec (throw e) s E Q ↔ E e := Iff.rfl

@[simp] theorem spec_bind : Spec (m >>= f) s E R ↔ Spec m s E fun a t => Spec (f a) t E R := by
  simp only [Spec, bind, StateT.bind, Except.bind]
  cases m s <;> rfl

theorem Spec.imp {E' : ε → Prop} (h : Spec m s E Q) (error : ∀ e, E e → E' e) (ok : ∀ a t, Q a t → Q' a t) :
    Spec m s E' Q' := by
  unfold Spec at h ⊢
  cases result : m s with
  | error e =>
    rw [result] at h
    exact error e h
  | ok r =>
    rw [result] at h
    exact ok r.1 r.2 h

theorem Spec.mono (h : Spec m s E Q) (imp : ∀ a t, Q a t → Q' a t) : Spec m s E Q' :=
  h.imp (fun _ => id) imp

theorem Spec.ite {c : Prop} [Decidable c] (pos : c → Spec m s E Q) (neg : ¬c → Spec m' s E Q) :
    Spec (if c then m else m') s E Q := by
  by_cases h : c
  · rw [if_pos h]
    exact pos h
  · rw [if_neg h]
    exact neg h

theorem Spec.ok (h : Spec m s E Q) (run : m s = .ok (a, t)) : Q a t := by
  unfold Spec at h
  rw [run] at h
  exact h

theorem Spec.error (h : Spec m s E Q) (run : m s = .error e) : E e := by
  unfold Spec at h
  rw [run] at h
  exact h

theorem Spec.cases (h : Spec m s E Q) : (∃ e, m s = .error e ∧ E e) ∨ ∃ a t, m s = .ok (a, t) ∧ Q a t := by
  cases result : m s with
  | error e => exact .inl ⟨e, rfl, h.error result⟩
  | ok r => exact .inr ⟨r.1, r.2, rfl, h.ok result⟩

theorem Spec.returns (h : Spec m s (fun _ => False) Q) : ∃ a t, m s = .ok (a, t) ∧ Q a t :=
  h.cases.resolve_left (by simp)

theorem exists_ok_iff {c : Prop} {P : σ → Prop} (returns : c → Spec m s (fun _ => False) fun b t => b = a ∧ P t)
    (stops : ¬c → Spec m s (fun _ => True) fun _ _ => False) : (∃ t, m s = .ok (a, t) ∧ P t) ↔ c := by
  constructor
  · rintro ⟨t, run, -⟩
    exact Classical.byContradiction fun no => (stops no).ok run
  · intro yes
    obtain ⟨b, t, run, rfl, after⟩ := (returns yes).returns
    exact ⟨t, run, after⟩

theorem spec_eq_ok : Spec m s (fun _ => False) (fun b u => b = a ∧ u = t) ↔ m s = .ok (a, t) := by
  constructor
  · intro h
    obtain ⟨b, u, run, rfl, rfl⟩ := h.returns
    exact run
  intro run
  unfold Spec
  rw [run]
  exact ⟨rfl, rfl⟩

theorem spec_eq_error : Spec m s (fun e' => e' = e) (fun _ _ => False) ↔ m s = .error e := by
  constructor
  · intro h
    obtain ⟨_, run, rfl⟩ | ⟨a, u, -, none⟩ := h.cases
    · exact run
    · exact none.elim
  · intro run
    unfold Spec
    rw [run]

theorem spec_ext (same : ∀ E Q, Spec m s E Q ↔ Spec m' s E Q) : m s = m' s := by
  cases result : m' s with
  | error e => exact spec_eq_error.mp ((same _ _).mpr (spec_eq_error.mpr result))
  | ok r => exact spec_eq_ok.mp ((same _ _).mpr (spec_eq_ok.mpr result))

end Xv6.Library
