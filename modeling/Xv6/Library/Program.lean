import Xv6.Library.Spec

/-!
# Concurrent programs

A program performs one operation at a time and goes on with its result; threads interleave their operations. `Keeps` is
reasoning about one thread alone: what a thread owns is a value `γ`, an operation needs `pre` of it, its result is known
to satisfy `holds`, and it leaves `next`.
-/

namespace Xv6.Library
open Function (update update_self update_of_ne)

inductive Prog (Op : Type) (Res : Op → Type) (α : Type) : Type where
  | ret (a : α)
  | op (o : Op) (next : Res o → Prog Op Res α)

variable {Op : Type} {Res : Op → Type} {α β γ : Type}

namespace Prog

def bind : Prog Op Res α → (α → Prog Op Res β) → Prog Op Res β
  | ret a, f => f a
  | op o next, f => op o fun r => (next r).bind f

instance : Monad (Prog Op Res) where
  pure := ret
  bind := bind

def perform (o : Op) : Prog Op Res (Res o) := op o ret

def returned : Prog Op Res α → Bool
  | ret _ => true
  | op _ _ => false

end Prog

section Eval
variable {σ ε : Type} {act : σ → (o : Op) → Except ε (σ × Res o)}

/-- The program run by itself, where an operation may stop it. -/
def Prog.eval (act : σ → (o : Op) → Except ε (σ × Res o)) : Prog Op Res α → StateT σ (Except ε) α
  | .ret a => pure a
  | .op o next => fun s =>
    match act s o with
    | .error e => .error e
    | .ok (s', r) => (next r).eval act s'

@[simp] theorem eval_pure {a : α} : Prog.eval act (pure a : Prog Op Res α) = pure a := rfl

@[simp] theorem eval_bind {p : Prog Op Res α} {f : α → Prog Op Res β} :
    Prog.eval act (p >>= f) = Prog.eval act p >>= fun a => Prog.eval act (f a) := by
  induction p with
  | ret a => rfl
  | op o _ ih =>
    funext s
    simp only [bind, Prog.bind, Prog.eval, StateT.bind, Except.bind] at ih ⊢
    cases act s o with
    | error e => rfl
    | ok result => exact congrFun (ih result.2) result.1

theorem spec_perform {o : Op} {s : σ} {E : ε → Prop} {Q : Res o → σ → Prop} :
    Spec (Prog.eval act (Prog.perform o)) s E Q ↔
      match act s o with
      | .error e => E e
      | .ok (s', r) => Q r s' := by
  unfold Spec Prog.perform Prog.eval
  cases act s o <;> rfl

end Eval

structure Rules (γ Op : Type) (Res : Op → Type) where
  pre : γ → Op → Prop
  holds : γ → (o : Op) → Res o → Prop
  next : γ → (o : Op) → Res o → γ

variable {R : Rules γ Op Res} {p : Prog Op Res α} {f : α → Prog Op Res β} {g : γ} {Q : α → γ → Prop}

def Keeps (R : Rules γ Op Res) : Prog Op Res α → γ → (α → γ → Prop) → Prop
  | .ret a, g, Q => Q a g
  | .op o next, g, Q => R.pre g o ∧ ∀ r, R.holds g o r → Keeps R (next r) (R.next g o r) Q

@[simp] theorem keeps_pure {a : α} : Keeps R (pure a : Prog Op Res α) g Q ↔ Q a g := Iff.rfl

@[simp] theorem keeps_perform {o : Op} {Q : Res o → γ → Prop} :
    Keeps R (Prog.perform o) g Q ↔ R.pre g o ∧ ∀ r, R.holds g o r → Q r (R.next g o r) := Iff.rfl

@[simp] theorem keeps_bind {Q : β → γ → Prop} : Keeps R (p >>= f) g Q ↔ Keeps R p g fun a g' => Keeps R (f a) g' Q := by
  induction p generalizing g with
  | ret a => rfl
  | op o _ ih => exact and_congr_right fun _ => forall_congr' fun r => imp_congr_right fun _ => ih r

theorem keeps_op {o : Op} {f : Res o → Prog Op Res β} {Q : β → γ → Prop} :
    Keeps R (Prog.perform o >>= f) g Q ↔ R.pre g o ∧ ∀ r, R.holds g o r → Keeps R (f r) (R.next g o r) Q := Iff.rfl

theorem Keeps.mono {Q' : α → γ → Prop} (h : Keeps R p g Q) (imp : ∀ a g', Q a g' → Q' a g') : Keeps R p g Q' := by
  induction p generalizing g with
  | ret a => exact imp a g h
  | op o _ ih => exact ⟨h.1, fun r holds => ih r (h.2 r holds)⟩

theorem Keeps.ite {c : Prop} [Decidable c] {p' : Prog Op Res α} (pos : c → Keeps R p g Q) (neg : ¬c → Keeps R p' g Q) :
    Keeps R (if c then p else p') g Q := by
  by_cases h : c
  · rw [if_pos h]
    exact pos h
  · rw [if_neg h]
    exact neg h

section Threads
variable {σ T χ : Type} [DecidableEq T] {act : σ → T → (o : Op) → χ → Option (σ × Res o)} {s s' : σ}
variable {progs progs' : T → Prog Op Res Unit} {G : T → γ} {fin : γ → Prop} {t : T} {c : χ}

/-- One operation of a thread; `c` settles what the operation leaves open. -/
def advance (act : σ → T → (o : Op) → χ → Option (σ × Res o)) (s : σ) (progs : T → Prog Op Res Unit) (t : T) (c : χ) :
    Option (σ × (T → Prog Op Res Unit)) :=
  match progs t with
  | .ret _ => none
  | .op o next => (act s t o c).map fun (s', r) => (s', update progs t (next r))

/-- Every thread goes on as the rules want it to, and ends in `fin`. -/
def Obeys (R : Rules γ Op Res) (fin : γ → Prop) (progs : T → Prog Op Res Unit) (G : T → γ) : Prop :=
  ∀ t, Keeps R (progs t) (G t) fun _ => fin

theorem Obeys.set (h : Obeys R fin progs G) {p : Prog Op Res Unit} (keeps : Keeps R p g fun _ => fin) :
    Obeys R fin (update progs t p) (update G t g) := by
  intro r
  by_cases same : r = t
  · subst same
    rw [update_self, update_self]
    exact keeps
  · rw [update_of_ne same, update_of_ne same]
    exact h r

theorem advance_eq_some (action : advance act s progs t c = some (s', progs')) :
    ∃ o next r, progs t = .op o next ∧ act s t o c = some (s', r) ∧ progs' = update progs t (next r) := by
  unfold advance at action
  cases now : progs t with
  | ret a => rw [now] at action; cases action
  | op o next =>
    rw [now] at action
    obtain ⟨⟨_, r⟩, acted, same⟩ := Option.map_eq_some_iff.mp action
    cases same
    exact ⟨o, next, r, rfl, acted, rfl⟩

theorem Obeys.now (h : Obeys R fin progs G) {o : Op} {next : Res o → Prog Op Res Unit} (now : progs t = .op o next) :
    R.pre (G t) o ∧ ∀ r, R.holds (G t) o r → Obeys R fin (update progs t (next r)) (update G t (R.next (G t) o r)) := by
  have keeps := h t
  rw [now] at keeps
  exact ⟨keeps.1, fun r holds => h.set (keeps.2 r holds)⟩

omit [DecidableEq T] in
theorem Obeys.ended (h : Obeys R fin progs G) (ended : (progs t).returned = true) : fin (G t) := by
  have keeps := h t
  cases now : progs t with
  | ret a => rw [now] at keeps; exact keeps
  | op o => rw [now] at ended; cases ended

end Threads

end Xv6.Library
