import Xv6.Kernel.FileTable
import Xv6.Library.Tally
import Xv6.Library.Transition

/-!
# Counting the references to files and pipes

A process in the middle of a call holds references that no descriptor shows, or shows a descriptor that `ref` does not
count yet. With these the count is exact at every step, and so it is when no call is in progress. In the same way the
flags of a pipe count its two ends, and the processes that are about to close one.
-/

namespace Xv6.FileTable
open Xv6.Library State
open Function (update update_of_ne update_self update_eq_self_iff)

variable {n : Nat} {s u : State n} {t r np : Fin n} {f g : File} {fd : Fd} {p : Page} {w : Bool}
  {ofile : Fd → Option File} {k : Then} {x : Proc n} {page : Option Page}

def slots (ofile : Fd → Option File) (f : File) : Int := ∑ fd, if ofile fd = some f then 1 else 0

def due : Then → File → Int
  | .ret, _ => 0
  | .close g, f => if g = f then 1 else 0
  | .clear _ g _, f => if g = f then -1 else 0

/-- The references of a call in progress, less the descriptors that are not counted. -/
def held : Pc n → File → Int
  | .openFd g _ _, f | .pipeSecond g, f => if g = f then 1 else 0
  | .dup g, f => if g = f then -1 else 0
  | .close g k, f => (if g = f then 1 else 0) + due k f
  | .pipeclose _ _ k, f | .kfree _ k, f => due k f
  | .pipePage g h, f | .pipeFd g h, f => (if g = f then 1 else 0) + if h = f then 1 else 0
  | .pipeFd₁ _ h _, f => if h = f then 1 else 0
  | .out, _ | .openAlloc .., _ | .openInit .., _ | .pipeFirst, _ | .fork .., _ | .exit _, _ => 0

def own (x : Proc n) (f : File) : Int := slots x.ofile f + held x.pc f

theorem slots_update (ofile : Fd → Option File) (fd : Fd) (g : Option File) (f : File) :
    slots (update ofile fd g) f + (if ofile fd = some f then 1 else 0) = slots ofile f + if g = some f then 1 else 0 :=
  hits_update ofile fd g f

theorem slots_nonneg (ofile : Fd → Option File) (f : File) : 0 ≤ slots ofile f := hits_nonneg ofile f

theorem slots_pos (member : ofile fd = some f) : 1 ≤ slots ofile f := hits_pos member

def Fresh (s : State n) (f : File) : Prop := (s.file f).ref = 1 ∧ (s.file f).type = .none

def KnowsThen (ofile : Fd → Option File) : Then → Prop
  | .clear fd f fds => ofile fd = some f ∧ ∀ e, e ∉ fd :: fds → ofile e = none
  | .ret | .close _ => True

def Knows (s : State n) (ofile : Fd → Option File) : Pc n → Prop
  | .openFd f _ _ | .pipeSecond f => Fresh s f
  | .openInit f _ _ => Fresh s f ∧ ∃ fd, ofile fd = some f
  | .dup f => 2 ≤ slots ofile f
  | .close _ k | .pipeclose _ _ k | .kfree _ k => KnowsThen ofile k
  | .pipePage f₀ f₁ => Fresh s f₀ ∧ Fresh s f₁ ∧ f₀ ≠ f₁
  | .pipeFd₁ rf _ fd₀ => ofile fd₀ = some rf
  | .fork np fds => (s.proc np).state = .embryo ∧ fds.Nodup ∧ ∀ fd ∈ fds, (s.proc np).ofile fd = none
  | .exit fds => ∀ e, e ∉ fds → ofile e = none
  | .out | .openAlloc .. | .pipeFirst | .pipeFd .. => True

structure Good (s : State n) (t : Fin n) : Prop where
  knows : Knows s (s.proc t).ofile (s.proc t).pc
  out : (s.proc t).state ≠ .live → (s.proc t).pc = .out
  bare : (s.proc t).state = .unused ∨ (s.proc t).state = .zombie → ∀ fd, (s.proc t).ofile fd = none

def IsEnd (p : Page) (w : Bool) (x : Entry) : Prop := x.type = .pipe ∧ x.pipe = p ∧ x.writable = w

instance (p : Page) (w : Bool) (x : Entry) : Decidable (IsEnd p w x) := inferInstanceAs (Decidable (_ ∧ _))

def closing : Pc n → Option (Page × Bool)
  | .pipeclose p w _ => some (p, w)
  | .out | .openAlloc .. | .openFd .. | .openInit .. | .dup _ | .close .. | .kfree .. | .pipeFirst | .pipeSecond _
  | .pipePage .. | .pipeFd .. | .pipeFd₁ .. | .fork .. | .exit _ => none

def freeing : Pc n → Option Page
  | .kfree p _ => some p
  | .out | .openAlloc .. | .openFd .. | .openInit .. | .dup _ | .close .. | .pipeclose .. | .pipeFirst | .pipeSecond _
  | .pipePage .. | .pipeFd .. | .pipeFd₁ .. | .fork .. | .exit _ => none

/-- What a call still does to a pipe of which it has closed the file. -/
def shutting (pc : Pc n) : Option (Page × Bool) × Option Page := (closing pc, freeing pc)

def isOpen (x : Pipe) (w : Bool) : Bool := if w then x.writeopen else x.readopen

def isShut (x : Pipe) : Bool := x.allocated && !x.readopen && !x.writeopen

structure Accounted (s : State n) : Prop where
  refs : ∀ f, ((s.file f).ref : Int) = ∑ t, own (s.proc t) f
  good : ∀ t, Good s t
  idle : ∀ f, (s.file f).ref = 0 → (s.file f).type = .none
  ends : ∀ p w, (isOpen (s.pipe p) w).toNat =
    (∑ f, if IsEnd p w (s.file f) then 1 else 0) + ∑ t, if closing (s.proc t).pc = some (p, w) then 1 else 0
  frees : ∀ p, (isShut (s.pipe p)).toNat = ∑ t, if freeing (s.proc t).pc = some p then 1 else 0
  shut : ∀ p w, (s.pipe p).allocated = false → isOpen (s.pipe p) w = false
  child : ∀ t r np fds fds', (s.proc t).pc = .fork np fds → (s.proc r).pc = .fork np fds' → t = r

theorem KnowsThen.nonneg (h : KnowsThen ofile k) (f : File) : 0 ≤ slots ofile f + due k f := by
  have base := slots_nonneg ofile f
  cases k with
  | ret => simpa [due] using base
  | close g =>
    simp only [due]
    split_ifs <;> omega
  | clear _ g =>
    simp only [due]
    split_ifs with same
    · have := slots_pos (f := f) (same ▸ h.1)
      omega
    · omega

theorem Good.own_nonneg (h : Good s t) (f : File) : 0 ≤ own (s.proc t) f := by
  have knows := h.knows
  have base := slots_nonneg (s.proc t).ofile f
  unfold own
  cases pc : (s.proc t).pc <;> rw [pc] at knows <;> simp only [held]
  case dup g =>
      split_ifs with same
      · subst same
        have two : 2 ≤ slots (s.proc t).ofile g := knows
        omega
      · omega
  case close g k =>
      have := knows.nonneg f
      split_ifs <;> omega
  case pipeclose p w k => exact knows.nonneg f
  case kfree p k => exact knows.nonneg f
  all_goals omega

theorem Accounted.own_le (h : Accounted s) (t : Fin n) (f : File) : own (s.proc t) f ≤ (s.file f).ref := by
  rw [h.refs]
  exact Finset.single_le_sum (f := fun t => own (s.proc t) f) (fun r _ => (h.good r).own_nonneg f) (Finset.mem_univ t)

theorem Accounted.apart (h : Accounted s) (fresh : Fresh s f) (mine : 1 ≤ own (s.proc r) f) (other : t ≠ r) :
    own (s.proc t) f = 0 := by
  have pair : ∑ q ∈ ({t, r} : Finset (Fin n)), own (s.proc q) f ≤ ∑ q, own (s.proc q) f :=
    Finset.sum_le_sum_of_subset_of_nonneg (Finset.subset_univ _) fun q _ _ => (h.good q).own_nonneg f
  rw [Finset.sum_pair other, ← h.refs, fresh.1] at pair
  have := (h.good t).own_nonneg f
  omega

theorem Knows.frame {pc : Pc n} (h : Knows s ofile pc)
    (files : ∀ f, Fresh s f → 1 ≤ slots ofile f + held pc f → u.file f = s.file f)
    (procs : ∀ np fds, pc = .fork np fds → (s.proc np).state = .embryo → u.proc np = s.proc np) :
    Knows u ofile pc := by
  have kept {f : File} (fresh : Fresh s f) (mine : 1 ≤ slots ofile f + held pc f) : Fresh u f := by
    rw [Fresh, files f fresh mine]
    exact fresh
  cases pc with
  | openFd f r w | pipeSecond f =>
    exact kept h (by simpa [held] using slots_nonneg ofile f)
  | openInit f r w =>
    obtain ⟨fresh, fd, member⟩ := h
    have := slots_pos member
    exact ⟨kept fresh (by simp only [held]; omega), fd, member⟩
  | pipePage f₀ f₁ =>
    obtain ⟨first, second, apart⟩ := h
    have left := slots_nonneg ofile f₀
    have right := slots_nonneg ofile f₁
    exact ⟨kept first (by simpa [held, apart.symm] using left), kept second (by simpa [held, apart] using right), apart⟩
  | fork np fds =>
    obtain ⟨embryo, nodup, empty⟩ := h
    rw [Knows, procs np fds rfl embryo]
    exact ⟨embryo, nodup, empty⟩
  | out | openAlloc r w | dup f | close f k | pipeclose p w k | kfree p k | pipeFirst | pipeFd | pipeFd₁
  | exit => exact h

theorem Accounted.of (h : Accounted s) (live : (s.proc t).state = .live) (procs : u.proc = update s.proc t x)
    (refs : ∀ f, ((u.file f).ref : Int) + own (s.proc t) f = (s.file f).ref + own x f)
    (files : ∀ f, own (s.proc t) f = 0 → (s.file f).ref ≠ 0 → u.file f = s.file f)
    (idle : ∀ f, (u.file f).ref = 0 → (u.file f).type = .none)
    (ends : ∀ p w, (isOpen (u.pipe p) w).toNat + (∑ f, if IsEnd p w (s.file f) then 1 else 0) +
        (if closing (s.proc t).pc = some (p, w) then 1 else 0) =
      (isOpen (s.pipe p) w).toNat + (∑ f, if IsEnd p w (u.file f) then 1 else 0) +
        if closing x.pc = some (p, w) then 1 else 0)
    (frees : ∀ p, (isShut (u.pipe p)).toNat + (if freeing (s.proc t).pc = some p then 1 else 0) =
      (isShut (s.pipe p)).toNat + if freeing x.pc = some p then 1 else 0)
    (shut : ∀ p w, (u.pipe p).allocated = false → isOpen (u.pipe p) w = false)
    (child : ∀ np fds, x.pc = .fork np fds → ∃ fds', (s.proc t).pc = .fork np fds')
    (good : Good u t) : Accounted u := by
  have others {r : Fin n} (other : r ≠ t) : u.proc r = s.proc r := by simp [procs, other]
  have self : u.proc t = x := by simp [procs]
  have forks {r np : Fin n} {fds : List Fd}
    (pc : (u.proc r).pc = .fork np fds) : ∃ fds', (s.proc r).pc = .fork np fds' := by
    by_cases same : r = t
    · subst same
      exact child np fds (self ▸ pc)
    · exact ⟨fds, others same ▸ pc⟩
  refine ⟨fun f => ?_, fun r => ?_, idle, fun p w => ?_, fun p => ?_, shut, fun q r np fds _ first second => ?_⟩
  · have swap := sum_update (fun y => own y f) s.proc t x
    rw [← procs, ← h.refs f] at swap
    have := refs f
    omega
  · by_cases same : r = t
    · exact same ▸ good
    obtain ⟨knows, out, bare⟩ := h.good r
    refine ⟨?_, others same ▸ out, others same ▸ bare⟩
    rw [others same]
    refine knows.frame (fun f fresh mine => files f (h.apart fresh mine (Ne.symm same)) ?_) fun np _ _ embryo => ?_
    · rw [fresh.1]
      exact one_ne_zero
    refine others ?_
    rintro rfl
    rw [live] at embryo
    cases embryo
  · have swap := sum_update (fun y => if closing y.pc = some (p, w) then 1 else 0) s.proc t x
    rw [← procs] at swap
    have := h.ends p w
    have := ends p w
    omega
  · have swap := sum_update (fun y => if freeing y.pc = some p then 1 else 0) s.proc t x
    rw [← procs] at swap
    have := h.frees p
    have := frees p
    omega
  · obtain ⟨_, first⟩ := forks first
    obtain ⟨_, second⟩ := forks second
    exact h.child q r np _ _ first second

theorem Accounted.move (h : Accounted s) (live : (s.proc t).state = .live)
    (refs : ∀ f, own x f = own (s.proc t) f) (close : closing x.pc = closing (s.proc t).pc)
    (free : freeing x.pc = freeing (s.proc t).pc)
    (child : ∀ np fds, x.pc = .fork np fds → ∃ fds', (s.proc t).pc = .fork np fds')
    (good : Good (s.setProc t x) t) : Accounted (s.setProc t x) :=
  h.of live rfl (fun f => by rw [refs f]; rfl) (fun _ _ _ => rfl) h.idle (fun p w => by rw [close]; rfl)
    (fun p => by rw [free]; rfl) h.shut child good

theorem ends_update (file : File → Entry) (f : File) (y : Entry) (p : Page) (w : Bool) :
    (∑ g, if IsEnd p w (update file f y g) then 1 else 0) + (if IsEnd p w (file f) then 1 else 0) =
      (∑ g, if IsEnd p w (file g) then 1 else 0) + if IsEnd p w y then 1 else 0 :=
  sum_update (fun y => if IsEnd p w y then 1 else 0) file f y

theorem Accounted.entry (h : Accounted s) {y : Entry} (live : (s.proc t).state = .live)
    (refs : (y.ref : Int) + own (s.proc t) g = (s.file g).ref + own x g)
    (others : ∀ f, f ≠ g → own x f = own (s.proc t) f) (mine : own (s.proc t) g ≠ 0 ∨ (s.file g).ref = 0)
    (idle : y.ref = 0 → y.type = .none)
    (ends : ∀ p w, (if IsEnd p w (s.file g) then 1 else 0) + (if closing (s.proc t).pc = some (p, w) then 1 else 0) =
      (if IsEnd p w y then 1 else 0) + if closing x.pc = some (p, w) then 1 else 0)
    (free : freeing x.pc = freeing (s.proc t).pc) (child : ∀ np fds, x.pc ≠ .fork np fds)
    (good : Good ((s.setFile g y).setProc t x) t) : Accounted ((s.setFile g y).setProc t x) := by
  have files : ((s.setFile g y).setProc t x).file = update s.file g y := rfl
  have pipes : ((s.setFile g y).setProc t x).pipe = s.pipe := rfl
  refine h.of live rfl (fun f => ?_) (fun f none some => ?_)
    (fun f => ?_) (fun p w => ?_) (fun p => by rw [free]; rfl) h.shut
    (fun np fds pc => absurd pc (child np fds)) good
  · by_cases this : f = g
    · subst this
      rw [files, update_self]
      exact refs
    · rw [files, update_of_ne this, others f this]
  · have this : f ≠ g := by
      rintro rfl
      exact mine.elim (fun positive => positive none) some
    rw [files, update_of_ne this]
  · by_cases this : f = g
    · subst this
      rw [files, update_self]
      exact idle
    · rw [files, update_of_ne this]
      exact h.idle f
  · have swap := ends_update s.file g y p w
    have := ends p w
    rw [files, pipes]
    omega

theorem Accounted.file (h : Accounted s) {y : Entry} (live : (s.proc t).state = .live)
    (refs : (y.ref : Int) + own (s.proc t) g = (s.file g).ref + own x g)
    (others : ∀ f, f ≠ g → own x f = own (s.proc t) f) (mine : own (s.proc t) g ≠ 0 ∨ (s.file g).ref = 0)
    (idle : y.ref = 0 → y.type = .none) (ends : ∀ p w, IsEnd p w y ↔ IsEnd p w (s.file g))
    (close : closing x.pc = closing (s.proc t).pc) (free : freeing x.pc = freeing (s.proc t).pc)
    (child : ∀ np fds, x.pc ≠ .fork np fds) (good : Good ((s.setFile g y).setProc t x) t) :
    Accounted ((s.setFile g y).setProc t x) :=
  h.entry live refs others mine idle (fun p w => by rw [close, if_congr (ends p w) rfl rfl]) free child good

theorem good_live (proc : u.proc t = x) (live : x.state = .live) (knows : Knows u x.ofile x.pc) : Good u t := by
  subst proc
  refine ⟨knows, fun dead => absurd live dead, fun gone => ?_⟩
  rcases gone with gone | gone <;> rw [live] at gone <;> cases gone

theorem good_out (proc : u.proc t = x) (out : x.pc = .out)
    (bare : x.state = .unused ∨ x.state = .zombie → ∀ fd, x.ofile fd = none) : Good u t := by
  subst proc
  refine ⟨?_, fun _ => out, bare⟩
  rw [out]
  trivial

@[simp] theorem setProc_self (s : State n) (t : Fin n) (x : Proc n) : (s.setProc t x).proc t = x := by simp [setProc]

theorem setFd_goto (s : State n) (t : Fin n) (fd : Fd) (f : Option File) (pc : Pc n) :
    (s.setFd t fd f).goto t pc = s.setProc t { s.proc t with ofile := update (s.proc t).ofile fd f, pc } := by
  simp [setFd, goto, setProc]

def after (x : Proc n) : Then → Proc n
  | .ret => { x with pc := .out }
  | .close f => { x with pc := .close f .ret }
  | .clear fd _ fds => { x with ofile := update x.ofile fd none, pc := .exit fds }

theorem ret_eq (s : State n) (t : Fin n) (k : Then) : s.ret t k = s.setProc t (after (s.proc t) k) := by
  cases k with
  | ret => rfl
  | close f => rfl
  | clear fd f fds => exact setFd_goto s t fd none (.exit fds)

theorem own_after (knows : KnowsThen x.ofile k) (f : File) : own (after x k) f = slots x.ofile f + due k f := by
  cases k with
  | ret | close g => simp [own, after, held, due]
  | clear fd g =>
    have swap := slots_update x.ofile fd none f
    rw [knows.1] at swap
    simp only [own, after, held, due, Option.some.injEq, reduceCtorEq, if_false] at swap ⊢
    split_ifs at swap ⊢ <;> omega

theorem knows_after (knows : KnowsThen x.ofile k) : Knows u (after x k).ofile (after x k).pc := by
  cases k with
  | ret | close g => trivial
  | clear fd g =>
    intro e outside
    by_cases here : e = fd
    · simp [after, here]
    · simp only [after, update_of_ne here]
      exact knows.2 e (by simp [here, outside])

theorem after_pc (x : Proc n) (k : Then) : closing (after x k).pc = none ∧ freeing (after x k).pc = none ∧
    (∀ np fds, (after x k).pc ≠ .fork np fds) ∧ (after x k).state = x.state := by
  cases k <;> simp [after, closing, freeing]

theorem filealloc_free (found : s.filealloc = some f) : (s.file f).ref = 0 := by
  simpa using List.find?_some found

theorem fdalloc_free (found : s.fdalloc t = some fd) : (s.proc t).ofile fd = none := by
  simpa using List.find?_some found

section
variable (h : Accounted s)
include h

variable (live : (s.proc t).state = .live)
include live

theorem Accounted.alloc {pc : Pc n} (found : s.filealloc = some f)
    (holds : ∀ g, held pc g = held (s.proc t).pc g + if f = g then 1 else 0)
    (same : shutting pc = shutting (s.proc t).pc)
    (child : ∀ np fds, pc ≠ .fork np fds)
    (knows : ∀ u : State n, Fresh u f → (∀ g, Fresh s g → u.file g = s.file g) → Knows u (s.proc t).ofile pc) :
    Accounted ((s.setFile f { s.file f with ref := 1 }).goto t pc) := by
  obtain ⟨close, free⟩ := Prod.mk.inj same
  have zero := filealloc_free found
  have none := h.idle f zero
  refine h.file live ?_ (fun g other => ?_) (.inr zero) (by simp) (fun p w => Iff.rfl) close free child
    (good_live (setProc_self ..) live (knows _ ?_ fun g fresh => ?_))
  · have more := holds f
    rw [if_pos rfl] at more
    simp only [own, more, zero, setFile]
    omega
  · have same := holds g
    rw [if_neg (Ne.symm other)] at same
    simp only [own, same, setFile]
    omega
  · simp [Fresh, setFile, setProc, none]
  · have other : g ≠ f := by
      rintro rfl
      rw [fresh.1] at zero
      cases zero
    simp [setFile, setProc, other]

theorem Accounted.goto {pc : Pc n} (holds : held pc = held (s.proc t).pc) (same : shutting pc = shutting (s.proc t).pc)
    (child : ∀ np fds, pc = .fork np fds → ∃ fds', (s.proc t).pc = .fork np fds')
    (knows : Knows (s.goto t pc) (s.proc t).ofile pc) : Accounted (s.goto t pc) :=
  h.move live (fun f => by rw [own, holds]; rfl) (Prod.mk.inj same).1
    (Prod.mk.inj same).2 child (good_live (setProc_self ..) live knows)

theorem Accounted.setFd {pc : Pc n} {g : Option File}
    (holds : ∀ f, held pc f + (if g = some f then 1 else 0) =
      held (s.proc t).pc f + if (s.proc t).ofile fd = some f then 1 else 0)
    (same : shutting pc = shutting (s.proc t).pc)
    (child : ∀ np fds, pc ≠ .fork np fds)
    (knows : ∀ u : State n, u.file = s.file → Knows u (update (s.proc t).ofile fd g) pc) :
    Accounted ((s.setFd t fd g).goto t pc) := by
  rw [setFd_goto]
  obtain ⟨close, free⟩ := Prod.mk.inj same
  refine h.move live (fun f => ?_) close free (fun np fds pc => absurd pc (child np fds))
    (good_live (setProc_self ..) live (knows _ rfl))
  have swap := slots_update (s.proc t).ofile fd g f
  have := holds f
  simp only [own]
  omega

theorem Accounted.init {r w : Bool} (pc : (s.proc t).pc = .openInit f r w) :
    Accounted ((s.setFile f { s.file f with type := .inode, readable := r, writable := w }).goto t .out) := by
  have knows := (h.good t).knows
  rw [pc] at knows
  obtain ⟨⟨one, none⟩, _, member⟩ := knows
  have holds : held (s.proc t).pc = held (.out : Pc n) := by rw [pc]; rfl
  have pos := slots_pos member
  refine h.file live ?_ (fun g _ => ?_) (.inl ?_) (fun zero => ?_) (fun p w => ?_) (by rw [pc]; rfl) (by rw [pc]; rfl)
    (by simp) (good_live (setProc_self ..) live trivial)
  · simp only [own, holds]
    rfl
  · simp only [own, holds]
    rfl
  · rw [own, pc, held]
    omega
  · rw [one] at zero
    cases zero
  · simp [IsEnd, none]

theorem Accounted.filedup (pc : (s.proc t).pc = .dup f) : Accounted ((s.addRef f).goto t .out) := by
  have knows := (h.good t).knows
  rw [pc] at knows
  have two : 2 ≤ slots (s.proc t).ofile f := knows
  have mine : own (s.proc t) f = slots (s.proc t).ofile f - 1 := by
    simp only [own, pc, held, if_true]
    omega
  have le := h.own_le t f
  refine h.file live ?_ (fun g other => ?_) (.inl ?_) (fun zero => ?_)
    (fun p w => Iff.rfl) (by rw [pc]; rfl) (by rw [pc]; rfl)
    (by simp) (good_live (setProc_self ..) live trivial)
  · rw [mine]
    simp only [own, held, addRef, setFile]
    omega
  · simp [own, held, pc, addRef, setFile, Ne.symm other]
  · omega
  · simp at zero

theorem Accounted.fileclose (pc : (s.proc t).pc = .close f k) : Accounted (s.fileclose t f k) := by
  have knows := (h.good t).knows
  rw [pc] at knows
  have known : KnowsThen (s.proc t).ofile k := knows
  have total (g : File) : own (s.proc t) g = own (after (s.proc t) k) g + if f = g then 1 else 0 := by
    rw [own_after known, own, pc, held]
    omega
  have rest := known.nonneg f
  rw [← own_after known] at rest
  have le := h.own_le t f
  have here := total f
  rw [if_pos rfl] at here
  have others (g : File) (other : g ≠ f) : own (after (s.proc t) k) g = own (s.proc t) g := by
    rw [total g, if_neg (Ne.symm other), add_zero]
  obtain ⟨close, free, child, state⟩ := after_pc (s.proc t) k
  have closed : closing (s.proc t).pc = none := by rw [pc]; rfl
  have freed : freeing (s.proc t).pc = none := by rw [pc]; rfl
  unfold State.fileclose
  by_cases more : (s.file f).ref - 1 > 0
  · simp only [if_pos more, ret_eq]
    refine h.file live ?_ others (.inl (by omega)) (fun zero => absurd zero (Nat.ne_of_gt more)) (fun p w => Iff.rfl)
      (close.trans closed.symm) (free.trans freed.symm) child
      (good_live (setProc_self ..) (state.trans live) (knows_after known))
    simp only [setFile]
    omega
  simp only [if_neg more]
  by_cases pipe : (s.file f).type = .pipe
  · -- the end of the pipe becomes one that is about to be closed
    simp only [if_pos pipe]
    have same (g : File) : own ({ s.proc t with pc := .pipeclose (s.file f).pipe (s.file f).writable k } : Proc n) g =
        own (after (s.proc t) k) g := by rw [own_after known]; rfl
    refine h.entry (x := { s.proc t with pc := .pipeclose (s.file f).pipe (s.file f).writable k }) live ?_
      (fun g other => (same g).trans (others g other)) (.inl (by omega)) (fun _ => rfl) (fun p w => ?_)
      (freed ▸ rfl) (by simp) (good_live (setProc_self ..) live known)
    · rw [same f]
      simp only
      omega
    · rw [closed]
      simp [IsEnd, closing, pipe]
  · simp only [if_neg pipe, ret_eq]
    refine h.file live ?_ others (.inl (by omega)) (fun _ => rfl) (fun p w => by simp [IsEnd, pipe])
      (close.trans closed.symm) (free.trans freed.symm) child
      (good_live (setProc_self ..) (state.trans live) (knows_after known))
    simp only [setFile]
    omega

omit live in
theorem Accounted.isOpen_of_closing (pc : closing (s.proc t).pc = some (p, w)) : isOpen (s.pipe p) w = true := by
  have ends := h.ends p w
  have le := le_sum (fun t => if closing (s.proc t).pc = some (p, w) then 1 else 0) t
  simp only [pc, if_true] at le
  cases flag : isOpen (s.pipe p) w with
  | true => rfl
  | false =>
    simp only [flag, Bool.toNat_false] at ends
    omega

omit live in
theorem Accounted.isShut_of_freeing (pc : freeing (s.proc t).pc = some p) : isShut (s.pipe p) = true := by
  have frees := h.frees p
  have le := le_sum (fun t => if freeing (s.proc t).pc = some p then 1 else 0) t
  simp only [pc, if_true] at le
  cases flag : isShut (s.pipe p) with
  | true => rfl
  | false =>
    simp only [flag, Bool.toNat_false] at frees
    omega

theorem Accounted.pipe {x : Pipe} {y : Proc n} (refs : ∀ f, own y f = own (s.proc t) f)
    (ends : ∀ w, (isOpen x w).toNat + (if closing (s.proc t).pc = some (p, w) then 1 else 0) =
      (isOpen (s.pipe p) w).toNat + if closing y.pc = some (p, w) then 1 else 0)
    (frees : (isShut x).toNat + (if freeing (s.proc t).pc = some p then 1 else 0) =
      (isShut (s.pipe p)).toNat + if freeing y.pc = some p then 1 else 0)
    (close : ∀ q w, q ≠ p → (closing y.pc = some (q, w) ↔ closing (s.proc t).pc = some (q, w)))
    (free : ∀ q, q ≠ p → (freeing y.pc = some q ↔ freeing (s.proc t).pc = some q))
    (shut : ∀ w, x.allocated = false → isOpen x w = false) (child : ∀ np fds, y.pc ≠ .fork np fds)
    (good : Good ((s.setPipe p x).setProc t y) t) : Accounted ((s.setPipe p x).setProc t y) := by
  have here : ((s.setPipe p x).setProc t y).pipe p = x := by simp [setPipe, setProc]
  have others (q : Page) (other : q ≠ p) : ((s.setPipe p x).setProc t y).pipe q = s.pipe q := by
    simp [setPipe, setProc, other]
  refine h.of live rfl (fun f => by rw [refs f]; rfl)
    (fun _ _ _ => rfl) h.idle (fun q w => ?_) (fun q => ?_) (fun q w => ?_)
    (fun np fds pc => absurd pc (child np fds)) good
  · by_cases this : q = p
    · subst this
      have := ends w
      have files : ((s.setPipe q x).setProc t y).file = s.file := rfl
      rw [here, files]
      omega
    · rw [others q this, if_congr (close q w this) rfl rfl]
      rfl
  · by_cases this : q = p
    · subst this
      rw [here]
      exact frees
    · rw [others q this, if_congr (free q this) rfl rfl]
  · by_cases this : q = p
    · subst this
      rw [here]
      exact shut w
    · rw [others q this]
      exact h.shut q w

theorem Accounted.pipeclose (pc : (s.proc t).pc = .pipeclose p w k) : Accounted (s.pipeclose t p w k) := by
  have known : KnowsThen (s.proc t).ofile k := by
    have knows := (h.good t).knows
    rwa [pc] at knows
  have wasOpen := h.isOpen_of_closing (t := t) (p := p) (w := w) (by rw [pc]; rfl)
  have allocated : (s.pipe p).allocated = true := by
    by_contra not
    have := h.shut p w (by simpa using not)
    simp [wasOpen] at this
  have close : closing (s.proc t).pc = some (p, w) := by rw [pc]; rfl
  have free : freeing (s.proc t).pc = none := by rw [pc]; rfl
  have holds : own (s.proc t) = own (after (s.proc t) k) := by
    funext f
    rw [own_after known, own, pc]
    rfl
  obtain ⟨closed, freed, child, state⟩ := after_pc (s.proc t) k
  unfold State.pipeclose
  generalize new : (if w then { s.pipe p with writeopen := false } else { s.pipe p with readopen := false } : Pipe) = x
  have flags : isOpen x w = false ∧ isOpen x (!w) = isOpen (s.pipe p) (!w) ∧ x.allocated = true := by
    subst new
    cases w <;> simp [isOpen, allocated]
  have wasShut : isShut (s.pipe p) = false := by cases w <;> simp_all [isShut, isOpen]
  obtain ⟨isClosed, other, still⟩ := flags
  have ends (v : Bool) : (isOpen x v).toNat +
    (if closing (s.proc t).pc = some (p, v) then 1 else 0) = (isOpen (s.pipe p) v).toNat := by
    rw [close]
    by_cases same : v = w
    · subst same
      simp [isClosed, wasOpen]
    · obtain rfl := Bool.eq_not_of_ne same
      simp [other]
  have elsewhere (q : Page) (v : Bool) (other : q ≠ p) : closing (s.proc t).pc ≠ some (q, v) := by
    rw [close]
    simp [Ne.symm other]
  by_cases last : x.readopen = false ∧ x.writeopen = false
  · simp only [if_pos last]
    have shut : isShut x = true := by simp [isShut, still, last]
    refine h.pipe (y := { s.proc t with pc := .kfree p k }) live
      (fun f => ?_) (fun v => ends v) ?_ (fun q v other => ?_)
      (fun q other => ?_) (fun v not => by simp [still] at not) (by simp) (good_live (setProc_self ..) live known)
    · rw [holds, own_after known]
      rfl
    · rw [free, shut, wasShut]
      simp [freeing]
    · exact ⟨fun not => (nomatch not), fun not => absurd not (elsewhere q v other)⟩
    · rw [free]
      simp [freeing, Ne.symm other]
  simp only [if_neg last, ret_eq]
  have shut : isShut x = false := by
    simp only [isShut, still]
    cases reads : x.readopen <;> cases writes : x.writeopen <;> simp_all
  refine h.pipe (y := after (s.proc t) k) live (fun f => by rw [holds]) (fun v => ?_) ?_ (fun q v other => ?_)
    (fun q other => ?_) (fun v not => by simp [still] at not) child
    (good_live (setProc_self ..) (state.trans live) (knows_after known))
  · simpa [closed] using ends v
  · simp [freed, free, shut, wasShut]
  · simp [closed, elsewhere q v other]
  · simp [freed, free]

theorem Accounted.kfree
    (pc : (s.proc t).pc = .kfree p k) : Accounted ((s.setPipe p { s.pipe p with allocated := false }).ret t k) := by
  have known : KnowsThen (s.proc t).ofile k := by
    have knows := (h.good t).knows
    rwa [pc] at knows
  have shut := h.isShut_of_freeing (t := t) (p := p) (by rw [pc]; rfl)
  simp only [isShut, Bool.and_eq_true, Bool.not_eq_true'] at shut
  obtain ⟨⟨allocated, reads⟩, writes⟩ := shut
  obtain ⟨closed, freed, child, state⟩ := after_pc (s.proc t) k
  rw [ret_eq]
  refine h.pipe live (fun f => ?_) (fun w => ?_) ?_ (fun q w other => ?_) (fun q other => ?_) (fun w _ => ?_) child
    (good_live (setProc_self ..) (state.trans live) (knows_after known))
  · change own (after (s.proc t) k) f = _
    rw [own_after known, own, pc]
    rfl
  · rw [pc, show (s.setPipe p _).proc t = s.proc t from rfl, closed]
    simp [closing, isOpen]
  · rw [pc, show (s.setPipe p _).proc t = s.proc t from rfl, freed]
    simp [freeing, isShut, allocated, reads, writes]
  · rw [pc, show (s.setPipe p _).proc t = s.proc t from rfl, closed]
    simp [closing]
  · rw [pc, show (s.setPipe p _).proc t = s.proc t from rfl, freed]
    simpa [freeing] using Ne.symm other
  · simp [isOpen, reads, writes]

theorem Accounted.join {f₀ f₁ : File} {y₀ y₁ : Entry}
    (pc : (s.proc t).pc = .pipePage f₀ f₁)
    (unused : (s.pipe p).allocated = false) (one : y₀.ref = 1) (one' : y₁.ref = 1)
    (reads : ∀ q w, IsEnd q w y₀ ↔ q = p ∧ w = false) (writes : ∀ q w, IsEnd q w y₁ ↔ q = p ∧ w = true) :
    Accounted { file := update (update s.file f₀ y₀) f₁ y₁,
                pipe := update s.pipe p ⟨true, true, true⟩,
                proc := update s.proc t { s.proc t with pc := .pipeFd f₀ f₁ } } := by
  have knows := (h.good t).knows
  rw [pc] at knows
  obtain ⟨first, second, apart⟩ := knows
  have mine (f : File) (either : f = f₀ ∨ f = f₁) : 1 ≤ own (s.proc t) f := by
    have := slots_nonneg (s.proc t).ofile f
    rw [own, pc, held]
    rcases either with rfl | rfl
    · rw [if_pos rfl, if_neg apart.symm]
      omega
    · rw [if_neg apart, if_pos rfl]
      omega
  have file (f : File) (left : f ≠ f₀) (right : f ≠ f₁) : update (update s.file f₀ y₀) f₁ y₁ f = s.file f := by
    simp [left, right]
  have file₀ : update (update s.file f₀ y₀) f₁ y₁ f₀ = y₀ := by simp [apart]
  have file₁ : update (update s.file f₀ y₀) f₁ y₁ f₁ = y₁ := by simp
  refine h.of live rfl (fun f => ?_) (fun f zero _ => ?_) (fun f => ?_) (fun q w => ?_) (fun q => ?_) (fun q w => ?_)
    (fun _ _ pc => nomatch pc) (good_live (update_self ..) live trivial)
  · have refs : (update (update s.file f₀ y₀) f₁ y₁ f).ref = (s.file f).ref := by
      by_cases left : f = f₀
      · rw [left, file₀, one, first.1]
      · by_cases right : f = f₁
        · rw [right, file₁, one', second.1]
        · rw [file f left right]
    rw [refs, own, own, pc]
    rfl
  · refine file f ?_ ?_
    · intro this
      have := mine f (.inl this)
      omega
    · intro this
      have := mine f (.inr this)
      omega
  · intro zero
    by_cases left : f = f₀
    · simp [left, apart, one] at zero
    by_cases right : f = f₁
    · simp [right, one'] at zero
    · simp only [file f left right] at zero ⊢
      exact h.idle f zero
  · have inner := ends_update s.file f₀ y₀ q w
    have outer := ends_update (update s.file f₀ y₀) f₁ y₁ q w
    rw [if_neg (by simp [IsEnd, first.2]), if_congr (reads q w) rfl rfl] at inner
    rw [update_of_ne apart.symm, if_neg (by simp [IsEnd, second.2]), if_congr (writes q w) rfl rfl] at outer
    rw [pc]
    by_cases here : q = p
    · subst here
      have wasShut := h.shut q w unused
      cases w <;> simp_all [isOpen, closing, add_comm]
    · simp_all [closing]
  · rw [pc]
    by_cases here : q = p
    · subst here
      simp [isShut, unused, freeing]
    · simp [here, freeing]
  · by_cases here : q = p
    · subst here
      simp
    · simpa [here] using h.shut q w

theorem Accounted.pipealloc {f₀ f₁ : File}
    (pc : (s.proc t).pc = .pipePage f₀ f₁) (action : s.pipealloc t f₀ f₁ page = some u) : Accounted u := by
  have knows := (h.good t).knows
  rw [pc] at knows
  obtain ⟨first, second, apart⟩ := knows
  cases page with
  | none =>
    cases action
    exact h.goto live (by rw [pc]; rfl) (by rw [pc]; rfl) (fun _ _ pc => nomatch pc) trivial
  | some p =>
    obtain ⟨unused, rest⟩ := Option.ite_none_left_eq_some.mp action
    cases rest
    dsimp only [setPipe, setFile, State.goto, setProc]
    rw [update_of_ne apart.symm]
    exact h.join live pc (by simpa using unused) first.1 second.1 (by simp [IsEnd, eq_comm]) (by simp [IsEnd, eq_comm])

theorem Accounted.pair {y : Proc n} (dead : (s.proc np).state ≠ .live)
    (procs : u.proc = update (update s.proc np y) t x)
    (refs : ∀ f, ((u.file f).ref : Int) + own (s.proc t) f + own (s.proc np) f = (s.file f).ref + own x f + own y f)
    (files : ∀ f, own (s.proc t) f = 0 → (s.file f).ref ≠ 0 → u.file f = s.file f)
    (idle : ∀ f, (u.file f).ref = 0 → (u.file f).type = .none)
    (ends : ∀ p w f, IsEnd p w (u.file f) ↔ IsEnd p w (s.file f)) (pipes : u.pipe = s.pipe)
    (out : y.pc = (s.proc np).pc) (bare : y.state = .unused ∨ y.state = .zombie → ∀ fd, y.ofile fd = none)
    (close : closing x.pc = closing (s.proc t).pc) (free : freeing x.pc = freeing (s.proc t).pc)
    (nobody : ∀ r fds, r ≠ t → (s.proc r).pc ≠ .fork np fds) (child : ∀ q fds, x.pc = .fork q fds → q = np)
    (good : Good u t) : Accounted u := by
  have other : np ≠ t := by
    rintro rfl
    exact dead live
  have others {r : Fin n} (ne : r ≠ t) (ne' : r ≠ np) : u.proc r = s.proc r := by simp [procs, ne, ne']
  have self : u.proc t = x := by simp [procs]
  have new : u.proc np = y := by simp [procs, other]
  have sums {M : Type} [AddCommMonoid M] (φ : Proc n → M) :
      ∑ r, φ (u.proc r) + φ (s.proc t) + φ (s.proc np) = ∑ r, φ (s.proc r) + φ x + φ y := by
    have inner := sum_update φ s.proc np y
    have outer := sum_update φ (update s.proc np y) t x
    rw [← procs, update_of_ne other.symm] at outer
    rw [outer, add_right_comm, inner, add_right_comm]
  have pcs {r : Fin n} (ne : r ≠ t) : (u.proc r).pc = (s.proc r).pc := by
    by_cases same : r = np
    · rw [same, new, out]
    · rw [others ne same]
  refine ⟨fun f => ?_, fun r => ?_, idle, fun p w => ?_, fun p => ?_,
    fun p w => ?_, fun q r c fds fds' first second => ?_⟩
  · have swap := sums (fun y => own y f)
    rw [← h.refs f] at swap
    have := refs f
    omega
  · by_cases same : r = t
    · exact same ▸ good
    by_cases same' : r = np
    · exact same' ▸ good_out new (out.trans ((h.good np).out dead)) bare
    obtain ⟨knows, out, bare⟩ := h.good r
    refine ⟨?_, others same same' ▸ out, others same same' ▸ bare⟩
    rw [others same same']
    refine knows.frame (fun f fresh mine => files f (h.apart fresh mine (Ne.symm same)) ?_) fun c fds pc embryo => ?_
    · rw [fresh.1]
      exact one_ne_zero
    refine others ?_ ?_
    · rintro rfl
      rw [live] at embryo
      cases embryo
    · rintro rfl
      exact nobody r fds same pc
  · have swap := sums (fun y => if closing y.pc = some (p, w) then 1 else 0)
    have := h.ends p w
    rw [out, close] at swap
    simp only [ends p w, pipes]
    omega
  · have swap := sums (fun y => if freeing y.pc = some p then 1 else 0)
    have := h.frees p
    rw [out, free] at swap
    rw [pipes]
    omega
  · rw [pipes]
    exact h.shut p w
  · have mine {r : Fin n} {fds fds' : List Fd} (pc : (u.proc r).pc = .fork c fds)
      (here : x.pc = .fork c fds') : r = t := by
      obtain rfl := child c fds' here
      by_contra ne
      rw [pcs ne] at pc
      exact nobody r fds ne pc
    by_cases left : q = t
    · subst left
      exact (mine second (self ▸ first)).symm
    by_cases right : r = t
    · subst right
      exact mine first (self ▸ second)
    · rw [pcs left] at first
      rw [pcs right] at second
      exact h.child q r c _ _ first second

omit live in
theorem Accounted.not_fork (mine : (s.proc np).state ≠ .embryo ∨ ∃ fds, (s.proc t).pc = .fork np fds)
    (r : Fin n) (fds : List Fd) (other : r ≠ t) : (s.proc r).pc ≠ .fork np fds := by
  intro pc
  rcases mine with dead | ⟨fds', mine⟩
  · have knows := (h.good r).knows
    rw [pc] at knows
    exact dead knows.1
  · exact other (h.child r t np fds fds' pc mine)

theorem Accounted.allocproc (pc : (s.proc t).pc = .out) (unused : (s.proc np).state = .unused) :
    Accounted ((s.setProc np { s.proc np with state := .embryo }).goto t (.fork np (List.finRange NOFILE))) := by
  have other : np ≠ t := by
    rintro rfl
    rw [live] at unused
    cases unused
  have self : (s.setProc np { s.proc np with state := .embryo }).proc t = s.proc t := by simp [setProc, other.symm]
  rw [State.goto, self]
  refine h.pair live (by simp [unused]) rfl (fun f => ?_)
    (fun _ _ _ => rfl) h.idle (fun _ _ _ => Iff.rfl) rfl rfl (by simp)
    (by rw [pc]; rfl) (by rw [pc]; rfl) (h.not_fork (.inl (by simp [unused])))
    (fun q _ same => (Pc.fork.inj same).1.symm)
    (good_live (setProc_self ..) live ?_)
  · simp only [own, pc]
    rfl
  · have bare := (h.good np).bare (.inl unused)
    simpa [Knows, setProc, other, List.nodup_finRange] using bare

theorem Accounted.copied (pc : (s.proc t).pc = .fork np []) :
    Accounted ((s.setProc np { s.proc np with state := .live }).goto t .out) := by
  have knows := (h.good t).knows
  rw [pc] at knows
  have embryo : (s.proc np).state = .embryo := knows.1
  have other : np ≠ t := by
    rintro rfl
    rw [live] at embryo
    cases embryo
  have self : (s.setProc np { s.proc np with state := .live }).proc t = s.proc t := by simp [setProc, other.symm]
  rw [State.goto, self]
  refine h.pair live (by simp [embryo]) rfl (fun f => ?_)
    (fun _ _ _ => rfl) h.idle (fun _ _ _ => Iff.rfl) rfl rfl (by simp)
    (by rw [pc]; rfl) (by rw [pc]; rfl) (h.not_fork (.inr ⟨_, pc⟩)) (fun q _ same => nomatch same)
    (good_live (setProc_self ..) live trivial)
  simp only [own, pc]
  rfl

theorem Accounted.copy {fds : List Fd}
    (pc : (s.proc t).pc = .fork np (fd :: fds)) (member : (s.proc t).ofile fd = some f) :
    Accounted (((s.addRef f).setFd np fd (some f)).goto t (.fork np fds)) := by
  have knows := (h.good t).knows
  rw [pc] at knows
  obtain ⟨embryo, nodup, empty⟩ := knows
  have other : np ≠ t := by
    rintro rfl
    rw [live] at embryo
    cases embryo
  have self : ((s.addRef f).setFd np fd (some f)).proc t = s.proc t := by
    simp [State.setFd, addRef, setFile, setProc, other.symm]
  have mine : own (s.proc t) f = slots (s.proc t).ofile f := by simp [own, pc, held]
  have pos := slots_pos member
  rw [State.goto, self]
  refine h.pair live (by simp [embryo]) rfl (fun g => ?_) (fun g _ _ => ?_) (fun g => ?_) (fun p w g => ?_) rfl rfl
    (by simp [addRef, setFile, embryo]) (by rw [pc]; rfl) (by rw [pc]; rfl) (h.not_fork (.inr ⟨_, pc⟩))
    (fun q fds same => (Pc.fork.inj same).1.symm) (good_live (setProc_self ..) live ?_)
  · have swap := slots_update (s.proc np).ofile fd (some f) g
    rw [empty fd (by simp)] at swap
    simp only [own, pc, held, State.setFd, addRef, setFile,
      setProc, Option.some.injEq, reduceCtorEq, if_false] at swap ⊢
    by_cases same : g = f
    · subst same
      simp only [update_self, if_true] at swap ⊢
      omega
    · simp only [update_of_ne same, if_neg (Ne.symm same)] at swap ⊢
      omega
  · have ne : g ≠ f := by
      rintro rfl
      omega
    simp [setProc, State.setFd, addRef, setFile, ne]
  · by_cases same : g = f
    · subst same
      simp [setProc, State.setFd, addRef, setFile]
    · simpa [setProc, State.setFd, addRef, setFile, same] using h.idle g
  · by_cases same : g = f
    · subst same
      simp [setProc, State.setFd, addRef, setFile, IsEnd]
    · simp [setProc, State.setFd, addRef, setFile, same]
  · have new : (((s.addRef f).setFd np fd (some f)).setProc t { s.proc t with pc := .fork np fds }).proc np =
        { s.proc np with ofile := update (s.proc np).ofile fd (some f) } := by
      simp [setProc, State.setFd, addRef, setFile, other]
    obtain ⟨notMem, nodup⟩ := List.nodup_cons.mp nodup
    refine ⟨by rw [new]; exact embryo, nodup, fun e inside => ?_⟩
    have ne : e ≠ fd := by
      rintro rfl
      exact notMem inside
    rw [new]
    simpa [ne] using empty e (List.mem_cons_of_mem fd inside)

theorem Accounted.wait (pc : (s.proc t).pc = .out)
    (zombie : (s.proc np).state = .zombie) : Accounted (s.setProc np { s.proc np with state := .unused }) := by
  have other : t ≠ np := by
    rintro rfl
    rw [live] at zombie
    cases zombie
  have self : (s.setProc np { s.proc np with state := .unused }).proc t = s.proc t := by simp [setProc, other]
  refine h.pair (x := s.proc t) (y := { s.proc np with state := .unused }) live (by simp [zombie]) ?_ (fun f => rfl)
    (fun _ _ _ => rfl) h.idle (fun _ _ _ => Iff.rfl) rfl rfl (fun _ => (h.good np).bare (.inr zombie)) rfl rfl
    (h.not_fork (.inl (by simp [zombie]))) (fun q _ same => ?_) (good_live self live ?_)
  · exact (update_eq_self_iff.mpr (update_of_ne other ..).symm).symm
  · rw [pc] at same
    cases same
  · rw [pc]
    trivial

theorem Accounted.exited (pc : (s.proc t).pc = .exit []) :
    Accounted (s.setProc t { s.proc t with state := .zombie, pc := .out }) := by
  have knows := (h.good t).knows
  rw [pc] at knows
  exact h.move live (fun f => by simp only [own, pc]; rfl) (by rw [pc]; rfl) (by rw [pc]; rfl)
    (fun _ _ same => nomatch same) (good_out (setProc_self ..) rfl fun _ fd => knows fd (by simp))

theorem Accounted.go (action : s.go t page = some u) : Accounted u := by
  have knows := (h.good t).knows
  unfold State.go at action
  cases pc : (s.proc t).pc <;> rw [pc] at knows <;> simp only [pc] at action
  case out => cases action
  case openAlloc | pipeFirst =>
      cases found : s.filealloc <;> rw [found] at action <;> obtain rfl := Option.some.inj action
      case none => exact h.goto live (by rw [pc]; rfl) (by rw [pc]; rfl) (by simp) trivial
      case some f => exact h.alloc live found (by simp [pc, held]) (by rw [pc]; rfl) (by simp) fun u fresh _ => fresh
  case openFd f r w =>
      cases found : s.fdalloc t <;> rw [found] at action <;> obtain rfl := Option.some.inj action
      case none =>
          exact h.goto live (by rw [pc]; funext g; simp [held, due]) (by rw [pc]; rfl) (by simp) trivial
      case some fd =>
          refine h.setFd live (by simp [pc, held, fdalloc_free found]) (by rw [pc]; rfl) (by simp) fun u files => ?_
          exact ⟨by rw [Fresh, files]; exact knows, fd, update_self ..⟩
  case openInit f r w =>
      cases action
      exact h.init live pc
  case dup f =>
      cases action
      exact h.filedup live pc
  case close f k =>
      cases action
      exact h.fileclose live pc
  case pipeclose p w k =>
      cases action
      exact h.pipeclose live pc
  case kfree p k =>
      cases action
      exact h.kfree live pc
  case pipeSecond f₀ =>
      have fresh : Fresh s f₀ := knows
      cases found : s.filealloc <;> rw [found] at action <;> obtain rfl := Option.some.inj action
      case none =>
          exact h.goto live (by rw [pc]; funext g; simp [held, due]) (by rw [pc]; rfl) (by simp) trivial
      case some f =>
          refine h.alloc live found (by simp [pc, held]) (by rw [pc]; rfl) (by simp) fun u new same => ?_
          refine ⟨by rw [Fresh, same f₀ fresh]; exact fresh, new, ?_⟩
          rintro rfl
          have := filealloc_free found
          rw [fresh.1] at this
          cases this
  case pipePage f₀ f₁ => exact h.pipealloc live pc action
  case pipeFd rf wf =>
      cases found : s.fdalloc t <;> rw [found] at action <;> obtain rfl := Option.some.inj action
      case none => exact h.goto live (by rw [pc]; rfl) (by rw [pc]; rfl) (by simp) trivial
      case some fd =>
          refine h.setFd live (fun f => ?_) (by rw [pc]; rfl) (by simp) fun u _ => update_self ..
          simp [pc, held, fdalloc_free found, add_comm]
  case pipeFd₁ rf wf fd₀ =>
      have first : (s.proc t).ofile fd₀ = some rf := knows
      cases found : s.fdalloc t <;> rw [found] at action <;> obtain rfl := Option.some.inj action
      case none =>
          refine h.setFd live (fun f => ?_) (by rw [pc]; rfl) (by simp) fun _ _ => trivial
          simp [pc, held, due, first, add_comm]
      case some fd =>
          refine h.setFd live (fun f => ?_) (by rw [pc]; rfl) (by simp) fun _ _ => trivial
          simp [pc, held, fdalloc_free found]
  case fork np fds =>
      cases fds with
      | nil =>
        cases action
        exact h.copied live pc
      | cons fd fds =>
        cases member : (s.proc t).ofile fd <;> simp only [member] at action <;> obtain rfl := Option.some.inj action
        case none =>
            obtain ⟨embryo, nodup, empty⟩ := knows
            have other : np ≠ t := by
              rintro rfl
              rw [live] at embryo
              cases embryo
            have new : (s.goto t (.fork np fds)).proc np = s.proc np := by simp [State.goto, setProc, other]
            refine h.goto live (by rw [pc]; rfl) (by rw [pc]; rfl) (fun q _ same => ?_)
              ⟨by rw [new]; exact embryo, nodup.tail, fun e inside => ?_⟩
            · obtain ⟨rfl, rfl⟩ := Pc.fork.inj same
              exact ⟨_, pc⟩
            · rw [new]
              exact empty e (List.mem_cons_of_mem fd inside)
        case some f => exact h.copy live pc member
  case exit fds =>
      cases fds with
      | nil =>
        cases action
        exact h.exited live pc
      | cons fd =>
        cases member : (s.proc t).ofile fd <;> simp only [member] at action <;> obtain rfl := Option.some.inj action
        case none =>
            refine h.goto live (by rw [pc]; rfl) (by rw [pc]; rfl) (by simp) fun e outside => ?_
            by_cases same : e = fd
            · rw [same, member]
            · exact knows e (by simp [same, outside])
        case some f =>
            refine h.goto live ?_ (by rw [pc]; rfl) (by simp) ⟨member, knows⟩
            funext g
            simp only [pc, held, due]
            split_ifs <;> rfl

theorem Accounted.call {a : Action n} (pc : (s.proc t).pc = .out)
    (action : s.call t a = some u) : Accounted u := by
  have start {new : Pc n} (holds : held new = fun _ => 0) (close : closing new = none) (free : freeing new = none)
      (child : ∀ np fds, new ≠ .fork np fds)
      (knows : Knows (s.goto t new) (s.proc t).ofile new) : Accounted (s.goto t new) :=
    h.goto live (by rw [pc, holds]; rfl) (by rw [pc, shutting, close, free]; rfl)
      (fun np fds same => absurd same (child np fds)) knows
  cases a with
  | «open» r w =>
    cases action
    exact start rfl rfl rfl (by simp) trivial
  | pipe =>
    cases action
    exact start rfl rfl rfl (by simp) trivial
  | exit =>
    cases action
    exact start rfl rfl rfl (by simp) fun e outside => absurd (List.mem_finRange e) outside
  | dup fd =>
    simp only [State.call] at action
    cases member : (s.proc t).ofile fd <;> simp only [member] at action
    case none =>
        cases action
        exact h
    case some f =>
        cases found : s.fdalloc t <;> rw [found] at action <;> obtain rfl := Option.some.inj action
        case none => exact h
        case some new =>
            have free := fdalloc_free found
            refine h.setFd live (fun g => ?_) (by rw [pc]; rfl) (by simp) fun u _ => ?_
            · simp only [pc, held, free, Option.some.injEq, reduceCtorEq, if_false]
              split_ifs <;> rfl
            have swap := slots_update (s.proc t).ofile new (some f) f
            have pos := slots_pos member
            simp only [free, reduceCtorEq, if_false, if_true] at swap
            simp only [Knows]
            omega
  | close fd =>
    simp only [State.call] at action
    cases member : (s.proc t).ofile fd <;> simp only [member] at action <;> obtain rfl := Option.some.inj action
    case none => exact h
    case some f =>
        refine h.setFd live (fun g => ?_) (by rw [pc]; rfl) (by simp) fun u _ => trivial
        simp [pc, held, due, member]
  | fork =>
    obtain ⟨unused, rest⟩ := Option.ite_none_right_eq_some.mp action
    cases rest
    exact h.allocproc live pc unused
  | wait =>
    obtain ⟨zombie, rest⟩ := Option.ite_none_right_eq_some.mp action
    cases rest
    exact h.wait live pc zombie
  | go => cases action

end

theorem Accounted.step (h : Accounted s) {e : Fin n × Action n} (action : step s e = some u) : Accounted u := by
  obtain ⟨t, a⟩ := e
  obtain ⟨⟨live, _⟩, rest⟩ := Option.ite_none_right_eq_some.mp action
  cases a with
  | go => exact h.go live rest
  | «open» | dup | close | pipe | fork | exit | wait =>
    obtain ⟨out, rest⟩ := Option.ite_none_right_eq_some.mp rest
    exact h.call live out rest

theorem Accounted.start (first : Fin n) : Accounted (FileTable.start first) := by
  refine ⟨fun f => ?_, fun t => good_out rfl rfl fun _ _ => rfl,
    fun f _ => rfl, fun p w => ?_, fun p => ?_, fun p w _ => ?_,
    fun t r _ _ _ pc => nomatch pc⟩
  · simp [FileTable.start, own, slots, held]
  · cases w <;> simp [FileTable.start, isOpen, IsEnd, closing]
  · simp [FileTable.start, isShut, freeing]
  · cases w <;> simp [FileTable.start, isOpen]

theorem accounted {first : Fin n} {events : List (Fin n × Action n)} (run : exec step (start first) events = some s) :
    Accounted s :=
  exec_invariant (P := fun _ _ => True) (fun _ _ _ h _ action => h.step action)
    (Accounted.start first) run fun _ _ => trivial

theorem Accounted.panic (h : Accounted s) (t : Fin n) : s.panic t = none := by
  have knows := (h.good t).knows
  have le (f : File) := h.own_le t f
  unfold State.panic
  cases pc : (s.proc t).pc <;> rw [pc] at knows
  case dup f =>
      have two : 2 ≤ slots (s.proc t).ofile f := knows
      have := le f
      rw [own, pc, held, if_pos rfl] at this
      exact if_neg (by omega)
  case close f k =>
      have known : KnowsThen (s.proc t).ofile k := knows
      have := known.nonneg f
      have := le f
      rw [own, pc, held, if_pos rfl] at this
      exact if_neg (by omega)
  case fork np fds =>
      cases fds with
      | nil => rfl
      | cons fd =>
        dsimp only
        cases member : (s.proc t).ofile fd
        case none => rfl
        case some f =>
            have := slots_pos member
            have := le f
            rw [own, pc, held] at this
            exact if_neg (by omega)

def pointers (s : State n) (f : File) : Nat :=
  (Finset.univ.filter fun x : Fin n × Fd => (s.proc x.1).ofile x.2 = some f).card

theorem pointers_eq (out : ∀ t, (s.proc t).pc = .out) (f : File) : (pointers s f : Int) = ∑ t, own (s.proc t) f := by
  simp only [pointers, own, out, held, slots, add_zero, Finset.card_filter, Nat.cast_sum, Fintype.sum_prod_type]
  exact Finset.sum_congr rfl fun t _ => Finset.sum_congr rfl fun _ _ => by split_ifs <;> rfl

theorem Accounted.open_iff (h : Accounted s) (out : ∀ t, (s.proc t).pc = .out) (p : Page) (w : Bool) :
    isOpen (s.pipe p) w = true ↔ ∃ f, 0 < (s.file f).ref ∧ IsEnd p w (s.file f) := by
  have ends := h.ends p w
  simp only [out, closing, reduceCtorEq, if_false, Finset.sum_const_zero, add_zero] at ends
  constructor
  · intro isOpen
    rw [isOpen, Bool.toNat_true] at ends
    obtain ⟨f, _, counted⟩ := Finset.exists_ne_zero_of_sum_ne_zero (by rw [← ends]; exact one_ne_zero)
    have isEnd : IsEnd p w (s.file f) := by
      by_contra not
      exact counted (if_neg not)
    refine ⟨f, Nat.pos_of_ne_zero fun zero => ?_, isEnd⟩
    have := h.idle f zero
    rw [isEnd.1] at this
    cases this
  · rintro ⟨f, _, isEnd⟩
    have le := le_sum (fun f => if IsEnd p w (s.file f) then 1 else 0) f
    rw [if_pos isEnd, ← ends] at le
    exact Bool.toNat_eq_one.mp (le_antisymm (Bool.toNat_le _) le)

theorem Accounted.kfree_once (h : Accounted s) (pc : (s.proc t).pc = .kfree p k) :
    s.pipe p = ⟨true, false, false⟩ ∧ ∀ r k', (s.proc r).pc = .kfree p k' → r = t := by
  have mine : freeing (s.proc t).pc = some p := by rw [pc]; rfl
  have shut := h.isShut_of_freeing mine
  constructor
  · cases page : s.pipe p
    simpa [isShut, page, and_assoc] using shut
  intro r _ other
  by_contra ne
  have frees := h.frees p
  have theirs : freeing (s.proc r).pc = some p := by rw [other]; rfl
  have pair : ∑ q ∈ ({r, t} : Finset (Fin n)), (if freeing (s.proc q).pc = some p then 1 else 0) ≤
      ∑ q, if freeing (s.proc q).pc = some p then 1 else 0 :=
    Finset.sum_le_sum_of_subset (Finset.subset_univ _)
  rw [Finset.sum_pair ne, if_pos mine, if_pos theirs, ← frees, shut, Bool.toNat_true] at pair
  omega

theorem file_accounting {first : Fin n} {events : List (Fin n × Action n)} {s : State n}
    (run : exec step (start first) events = some s) :
    (∀ t, s.panic t = none) ∧
    (∀ t p k, (s.proc t).pc = .kfree p k →
      s.pipe p = ⟨true, false, false⟩ ∧ ∀ r k', (s.proc r).pc = .kfree p k' → r = t) ∧
    ((∀ t, (s.proc t).pc = .out) →
      (∀ f, (s.file f).ref = pointers s f) ∧
      ∀ p, ((s.pipe p).readopen = true ↔ ∃ f, 0 < (s.file f).ref ∧ IsEnd p false (s.file f)) ∧
        ((s.pipe p).writeopen = true ↔ ∃ f, 0 < (s.file f).ref ∧ IsEnd p true (s.file f)) ∧
        ((s.pipe p).allocated = true ↔ (s.pipe p).readopen = true ∨ (s.pipe p).writeopen = true)) := by
  have h := accounted run
  refine ⟨h.panic, fun t p k pc => h.kfree_once pc,
    fun out => ⟨fun f => ?_, fun p => ⟨h.open_iff out p false, h.open_iff out p true, ?_⟩⟩⟩
  · have refs := h.refs f
    rw [← pointers_eq out] at refs
    exact Int.ofNat_inj.mp refs
  have frees := h.frees p
  simp only [out, freeing, reduceCtorEq, if_false, Finset.sum_const_zero, Bool.toNat_eq_zero] at frees
  have reads := h.shut p false
  have writes := h.shut p true
  simp only [isShut, isOpen] at frees reads writes
  cases allocated : (s.pipe p).allocated <;> simp_all
  cases reads : (s.pipe p).readopen <;> simp_all

def pipeAndFork : List (Fin 2 × Action 2) :=
  [(0, Action.pipe), (0, .go none), (0, .go none), (0, .go (some 5)), (0, .go none), (0, .go none), (0, .fork 1)] ++
    List.replicate 17 (0, Action.go none) ++ [(0, Action.close 0), (0, .go none)]

theorem file_accounting_pipeAndFork : ∃ s : State 2, exec step (start 0) pipeAndFork = some s ∧
    (s.file 0).ref = 1 ∧ (s.file 1).ref = 2 ∧ pointers s 1 = 2 ∧ (s.pipe 5).readopen = true := by
  obtain ⟨s, run, out, one, two, isEnd⟩ : ∃ s : State 2, exec step (start 0) pipeAndFork = some s ∧
      (∀ t, (s.proc t).pc = .out) ∧ (s.file 0).ref = 1 ∧ (s.file 1).ref = 2 ∧ IsEnd 5 false (s.file 0) := by
    decide +kernel
  obtain ⟨refs, pipes⟩ := (file_accounting run).2.2 out
  exact ⟨s, run, one, two, by rw [← refs, two], (pipes 5).1.mpr ⟨0, by rw [one]; exact one_pos, isEnd⟩⟩

end Xv6.FileTable
