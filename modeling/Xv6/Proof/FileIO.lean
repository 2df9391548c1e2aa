import Xv6.Kernel.FileIO
import Xv6.Library.Transition

namespace Xv6.FileIO
open Xv6.Library State

variable {n : Nat} {s u : State n} {t r : Fin n} {a : Action} {first : Nat}
  {cs : List Chunk} {c : Chunk} {data : Nat → Byte} {off m i : Nat} {y : Pc} {src : List Byte}

structure Chunk where
  writes : Bool
  off : Nat
  bytes : List Byte

def chunk (s : State n) : Fin n × Action → Option Chunk
  | (_, .read _) | (_, .write _) => none
  | (t, .go) =>
    match s.pc t with
    | .readRet off r dst => if 0 < r then some ⟨false, off, dst⟩ else none
    | .writeRet src i off m r => if 0 < r then some ⟨true, off, (src.drop i).take m⟩ else none
    | .out | .readLock _ | .readLoop .. | .readUnlock _ | .writeLock .. | .writeLoop .. | .writeUnlock .. => none

def chunks (es : List (State n × (Fin n × Action))) : List Chunk := es.filterMap fun e => chunk e.1 e.2

theorem chunks_snoc (es : List (State n × (Fin n × Action))) (e : State n × (Fin n × Action)) :
    chunks (es ++ [e]) = chunks es ++ (chunk e.1 e.2).toList := by
  cases found : chunk e.1 e.2 <;> simp [chunks, found]

def Chain : Nat → List Chunk → Nat → Prop
  | first, [], last => first = last
  | first, c :: cs, last => c.off = first ∧ Chain (first + c.bytes.length) cs last

theorem Chain.snoc {last : Nat} (chain : Chain first cs last) (off : c.off = last) :
    Chain first (cs ++ [c]) (last + c.bytes.length) := by
  induction cs generalizing first with
  | nil =>
    obtain rfl : first = last := chain
    exact ⟨off, rfl⟩
  | cons d _ ih => exact ⟨chain.1, ih chain.2⟩

theorem Chain.last {last : Nat} (chain : Chain first cs last) :
    last = first + (cs.map fun c => c.bytes.length).sum := by
  induction cs generalizing first with
  | nil => exact chain.symm
  | cons d _ ih =>
    rw [ih chain.2, List.map_cons, List.sum_cons]
    omega

theorem Chain.within {last : Nat} (chain : Chain first cs last) :
    ∀ c ∈ cs, first ≤ c.off ∧ c.off + c.bytes.length ≤ last := by
  induction cs generalizing first with
  | nil => simp
  | cons d _ ih =>
    have whole := chain.2.last
    intro c member
    rcases List.mem_cons.mp member with rfl | member
    · rw [chain.1]
      omega
    · have later := ih chain.2 c member
      omega

theorem Chain.pairwise {last : Nat} (chain : Chain first cs last) :
    cs.Pairwise fun c d => c.off + c.bytes.length ≤ d.off := by
  induction cs generalizing first with
  | nil => exact .nil
  | cons d _ ih =>
    refine List.pairwise_cons.mpr ⟨fun c member => ?_, ih chain.2⟩
    rw [chain.1]
    exact (chain.2.within c member).1

theorem Chain.split {pre post : List Chunk} {last : Nat} (chain : Chain first (pre ++ c :: post) last) :
    c.off = first + (pre.map fun c => c.bytes.length).sum := by
  induction pre generalizing first with
  | nil => exact chain.1
  | cons d _ ih =>
    rw [ih chain.2, List.map_cons, List.sum_cons]
    omega

def Shows (data : Nat → Byte) (off : Nat) (bytes : List Byte) : Prop :=
  ∀ j (inside : j < bytes.length), data (off + j) = bytes[j]

theorem Shows.congr {data' : Nat → Byte} {bytes : List Byte} (h : Shows data off bytes)
    (same : ∀ k, off ≤ k → k < off + bytes.length → data' k = data k) : Shows data' off bytes := by
  intro j inside
  rw [same (off + j) (by omega) (by omega)]
  exact h j inside

theorem Shows.append {l r : List Byte} (left : Shows data off l) (right : Shows data (off + l.length) r) :
    Shows data off (l ++ r) := by
  intro j inside
  rw [List.getElem_append]
  split_ifs with before
  · exact left j before
  have := right (j - l.length) (by simp at inside; omega)
  rw [← this]
  congr 1
  omega

theorem shows_copy (data : Nat → Byte) (off m : Nat) : Shows data off (copy data off m) := by
  intro j _
  simp [copy]

@[simp] theorem length_copy (data : Nat → Byte) (off m : Nat) : (copy data off m).length = m := by simp [copy]

theorem span_le (off n tot : Nat) : span off n tot ≤ n - tot := Nat.min_le_left ..

def inside : Pc → Bool
  | .readLoop .. | .readRet .. | .readUnlock _ | .writeLoop .. | .writeRet .. | .writeUnlock .. => true
  | .out | .readLock _ | .writeLock .. => false

def Good (s : State n) : Pc → Prop
  | .readLoop off m dst => off = s.off ∧ off + m ≤ s.size ∧ dst.length ≤ m ∧ Shows s.data off dst
  | .readRet off r dst =>
    off = s.off ∧ (0 < r → r = dst.length ∧ off + dst.length ≤ s.size ∧ Shows s.data off dst)
  | .writeLoop src i off m tot =>
    off = s.off ∧ off ≤ s.size ∧ off + m ≤ MAXFILE * BSIZE ∧ m ≤ src.length - i ∧ tot ≤ m ∧
      Shows s.data off ((src.drop i).take tot)
  | .writeRet src i off m r =>
    off = s.off ∧ (0 < r → r = m ∧ off + m ≤ MAXFILE * BSIZE ∧ m ≤ src.length - i ∧
      Shows s.data off ((src.drop i).take m))
  | .out | .readLock _ | .readUnlock _ | .writeLock .. | .writeUnlock .. => True

structure Shared (first : Nat) (cs : List Chunk) (s : State n) : Prop where
  lock : ∀ t, inside (s.pc t) → s.lock = some t
  good : ∀ t, Good s (s.pc t)
  off : s.off < 2 ^ 32
  size : s.size ≤ MAXFILE * BSIZE
  chain : Chain first cs s.off
  shows : ∀ c ∈ cs, Shows s.data c.off c.bytes

theorem good_outside {pc : Pc} (outside : inside pc = false) : Good s pc := by
  cases pc <;> simp_all [inside, Good]

section
variable (h : Shared first cs s)
include h

theorem Shared.alone (here : inside (s.pc t)) (other : r ≠ t) : inside (s.pc r) = false := by
  refine Bool.eq_false_iff.mpr fun there => other ?_
  exact Option.some.inj ((h.lock r there).symm.trans (h.lock t here))

theorem Shared.empty (free : s.lock = none) : inside (s.pc r) = false := by
  refine Bool.eq_false_iff.mpr fun there => ?_
  simpa [free] using h.lock r there

omit h in
theorem shared_of (pc : u.pc = Function.update s.pc t y)
    (alone : ∀ r, r ≠ t → inside (s.pc r) = false) (mine : inside y → u.lock = some t) (good : Good u y)
    (off : u.off < 2 ^ 32) (size : u.size ≤ MAXFILE * BSIZE) (chain : Chain first cs u.off)
    (shows : ∀ c ∈ cs, Shows u.data c.off c.bytes) : Shared first cs u := by
  refine ⟨fun r there => ?_, fun r => ?_, off, size, chain, shows⟩
  all_goals by_cases same : r = t
  · subst same
    exact mine (by simpa [pc] using there)
  · rw [pc, Function.update_of_ne same, alone r same] at there
    cases there
  · rw [same, pc, Function.update_self]
    exact good
  · rw [pc, Function.update_of_ne same]
    exact good_outside (alone r same)

omit h in
theorem good_goto {pc : Pc} : Good (s.goto t y) pc ↔ Good s pc := by
  cases pc <;> rfl

theorem Shared.call (outside : inside y = false) : Shared first cs (s.goto t y) := by
  refine { h with lock := fun r there => ?_, good := fun r => ?_ }
  all_goals by_cases same : r = t
  · simp [goto, same, outside] at there
  · exact h.lock r (by simpa [goto, same] using there)
  · have here : (s.goto t y).pc r = y := by simp [goto, same]
    rw [here]
    exact good_outside outside
  · have there : (s.goto t y).pc r = s.pc r := by simp [goto, same]
    rw [there]
    exact good_goto.mpr (h.good r)

theorem Shared.advance {m : Int} (here : inside (s.pc t)) (off : c.off = s.off) (simple : ∀ u : State n, Good u y)
    (done : 0 < m → m = c.bytes.length ∧ c.off + c.bytes.length ≤ MAXFILE * BSIZE ∧ Shows s.data c.off c.bytes) :
    Shared first (cs ++ (if 0 < m then some c else none).toList) ((s.advance m).goto t y) := by
  have alone (r : Fin n) (other : r ≠ t) := h.alone here other
  by_cases some : 0 < m
  · obtain ⟨length, fits, shows⟩ := done some
    have within : s.off + c.bytes.length < 2 ^ 32 := by
      simp only [MAXFILE, NDIRECT, NINDIRECT, BSIZE] at fits
      omega
    have moved : s.advance m = { s with off := s.off + c.bytes.length } := by
      rw [State.advance, if_pos some, length, Int.toNat_natCast, Nat.mod_eq_of_lt within]
    rw [moved, if_pos some]
    refine shared_of rfl alone (fun _ => h.lock t here) (simple _) within h.size (h.chain.snoc off) ?_
    intro d member
    rcases List.mem_append.mp member with old | new
    · exact h.shows d old
    · obtain rfl : d = c := by simpa using new
      exact shows
  · have same : s.advance m = s := by simp [State.advance, some]
    rw [same, if_neg some]
    rw [Option.toList_none, List.append_nil]
    exact shared_of rfl alone (fun _ => h.lock t here) (simple _) h.off h.size h.chain h.shows

theorem Shared.readi (free : s.lock = none) : Shared first cs { s.goto t (s.readi m) with lock := some t } := by
  refine shared_of rfl (fun r _ => h.empty free) (fun _ => rfl) ?_ h.off h.size h.chain h.shows
  unfold State.readi
  split_ifs with bad past
  · exact ⟨rfl, fun pos => absurd pos (by decide)⟩
  · refine ⟨rfl, ?_, Nat.zero_le _, fun j inside => absurd inside (Nat.not_lt_zero j)⟩
    simp only [goto]
    omega
  · refine ⟨rfl, ?_, Nat.zero_le _, fun j inside => absurd inside (Nat.not_lt_zero j)⟩
    simp only [goto]
    omega

theorem Shared.writei (free : s.lock = none)
    (fits : m ≤ src.length - i) : Shared first cs { s.goto t (s.writei src i m) with lock := some t } := by
  refine shared_of rfl (fun r _ => h.empty free) (fun _ => rfl) ?_ h.off h.size h.chain h.shows
  unfold State.writei
  split_ifs with bad large
  · exact ⟨rfl, fun pos => absurd pos (by decide)⟩
  · exact ⟨rfl, fun pos => absurd pos (by decide)⟩
  · rw [not_or] at bad
    exact ⟨rfl, not_lt.mp bad.1, not_lt.mp large, fits, Nat.zero_le _, fun j inside => by simp at inside⟩

theorem Shared.readLoop {dst : List Byte} (pc : s.pc t = .readLoop off m dst) (more : dst.length < m) :
    Shared first cs (s.goto t (.readLoop off m (dst ++ copy s.data (off + dst.length) (span off m dst.length)))) := by
  have here : inside (s.pc t) := by simp [pc, inside]
  have good := h.good t
  rw [pc] at good
  obtain ⟨same, fits, _, shows⟩ := good
  have part := span_le off m dst.length
  refine shared_of rfl (fun r other => h.alone here other) (fun _ => h.lock t here) ?_ h.off h.size h.chain h.shows
  refine ⟨same, fits, ?_, shows.append (shows_copy s.data (off + dst.length) (span off m dst.length))⟩
  rw [List.length_append, length_copy]
  omega

omit h in
theorem shows_paste {tot : Nat} (fits : i + tot + m ≤ src.length) (before : Shows data off ((src.drop i).take tot)) :
    Shows (paste data (off + tot) m src (i + tot)) off ((src.drop i).take (tot + m)) := by
  intro j inside
  rw [List.length_take, List.length_drop] at inside
  rw [List.getElem_take, List.getElem_drop, paste]
  split_ifs with new
  · rw [List.getD_eq_getElem?_getD, List.getElem?_eq_getElem (by omega), Option.getD_some]
    congr 1
    omega
  · have old := before j (by rw [List.length_take, List.length_drop]; omega)
    rw [List.getElem_take, List.getElem_drop] at old
    exact old

theorem Shared.writeLoop {tot : Nat} (pc : s.pc t = .writeLoop src i off m tot) (more : tot < m) :
    Shared first cs { s.goto t (.writeLoop src i off m (tot + span off m tot)) with
      data := paste s.data (off + tot) (span off m tot) src (i + tot) } := by
  have here : inside (s.pc t) := by simp [pc, inside]
  have good := h.good t
  rw [pc] at good
  obtain ⟨same, low, high, fits, _, shows⟩ := good
  have part := span_le off m tot
  refine shared_of rfl (fun r other => h.alone here other) (fun _ => h.lock t here) ?_ h.off h.size h.chain ?_
  · exact ⟨same, low, high, fits, by omega, shows_paste (by omega) shows⟩
  -- the chunks so far end where this one begins
  intro c member
  have below := (h.chain.within c member).2
  refine (h.shows c member).congr fun k _ _ => ?_
  simp only [paste]
  rw [if_neg (by omega)]

theorem Shared.go (action : s.go t = some u) : Shared first (cs ++ (chunk s (t, .go)).toList) u := by
  have leave {y : Pc} (here : inside (s.pc t))
    (outside : inside y = false) : Shared first cs { s.goto t y with lock := none } := by
    refine shared_of rfl (fun r other => h.alone here other)
      (fun there => ?_) (good_outside outside) h.off h.size h.chain h.shows
    simp [outside] at there
  have stay {y : Pc} (here : inside (s.pc t)) (good : Good s y) : Shared first cs (s.goto t y) :=
    shared_of rfl (fun r other => h.alone here other) (fun _ => h.lock t here)
      (good_goto.mpr good) h.off h.size h.chain h.shows
  have good := h.good t
  unfold State.go at action
  simp only [chunk]
  cases pc : s.pc t <;> simp only [pc] at action good ⊢
  case out => cases action
  case readLock m =>
      obtain ⟨free, action⟩ := Option.ite_none_right_eq_some.mp action
      cases action
      simpa using h.readi free
  case readLoop off m dst =>
      rw [Option.toList_none, List.append_nil]
      split_ifs at action with more
      · cases action
        exact h.readLoop pc more
      cases action
      obtain ⟨same, fits, le, shows⟩ := good
      have whole : dst.length = m := by omega
      exact stay (by simp [pc, inside]) ⟨same, fun _ => ⟨by rw [whole], by rw [whole]; exact fits, shows⟩⟩
  case readRet off m dst =>
      cases action
      obtain ⟨same, done⟩ := good
      refine h.advance (c := ⟨false, off, dst⟩) (by simp [pc, inside]) same (fun _ => trivial) fun pos => ?_
      obtain ⟨length, fits, shows⟩ := done pos
      exact ⟨length, fits.trans h.size, shows⟩
  case readUnlock m =>
      cases action
      simpa using leave (by simp [pc, inside]) rfl
  case writeLock src i =>
      obtain ⟨free, action⟩ := Option.ite_none_right_eq_some.mp action
      cases action
      simpa using h.writei free (Nat.min_le_left ..)
  case writeLoop src i off m tot =>
      rw [Option.toList_none, List.append_nil]
      by_cases more : tot < m
      · rw [if_pos more] at action
        cases action
        exact h.writeLoop pc more
      rw [if_neg more] at action
      cases action
      obtain ⟨same, _, high, fits, _, shows⟩ := good
      obtain rfl : tot = m := by omega
      have here : inside (s.pc t) := by simp [pc, inside]
      refine shared_of rfl (fun r other => h.alone here other) (fun _ => h.lock t here) ?_ h.off ?_ h.chain h.shows
      · exact ⟨same, fun _ => ⟨rfl, high, fits, shows⟩⟩
      have before := h.size
      dsimp only
      split_ifs
      · exact high
      · exact before
  case writeRet src i off m k =>
      cases action
      obtain ⟨same, done⟩ := good
      refine h.advance (c := ⟨true, off, (src.drop i).take m⟩)
        (by simp [pc, inside]) same (fun _ => trivial) fun pos => ?_
      obtain ⟨length, high, _, shows⟩ := done pos
      have taken : ((src.drop i).take m).length = m := by
        rw [List.length_take, List.length_drop]
        omega
      exact ⟨by rw [taken]; exact length, by rw [taken]; exact high, shows⟩
  case writeUnlock src i m k =>
      rw [Option.toList_none, List.append_nil]
      have here : inside (s.pc t) := by simp [pc, inside]
      split_ifs at action with bad short more
      · cases action
        exact leave here rfl
      · cases action
        exact leave here rfl
      · cases action
        exact leave here rfl

theorem Shared.step (action : step s (t, a) = some u) :
    Shared first (cs ++ (chunk s (t, a)).toList) u := by
  cases a with
  | go => exact h.go action
  | read m | write =>
    rw [chunk, Option.toList_none, List.append_nil]
    obtain ⟨-, action⟩ := Option.ite_none_right_eq_some.mp action
    cases action
    split_ifs
    · exact h.call rfl
    · exact h

end

theorem shared {size : Nat} {readable writable : Bool} {as : List (Fin n × Action)}
    (small : off < 2 ^ 32) (fits : size ≤ MAXFILE * BSIZE)
    (run : exec step (start off size data readable writable) as = some s) :
    Shared off (chunks (trace step (start off size data readable writable) as)) s := by
  refine exec_induction (I := fun es s => Shared off (chunks es) s) ?_ (fun _ s e u h action => ?_) run
  · exact ⟨fun t there => (nomatch there), fun t => trivial, small, fits, rfl, by simp [chunks]⟩
  · rw [chunks_snoc]
    exact h.step action

theorem offset_shared {off size : Nat} {data : Nat → Byte} {readable writable : Bool} {as : List (Fin n × Action)}
    {cs : List Chunk} (small : off < 2 ^ 32) (fits : size ≤ MAXFILE * BSIZE)
    (run : exec step (start off size data readable writable) as = some s)
    (all : chunks (trace step (start off size data readable writable) as) = cs) :
    (∀ pre c post, cs = pre ++ c :: post → c.off = off + (pre.map fun c => c.bytes.length).sum) ∧
      s.off = off + (cs.map fun c => c.bytes.length).sum ∧
      cs.Pairwise (fun c d => c.off + c.bytes.length ≤ d.off) ∧ ∀ c ∈ cs, Shows s.data c.off c.bytes := by
  have h := shared small fits run
  rw [all] at h
  refine ⟨fun _ c _ split => ?_, h.chain.last, h.chain.pairwise, h.shows⟩
  have chain := h.chain
  rw [split] at chain
  exact chain.split

def twoWriters : List (Fin 2 × Action) :=
  [(0, .write [1, 2, 3]), (1, .write [4]), (0, .go), (0, .go),
    (0, .go), (0, .go), (0, .go), (1, .go), (1, .go), (1, .go),
    (1, .go)]

theorem offset_shared_twoWriters : ∃ s : State 2, exec step (start 0 0 (fun _ => 0) true true) twoWriters = some s ∧
    s.off = 4 ∧ s.off = 0 + ((chunks (trace step (start 0 0 (fun _ => 0) true true) twoWriters)).map
      fun c => c.bytes.length).sum := by
  obtain ⟨s, run, off⟩ : ∃ s : State 2, exec step (start 0 0 (fun _ => 0) true true) twoWriters = some s ∧
    s.off = 4 := by
    decide +kernel
  exact ⟨s, run, off, (offset_shared (by decide) (by decide) run rfl).2.1⟩

end Xv6.FileIO
