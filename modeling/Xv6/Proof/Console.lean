import Xv6.Kernel.Console
import Xv6.Library.Transition

namespace Xv6.Console
open Xv6.Library

variable {m : Nat} {s u : State m} {t : Fin m} {input : Input} {c : Byte}
  {target : Nat} {a : Action m} {buf : Fin INPUT_BUF → Byte} {index : UInt32}

def Input.pending (input : Input) : List Byte := window input.buf input.r (gap input.r input.w)

def Input.edit (input : Input) : List Byte := window input.buf input.w (gap input.w input.e)

structure Input.Good (input : Input) : Prop where
  fits : gap input.r input.w + gap input.w input.e ≤ INPUT_BUF
  line : newline ∉ input.edit

structure Line where
  pending : List Byte
  edit : List Byte

def Input.line (input : Input) : Line := ⟨input.pending, input.edit⟩

def Line.key (l : Line) (c : Byte) : Line :=
  if c = ctrl 80 then l
  else if c = ctrl 85 then { l with edit := [] }
  else if c = ctrl 72 ∨ c = 127 then { l with edit := l.edit.dropLast }
  else if c ≠ 0 ∧ l.pending.length + l.edit.length < INPUT_BUF then
    let c := if c = 13 then newline else c
    if c = newline ∨ c = ctrlD ∨
      l.pending.length + l.edit.length + 1 = INPUT_BUF then ⟨l.pending ++ (l.edit ++ [c]), []⟩
    else ⟨l.pending, l.edit ++ [c]⟩
  else l

theorem inputBuf_dvd : INPUT_BUF ∣ 2 ^ 32 := by decide

theorem inputBuf_lt : INPUT_BUF + 1 < 2 ^ 32 := by decide

theorem Input.Good.gap_re (h : input.Good) : gap input.r input.e = gap input.r input.w + gap input.w input.e :=
  gap_trans (by have := h.fits; have := inputBuf_lt; omega)

theorem Input.Good.erase (h : input.Good) (apart : input.e ≠ input.w) :
    { input with e := input.e - 1 : Input }.Good ∧ { input with e := input.e - 1 : Input }.edit = input.edit.dropLast ∧
      input.buf (slot INPUT_BUF (input.e - 1)) ∈ input.edit := by
  have back := gap_back apart.symm
  have last := gap_spec input.w (input.e - 1)
  have split : input.edit = { input with e := input.e - 1 : Input }.edit ++
    [input.buf (slot INPUT_BUF (input.e - 1))] := by
    unfold Input.edit
    rw [back, window_succ, ← last]
  have fits := h.fits
  refine ⟨⟨by simp only; omega, fun member => h.line ?_⟩, ?_, ?_⟩
  · rw [split]
    exact List.mem_append_left _ member
  · rw [split, List.dropLast_concat]
  · rw [split]
    simp

theorem Input.Good.killLine (h : input.Good) {fuel : Nat} (enough : gap input.w input.e = fuel) :
    input.killLine fuel = { input with e := input.w } := by
  induction fuel generalizing input with
  | zero =>
    obtain ⟨buf, r, w, e⟩ := input
    obtain rfl : w = e := gap_eq_zero.mp enough
    rfl
  | succ _ ih =>
    have apart : input.e ≠ input.w := by
      intro same
      rw [same, gap_self] at enough
      cases enough
    obtain ⟨good, -, member⟩ := h.erase apart
    have other : input.buf (slot INPUT_BUF (input.e - 1)) ≠ newline := fun same => h.line (same ▸ member)
    have back := gap_back apart.symm
    rw [Input.killLine, if_pos ⟨apart, other⟩, ih good (by simp only; omega)]

def Input.put (input : Input) (c : Byte) : Input :=
  { input with buf := Function.update input.buf (slot INPUT_BUF input.e) c, e := input.e + 1 }

theorem Input.Good.put (h : input.Good) (room : gap input.r input.e < INPUT_BUF) :
    (input.put c).pending = input.pending ∧ (input.put c).edit = input.edit ++ [c] ∧
      gap input.w (input.put c).e = gap input.w input.e + 1 := by
  have total := h.gap_re
  have bound := inputBuf_lt
  have longer : gap input.w (input.e + 1) = gap input.w input.e + 1 := gap_succ (by omega)
  have fromRead : input.e = input.r + UInt32.ofNat (gap input.r input.e) := gap_spec ..
  have fromEdit : input.e = input.w + UInt32.ofNat (gap input.w input.e) := gap_spec ..
  refine ⟨?_, ?_, longer⟩
  · unfold Input.pending Input.put
    simp only
    rw [fromRead]
    exact window_update inputBuf_dvd (by omega) room
  unfold Input.edit Input.put
  simp only [longer]
  have pushed : window (Function.update input.buf (slot INPUT_BUF (input.w + UInt32.ofNat (gap input.w input.e))) c)
    input.w
      (gap input.w input.e + 1) = window input.buf input.w (gap input.w input.e) ++ [c] :=
      window_push inputBuf_dvd (by omega)
  rw [← fromEdit] at pushed
  exact pushed

theorem pending_commit (fits : gap input.r input.w + gap input.w input.e ≤ INPUT_BUF) :
    { input with w := input.e : Input }.pending = input.pending ++ input.edit := by
  have total : gap input.r input.e = gap input.r input.w + gap input.w input.e :=
    gap_trans (by have := inputBuf_lt; omega)
  unfold Input.pending Input.edit
  simp only [total]
  rw [window_add, ← gap_spec]

structure Typed (before after : Input) (c : Byte) : Prop where
  good : after.Good
  line : after.line = before.line.key c
  r : after.r = before.r
  committed : after.pending = before.pending ++ window after.buf before.w (gap before.w after.w)

theorem Typed.uncommitted {after : Input} (good : after.Good)
    (line : after.line = input.line.key c) (r : after.r = input.r)
    (w : after.w = input.w) (same : after.pending = input.pending) : Typed input after c :=
  ⟨good, line, r, by rw [w, gap_self, window_zero, List.append_nil, same]⟩

theorem Input.Good.key_kill (h : input.Good) (key : input.line.key c = { input.line with edit := [] }) :
    Typed input (input.killLine (input.e - input.w).toNat) c := by
  have killed : input.killLine (input.e - input.w).toNat = { input with e := input.w } := h.killLine rfl
  have fits := h.fits
  rw [killed]
  refine .uncommitted ⟨?_, ?_⟩ ?_ rfl rfl rfl
  · simp only [gap_self]
    omega
  · simp [Input.edit]
  · rw [key]
    simp [Input.line, Input.edit, Input.pending]

theorem Input.Good.key_back (h : input.Good)
    (key : input.line.key c = { input.line with edit := input.edit.dropLast }) :
    Typed input (if input.e ≠ input.w then { input with e := input.e - 1 } else input) c := by
  by_cases apart : input.e ≠ input.w
  · rw [if_pos apart]
    obtain ⟨good, erased, -⟩ := h.erase apart
    refine .uncommitted good ?_ rfl rfl rfl
    rw [key, ← erased]
    rfl
  rw [if_neg apart]
  refine .uncommitted h ?_ rfl rfl rfl
  have none : input.edit = [] := by
    unfold Input.edit
    rw [not_not.mp apart, gap_self, window_zero]
  rw [key, none]
  simp [Input.line, none]

theorem Input.Good.key_store (h : input.Good) (room : gap input.r input.e < INPUT_BUF) {d : Byte}
    (key : input.line.key c = if d = newline ∨ d = ctrlD ∨ gap input.r input.e + 1 = INPUT_BUF then
      ⟨input.pending ++ (input.edit ++ [d]), []⟩ else ⟨input.pending, input.edit ++ [d]⟩) :
    Typed input (if d = newline ∨ d = ctrlD ∨ (input.put d).e = (input.put d).r + UInt32.ofNat INPUT_BUF then
      { input.put d with w := (input.put d).e } else input.put d) c := by
  have total := h.gap_re
  have bound := inputBuf_lt
  obtain ⟨pending, edit, _⟩ := h.put (c := d) room
  have grown : gap input.r (input.put d).e = gap input.r input.e + 1 := gap_succ (by omega)
  have fits : gap (input.put d).r (input.put d).w + gap (input.put d).w (input.put d).e ≤ INPUT_BUF := by
    change gap input.r input.w + gap input.w (input.put d).e ≤ INPUT_BUF
    omega
  have full : (input.put d).e = (input.put d).r + UInt32.ofNat INPUT_BUF ↔ gap input.r input.e + 1 = INPUT_BUF := by
    constructor
    · intro same
      rw [← grown, same]
      exact gap_add (by omega)
    · intro all
      rw [← all, ← grown]
      exact gap_spec ..
  simp only [full]
  split_ifs at key ⊢ with commits
  · have moved := pending_commit fits
    rw [pending, edit] at moved
    refine ⟨⟨?_, ?_⟩, ?_, rfl, ?_⟩
    · rw [gap_self]
      change gap input.r (input.put d).e + 0 ≤ INPUT_BUF
      omega
    · simp [Input.edit]
    · rw [key, Input.line, moved]
      simp [Input.edit]
    · rw [moved, ← edit]
      rfl
  · refine .uncommitted ⟨fits, ?_⟩ ?_ rfl rfl pending
    · rw [edit]
      simpa [h.line] using fun same => commits (.inl same.symm)
    · rw [key, Input.line, pending, edit]

theorem Input.Good.key (h : input.Good) (c : Byte) : Typed input (input.key c).1 c := by
  have lengths : input.line.pending.length + input.line.edit.length = gap input.r input.e := by
    simp [Input.line, Input.pending, Input.edit, h.gap_re]
  have less : input.e - input.r < UInt32.ofNat INPUT_BUF ↔ gap input.r input.e < INPUT_BUF := UInt32.lt_iff_toNat_lt
  unfold Input.key
  by_cases dump : c = ctrl 80
  · rw [if_pos dump]
    exact .uncommitted h (by rw [Line.key, if_pos dump]) rfl rfl rfl
  by_cases kill : c = ctrl 85
  · rw [if_neg dump, if_pos kill]
    exact h.key_kill (by rw [Line.key, if_neg dump, if_pos kill])
  by_cases back : c = ctrl 72 ∨ c = 127
  · rw [if_neg dump, if_neg kill, if_pos back, apply_ite Prod.fst]
    exact h.key_back (by rw [Line.key, if_neg dump, if_neg kill, if_pos back]; rfl)
  rw [if_neg dump, if_neg kill, if_neg back]
  by_cases room : c ≠ 0 ∧ gap input.r input.e < INPUT_BUF
  · rw [if_pos ⟨room.1, less.mpr room.2⟩, apply_ite Prod.fst]
    refine h.key_store (d := if c = 13 then newline else c) room.2 ?_
    rw [Line.key, if_neg dump, if_neg kill, if_neg back, lengths, if_pos room]
    rfl
  · rw [if_neg fun both => room ⟨both.1, less.mp both.2⟩]
    refine .uncommitted h ?_ rfl rfl rfl
    rw [Line.key, if_neg dump, if_neg kill, if_neg back, lengths, if_neg room]

def Outcome.dst : Outcome → List Byte
  | .sleeps _ dst | .returns dst => dst
  | .fails => []

def Pc.hand : Pc → List Byte
  | .ready _ _ dst | .asleep _ _ dst => dst
  | .idle => []

def Pc.Counts : Pc → Prop
  | .ready target n dst | .asleep target n dst => dst.length + n = target
  | .idle => True

structure Took (before after : Input) (target : Nat) (dst bytes : List Byte) (outcome : Outcome) : Prop where
  good : after.Good
  buf : after.buf = before.buf
  w : after.w = before.w
  edit : after.edit = before.edit
  r : after.r = before.r + UInt32.ofNat bytes.length
  pending : before.pending = bytes ++ after.pending
  dst : outcome.dst = dst ++ bytes.filter (· ≠ ctrlD)
  counts : (outcome.pc target).Counts
  alive : outcome ≠ .fails
  eof : ctrlD ∈ bytes → bytes = [ctrlD] ∧ outcome = .returns []

theorem Took.nothing {dst : List Byte} {outcome : Outcome} (h : input.Good) (same : outcome.dst = dst)
    (counts : (outcome.pc target).Counts) (alive : outcome ≠ .fails) : Took input input target dst [] outcome where
  good := h
  buf := rfl
  w := rfl
  edit := rfl
  r := (UInt32.add_zero _).symm
  pending := rfl
  dst := by simpa using same
  counts := counts
  alive := alive
  eof := nofun

theorem Input.Good.next (h : input.Good) (some : input.r ≠ input.w) : { input with r := input.r + 1 : Input }.Good ∧
    input.pending = input.buf (slot INPUT_BUF input.r) :: { input with r := input.r + 1 : Input }.pending := by
  have shorter := gap_pred some
  have fits := h.fits
  refine ⟨⟨by simp only; omega, h.line⟩, ?_⟩
  unfold Input.pending
  rw [shorter, window_cons]

theorem Took.cons {after : Input} {dst bytes : List Byte}
    {outcome : Outcome} (some : input.r ≠ input.w) (h : input.Good)
    (c : Byte) (first : input.buf (slot INPUT_BUF input.r) = c) (plain : c ≠ ctrlD)
    (rest : Took { input with r := input.r + 1 } after target (dst ++ [c]) bytes outcome) :
    Took input after target dst (c :: bytes) outcome where
  good := rest.good
  buf := rest.buf
  w := rest.w
  edit := rest.edit
  r := by rw [rest.r, List.length_cons, ofNat_succ, UInt32.add_assoc]
  pending := by rw [(h.next some).2, first, rest.pending, List.cons_append]
  dst := by
    rw [rest.dst, List.filter_cons_of_pos (by simpa using plain)]
    simp
  counts := rest.counts
  alive := rest.alive
  eof := by
    intro member
    obtain ⟨-, ends⟩ := rest.eof ((List.mem_cons.mp member).resolve_left plain.symm)
    -- the first byte has been copied, so the result is not empty
    have copied := rest.dst
    rw [ends] at copied
    simp [Outcome.dst] at copied

theorem readLoop_took {n : Nat} {dst : List Byte} (h : input.Good) (counts : dst.length + n = target) :
    ∃ bytes, Took input (readLoop target false n dst input).1 target dst bytes
      (readLoop target false n dst input).2 := by
  induction n generalizing dst input with
  | zero => exact ⟨[], .nothing h rfl trivial nofun⟩
  | succ n ih =>
    rw [readLoop]
    by_cases none : input.r = input.w
    · rw [if_pos none]
      exact ⟨[], .nothing h rfl counts nofun⟩
    rw [if_neg none]
    obtain ⟨good, pending⟩ := h.next none
    have back : input.r + 1 - 1 = input.r := UInt32.add_sub_cancel ..
    by_cases eof : input.buf (slot INPUT_BUF input.r) = ctrlD
    · simp only [eof, if_true]
      split_ifs with part
      · simp only [back]
        exact ⟨[], .nothing h rfl trivial nofun⟩
      obtain rfl : dst = [] := List.eq_nil_of_length_eq_zero (by omega)
      refine ⟨[ctrlD], good, rfl, rfl, rfl, rfl, ?_, rfl, trivial, nofun, fun _ => ⟨rfl, rfl⟩⟩
      rw [pending, eof]
      rfl
    simp only [if_neg eof]
    split_ifs with last
    · refine ⟨_, .cons none h _ rfl eof (.nothing good rfl trivial nofun)⟩
    have onward : (dst ++ [input.buf (slot INPUT_BUF input.r)]).length + n = target := by
      simp
      omega
    obtain ⟨_, took⟩ := ih good onward
    exact ⟨_, took.cons none h _ rfl eof⟩

def committed (e : State m × Action m) : List Byte :=
  (step e.1 e.2).elim [] fun u => window u.input.buf e.1.input.w (gap e.1.input.w u.input.w)

def taken (e : State m × Action m) : List Byte :=
  (step e.1 e.2).elim [] fun u => window e.1.input.buf e.1.input.r (gap e.1.input.r u.input.r)

def typed : State m × Action m → List Byte
  | (_, .key c) => [if c = 13 then newline else c]
  | _ => []

def handed : State m × Action m → List (Fin m × Byte)
  | (s, .go t) => ((taken (s, .go t)).filter (· ≠ ctrlD)).map (t, ·)
  | _ => []

def outcome : State m × Action m → Option Outcome
  | (s, .go t) =>
    match (s.proc t).pc with
    | .ready target n dst => some (readLoop target (s.proc t).killed n dst s.input).2
    | .asleep _ _ _ | .idle => none
  | _ => none

def returned (t : Fin m) (e : State m × Action m) : List Byte :=
  match e.2, outcome e with
  | .go r, some (.returns dst) => if r = t then dst else []
  | _, _ => []

def handedTo (t : Fin m) (hands : List (Fin m × Byte)) : List Byte := (hands.filter (·.1 = t)).map Prod.snd

structure Sound (s : State m) : Prop where
  good : s.input.Good
  counts : ∀ t, (s.proc t).pc.Counts
  alive : ∀ t, (s.proc t).killed = false

theorem Pc.wake_counts {pc : Pc} (h : pc.Counts) : pc.wake.Counts := by cases pc <;> exact h

theorem Pc.wake_hand {pc : Pc} : pc.wake.hand = pc.hand := by cases pc <;> rfl

structure Accounts (s u : State m) (a : Action m) : Prop where
  sound : Sound u
  bytes : s.input.pending ++ committed (s, a) = taken (s, a) ++ u.input.pending
  order : (committed (s, a) ++ u.input.edit).Sublist (s.input.edit ++ typed (s, a))
  plain : (taken (s, a)).filter (· ≠ ctrlD) = (handed (s, a)).map Prod.snd
  hand : ∀ t, (s.proc t).pc.hand ++ handedTo t (handed (s, a)) = returned t (s, a) ++ (u.proc t).pc.hand
  eof : ctrlD ∈ taken (s, a) → taken (s, a) = [ctrlD] ∧ outcome (s, a) = some (.returns [])

theorem key_order (l : Line) (c : Byte) : ((l.key c).pending ++ (l.key c).edit).Sublist
    (l.pending ++ (l.edit ++ [if c = 13 then newline else c])) := by
  have short {edit : List Byte} (sub : edit.Sublist l.edit) :
      (l.pending ++ edit).Sublist (l.pending ++ (l.edit ++ [if c = 13 then newline else c])) :=
    (sub.trans (List.sublist_append_left ..)).append_left _
  unfold Line.key
  generalize (if c = 13 then newline else c) = d at short ⊢
  split_ifs
  · exact short (List.Sublist.refl _)
  · exact short (List.nil_sublist _)
  · exact short (List.dropLast_sublist _)
  · dsimp only
    split_ifs <;> simp
  · exact short (List.Sublist.refl _)

theorem committed_eq (action : step s a = some u) :
    committed (s, a) = window u.input.buf s.input.w (gap s.input.w u.input.w) := by
  simp [committed, action]

theorem taken_eq (action : step s a = some u) :
    taken (s, a) = window s.input.buf s.input.r (gap s.input.r u.input.r) := by
  simp [taken, action]

theorem step_key (s : State m) (c : Byte) : step s (.key c) =
    some ⟨(s.input.key c).1, if (s.input.key c).2 then wakeup s.proc else s.proc⟩ := rfl

theorem Sound.key (h : Sound s) (c : Byte) :
    Accounts s ⟨(s.input.key c).1, if (s.input.key c).2 then wakeup s.proc else s.proc⟩ (.key c) := by
  obtain ⟨good, line, r, commits⟩ := h.good.key c
  have nothing : taken (s, .key c) = [] := by rw [taken_eq (step_key s c), r, gap_self, window_zero]
  rw [← committed_eq (step_key s c)] at commits
  refine ⟨⟨good, fun t => ?_, fun t => ?_⟩, ?_, ?_, ?_, fun t => ?_, ?_⟩
  · dsimp only
    split_ifs
    · exact Pc.wake_counts (h.counts t)
    · exact h.counts t
  · dsimp only
    split_ifs <;> exact h.alive t
  · rw [nothing, commits]
    rfl
  · have order := key_order s.input.line c
    rw [← line] at order
    change ((s.input.key c).1.pending ++ (s.input.key c).1.edit).Sublist
      (s.input.pending ++ (s.input.edit ++ typed (s, .key c))) at order
    rw [commits, List.append_assoc] at order
    exact (List.append_sublist_append_left _).mp order
  · rw [nothing]
    rfl
  · have same : (((if (s.input.key c).2 then wakeup s.proc else s.proc) t).pc).hand = (s.proc t).pc.hand := by
      split_ifs
      · exact Pc.wake_hand
      · rfl
    rw [same]
    simp [handed, handedTo, returned]
  · rw [nothing]
    nofun

theorem Sound.read {n : Nat} (h : Sound s) (action : step s (.read t n) = some u) : Accounts s u (.read t n) := by
  obtain ⟨idle, same⟩ := Option.ite_none_right_eq_some.mp action
  cases same
  have taken : taken (s, .read t n) = [] := by rw [taken_eq action, gap_self, window_zero]
  have committed : committed (s, .read t n) = [] := by rw [committed_eq action, gap_self, window_zero]
  refine ⟨⟨h.good, fun r => ?_, fun r => ?_⟩, ?_, ?_, ?_, fun r => ?_, ?_⟩
  · by_cases this : r = t
    · subst this
      simp [Pc.Counts]
    · simpa [this] using h.counts r
  · by_cases this : r = t
    · subst this
      simpa using h.alive r
    · simpa [this] using h.alive r
  · rw [taken, committed]
    simp
  · rw [committed]
    simp [typed]
  · rw [taken]
    rfl
  · by_cases this : r = t
    · subst this
      simp [handed, handedTo, returned, idle, Pc.hand]
    · simp [handed, handedTo, returned, this]
  · rw [taken]
    nofun

theorem handedTo_self (t : Fin m) (bytes : List Byte) : handedTo t (bytes.map (t, ·)) = bytes := by
  simp [handedTo, List.filter_map, Function.comp_def]

theorem handedTo_other {r t : Fin m} (other : r ≠ t) (bytes : List Byte) : handedTo r (bytes.map (t, ·)) = [] := by
  simp [handedTo, List.filter_map, Function.comp_def, other.symm]

theorem Sound.go (h : Sound s) (action : step s (.go t) = some u) : Accounts s u (.go t) := by
  cases now : (s.proc t).pc with
  | idle | asleep _ n =>
    simp only [step, now] at action
    cases action
  | ready target n dst =>
    have counts := h.counts t
    rw [now] at counts
    obtain ⟨bytes, took⟩ := readLoop_took h.good counts
    have result : outcome (s, .go t) = some (readLoop target false n dst s.input).2 := by
      simp only [outcome, now, h.alive t]
    have same : step s (.go t) = some ⟨(readLoop target false n dst s.input).1,
        Function.update s.proc t { s.proc t with pc := (readLoop target false n dst s.input).2.pc target }⟩ := by
      simp only [step, now, h.alive t]
    obtain rfl := Option.mem_unique same action
    generalize readLoop target false n dst s.input = read at took result same
    have short : bytes.length < 2 ^ 32 := by
      have all := congrArg List.length took.pending
      have fits := h.good.fits
      have bound := inputBuf_lt
      simp only [Input.pending, List.length_append, length_window] at all
      omega
    have took' : taken (s, .go t) = bytes := by
      rw [taken_eq same]
      simp only [took.r, gap_add short]
      have longer : gap s.input.r s.input.w = bytes.length + (gap s.input.r s.input.w - bytes.length) := by
        have all := congrArg List.length took.pending
        simp only [Input.pending, List.length_append, length_window] at all
        omega
      have pending := took.pending
      unfold Input.pending at pending
      rw [longer, window_add] at pending
      exact (List.append_inj pending (by simp)).1
    have nothing : committed (s, .go t) = [] := by
      rw [committed_eq same]
      simp only [took.w, gap_self, window_zero]
    refine ⟨⟨took.good, fun r => ?_, fun r => ?_⟩, ?_, ?_, ?_, fun r => ?_, ?_⟩
    · by_cases this : r = t
      · subst this
        simpa using took.counts
      · simpa [this] using h.counts r
    · by_cases this : r = t
      · subst this
        simpa using h.alive r
      · simpa [this] using h.alive r
    · rw [took', nothing, List.append_nil]
      exact took.pending
    · rw [nothing]
      simp [took.edit, typed]
    · simp [handed, Function.comp_def]
    · by_cases this : r = t
      · subst this
        rw [handed, handedTo_self, took', returned, result]
        simp only [Function.update_self, now, Pc.hand, ← took.dst]
        have alive := took.alive
        cases ends : read.2 with
        | sleeps k d => simp [Outcome.dst, Outcome.pc]
        | returns d => simp [Outcome.dst, Outcome.pc]
        | fails => exact absurd ends alive
      · rw [handed, handedTo_other this, returned, result]
        simp only [Function.update_of_ne this, List.append_nil]
        cases read.2 <;> simp [Ne.symm this]
    · rw [took', result]
      exact fun member => ⟨(took.eof member).1, congrArg some (took.eof member).2⟩

def NotKill : State m × Action m → Prop
  | (_, .kill _) => False
  | _ => True

instance : DecidablePred (NotKill (m := m)) := fun e =>
  match e with
  | (_, .kill _) => .isFalse id
  | (_, .key _) | (_, .read _ _) | (_, .go _) => .isTrue trivial

theorem Sound.step {a : Action m} (h : Sound s) (notKill : NotKill (s, a)) (action : step s a = some u) :
    Accounts s u a := by
  cases a with
  | key c =>
    obtain rfl := Option.some.inj ((step_key s c).symm.trans action)
    exact h.key c
  | read t n => exact h.read action
  | go t => exact h.go action
  | kill t => exact notKill.elim

theorem boot_sound : Sound (boot buf index : State m) where
  good := ⟨by simp [boot], by simp [boot, Input.edit]⟩
  counts := fun _ => trivial
  alive := fun _ => rfl

structure Ledger (es : List (State m × Action m)) (s : State m) : Prop where
  sound : Sound s
  bytes : es.flatMap committed = es.flatMap taken ++ s.input.pending
  order : (es.flatMap committed ++ s.input.edit).Sublist (es.flatMap typed)
  plain : (es.flatMap taken).filter (· ≠ ctrlD) = (es.flatMap handed).map Prod.snd
  hand : ∀ t, handedTo t (es.flatMap handed) = es.flatMap (returned t) ++ (s.proc t).pc.hand
  eof : ∀ e ∈ es, ctrlD ∈ taken e → taken e = [ctrlD] ∧ outcome e = some (.returns [])
  line : ∀ e ∈ es, e.1.input.Good

theorem Ledger.step {es : List (State m × Action m)} {a : Action m} (h : Ledger es s) (accounts : Accounts s u a) :
    Ledger (es ++ [(s, a)]) u where
  sound := accounts.sound
  bytes := by
    have bytes := accounts.bytes
    simp only [List.flatMap_append, List.flatMap_singleton, h.bytes, List.append_assoc]
    rw [bytes]
  order := by
    have longer := h.order.append_right (typed (s, a))
    simp only [List.flatMap_append, List.flatMap_singleton, List.append_assoc] at longer ⊢
    exact ((accounts.order).append_left _).trans longer
  plain := by
    simp only [List.flatMap_append, List.flatMap_singleton,
      List.filter_append, List.map_append, h.plain, accounts.plain]
  hand := by
    intro t
    have split : handedTo t ((es ++ [(s, a)]).flatMap handed) = handedTo t
      (es.flatMap handed) ++ handedTo t (handed (s, a)) := by
      simp [handedTo]
    rw [split, h.hand t, List.append_assoc, accounts.hand t,
      List.flatMap_append, List.flatMap_singleton, List.append_assoc]
  eof := by
    intro e member
    rcases List.mem_append.mp member with before | last
    · exact h.eof e before
    · obtain rfl := List.mem_singleton.mp last
      exact accounts.eof
  line := by
    intro e member
    rcases List.mem_append.mp member with before | last
    · exact h.line e before
    · obtain rfl := List.mem_singleton.mp last
      exact h.sound.good

theorem run_ledger {as : List (Action m)}
    (run : exec step (boot buf index) as = some s) (alive : ∀ e ∈ trace step (boot buf index) as, NotKill e) :
    Ledger (trace step (boot buf index) as) s := by
  refine exec_induction (I := fun es s => (∀ e ∈ es, NotKill e) → Ledger es s) (fun _ => ?_) ?_ run alive
  · exact ⟨boot_sound, by simp [boot, Input.pending], by simp [boot, Input.edit], rfl, fun t => rfl, by simp, by simp⟩
  · intro _ s a u ih action all
    have before := ih fun e member => all e (by simp [member])
    exact before.step (before.sound.step (all (s, a) (by simp)) action)

theorem key_erases (l : Line) (erases : c = ctrl 85 ∨ c = ctrl 72 ∨ c = 127) :
    (l.key c).pending = l.pending ∧ (l.key c).edit <+: l.edit := by
  unfold Line.key
  rcases erases with rfl | rfl | rfl
  · exact ⟨rfl, List.nil_prefix⟩
  · exact ⟨rfl, List.dropLast_prefix _⟩
  · exact ⟨rfl, List.dropLast_prefix _⟩

theorem Typed.erases {after : Input} (h : Typed input after c) (erases : c = ctrl 85 ∨ c = ctrl 72 ∨ c = 127) :
    after.r = input.r ∧ after.w = input.w ∧ after.pending = input.pending ∧ after.edit <+: input.edit := by
  obtain ⟨pending, edit⟩ := key_erases input.line erases
  rw [← h.line] at pending edit
  have same : after.pending = input.pending := pending
  have none := h.committed
  rw [same] at none
  have length := congrArg List.length none
  rw [List.length_append, length_window] at length
  exact ⟨h.r, (gap_eq_zero.mp (by omega)).symm, same, edit⟩

/-- The console hands the committed bytes to the readers in the order they were typed, each byte once, and a `^D` as an
empty result; a byte that was handed to a reader has been returned by its `consoleread` or will be. -/
theorem console_lines {buf : Fin INPUT_BUF → Byte} {index : UInt32} {as : List (Action m)}
    (run : exec step (boot buf index) as = some s) (alive : ∀ e ∈ trace step (boot buf index) as, NotKill e) :
    let es := trace step (boot buf index) as
    (s.input.w - s.input.r).toNat ≤ (s.input.e - s.input.r).toNat ∧ (s.input.e - s.input.r).toNat ≤ INPUT_BUF ∧
    es.flatMap committed = es.flatMap taken ++ s.input.pending ∧
    (es.flatMap committed ++ s.input.edit).Sublist (es.flatMap typed) ∧
    (es.flatMap taken).filter (· ≠ ctrlD) = (es.flatMap handed).map Prod.snd ∧
    (∀ t, handedTo t (es.flatMap handed) = es.flatMap (returned t) ++ (s.proc t).pc.hand) ∧
    (∀ e ∈ es, ctrlD ∈ taken e → taken e = [ctrlD] ∧ outcome e = some (.returns [])) ∧
    (∀ e ∈ es, ∀ c, e.2 = .key c → ∀ u, step e.1 e.2 = some u → u.input.line = e.1.input.line.key c ∧
      (c = ctrl 85 ∨ c = ctrl 72 ∨ c = 127 →
        u.input.r = e.1.input.r ∧ u.input.w = e.1.input.w ∧ u.input.pending = e.1.input.pending ∧
          u.input.edit <+: e.1.input.edit)) := by
  intro _
  have ledger := run_ledger run alive
  have fits := ledger.sound.good.fits
  have total := ledger.sound.good.gap_re
  refine ⟨?_, ?_, ledger.bytes, ledger.order, ledger.plain, ledger.hand, ledger.eof, ?_⟩
  · change gap s.input.r s.input.w ≤ gap s.input.r s.input.e
    omega
  · change gap s.input.r s.input.e ≤ INPUT_BUF
    omega
  · rintro ⟨v, a⟩ member c rfl u action
    obtain rfl := Option.some.inj ((step_key v c).symm.trans action)
    have typed := (ledger.line _ member).key c
    exact ⟨typed.line, typed.erases⟩

def mistyped : List (Action 1) :=
  [.key 97, .key 98, .key 127, .key 13, .key ctrlD, .read 0 5, .go 0, .read 0 5, .go 0]

theorem console_lines_mistyped :
    ∃ s, exec step (boot (fun _ => 0) 0xffffffff : State 1) mistyped = some s ∧ s.input.r = 2 ∧
    (trace step (boot (fun _ => 0) 0xffffffff : State 1) mistyped).flatMap (returned 0) = [97, newline] ∧
    [97, newline, ctrlD] =
      (trace step (boot (fun _ => 0) 0xffffffff : State 1) mistyped).flatMap taken ++ s.input.pending := by
  obtain ⟨s, reached, ends⟩ : ∃ s, exec step (boot (fun _ => 0) 0xffffffff : State 1) mistyped = some s ∧
    s.input.r = 2 := by
    decide +kernel
  have alive : ∀ e ∈ trace step (boot (fun _ => 0) 0xffffffff : State 1) mistyped, NotKill e := by decide +kernel
  have bytes := (console_lines reached alive).2.2.1
  have commits : (trace step (boot (fun _ => 0) 0xffffffff : State 1) mistyped).flatMap committed =
    [97, newline, ctrlD] := by
    decide +kernel
  rw [commits] at bytes
  exact ⟨s, reached, ends, by decide +kernel, bytes⟩

def twoReaders : List (Action 2) :=
  [Action.read 0 200, .go 0] ++ List.replicate 128 (Action.key 97) ++ [Action.go 0, .key ctrlD, .read 1 1]

/-- The second reader returns 0 while the bytes typed before the `^D` have not been returned to anybody. -/
theorem eof_before_bytes : ∃ s, exec step (boot (fun _ => 0) 0 : State 2) twoReaders = some s ∧
    taken (s, .go 1) = [ctrlD] ∧ outcome (s, .go 1) = some (.returns []) ∧
    (trace step (boot (fun _ => 0) 0 : State 2) twoReaders).flatMap committed = List.replicate 128 97 ++ [ctrlD] ∧
    ∀ t, (trace step (boot (fun _ => 0) 0 : State 2) twoReaders).flatMap (returned t) = [] := by
  decide +kernel

end Xv6.Console
