import Xv6.Library.Transition
import Xv6.Kernel.Spinlock

/-!
# Interrupts are off under a lock, and come back as they were

The counter of a processor is the number of calls that the stack on it has to undo, and as long as there are any,
`intena` is the flag that this stack found at its outermost `pushcli`. Both go along with a thread from one processor
to another, the first because `sched` insists on `ncli == 1`, the second because `sched` saves it.
-/

namespace Xv6.Spinlock
open Xv6.Library State
open Function (update update_eq_self update_self)
open Xv6.Kernel (Slot ProcState)

variable {n : Nat} {s t : State n} {c d : Fin n} {a : Action} {p q : Slot} {l : Lock} {cpu : Cpu} {k : Ctx} {b : Bool}
  {locks : Lock → Option (Fin n)} {x : ProcState} {f : Bool × Local} {rest : List Instr} {i : Instr}
  {as : List (Fin n × Action)}

def Ctx.depth (k : Ctx) : Nat := k.pushes + k.locks.length

def leaving : List Instr → Bool
  | [] | .unlock _ :: _ => false
  | .swtch :: _ => true
  | _ :: rest => leaving rest

def Safe : Bool → Nat → List Lock → List Instr → Prop
  | _, _, _, [] => True
  | _, k, ls, .cli :: rest => Safe false k ls rest
  | i, k, ls, .count :: rest => i = false ∧ Safe i (k + 1) ls rest
  | i, k, ls, .uncount :: rest => 0 < k ∧ Safe i (k - 1) ls rest
  | i, k, ls, .restore :: rest => i = false ∧ ∀ j, (0 < k + ls.length → j = false) → Safe j k ls rest
  | i, k, ls, .xchg l :: rest => 0 < k ∧ Safe i (k - 1) (l :: ls) rest
  | i, k, ls, .unlock l :: rest => l ∈ ls ∧ leaving rest = false ∧ Safe i (k + 1) (ls.erase l) rest
  | i, k, ls, .setState _ :: rest => leaving rest ∧ Safe i k ls rest
  | i, k, ls, .check :: rest => k + ls.length = 1 → Safe i k ls rest
  | i, k, ls, .save :: rest => 0 < k + ls.length ∧ Safe i k ls rest
  | i, k, ls, .swtch :: rest => k = 0 ∧ ls = [.ptable] ∧ rest.head? = some .load ∧ Safe i k ls rest
  | i, k, ls, .load :: rest => i = false ∧ Safe i k ls rest
  | _, k, ls, .sti :: rest => k = 0 ∧ ls = [] ∧ Safe true k ls rest
  | i, k, ls, .readeflags :: rest | i, k, ls, .test _ :: rest | i, k, ls, .panicIf :: rest
  | i, k, ls, .panicUnless :: rest => Safe i k ls rest

def Follows (i : Instr) : Instr → Prop
  | .cli => i = .readeflags
  | .count => i = .cli
  | .restore => i = .uncount
  | .swtch => i = .save
  | .load => i = .swtch
  | _ => True

def Whole (code : List Instr) : Prop := code.IsChain Follows ∧ ∀ i ∈ code.head?, Follows .sti i

structure Fit (locks : Lock → Option (Fin n)) (c : Fin n) (cpu : Cpu) (k : Ctx) : Prop where
  ncli : cpu.ncli = k.depth
  off : 0 < k.depth → cpu.enabled = false
  safe : Safe cpu.enabled k.pushes k.locks k.todo
  chain : k.todo.IsChain Follows
  holds : ∀ l ∈ k.locks, locks l = some c
  nodup : k.locks.Nodup
  leaves : leaving k.todo → .ptable ∈ k.locks
  read : k.todo.head? = some .cli → k.eflags = cpu.enabled

structure Framed (f : Bool × Local) : Prop where
  safe : Safe f.1 0 [] f.2.todo
  chain : f.2.todo.IsChain Follows
  on : f.1 = false → f.2.todo = []
  stays : leaving f.2.todo = false
  read : f.2.todo.head? = some .cli → f.2.eflags = f.1

structure Owes (cpu : Cpu) (k : Ctx) (b : Bool) : Prop where
  counts : k.todo.head? = some .count → k.depth = 0 → k.eflags = b
  kept : 0 < k.depth → k.todo.head? ≠ some .load → cpu.intena = b
  restores : k.todo.head? = some .restore → cpu.intena = b
  saved : k.todo.head? = some .swtch ∨ k.todo.head? = some .load → k.intena = b

def Answers (cpu : Cpu) (k : Ctx) : Prop := cpu.proc = none → cpu.chosen = none ∧ k.frames = [] ∧ .sti ∉ k.todo

structure Parked (k : Ctx) (b : Bool) : Prop where
  pushes : k.pushes = 0
  held : k.locks = [.ptable]
  safe : Safe false 0 [.ptable] k.todo
  chain : k.todo.IsChain Follows
  saved : k = .forkret ∨ k.todo.head? = some .load ∧ k.intena = b

structure Sound (o : Who n → Bool) (s : State n) : Prop where
  fit : ∀ c, Fit s.lock c (s.cpu c) (s.now c)
  frames : ∀ x, ∀ f ∈ (s.ctx x).frames, Framed f
  owes : ∀ c, Answers (s.cpu c) (s.now c) → Owes (s.cpu c) (s.now c) (o (s.who c))
  inj : ∀ c d p, (s.cpu c).proc = some p → (s.cpu d).proc = some p → c = d
  busy : ∀ c p, (s.cpu c).proc = some p → s.state p = .running ∨ leaving (s.now c).todo
  parked : ∀ p, (∀ c, (s.cpu c).proc ≠ some p) → s.state p ≠ .unused → Parked (s.ctx (.thread p)) (o (.thread p))
  resting : ∀ c p, (s.cpu c).proc = some p → (s.ctx (.scheduler c)).resting ∧ (s.cpu c).chosen = some p
  pass : ∀ c p, (s.cpu c).proc = none → (s.cpu c).chosen = some p →
    (s.now c).frames = [] ∧ .ptable ∈ (s.now c).locks ∧ .unlock .ptable ∉ (s.now c).todo ∧
      (∀ d, (s.cpu d).proc ≠ some p) ∧ (s.ctx (.thread p)).todo.head? = some .load

variable {o o' : Who n → Bool}

theorem who_thread (proc : (s.cpu c).proc = some p) : s.who c = .thread p := by simp [who, proc]

theorem who_scheduler (proc : (s.cpu c).proc = none) : s.who c = .scheduler c := by simp [who, proc]

theorem proc_of_who (who : s.who c = .thread p) : (s.cpu c).proc = some p := by
  unfold State.who at who
  cases proc : (s.cpu c).proc with
  | none => simp [proc] at who
  | some q => simpa [proc] using who

theorem Sound.who_inj (h : Sound o s) (same : s.who d = s.who c) : d = c := by
  cases proc : (s.cpu c).proc with
  | some p =>
    rw [who_thread proc] at same
    exact h.inj d c p (proc_of_who same) proc
  | none =>
    rw [who_scheduler proc] at same
    cases other : (s.cpu d).proc with
    | some q => simp [who_thread other] at same
    | none => simpa [who_scheduler other] using same

theorem Sound.local (h : Sound o s) (cpus : ∀ d, d ≠ c → t.cpu d = s.cpu d)
    (proc : (t.cpu c).proc = (s.cpu c).proc) (ctxs : ∀ x, x ≠ s.who c → t.ctx x = s.ctx x)
    (owners : ∀ l d, d ≠ c → s.lock l = some d → t.lock l = some d)
    (states : ∀ p, (s.cpu c).proc ≠ some p → t.state p = s.state p)
    (notes : ∀ x, x ≠ s.who c → o' x = o x)
    (fit : Fit t.lock c (t.cpu c) (t.ctx (s.who c))) (frames : ∀ f ∈ (t.ctx (s.who c)).frames, Framed f)
    (owes : Answers (t.cpu c) (t.ctx (s.who c)) → Owes (t.cpu c) (t.ctx (s.who c)) (o' (s.who c)))
    (busy : ∀ p, (s.cpu c).proc = some p → t.state p = .running ∨ leaving (t.ctx (s.who c)).todo)
    (chosen : ∀ p, (t.cpu c).chosen = some p → (s.cpu c).chosen = some p)
    (runs : ∀ p, (s.cpu c).proc = some p → (t.cpu c).chosen = (s.cpu c).chosen)
    (pass : ∀ p, (s.cpu c).proc = none → (t.cpu c).chosen = some p → (t.ctx (s.who c)).frames = [] ∧
      .ptable ∈ (t.ctx (s.who c)).locks ∧ .unlock .ptable ∉ (t.ctx (s.who c)).todo) : Sound o' t := by
  have procs : ∀ d, (t.cpu d).proc = (s.cpu d).proc := by
    intro d
    by_cases same : d = c
    · rw [same, proc]
    · rw [cpus d same]
  have whos : ∀ d, t.who d = s.who d := by
    intro d
    simp only [who, procs d]
  have now : t.now c = t.ctx (s.who c) := by rw [State.now, whos]
  have nows : ∀ d, d ≠ c → t.now d = s.now d := by
    intro d other
    rw [State.now, State.now, whos]
    exact ctxs _ fun same => other (h.who_inj same)
  refine ⟨fun d => ?_, fun x => ?_, fun d answers => ?_, fun d e p => ?_, fun d p there => ?_, fun p gone live => ?_,
    fun d p there => ?_, fun d p there picked => ?_⟩
  · by_cases same : d = c
    · subst same
      rw [now]
      exact fit
    · rw [cpus d same, nows d same]
      have before := h.fit d
      exact { before with holds := fun l held => owners l d same (before.holds l held) }
  · by_cases same : x = s.who c
    · rw [same]
      exact frames
    · rw [ctxs x same]
      exact h.frames x
  · by_cases same : d = c
    · subst same
      rw [now] at answers ⊢
      rw [whos]
      exact owes answers
    · rw [cpus d same, nows d same] at answers ⊢
      rw [whos, notes _ fun same' => same (h.who_inj same')]
      exact h.owes d answers
  · rw [procs, procs]
    exact h.inj d e p
  · rw [procs] at there
    by_cases same : d = c
    · subst same
      rw [now]
      exact busy p there
    · rw [nows d same, states p fun here => same (h.inj d c p there here)]
      exact h.busy d p there
  · have away : ∀ d, (s.cpu d).proc ≠ some p := fun d => procs d ▸ gone d
    have other : Who.thread p ≠ s.who c := fun same => away c (proc_of_who same.symm)
    rw [states p (away c)] at live
    rw [ctxs _ other, notes _ other]
    exact h.parked p away live
  · rw [procs] at there
    have other : Who.scheduler d ≠ s.who c := by
      intro same
      cases here : (s.cpu c).proc with
      | some q => simp [who_thread here] at same
      | none =>
        obtain rfl : d = c := by simpa [who_scheduler here] using same
        simp [here] at there
    rw [ctxs _ other]
    refine ⟨(h.resting d p there).1, ?_⟩
    by_cases same : d = c
    · subst same
      rw [runs p there]
      exact (h.resting d p there).2
    · rw [cpus d same]
      exact (h.resting d p there).2
  · rw [procs] at there
    have before : (s.cpu d).chosen = some p := by
      by_cases same : d = c
      · subst same
        exact chosen p picked
      · rwa [cpus d same] at picked
    obtain ⟨_, _, _, gone, parked⟩ := h.pass d p there before
    have other : Who.thread p ≠ s.who c := fun same => gone c (proc_of_who same.symm)
    rw [ctxs _ other]
    refine ⟨?_, ?_, ?_, fun e => procs e ▸ gone e, parked⟩
    all_goals
      by_cases same : d = c
      · subst same
        rw [now]
        have := pass p there picked
        tauto
      · rw [nows d same]
        assumption

section Put
variable (s c cpu k)

theorem put_ctx : (s.put c cpu k).ctx = update s.ctx (s.who c) k := by
  unfold put who
  cases (s.cpu c).proc <;> rfl

@[simp] theorem put_cpu_self : (s.put c cpu k).cpu c = cpu := by simp [put]

@[simp] theorem put_cpu_ne (other : d ≠ c) : (s.put c cpu k).cpu d = s.cpu d := by simp [put, other]

@[simp] theorem put_ctx_self : (s.put c cpu k).ctx (s.who c) = k := by simp [put_ctx]

@[simp] theorem put_ctx_ne {x : Who n} (other : x ≠ s.who c) : (s.put c cpu k).ctx x = s.ctx x := by
  simp [put_ctx, other]

@[simp] theorem put_lock : (s.put c cpu k).lock = s.lock := rfl

@[simp] theorem put_state : (s.put c cpu k).state = s.state := rfl

end Put

theorem Sound.put (h : Sound o s) (proc : cpu.proc = (s.cpu c).proc)
    (fit : Fit s.lock c cpu k) (frames : ∀ f ∈ k.frames, Framed f)
    (owes : Answers cpu k → Owes cpu k (o (s.who c)))
    (busy : ∀ p, (s.cpu c).proc = some p → s.state p = .running ∨ leaving k.todo)
    (chosen : cpu.chosen = (s.cpu c).chosen ∨ (s.cpu c).proc = none ∧ cpu.chosen = none)
    (pass : ∀ p, (s.cpu c).proc = none → cpu.chosen = some p →
      k.frames = [] ∧ .ptable ∈ k.locks ∧ .unlock .ptable ∉ k.todo) :
    Sound o (s.put c cpu k) := by
  refine h.local (c := c) (fun d other => by simp [other]) (by simp [proc]) (fun x other => by simp [other])
    (fun _ _ _ same => same) (fun _ _ => rfl) (fun _ _ => rfl) ?_ ?_ ?_ ?_ (fun p picked => ?_) (fun p there => ?_) ?_
  all_goals simp only [put_cpu_self, put_ctx_self, put_lock, put_state] at *
  · exact fit
  · exact frames
  · exact owes
  · exact busy
  · rcases chosen with same | ⟨-, none⟩
    · rwa [← same]
    · simp [none] at picked
  · exact chosen.resolve_right fun idle => by simp [idle.1] at there
  · exact pass

theorem Fit.tail (h : Fit locks c cpu k) (todo : k.todo = i :: rest) :
    rest.IsChain Follows ∧ ∀ j ∈ rest.head?, Follows i j := by
  have chain := h.chain
  rw [todo, List.isChain_cons] at chain
  exact ⟨chain.2, chain.1⟩

theorem Fit.advance {cpu' : Cpu} {k' : Ctx} (h : Fit locks c cpu k)
    (todo : k.todo = i :: rest) (safe : Safe cpu.enabled k.pushes k.locks rest) (leaves : leaving rest → leaving k.todo)
    (code : k'.todo = rest) (pushes : k'.pushes = k.pushes) (held : k'.locks = k.locks)
    (enabled : cpu'.enabled = cpu.enabled) (ncli : cpu'.ncli = cpu.ncli)
    (read : i = .readeflags → k'.eflags = cpu'.enabled) : Fit locks c cpu' k' := by
  have depth : k'.depth = k.depth := by rw [Ctx.depth, Ctx.depth, pushes, held]
  refine ⟨by rw [ncli, h.ncli, depth], ?_, ?_, ?_, ?_, ?_, ?_, ?_⟩
  · rw [depth, enabled]
    exact h.off
  · rw [enabled, pushes, held, code]
    exact safe
  · rw [code]
    exact (h.tail todo).1
  · rw [held]
    exact h.holds
  · rw [held]
    exact h.nodup
  · rw [code, held]
    exact fun goes => h.leaves (leaves goes)
  · rw [code]
    exact fun head => read ((h.tail todo).2 _ head)

theorem Fit.step {cpu' : Cpu} {k' : Ctx} {locks' : Lock → Option (Fin n)} (h : Fit locks c cpu k)
    (todo : k.todo = i :: rest) (plain : i ≠ .readeflags) (code : k'.todo = rest) (ncli : cpu'.ncli = k'.depth)
    (off : 0 < k'.depth → cpu'.enabled = false) (safe : Safe cpu'.enabled k'.pushes k'.locks rest)
    (holds : ∀ l ∈ k'.locks, locks' l = some c) (nodup : k'.locks.Nodup)
    (leaves : leaving rest → leaving (i :: rest) ∧ (.ptable ∈ k.locks → .ptable ∈ k'.locks)) :
    Fit locks' c cpu' k' := by
  subst code
  obtain ⟨chain, follows⟩ := h.tail todo
  refine ⟨ncli, off, safe, chain, holds, nodup, fun goes => ?_, fun head => absurd (follows _ head) plain⟩
  exact (leaves goes).2 (h.leaves (todo ▸ (leaves goes).1))

theorem Fit.code (h : Fit locks c cpu k) (todo : k.todo = i :: rest) :
    Safe cpu.enabled k.pushes k.locks (i :: rest) := todo ▸ h.safe

theorem Sound.code (h : Sound o s) (todo : (s.now c).todo = i :: rest) : Fit s.lock c (s.cpu c) (s.now c) ∧
    (∀ j ∈ rest.head?, Follows i j) ∧ Safe (s.cpu c).enabled (s.now c).pushes (s.now c).locks (i :: rest) :=
  ⟨h.fit c, ((h.fit c).tail todo).2, (h.fit c).code todo⟩

theorem Owes.next (follows : ∀ j ∈ rest.head?, Follows i j) (code : k.todo = rest)
    (counts : i = .cli → k.depth = 0 → k.eflags = b)
    (kept : 0 < k.depth → cpu.intena = b) (restores : i = .uncount → cpu.intena = b)
    (saved : i = .save → k.intena = b) (stays : i ≠ .swtch) : Owes cpu k b := by
  rw [← code] at follows
  refine ⟨fun head => ?_, fun deep _ => kept deep, fun head => ?_, fun head => ?_⟩
  · exact counts (follows _ head)
  · exact restores (follows _ head)
  · rcases head with head | head
    · exact saved (follows _ head)
    · exact absurd (follows _ head) stays

theorem Owes.plain (follows : ∀ j ∈ rest.head?, Follows i j) (code : k.todo = rest)
    (other : i ≠ .cli ∧ i ≠ .uncount ∧ i ≠ .save ∧ i ≠ .swtch) (kept : 0 < k.depth → cpu.intena = b) : Owes cpu k b :=
  .next follows code (fun same => absurd same other.1) kept (fun same => absurd same other.2.1)
    (fun same => absurd same other.2.2.1) other.2.2.2

theorem Sound.move {locks : Lock → Option (Fin n)} (h : Sound o s)
    (todo : (s.now c).todo = i :: rest) (code : k.todo = rest) (frames : k.frames = (s.now c).frames)
    (proc : cpu.proc = (s.cpu c).proc) (chosen : cpu.chosen = (s.cpu c).chosen)
    (owners : ∀ l d, d ≠ c → s.lock l = some d → locks l = some d)
    (notes : ∀ x, x ≠ s.who c → o' x = o x) (fit : Fit locks c cpu k)
    (leaves : leaving (i :: rest) → leaving rest)
    (held : i ≠ .unlock .ptable → .ptable ∈ (s.now c).locks → .ptable ∈ k.locks)
    (owes : Answers cpu k → (i ≠ .sti → Owes (s.cpu c) (s.now c) (o (s.who c))) → Owes cpu k (o' (s.who c))) :
    Sound o' { s.put c cpu k with lock := locks } := by
  refine h.local (c := c) (fun d other => by simp [other]) (by simp [proc]) (fun x other => by simp [other]) owners
    (fun _ _ => rfl) notes (by simpa using fit) ?_ (fun answers => ?_) (fun p there => ?_) (fun p => by simp [chosen])
    (fun p _ => by simp [chosen]) (fun p there picked => ?_)
  · simp only [put_ctx_self, frames]
    exact h.frames _
  · simp only [put_cpu_self, put_ctx_self] at answers ⊢
    refine owes answers fun keeps => h.owes c fun idle => ?_
    obtain ⟨unpicked, unframed, unset⟩ := answers (proc.trans idle)
    refine ⟨chosen ▸ unpicked, frames ▸ unframed, ?_⟩
    rw [todo, List.mem_cons, not_or]
    exact ⟨keeps.symm, code ▸ unset⟩
  · simp only [put_ctx_self, code]
    exact (h.busy c p there).imp_right fun goes => leaves (todo ▸ goes)
  · simp only [put_cpu_self, put_ctx_self, frames, code] at picked ⊢
    obtain ⟨unframed, mine, keeps, -⟩ := h.pass c p there (chosen ▸ picked)
    rw [todo, List.mem_cons, not_or] at keeps
    exact ⟨unframed, held (Ne.symm keeps.1) mine, keeps.2⟩

def note (o : Who n → Bool) (e : State n × (Fin n × Action)) : Who n → Bool :=
  match e with
  | (s, (c, .go)) =>
    if (s.now c).todo.head? = some .cli ∧ (s.now c).depth = 0 then
      update o (s.who c) (s.cpu c).enabled
    else o
  | (s, (c, .dispatch p)) =>
    if (s.ctx (.thread p)).todo = release .ptable then update o (.thread p) (o (.scheduler c)) else o
  | _ => o

def noted (es : List (State n × (Fin n × Action))) : Who n → Bool := es.foldl note fun _ => false

section
variable (h : Sound o s)
include h

theorem Sound.quiet {e r v : Bool} (todo : (s.now c).todo = i :: rest)
    (safe : Safe (s.cpu c).enabled (s.now c).pushes (s.now c).locks rest) (same : leaving (i :: rest) = leaving rest)
    (plain : i ≠ .sti ∧ i ≠ .cli ∧ i ≠ .uncount ∧ i ≠ .swtch ∧ i ≠ .load)
    (read : i = .readeflags → e = (s.cpu c).enabled) (save : i = .save → v = (s.cpu c).intena ∧ 0 < (s.now c).depth) :
    Sound o (s.put c (s.cpu c) { s.now c with todo := rest, eflags := e, r := r, intena := v }) := by
  obtain ⟨sti, cli, uncount, swtch, load⟩ := plain
  have fit := h.fit c
  refine h.move todo rfl rfl rfl rfl (fun _ _ _ same => same) (fun _ _ => rfl)
    (fit.advance todo safe (by simp [todo, same]) rfl rfl rfl rfl rfl read) (by simp [same]) (fun _ held => held)
    fun _ owes => ?_
  have kept (deep : 0 < (s.now c).depth) := (owes sti).kept deep (by simpa [todo] using load)
  refine .next (fit.tail todo).2 rfl (fun set => absurd set cli) kept
    (fun set => absurd set uncount) (fun set => ?_) swtch
  obtain ⟨rfl, deep⟩ := save set
  exact kept deep

theorem Sound.cli (todo : (s.now c).todo = .cli :: rest) :
    Sound (note o (s, (c, .go))) (s.put c { s.cpu c with enabled := false } { s.now c with todo := rest }) := by
  obtain ⟨fit, follows, safe⟩ := h.code todo
  refine h.move todo rfl rfl rfl rfl (fun _ _ _ same => same)
    (fun x other => ?_) ?_ id (fun _ held => held) fun _ owes => ?_
  · simp only [note]
    split_ifs
    · simp [other]
    · rfl
  · exact fit.step todo (by simp) rfl fit.ncli (fun _ => rfl) safe fit.holds fit.nodup fun goes => ⟨goes, id⟩
  · have before := owes (by simp)
    by_cases outer : (s.now c).depth = 0
    · have now : note o (s, (c, .go)) (s.who c) = (s.cpu c).enabled := by simp [note, todo, outer]
      rw [now]
      exact .next follows rfl (fun _ _ => fit.read (by simp [todo]))
        (fun deep => absurd outer (Nat.pos_iff_ne_zero.mp deep))
        (by simp) (by simp) (by simp)
    have now : note o (s, (c, .go)) = o := by simp [note, outer]
    rw [now]
    exact .next follows rfl (fun _ none => absurd none outer)
      (fun deep => before.kept deep (by simp [todo])) (by simp) (by simp) (by simp)

theorem Sound.count (todo : (s.now c).todo = .count :: rest) : Sound o (s.put c
      { s.cpu c with
        intena := if (s.cpu c).ncli = 0 then (s.now c).eflags else (s.cpu c).intena, ncli := (s.cpu c).ncli + 1 }
      { s.now c with todo := rest, pushes := (s.now c).pushes + 1 }) := by
  obtain ⟨fit, follows, off, safe⟩ := h.code todo
  refine h.move todo rfl rfl rfl rfl (fun _ _ _ same => same)
    (fun _ _ => rfl) ?_ id (fun _ held => held) fun _ owes => ?_
  · refine fit.step todo (by simp) rfl ?_ (fun _ => off) safe fit.holds fit.nodup fun goes => ⟨goes, id⟩
    simp only [fit.ncli, Ctx.depth]
    omega
  have before := owes (by simp)
  refine .plain follows rfl (by simp) fun _ => ?_
  simp only [fit.ncli]
  split_ifs with outer
  · exact before.counts (by simp [todo]) (by simpa using outer)
  · exact before.kept (by omega) (by simp [todo])

theorem Sound.uncount (todo : (s.now c).todo = .uncount :: rest) :
    Sound o (s.put c { s.cpu c with ncli := (s.cpu c).ncli - 1 }
      { s.now c with todo := rest, pushes := (s.now c).pushes - 1 }) := by
  obtain ⟨fit, follows, _, safe⟩ := h.code todo
  have deep : 0 < (s.now c).depth := by
    unfold Ctx.depth
    omega
  refine h.move todo rfl rfl rfl rfl (fun _ _ _ same => same)
    (fun _ _ => rfl) ?_ id (fun _ held => held) fun _ owes => ?_
  · refine fit.step todo (by simp) rfl ?_ (fun _ => fit.off deep) safe fit.holds fit.nodup fun goes => ⟨goes, id⟩
    simp only [fit.ncli, Ctx.depth]
    omega
  · have kept := (owes (by simp)).kept deep (by simp [todo])
    exact .next follows rfl (by simp) (fun _ => kept) (fun _ => kept) (by simp) (by simp)

theorem Sound.restore (todo : (s.now c).todo = .restore :: rest) : Sound o (s.put c
      { s.cpu c with enabled := (s.cpu c).enabled || decide ((s.cpu c).ncli = 0) && (s.cpu c).intena }
      { s.now c with todo := rest }) := by
  obtain ⟨fit, follows, off, safe⟩ := h.code todo
  have stays (deep : 0 < (s.now c).depth) :
    ((s.cpu c).enabled || decide ((s.cpu c).ncli = 0) && (s.cpu c).intena) = false := by
    have : ¬ (s.now c).depth = 0 := by omega
    simp [off, fit.ncli, this]
  refine h.move todo rfl rfl rfl rfl (fun _ _ _ same => same)
    (fun _ _ => rfl) ?_ id (fun _ held => held) fun _ owes => ?_
  · exact fit.step todo (by simp) rfl fit.ncli stays (safe _ stays) fit.holds fit.nodup fun goes => ⟨goes, id⟩
  · exact .plain follows rfl (by simp) fun deep => (owes (by simp)).kept deep (by simp [todo])

theorem Sound.xchg (todo : (s.now c).todo = .xchg l :: rest) (free : s.lock l = none) :
    Sound o { s.put c (s.cpu c)
      { s.now c with todo := rest, pushes := (s.now c).pushes - 1, locks := l :: (s.now c).locks } with
      lock := update s.lock l (some c) } := by
  obtain ⟨fit, follows, _, safe⟩ := h.code todo
  have new : l ∉ (s.now c).locks := fun held => by simpa [free] using fit.holds l held
  have depth : (s.now c).pushes - 1 + (l :: (s.now c).locks).length = (s.now c).depth := by
    simp only [Ctx.depth, List.length_cons]
    omega
  refine h.move todo rfl rfl rfl rfl (fun m d _ owner => ?_) (fun _ _ => rfl) ?_ id
    (fun _ held => List.mem_cons_of_mem _ held) fun _ owes => ?_
  · have differs : m ≠ l := by
      rintro rfl
      simp [free] at owner
    simpa [differs] using owner
  · refine fit.step todo (by simp) rfl (by simp only [Ctx.depth, depth, fit.ncli]) ?_ safe (fun m held => ?_)
      (List.nodup_cons.mpr ⟨new, fit.nodup⟩) fun goes => ⟨goes, List.mem_cons_of_mem _⟩
    · simp only [Ctx.depth, depth]
      exact fit.off
    rcases List.mem_cons.mp held with rfl | before
    · simp
    · have differs : m ≠ l := fun same => new (same ▸ before)
      simpa [differs] using fit.holds m before
  · refine .plain follows rfl (by simp) fun deep => ?_
    simp only [Ctx.depth, depth] at deep
    exact (owes (by simp)).kept deep (by simp [todo])

theorem Sound.unlock (todo : (s.now c).todo = .unlock l :: rest) : Sound o { s.put c (s.cpu c)
      { s.now c with todo := rest, pushes := (s.now c).pushes + 1, locks := (s.now c).locks.erase l } with
      lock := update s.lock l none } := by
  obtain ⟨fit, follows, mine, stays, safe⟩ := h.code todo
  have depth : (s.now c).pushes + 1 + ((s.now c).locks.erase l).length = (s.now c).depth := by
    have := List.length_pos_of_mem mine
    simp only [Ctx.depth, List.length_erase_of_mem mine]
    omega
  refine h.move todo rfl rfl rfl rfl (fun m d other owner => ?_) (fun _ _ => rfl) ?_ (by simp [leaving])
    (fun keeps held => ?_) fun _ owes => ?_
  · have differs : m ≠ l := by
      rintro rfl
      exact other (Option.some.inj (owner.symm.trans (fit.holds m mine)))
    simpa [differs] using owner
  · refine fit.step todo (by simp) rfl (by simp only [Ctx.depth, depth, fit.ncli]) ?_ safe (fun m held => ?_)
      (fit.nodup.erase l) (by simp [stays])
    · simp only [Ctx.depth, depth]
      exact fit.off
    · obtain ⟨differs, before⟩ := (List.Nodup.mem_erase_iff fit.nodup).mp held
      simpa [differs] using fit.holds m before
  · refine (List.mem_erase_of_ne ?_).mpr held
    rintro rfl
    exact keeps rfl
  · refine .plain follows rfl (by simp) fun deep => ?_
    simp only [Ctx.depth, depth] at deep
    exact (owes (by simp)).kept deep (by simp [todo])

theorem Sound.load (todo : (s.now c).todo = .load :: rest) :
    Sound o (s.put c { s.cpu c with intena := (s.now c).intena } { s.now c with todo := rest }) := by
  obtain ⟨fit, follows, safe⟩ := h.code todo
  refine h.move todo rfl rfl rfl rfl (fun _ _ _ same => same) (fun _ _ => rfl)
    (fit.advance todo safe.2 (by simp [todo, leaving]) rfl rfl rfl rfl rfl (by simp)) id
    (fun _ held => held) fun _ owes => ?_
  exact .plain follows rfl (by simp) fun _ => (owes (by simp)).saved (.inr (by simp [todo]))

theorem Sound.sti (todo : (s.now c).todo = .sti :: rest) :
    Sound o (s.put c { s.cpu c with enabled := true } { s.now c with todo := rest }) := by
  obtain ⟨fit, follows, pushes, locks, safe⟩ := h.code todo
  have none : (s.now c).depth = 0 := by simp [Ctx.depth, pushes, locks]
  refine h.move todo rfl rfl rfl rfl (fun _ _ _ same => same) (fun _ _ => rfl) ?_ id (fun _ held => held) fun _ _ => ?_
  · exact fit.step todo (by simp) rfl fit.ncli
      (fun deep => absurd none (Nat.pos_iff_ne_zero.mp deep)) safe fit.holds fit.nodup
      fun goes => ⟨goes, id⟩
  · exact .plain follows rfl (by simp) fun deep => absurd none (Nat.pos_iff_ne_zero.mp deep)

theorem Sound.setState (todo : (s.now c).todo = .setState x :: rest) (proc : (s.cpu c).proc = some p) :
    Sound o { s.put c (s.cpu c) { s.now c with todo := rest } with state := update s.state p x } := by
  obtain ⟨fit, follows, leaves, safe⟩ := h.code todo
  refine h.local (c := c) (fun d other => by simp [other]) (by simp) (fun x other => by simp [other])
    (fun _ _ _ same => same) (fun q other => ?_) (fun _ _ => rfl) ?_ ?_ (fun _ => ?_)
    (fun q _ => .inr (by simpa using leaves)) (fun q => by simp) (fun _ _ => by simp) (by simp [proc])
  · have differs : q ≠ p := by
      rintro rfl
      exact other proc
    simp [differs]
  · simp only [put_cpu_self, put_ctx_self]
    exact fit.advance todo safe (by simp [todo, leaving]) rfl rfl rfl rfl rfl (by simp)
  · simp only [put_ctx_self]
    exact h.frames _
  · have owes := h.owes c (by simp [Answers, proc])
    simp only [put_cpu_self, put_ctx_self]
    exact .plain follows rfl (by simp) fun deep => owes.kept deep (by simp [todo])

end

theorem Ctx.resting.depth (rests : k.resting) : k.depth = 1 := by
  obtain ⟨-, -, pushes, held⟩ := rests
  simp [Ctx.depth, pushes, held]

theorem Ctx.resting.fit (rests : k.resting) (ncli : cpu.ncli = 1) (enabled : cpu.enabled = false)
    (lock : locks .ptable = some c) : Fit locks c cpu k := by
  have depth := rests.depth
  obtain ⟨todo, -, -, held⟩ := rests
  refine ⟨by rw [ncli, depth]; rfl, fun _ => enabled, ?_, ?_, ?_, ?_, ?_, ?_⟩
  · simp [todo, Safe]
  · simp [todo]
  · simpa [held] using lock
  · simp [held]
  · simp [todo, leaving]
  · simp [todo]

theorem Sound.swtch (h : Sound o s) (todo : (s.now c).todo = .swtch :: rest) (proc : (s.cpu c).proc = some p) :
    Sound o (s.put c { s.cpu c with proc := none } { s.now c with todo := rest }) := by
  have fit := h.fit c
  have safe := fit.code todo
  obtain ⟨pushes, held, loads, safe⟩ := safe
  have one : (s.now c).depth = 1 := by simp [Ctx.depth, pushes, held]
  have off : (s.cpu c).enabled = false := fit.off (by omega)
  have who : s.who c = .thread p := who_thread proc
  obtain ⟨rests, chosen⟩ := h.resting c p proc
  generalize settled : s.put c { s.cpu c with proc := none } { s.now c with todo := rest } = t
  have here : t.cpu c = { s.cpu c with proc := none } := by simp [← settled]
  have cpus {d : Fin n} (other : d ≠ c) : t.cpu d = s.cpu d := by simp [← settled, other]
  have lock : t.lock = s.lock := by simp [← settled]
  have state : t.state = s.state := by simp [← settled]
  have mine : t.ctx (.thread p) = { s.now c with todo := rest } := by rw [← settled, ← who, put_ctx_self]
  have ctxs {x : Who n} (other : x ≠ .thread p) : t.ctx x = s.ctx x := by
    rw [← settled]
    exact put_ctx_ne _ _ _ _ (who ▸ other)
  have procs {d : Fin n} {q : Slot} (there : (t.cpu d).proc = some q) : d ≠ c ∧ q ≠ p ∧ (s.cpu d).proc = some q := by
    have other : d ≠ c := by
      rintro rfl
      simp [here] at there
    rw [cpus other] at there
    refine ⟨other, ?_, there⟩
    rintro rfl
    exact other (h.inj d c q there proc)
  have whos {d : Fin n} (other : d ≠ c) : t.who d = s.who d := by simp only [State.who, cpus other]
  have now : t.now c = s.ctx (.scheduler c) := by
    rw [State.now, who_scheduler (by simp [here])]
    exact ctxs (by simp)
  have nows {d : Fin n} (other : d ≠ c) : t.now d = s.now d := by
    rw [State.now, State.now, whos other]
    exact ctxs fun same => other (h.who_inj (same.trans who.symm))
  have away (d : Fin n) : (t.cpu d).proc ≠ some p := fun there => (procs there).2.1 rfl
  refine ⟨fun d => ?_, fun x => ?_, fun d answers => ?_, fun d e q there there' => ?_, fun d q there => ?_,
    fun q gone live => ?_, fun d q there => ?_, fun d q there picked => ?_⟩
  · by_cases same : d = c
    · subst same
      rw [now, here, lock]
      exact rests.fit (by rw [fit.ncli, one]; rfl) off (fit.holds _ (by simp [held]))
    · rw [cpus same, nows same, lock]
      exact h.fit d
  · by_cases same : x = .thread p
    · rw [same, mine]
      exact h.frames _
    · rw [ctxs same]
      exact h.frames x
  · by_cases same : d = c
    · subst same
      have none := (answers (by simp [here])).1
      simp [here, chosen] at none
    · rw [cpus same, nows same] at answers ⊢
      rw [whos same]
      exact h.owes d answers
  · exact h.inj d e q (procs there).2.2 (procs there').2.2
  · obtain ⟨other, -, there⟩ := procs there
    rw [nows other, state]
    exact h.busy d q there
  · by_cases same : q = p
    · subst same
      rw [mine]
      refine ⟨pushes, held, ?_, (fit.tail todo).1, .inr ⟨loads, ?_⟩⟩
      · rw [off, pushes, held] at safe
        exact safe
      · rw [← who]
        exact (h.owes c (by simp [Answers, proc])).saved (.inl (by simp [todo]))
    · rw [ctxs (by simpa using same)]
      refine h.parked q (fun d there => ?_) (state ▸ live)
      have other : d ≠ c := by
        rintro rfl
        exact same (Option.mem_unique there proc)
      exact gone d (by rwa [cpus other])
  · obtain ⟨other, -, there⟩ := procs there
    rw [ctxs (by simp), cpus other]
    exact h.resting d q there
  · by_cases same : d = c
    · subst same
      obtain rfl : q = p := by simpa [here, chosen, eq_comm] using picked
      obtain ⟨code, frames, -, locked⟩ := rests
      rw [now, mine]
      exact ⟨frames, by simp [locked], by simp [code], away, loads⟩
    rw [cpus same] at there picked
    obtain ⟨unframed, own, keeps, gone, parked⟩ := h.pass d q there picked
    have other : q ≠ p := by
      rintro rfl
      exact gone c proc
    rw [nows same, ctxs (by simpa using other)]
    exact ⟨unframed, own, keeps, fun e there => gone e (procs there).2.2, parked⟩

theorem Sound.go (h : Sound o s) (action : step s (c, .go) = some t) : Sound (note o (s, (c, .go))) t := by
  have fit := h.fit c
  simp only [step] at action
  cases todo : (s.now c).todo with
  | nil => simp [todo] at action
  | cons i =>
    simp only [todo] at action
    have safe := fit.code todo
    by_cases set : i = .cli
    · subst set
      exact Option.some.inj action ▸ h.cli todo
    rw [show note o (s, (c, .go)) = o by simp [note, todo, set]]
    cases i with
    | cli => exact absurd rfl set
    | readeflags =>
      exact Option.some.inj action ▸ h.quiet todo safe rfl (by simp) (fun _ => rfl) (by simp)
    | count =>
      obtain ⟨-, action⟩ := Option.ite_none_left_eq_some.mp action
      exact Option.some.inj action ▸ h.count todo
    | uncount =>
      obtain ⟨-, action⟩ := Option.ite_none_left_eq_some.mp action
      exact Option.some.inj action ▸ h.uncount todo
    | restore =>
      exact Option.some.inj action ▸ h.restore todo
    | test l =>
      exact Option.some.inj action ▸ h.quiet todo safe rfl (by simp) (by simp) (by simp)
    | panicIf =>
      obtain ⟨-, action⟩ := Option.ite_none_left_eq_some.mp action
      exact Option.some.inj action ▸ h.quiet todo safe rfl (by simp) (by simp) (by simp)
    | panicUnless =>
      obtain ⟨-, action⟩ := Option.ite_none_right_eq_some.mp action
      exact Option.some.inj action ▸ h.quiet todo safe rfl (by simp) (by simp) (by simp)
    | xchg l =>
      obtain ⟨free, action⟩ := Option.ite_none_right_eq_some.mp action
      exact Option.some.inj action ▸ h.xchg todo free
    | unlock l =>
      exact Option.some.inj action ▸ h.unlock todo
    | setState x =>
      obtain ⟨p, proc, rfl⟩ := Option.map_eq_some_iff.mp action
      exact h.setState todo proc
    | check =>
      obtain ⟨passes, action⟩ := Option.ite_none_right_eq_some.mp action
      have one : (s.now c).pushes + (s.now c).locks.length = 1 := by
        have ncli := fit.ncli
        rw [passes.1] at ncli
        exact_mod_cast ncli.symm
      exact Option.some.inj action ▸ h.quiet todo (safe one) rfl (by simp) (by simp) (by simp)
    | save =>
      exact Option.some.inj action ▸ h.quiet todo safe.2 rfl (by simp) (by simp) fun _ => ⟨rfl, safe.1⟩
    | swtch =>
      obtain ⟨p, proc, rfl⟩ := Option.map_eq_some_iff.mp action
      exact h.swtch todo proc
    | load =>
      exact Option.some.inj action ▸ h.load todo
    | sti =>
      exact Option.some.inj action ▸ h.sti todo

theorem Sound.running (h : Sound o s) (todo : (s.now c).todo = []) (proc : (s.cpu c).proc = some p) :
    s.state p = .running := (h.busy c p proc).resolve_right (by simp [todo, leaving])

theorem Sound.call {code : List Instr} (h : Sound o s) (todo : (s.now c).todo = [])
    (whole : Whole code) (safe : Safe (s.cpu c).enabled (s.now c).pushes (s.now c).locks code)
    (leaves : leaving code → .ptable ∈ (s.now c).locks)
    (keeps : (s.now c).free (s.who c) ∨ .unlock .ptable ∉ code) : Sound o (call s c code) := by
  have fit := h.fit c
  obtain ⟨chain, entry⟩ := whole
  refine h.put rfl ?_ (h.frames _) (fun answers => ?_)
    (fun p there => .inl (h.running todo there)) (.inl rfl) fun p there picked => ?_
  · exact ⟨fit.ncli, fit.off, safe, chain, fit.holds, fit.nodup,
      leaves, fun head => absurd (entry _ head) (by simp [Follows])⟩
  · have owes := h.owes c fun idle => by
      obtain ⟨unpicked, unframed, -⟩ := answers idle
      exact ⟨unpicked, unframed, by simp [todo]⟩
    refine ⟨fun head => ?_, fun deep _ => owes.kept deep (by simp [todo]), fun head => ?_, fun head => ?_⟩
    · exact absurd (entry _ head) (by simp [Follows])
    · exact absurd (entry _ head) (by simp [Follows])
    · rcases head with head | head <;> exact absurd (entry _ head) (by simp [Follows])
  · obtain ⟨unframed, mine, -⟩ := h.pass c p there picked
    refine ⟨unframed, mine, keeps.resolve_left ?_⟩
    simp [who_scheduler there, Ctx.free, unframed]

section Code
variable (i : Bool) (k : Nat) (ls : List Lock)

theorem safe_pushcli : Safe i k ls pushcli := by simp [pushcli, Safe]

theorem safe_popcli (some : 0 < k) : Safe false k ls popcli := by simp [popcli, Safe, some]

theorem safe_acquire : Safe i k ls (acquire l) := by simp [acquire, holding, pushcli, popcli, Safe]

theorem safe_release (held : l ∈ ls) : Safe i k ls (release l) := by
  simp [release, holding, pushcli, popcli, Safe, leaving, held, List.ne_nil_of_mem held]

theorem safe_sched (x : ProcState) (held : .ptable ∈ ls) : Safe i k ls (.setState x :: sched) := by
  have some : 0 < ls.length := List.length_pos_of_mem held
  have alone (one : k + ls.length = 1) : k = 0 ∧ ls = [.ptable] := by
    obtain ⟨m, rfl⟩ := List.length_eq_one_iff.mp (show ls.length = 1 by omega)
    obtain rfl : .ptable = m := by simpa using held
    exact ⟨by simpa using one, rfl⟩
  simpa [sched, myproc, holding, pushcli, popcli, Safe, leaving, some] using alone

theorem whole_pushcli : Whole pushcli := by simp [Whole, pushcli, Follows]

theorem whole_popcli : Whole popcli := by simp [Whole, popcli, Follows]

theorem whole_acquire : Whole (acquire l) := by simp [Whole, acquire, holding, pushcli, popcli, Follows]

theorem whole_release : Whole (release l) := by simp [Whole, release, holding, pushcli, popcli, Follows]

theorem whole_sched (x : ProcState) : Whole (.setState x :: sched) := by
  simp [Whole, sched, myproc, holding, pushcli, popcli, Follows]

end Code

theorem Sound.interrupt (h : Sound o s) (on : (s.cpu c).enabled) : Sound o (s.put c { s.cpu c with enabled := false }
      { s.now c with toLocal := {}, frames := (true, (s.now c).toLocal) :: (s.now c).frames }) := by
  have fit := h.fit c
  have none : (s.now c).depth = 0 := by
    by_contra some
    simp [fit.off (by omega)] at on
  have held : (s.now c).locks = [] := List.length_eq_zero_iff.mp (by unfold Ctx.depth at none; omega)
  have stays : leaving (s.now c).todo = false := by
    refine Bool.eq_false_iff.mpr fun goes => ?_
    simpa [held] using fit.leaves goes
  have frame : Framed (true, (s.now c).toLocal) := by
    have safe := fit.safe
    have pushes : (s.now c).pushes = 0 := by unfold Ctx.depth at none; omega
    rw [on, pushes, held] at safe
    exact ⟨safe, fit.chain, by simp, stays, fun head => (fit.read head).trans on⟩
  refine h.put rfl ?_ (List.forall_mem_cons.mpr ⟨frame, h.frames _⟩) (fun _ => ?_) (fun p there => .inl ?_) (.inl rfl)
    fun p there picked => ?_
  · exact ⟨fit.ncli, fun _ => rfl, trivial, .nil, fit.holds, fit.nodup, by simp [leaving], by simp⟩
  · refine ⟨by simp, fun deep => ?_, by simp, by simp⟩
    exact absurd none (Nat.pos_iff_ne_zero.mp deep)
  · exact (h.busy c p there).resolve_right (by simp [stays])
  · obtain ⟨-, mine, -⟩ := h.pass c p there picked
    simp [held] at mine

theorem Sound.syscall (h : Sound o s) (todo : (s.now c).todo = []) (proc : (s.cpu c).proc = some p)
    (pushes : (s.now c).pushes = 0) (held : (s.now c).locks = []) :
    Sound o (s.put c (s.cpu c)
      { s.now c with toLocal := {}, frames := ((s.cpu c).enabled, (s.now c).toLocal) :: (s.now c).frames }) := by
  have fit := h.fit c
  have frame : Framed ((s.cpu c).enabled, (s.now c).toLocal) := by
    refine ⟨?_, ?_, fun _ => todo, ?_, ?_⟩ <;> simp [todo, Safe, leaving]
  refine h.put rfl ?_ (List.forall_mem_cons.mpr ⟨frame, h.frames _⟩)
    (fun _ => ?_) (fun p there => .inl (h.running todo there))
    (.inl rfl) (by simp [proc])
  · exact ⟨fit.ncli, fit.off, trivial, .nil, fit.holds, fit.nodup, by simp [leaving], by simp⟩
  · refine ⟨by simp, fun deep => ?_, by simp, by simp⟩
    simp [Ctx.depth, pushes, held] at deep

theorem Framed.head (h : Framed f) (head : f.2.todo.head? = some i) :
    i ≠ .count ∧ i ≠ .restore ∧ i ≠ .swtch ∧ i ≠ .load := by
  cases code : f.2.todo with
  | nil => simp [code] at head
  | cons j =>
    obtain rfl : j = i := by simpa [code] using head
    have safe := h.safe
    rw [code] at safe
    have on : f.1 ≠ false := fun off => by simp [h.on off] at code
    refine ⟨?_, ?_, ?_, ?_⟩ <;> rintro rfl
    · exact on safe.1
    · exact on safe.1
    · simpa using safe.2.1
    · exact on safe.1

theorem Sound.iret {frames : List (Bool × Local)} (h : Sound o s) (todo : (s.now c).todo = [])
    (framed : (s.now c).frames = f :: frames) (pushes : (s.now c).pushes = 0) (held : (s.now c).locks = []) :
    Sound o (s.put c { s.cpu c with enabled := f.1 } { s.now c with toLocal := f.2, frames := frames }) := by
  have fit := h.fit c
  have all : ∀ f ∈ (s.now c).frames, Framed f := h.frames _
  rw [framed, List.forall_mem_cons] at all
  obtain ⟨frame, rest⟩ := all
  refine h.put rfl ?_ rest (fun _ => ?_)
    (fun p there => .inl (h.running todo there)) (.inl rfl) fun p there picked => ?_
  · refine ⟨fit.ncli, fun deep => ?_, ?_, frame.chain, fit.holds, fit.nodup, by simp [frame.stays], frame.read⟩
    · simp [Ctx.depth, pushes, held] at deep
    · rw [pushes, held]
      exact frame.safe
  · refine ⟨fun head => ?_, fun deep => ?_, fun head => ?_, fun head => ?_⟩
    · exact absurd rfl (frame.head head).1
    · simp [Ctx.depth, pushes, held] at deep
    · exact absurd rfl (frame.head head).2.1
    · rcases head with head | head
      · exact absurd rfl (frame.head head).2.2.1
      · exact absurd rfl (frame.head head).2.2.2
  · obtain ⟨unframed, -⟩ := h.pass c p there picked
    simp [framed] at unframed

theorem Sound.finish (h : Sound o s) (proc : (s.cpu c).proc = none) (rests : (s.now c).resting) :
    Sound o (s.put c { s.cpu c with chosen := none } { s.now c with todo := release .ptable ++ Ctx.loop.todo }) := by
  have fit := h.fit c
  have depth := rests.depth
  obtain ⟨-, -, pushes, held⟩ := rests
  refine h.put rfl ?_ (h.frames _) (fun answers => ?_) (by simp [proc]) (.inr ⟨proc, rfl⟩) (by simp)
  · refine ⟨fit.ncli, fit.off, ?_, ?_, fit.holds, fit.nodup, ?_, ?_⟩
    · simp [pushes, held, Ctx.loop, release, acquire, holding, pushcli, popcli, Safe, leaving]
    · simp [Ctx.loop, release, acquire, holding, pushcli, popcli, Follows]
    · simp [held]
    · simp [release, holding, pushcli]
  · simp [Answers, proc, Ctx.loop] at answers

theorem Sound.away (h : Sound o s) (held : .ptable ∈ (s.now c).locks) (todo : (s.now c).todo = [])
    (stopped : s.state q ≠ .running) : ∀ d, (s.cpu d).proc ≠ some q := by
  intro d there
  have goes := (h.busy d q there).resolve_left stopped
  have lock := (h.fit d).holds _ ((h.fit d).leaves goes)
  obtain rfl := Option.some.inj (lock.symm.trans ((h.fit c).holds _ held))
  simp [todo, leaving] at goes

theorem Sound.pass_same (h : Sound o s) (held : .ptable ∈ (s.now c).locks) (idle : (s.cpu d).proc = none)
    (picked : (s.cpu d).chosen = some p) : d = c := by
  have lock := (h.fit d).holds _ (h.pass d p idle picked).2.1
  exact Option.some.inj (lock.symm.trans ((h.fit c).holds _ held))

theorem Parked.depth (h : Parked k b) : k.depth = 1 := by simp [Ctx.depth, h.pushes, h.held]

theorem Parked.fit (h : Parked k b) (ncli : cpu.ncli = 1) (enabled : cpu.enabled = false)
    (lock : locks .ptable = some c) : Fit locks c cpu k := by
  refine ⟨by rw [ncli, h.depth]; rfl, fun _ => enabled, ?_, h.chain, ?_, ?_, fun _ => by simp [h.held], fun head => ?_⟩
  · rw [enabled, h.pushes, h.held]
    exact h.safe
  · simpa [h.held] using lock
  · simp [h.held]
  · rcases h.saved with rfl | ⟨loads, -⟩
    · simp [Ctx.forkret, release, holding, pushcli] at head
    · simp [head] at loads

theorem Sound.starts (h : Sound o s) (proc : (s.cpu c).proc = none) (rests : (s.now c).resting)
    (picked : (s.cpu c).chosen = none ∨ (s.cpu c).chosen = some p)
    (parked : Parked (s.ctx (.thread p)) (o (.thread p))) :
    Owes { s.cpu c with proc := some p, chosen := some p } (s.ctx (.thread p))
      (note o (s, (c, .dispatch p)) (.thread p)) := by
  rcases parked.saved with fresh | ⟨loads, saved⟩
  · have first : (s.cpu c).chosen = none := by
      refine picked.resolve_right fun again => ?_
      have loads := (h.pass c p proc again).2.2.2.2
      simp [fresh, Ctx.forkret, release, holding, pushcli] at loads
    have owes := h.owes c fun _ => ⟨first, rests.2.1, by simp [rests.1]⟩
    have kept : (s.cpu c).intena = o (.scheduler c) := by
      rw [← who_scheduler proc]
      exact owes.kept (by simp [rests.depth]) (by simp [rests.1])
    have now : note o (s, (c, .dispatch p)) (.thread p) = o (.scheduler c) := by simp [note, fresh, Ctx.forkret]
    rw [now, fresh]
    refine ⟨?_, fun _ _ => kept, ?_, ?_⟩ <;> simp [Ctx.forkret, release, holding, pushcli]
  · have now : note o (s, (c, .dispatch p)) = o := by
      have other : (s.ctx (.thread p)).todo ≠ release .ptable := by
        intro same
        simp [same, release, holding, pushcli] at loads
      simp [note, other]
    rw [now]
    exact ⟨by simp [loads], fun _ other => absurd loads other, by simp [loads], fun _ => saved⟩

theorem Sound.dispatch (h : Sound o s) (proc : (s.cpu c).proc = none) (rests : (s.now c).resting)
    (runnable : s.state p = .runnable) (picked : (s.cpu c).chosen = none ∨ (s.cpu c).chosen = some p) :
    Sound (note o (s, (c, .dispatch p))) { s with
      cpu := update s.cpu c { s.cpu c with proc := some p, chosen := some p }
      state := update s.state p .running } := by
  have fit := h.fit c
  have held : .ptable ∈ (s.now c).locks := by simp [rests.2.2.2]
  have lock := fit.holds _ held
  have gone := h.away held rests.1 (by simp [runnable] : s.state p ≠ .running)
  have parked := h.parked p gone (by simp [runnable])
  have off : (s.cpu c).enabled = false := fit.off (by simp [rests.depth])
  have starts := h.starts proc rests picked parked
  have notes {x : Who n} (other : x ≠ .thread p) : note o (s, (c, .dispatch p)) x = o x := by
    simp only [note]
    split_ifs
    · simp [other]
    · rfl
  generalize settled : ({ s with
      cpu := update s.cpu c { s.cpu c with proc := some p, chosen := some p }
      state := update s.state p .running } : State n) = t
  have here : t.cpu c = { s.cpu c with proc := some p, chosen := some p } := by simp [← settled]
  have cpus {d : Fin n} (other : d ≠ c) : t.cpu d = s.cpu d := by simp [← settled, other]
  have ctx : t.ctx = s.ctx := by simp [← settled]
  have locks : t.lock = s.lock := by simp [← settled]
  have states {q : Slot} (other : q ≠ p) : t.state q = s.state q := by simp [← settled, other]
  have procs {d : Fin n} {q : Slot} (there : (t.cpu d).proc = some q) : d = c ∧
    q = p ∨ d ≠ c ∧ q ≠ p ∧ (s.cpu d).proc = some q := by
    by_cases same : d = c
    · subst same
      exact .inl ⟨rfl, by simpa [here, eq_comm] using there⟩
    rw [cpus same] at there
    refine .inr ⟨same, ?_, there⟩
    rintro rfl
    exact gone d there
  have whos {d : Fin n} (other : d ≠ c) : t.who d = s.who d := by simp only [State.who, cpus other]
  have now : t.now c = s.ctx (.thread p) := by rw [State.now, who_thread (p := p) (by simp [here]), ctx]
  have nows {d : Fin n} (other : d ≠ c) : t.now d = s.now d := by rw [State.now, State.now, whos other, ctx]
  refine ⟨fun d => ?_, fun x => ctx ▸ h.frames x, fun d answers => ?_,
    fun d e q there there' => ?_, fun d q there => ?_,
    fun q away live => ?_, fun d q there => ?_, fun d q there chosen => ?_⟩
  · by_cases same : d = c
    · subst same
      rw [now, here, locks]
      exact parked.fit (by rw [fit.ncli, rests.depth]; rfl) off lock
    · rw [cpus same, nows same, locks]
      exact h.fit d
  · by_cases same : d = c
    · subst same
      rw [now, here, who_thread (p := p) (by simp [here])]
      exact starts
    · rw [cpus same, nows same] at answers ⊢
      rw [whos same, notes fun there => gone d (proc_of_who there)]
      exact h.owes d answers
  · rcases procs there with ⟨rfl, rfl⟩ | ⟨other, differs, there⟩ <;>
      rcases procs there' with ⟨rfl, same⟩ | ⟨other', differs', there'⟩
    · rfl
    · exact absurd rfl differs'
    · exact absurd same differs
    · exact h.inj d e q there there'
  · rcases procs there with ⟨rfl, rfl⟩ | ⟨other, differs, there⟩
    · exact .inl (by simp [← settled])
    · rw [nows other, states differs]
      exact h.busy d q there
  · have differs : q ≠ p := by
      rintro rfl
      exact away c (by simp [here])
    rw [ctx, notes (by simpa using differs)]
    refine h.parked q (fun d there => ?_) (states differs ▸ live)
    have other : d ≠ c := by
      rintro rfl
      simp [proc] at there
    exact away d (by rwa [cpus other])
  · rcases procs there with ⟨rfl, rfl⟩ | ⟨other, differs, there⟩
    · rw [ctx, here, ← who_scheduler proc]
      exact ⟨rests, rfl⟩
    · rw [ctx, cpus other]
      exact h.resting d q there
  · have other : d ≠ c := by
      rintro rfl
      simp [here] at there
    rw [cpus other] at there chosen
    exact absurd (h.pass_same held there chosen) other

theorem Sound.table (h : Sound o s) (todo : (s.now c).todo = []) (free : (s.now c).free (s.who c))
    (held : .ptable ∈ (s.now c).locks) (stopped : s.state q ≠ .running) (frames : ∀ f ∈ k.frames, Framed f)
    (parked : x ≠ .unused → Parked k (o (.thread q))) :
    Sound o { s with ctx := update s.ctx (.thread q) k, state := update s.state q x } := by
  have gone := h.away held todo stopped
  generalize settled : ({ s with
    ctx := update s.ctx (.thread q) k, state := update s.state q x } : State n) = t
  have cpu : t.cpu = s.cpu := by simp [← settled]
  have lock : t.lock = s.lock := by simp [← settled]
  have ctxs {y : Who n} (other : y ≠ .thread q) : t.ctx y = s.ctx y := by simp [← settled, other]
  have states {p : Slot} (other : p ≠ q) : t.state p = s.state p := by simp [← settled, other]
  have whos (d : Fin n) : t.who d = s.who d := by simp only [State.who, cpu]
  have nows (d : Fin n) : t.now d = s.now d := by
    rw [State.now, State.now, whos]
    exact ctxs fun same => gone d (proc_of_who same)
  refine ⟨fun d => ?_, fun y => ?_, fun d answers => ?_, cpu ▸ h.inj, fun d p there => ?_, fun p away live => ?_,
    fun d p there => ?_, fun d p there picked => ?_⟩
  · rw [nows, cpu, lock]
    exact h.fit d
  · by_cases same : y = .thread q
    · rw [same]
      simpa [← settled] using frames
    · rw [ctxs same]
      exact h.frames y
  · rw [nows, cpu] at answers ⊢
    rw [whos]
    exact h.owes d answers
  · rw [cpu] at there
    have other : p ≠ q := by
      rintro rfl
      exact gone d there
    rw [nows, states other]
    exact h.busy d p there
  · rw [cpu] at away
    by_cases same : p = q
    · subst same
      simp only [← settled, update_self] at live ⊢
      exact parked live
    · rw [ctxs (by simpa using same)]
      exact h.parked p away (states same ▸ live)
  · rw [cpu] at there ⊢
    rw [ctxs (by simp)]
    exact h.resting d p there
  · rw [cpu] at there picked
    obtain rfl := h.pass_same held there picked
    obtain ⟨unframed, -⟩ := h.pass d p there picked
    simp [who_scheduler there, Ctx.free, unframed] at free

theorem framed_user : Framed (true, {}) := by
  refine ⟨?_, ?_, ?_, ?_, ?_⟩ <;> simp [Safe, leaving]

theorem forkret_parked : Parked .forkret b := by
  refine ⟨rfl, rfl, ?_, ?_, .inl rfl⟩
  · exact safe_release false 0 [.ptable] (by simp)
  · exact whole_release.1

theorem Sound.begin (h : Sound o s) (todo : (s.now c).todo = [])
    (action : begin s c (s.who c) (s.now c) a = some t) : Sound (note o (s, (c, a))) t := by
  cases a with
  | pushcli =>
    exact Option.some.inj action ▸ h.call todo whole_pushcli (safe_pushcli _ _ _)
      (by simp [leaving, Spinlock.pushcli]) (.inr (by simp [Spinlock.pushcli]))
  | popcli =>
    obtain ⟨some, action⟩ := Option.ite_none_right_eq_some.mp action
    have off : (s.cpu c).enabled = false := (h.fit c).off (Nat.add_pos_left some _)
    refine Option.some.inj action ▸ h.call todo whole_popcli ?_
      (by simp [leaving, Spinlock.popcli]) (.inr (by simp [Spinlock.popcli]))
    rw [off]
    exact safe_popcli _ _ some
  | acquire l =>
    obtain ⟨free, action⟩ := Option.ite_none_right_eq_some.mp action
    refine Option.some.inj action ▸ h.call todo whole_acquire (safe_acquire _ _ _) ?_ (.inl free)
    simp [leaving, Spinlock.acquire, holding, Spinlock.pushcli, Spinlock.popcli]
  | release l =>
    obtain ⟨⟨free, held⟩, action⟩ := Option.ite_none_right_eq_some.mp action
    refine Option.some.inj action ▸ h.call todo whole_release (safe_release _ _ _ held) ?_ (.inl free)
    simp [leaving, Spinlock.release, holding, Spinlock.pushcli, Spinlock.popcli]
  | sched x =>
    cases who : s.who c with
    | scheduler d => simp [Spinlock.begin, who] at action
    | thread p =>
      simp only [Spinlock.begin, who] at action
      obtain ⟨held, action⟩ := Option.ite_none_right_eq_some.mp action
      refine Option.some.inj action ▸ h.call todo (whole_sched x) (safe_sched _ _ _ x held) (fun _ => held) (.inl ?_)
      simp [who, Ctx.free]
  | syscall =>
    cases who : s.who c with
    | scheduler d => simp [Spinlock.begin, who] at action
    | thread p =>
      simp only [Spinlock.begin, who] at action
      obtain ⟨⟨pushes, held⟩, action⟩ := Option.ite_none_right_eq_some.mp action
      exact Option.some.inj action ▸ h.syscall todo (proc_of_who who) pushes held
  | iret =>
    cases framed : (s.now c).frames with
    | nil => simp [Spinlock.begin, framed] at action
    | cons f =>
      simp only [Spinlock.begin, framed] at action
      obtain ⟨⟨pushes, held⟩, action⟩ := Option.ite_none_right_eq_some.mp action
      exact Option.some.inj action ▸ h.iret todo framed pushes held
  | dispatch p =>
    cases proc : (s.cpu c).proc with
    | some q => simp [Spinlock.begin, who_thread proc] at action
    | none =>
      simp only [Spinlock.begin, who_scheduler proc] at action
      obtain ⟨⟨rests, runnable, picked⟩, action⟩ := Option.ite_none_right_eq_some.mp action
      exact Option.some.inj action ▸ h.dispatch proc rests runnable picked
  | finish =>
    cases proc : (s.cpu c).proc with
    | some q => simp [Spinlock.begin, who_thread proc] at action
    | none =>
      simp only [Spinlock.begin, who_scheduler proc] at action
      obtain ⟨rests, action⟩ := Option.ite_none_right_eq_some.mp action
      exact Option.some.inj action ▸ h.finish proc rests
  | rouse q =>
    obtain ⟨⟨free, held, asleep⟩, action⟩ := Option.ite_none_right_eq_some.mp action
    have gone := h.away held todo (by simp [asleep] : s.state q ≠ .running)
    have same := h.table (x := .runnable) todo free held (by simp [asleep]) (h.frames (.thread q))
      fun _ => h.parked q gone (by simp [asleep])
    rw [update_eq_self] at same
    exact Option.some.inj action ▸ same
  | spawn q =>
    obtain ⟨⟨free, held, unused⟩, action⟩ := Option.ite_none_right_eq_some.mp action
    refine Option.some.inj action ▸ h.table todo free held (by simp [unused]) ?_ fun _ => forkret_parked
    simpa [Ctx.forkret] using framed_user
  | reap q =>
    obtain ⟨⟨free, held, zombie⟩, action⟩ := Option.ite_none_right_eq_some.mp action
    have same := h.table (q := q) (x := .unused) todo free held (by simp [zombie]) (h.frames (.thread q)) (by simp)
    rw [update_eq_self] at same
    exact Option.some.inj action ▸ same
  | go | interrupt => cases action

theorem Sound.step (h : Sound o s) (action : step s (c, a) = some t) : Sound (note o (s, (c, a))) t := by
  have begins (action : (if (s.now c).todo = [] then Spinlock.begin s c (s.who c) (s.now c) a else none) = some t) :
      Sound (note o (s, (c, a))) t := by
    obtain ⟨todo, action⟩ := Option.ite_none_right_eq_some.mp action
    exact h.begin todo action
  cases a with
  | go => exact h.go action
  | interrupt =>
    obtain ⟨on, action⟩ := Option.ite_none_right_eq_some.mp action
    exact Option.some.inj action ▸ h.interrupt on
  | _ => exact begins action

theorem Sound.start (live : Slot → Bool) : Sound (fun _ => false) (start live : State n) := by
  have now (c : Fin n) : (Spinlock.start live : State n).now c = .loop := rfl
  refine ⟨fun c => ?_, fun x => ?_, fun c answers => ?_, ?_, ?_, fun p _ _ => forkret_parked, ?_, ?_⟩
  · rw [now]
    refine ⟨rfl, fun _ => rfl, ?_, ?_, ?_, ?_, ?_, ?_⟩
    · exact ⟨rfl, rfl, safe_acquire _ _ _⟩
    · simp [Ctx.loop, acquire, holding, pushcli, popcli, Follows]
    all_goals simp [Ctx.loop, leaving, acquire, holding, pushcli, popcli]
  · cases x with
    | scheduler c => simp [Spinlock.start, Ctx.loop]
    | thread p => simpa [Spinlock.start, Ctx.forkret] using framed_user
  · have := (answers rfl).2.2
    simp [now, Ctx.loop] at this
  all_goals simp [Spinlock.start]

theorem sound {live : Slot → Bool} (run : exec Spinlock.step (start live) as = some s) :
    Sound (noted (trace Spinlock.step (start live) as)) s := by
  refine exec_induction (I := fun es s => Sound (noted es) s) (Sound.start live) (fun _ t a u h action => ?_) run
  rw [noted, List.foldl_concat]
  exact h.step action

/-- The outermost `popcli` of `p` has counted down and is about to restore the flag. -/
def Restores (s : State n) (c : Fin n) (p : Slot) : Prop :=
  s.who c = .thread p ∧ (s.now c).todo.head? = some .restore ∧ (s.now c).depth = 0

instance : Decidable (Restores s c p) := inferInstanceAs (Decidable (_ ∧ _))

theorem popcli_restores {live : Slot → Bool}
    (run : exec step (start live) as = some s) :
    (∀ c, 0 < (s.cpu c).ncli → (s.cpu c).enabled = false) ∧
      ∀ c p t, Restores s c p → step s (c, .go) = some t →
        (t.cpu c).enabled = noted (trace step (start live) as) (.thread p) := by
  have h := sound run
  refine ⟨fun c counts => ?_, fun c p t restores action => ?_⟩
  · have fit := h.fit c
    exact fit.off (by rw [fit.ncli] at counts; exact_mod_cast counts)
  obtain ⟨who, head, none⟩ := restores
  have fit := h.fit c
  obtain ⟨_, todo⟩ := List.head?_eq_some_iff.mp head
  have off : (s.cpu c).enabled = false := by
    have safe := fit.safe
    rw [todo] at safe
    exact safe.1
  have intena := (h.owes c (by simp [Answers, proc_of_who who])).restores head
  simp only [step, todo, State.instr, Option.some.injEq] at action
  simp [← action, off, fit.ncli, none, intena, who]

def first : List (Fin 1 × Action) := List.replicate 12 (0, .go) ++ (0, .dispatch 0) :: List.replicate 9 (0, .go)

theorem popcli_restores_first : ∃ s t : State 1, exec step (start fun _ => true) first = some s ∧ Restores s 0 0 ∧
    step s (0, .go) = some t ∧ (t.cpu 0).enabled = true ∧
      (t.cpu 0).enabled = noted (trace step (start fun _ => true) first) (.thread 0) := by
  obtain ⟨s, run, restores, t, action, enabled⟩ : ∃ s : State 1, exec step (start fun _ => true) first = some s ∧
      Restores s 0 0 ∧ ∃ t, step s (0, .go) = some t ∧ (t.cpu 0).enabled = true := by
    decide +kernel
  exact ⟨s, t, run, restores, action, enabled, (popcli_restores run).2 0 0 t restores action⟩

theorem locks_exclusive {live : Slot → Bool} (run : exec step (start live) as = some s) :
    (∀ c d l, l ∈ (s.now c).locks → l ∈ (s.now d).locks → c = d ∧ (s.cpu c).enabled = false) ∧
      (∀ p, s.state p ≠ .unused → (∀ c, (s.cpu c).proc ≠ some p) → (s.ctx (.thread p)).locks = [.ptable]) ∧
      ∀ c, (s.now c).todo.head? = some .uncount → (step s (c, .go)).isSome := by
  have h := sound run
  refine ⟨fun c d l mine theirs => ⟨?_, (h.fit c).off ?_⟩,
    fun p used away => (h.parked p away used).held, fun c head => ?_⟩
  · exact Option.some.inj (((h.fit c).holds l mine).symm.trans ((h.fit d).holds l theirs))
  · exact Nat.add_pos_right _ (List.length_pos_of_mem mine)
  · obtain ⟨rest, todo⟩ := List.head?_eq_some_iff.mp head
    have fit := h.fit c
    have safe := fit.safe
    rw [todo] at safe
    have counted : 0 < (s.now c).depth := Nat.add_pos_left safe.1 _
    have counts : ¬ (s.cpu c).ncli - 1 < 0 := by have ncli := fit.ncli; omega
    simp [step, todo, State.instr, fit.off counted, counts]

theorem locks_exclusive_first : ∃ s : State 1, exec step (start fun _ => true) first = some s ∧
    s.state 1 ≠ .unused ∧ (s.ctx (.thread 1)).locks = [.ptable] := by
  obtain ⟨s, run, used, away⟩ : ∃ s : State 1, exec step (start fun _ => true) first = some s ∧
      s.state 1 ≠ .unused ∧ ∀ c, (s.cpu c).proc ≠ some 1 := by
    decide +kernel
  exact ⟨s, run, used, (locks_exclusive run).2.1 1 used away⟩

end Xv6.Spinlock
