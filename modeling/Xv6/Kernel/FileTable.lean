import Xv6.Kernel.Param

/-!
# The file table

`open`, `dup`, `pipe`, `close`, `fork` and `exit`, as far as they touch `ftable`, the descriptors of the processes and
the pipes. A step does what the code does between two places where other processes can come in: under `ftable.lock`,
under the lock of a pipe, or on data that no other process can see.
-/

namespace Xv6.FileTable

instance : NeZero NFILE := ⟨by decide⟩
instance : NeZero NOFILE := ⟨by decide⟩

abbrev File := Fin NFILE
abbrev Fd := Fin NOFILE
abbrev Page := Nat

inductive FdType where
  | none
  | pipe
  | inode
  deriving DecidableEq

structure Entry where
  type : FdType
  ref : Nat
  readable : Bool
  writable : Bool
  pipe : Page
  deriving DecidableEq

/-- A page, if it has been allocated for a pipe. -/
structure Pipe where
  allocated : Bool
  readopen : Bool
  writeopen : Bool
  deriving DecidableEq

inductive Then where
  | ret
  -- in sys_pipe() and pipealloc(): the second fileclose()
  | close (f : File)
  -- in exit(): ofile[fd] = 0, and the descriptors that follow
  | clear (fd : Fd) (f : File) (fds : List Fd)
  deriving DecidableEq

inductive Pc (n : Nat) where
  | out
  | openAlloc (readable writable : Bool)
  | openFd (f : File) (readable writable : Bool)
  | openInit (f : File) (readable writable : Bool)
  | dup (f : File)
  | close (f : File) (k : Then)
  | pipeclose (p : Page) (writable : Bool) (k : Then)
  | kfree (p : Page) (k : Then)
  | pipeFirst
  | pipeSecond (f₀ : File)
  | pipePage (f₀ f₁ : File)
  | pipeFd (rf wf : File)
  | pipeFd₁ (rf wf : File) (fd₀ : Fd)
  | fork (np : Fin n) (fds : List Fd)
  | exit (fds : List Fd)
  deriving DecidableEq

inductive Procstate where
  | unused
  | embryo
  | live
  | zombie
  deriving DecidableEq

structure Proc (n : Nat) where
  state : Procstate
  ofile : Fd → Option File
  pc : Pc n

structure State (n : Nat) where
  file : File → Entry
  pipe : Page → Pipe
  proc : Fin n → Proc n

/-- The system calls. A call that fails before it gets a file, a page or a process does nothing here. -/
inductive Action (n : Nat) where
  | open (readable writable : Bool)
  | dup (fd : Fd)
  | close (fd : Fd)
  | pipe
  -- `allocproc` has found a slot, and `copyuvm` enough memory
  | fork (np : Fin n)
  | exit
  | wait (child : Fin n)
  -- the next step, with what `kalloc` returns
  | go (page : Option Page)

inductive Panic where
  | filedup
  | fileclose
  deriving DecidableEq

variable {n : Nat}

namespace State

def setFile (s : State n) (f : File) (x : Entry) : State n := { s with file := Function.update s.file f x }

def setPipe (s : State n) (p : Page) (x : Pipe) : State n := { s with pipe := Function.update s.pipe p x }

def setProc (s : State n) (t : Fin n) (x : Proc n) : State n := { s with proc := Function.update s.proc t x }

def goto (s : State n) (t : Fin n) (pc : Pc n) : State n := s.setProc t { s.proc t with pc }

def setFd (s : State n) (t : Fin n) (fd : Fd) (f : Option File) : State n :=
  s.setProc t { s.proc t with ofile := Function.update (s.proc t).ofile fd f }

def filealloc (s : State n) : Option File := (List.finRange NFILE).find? fun f => (s.file f).ref = 0

def fdalloc (s : State n) (t : Fin n) : Option Fd :=
  (List.finRange NOFILE).find? fun fd => (s.proc t).ofile fd = none

def addRef (s : State n) (f : File) : State n := s.setFile f { s.file f with ref := (s.file f).ref + 1 }

def ret (s : State n) (t : Fin n) : Then → State n
  | .ret => s.goto t .out
  | .close f => s.goto t (.close f .ret)
  | .clear fd _ fds => (s.setFd t fd none).goto t (.exit fds)

def fileclose (s : State n) (t : Fin n) (f : File) (k : Then) : State n :=
  let x := s.file f
  if x.ref - 1 > 0 then (s.setFile f { x with ref := x.ref - 1 }).ret t k
  else
    let s := s.setFile f { x with ref := 0, type := .none }
    if x.type = .pipe then s.goto t (.pipeclose x.pipe x.writable k) else s.ret t k

def pipeclose (s : State n) (t : Fin n) (p : Page) (writable : Bool) (k : Then) : State n :=
  let x := if writable then { s.pipe p with writeopen := false } else { s.pipe p with readopen := false }
  let s := s.setPipe p x
  if x.readopen = false ∧ x.writeopen = false then s.goto t (.kfree p k) else s.ret t k

/-- `pipealloc` from its `kalloc` on. -/
def pipealloc (s : State n) (t : Fin n) (f₀ f₁ : File) : Option Page → Option (State n)
  | none => some (s.goto t (.close f₀ (.close f₁)))
  | some p =>
    if (s.pipe p).allocated then none
    else
      let s := s.setPipe p ⟨true, true, true⟩
      let s := s.setFile f₀ { s.file f₀ with type := .pipe, readable := true, writable := false, pipe := p }
      let s := s.setFile f₁ { s.file f₁ with type := .pipe, readable := false, writable := true, pipe := p }
      some (s.goto t (.pipeFd f₀ f₁))

def panic (s : State n) (t : Fin n) : Option Panic :=
  match (s.proc t).pc with
  | .dup f => if (s.file f).ref < 1 then some .filedup else none
  | .fork _ (fd :: _) =>
    match (s.proc t).ofile fd with
    | some f => if (s.file f).ref < 1 then some .filedup else none
    | none => none
  | .close f _ => if (s.file f).ref < 1 then some .fileclose else none
  | .out | .openAlloc .. | .openFd .. | .openInit .. | .pipeclose .. | .kfree .. | .pipeFirst | .pipeSecond _
  | .pipePage .. | .pipeFd .. | .pipeFd₁ .. | .fork _ [] | .exit _ => none

def go (s : State n) (t : Fin n) (page : Option Page) : Option (State n) :=
  match (s.proc t).pc with
  | .out => none
  | .openAlloc r w =>
    match s.filealloc with
    | none => some (s.goto t .out)
    | some f => some ((s.setFile f { s.file f with ref := 1 }).goto t (.openFd f r w))
  | .openFd f r w =>
    match s.fdalloc t with
    | none => some (s.goto t (.close f .ret))
    | some fd => some ((s.setFd t fd (some f)).goto t (.openInit f r w))
  | .openInit f r w =>
    some ((s.setFile f { s.file f with type := .inode, readable := r, writable := w }).goto t .out)
  | .dup f => some ((s.addRef f).goto t .out)
  | .close f k => some (s.fileclose t f k)
  | .pipeclose p w k => some (s.pipeclose t p w k)
  | .kfree p k => some ((s.setPipe p { s.pipe p with allocated := false }).ret t k)
  | .pipeFirst =>
    match s.filealloc with
    | none => some (s.goto t .out)
    | some f => some ((s.setFile f { s.file f with ref := 1 }).goto t (.pipeSecond f))
  | .pipeSecond f₀ =>
    match s.filealloc with
    | none => some (s.goto t (.close f₀ .ret))
    | some f => some ((s.setFile f { s.file f with ref := 1 }).goto t (.pipePage f₀ f))
  | .pipePage f₀ f₁ => s.pipealloc t f₀ f₁ page
  | .pipeFd rf wf =>
    match s.fdalloc t with
    | none => some (s.goto t (.close rf (.close wf)))
    | some fd => some ((s.setFd t fd (some rf)).goto t (.pipeFd₁ rf wf fd))
  | .pipeFd₁ rf wf fd₀ =>
    match s.fdalloc t with
    | none => some ((s.setFd t fd₀ none).goto t (.close rf (.close wf)))
    | some fd => some ((s.setFd t fd (some wf)).goto t .out)
  | .fork np [] => some ((s.setProc np { s.proc np with state := .live }).goto t .out)
  | .fork np (fd :: fds) =>
    match (s.proc t).ofile fd with
    | none => some (s.goto t (.fork np fds))
    | some f => some (((s.addRef f).setFd np fd (some f)).goto t (.fork np fds))
  | .exit [] => some (s.setProc t { s.proc t with state := .zombie, pc := .out })
  | .exit (fd :: fds) =>
    match (s.proc t).ofile fd with
    | none => some (s.goto t (.exit fds))
    | some f => some (s.goto t (.close f (.clear fd f fds)))

def call (s : State n) (t : Fin n) : Action n → Option (State n)
  | .open r w => some (s.goto t (.openAlloc r w))
  | .dup fd =>
    match (s.proc t).ofile fd with
    | none => some s
    | some f =>
      match s.fdalloc t with
      | none => some s
      | some fd => some ((s.setFd t fd (some f)).goto t (.dup f))
  | .close fd =>
    match (s.proc t).ofile fd with
    | none => some s
    | some f => some ((s.setFd t fd none).goto t (.close f .ret))
  | .pipe => some (s.goto t .pipeFirst)
  | .fork np =>
    if (s.proc np).state = .unused then
      some ((s.setProc np { s.proc np with state := .embryo }).goto t (.fork np (List.finRange NOFILE)))
    else none
  | .exit => some (s.goto t (.exit (List.finRange NOFILE)))
  | .wait child =>
    if (s.proc child).state = .zombie then some (s.setProc child { s.proc child with state := .unused }) else none
  | .go _ => none

end State

def step (s : State n) (e : Fin n × Action n) : Option (State n) :=
  if (s.proc e.1).state = .live ∧ s.panic e.1 = none then
    match e.2 with
    | .go page => s.go e.1 page
    | a => if (s.proc e.1).pc = .out then s.call e.1 a else none
  else none

def start (first : Fin n) : State n where
  file := fun _ => ⟨.none, 0, false, false, 0⟩
  pipe := fun _ => ⟨false, false, false⟩
  proc := fun t => ⟨if t = first then .live else .unused, fun _ => none, .out⟩

end Xv6.FileTable
