import Xv6.Library.Window

/-!
# Pipes

One pipe and any number of processes that have its ends open. A process in `piperead`, `pipewrite` or `pipeclose` does
one thing at a time: takes or gives back `p->lock`, tests, copies a byte, calls `wakeup` or goes to sleep. `kill` comes
at any time, also while another process has the lock.
-/

namespace Xv6.Pipes
open Xv6.Library

abbrev Byte := UInt8

def PIPESIZE : Nat := 512

instance : NeZero PIPESIZE := ⟨by decide⟩

structure Pipe where
  data : Fin PIPESIZE → Byte
  nread : UInt32
  nwrite : UInt32
  readopen : Bool
  writeopen : Bool

inductive Pc where
  | idle
  -- pipewrite(), with the bytes still to be written
  | writeAcquire (src : List Byte)
  | writeLoop (src : List Byte)
  | writeFull (src : List Byte)
  | writeWakeup (src : List Byte)
  | writeSleep (src : List Byte)
  | writeAsleep (src : List Byte)
  | writeWoken (src : List Byte)
  | writeEnd
  | writeRelease (ok : Bool)
  -- piperead() of at most n bytes
  | readAcquire (n : Nat)
  | readTest (n : Nat)
  | readEmpty (n : Nat)
  | readSleep (n : Nat)
  | readAsleep (n : Nat)
  | readWoken (n : Nat)
  | readCopy (n : Nat) (dst : List Byte)
  | readEnd (dst : List Byte)
  -- with the bytes that are returned, or none for -1
  | readRelease (dst : Option (List Byte))
  -- pipeclose()
  | closeAcquire (writable : Bool)
  | closeEnd (writable : Bool)
  | closeWakeup (writable : Bool)
  | closeRelease
  deriving DecidableEq

structure Proc where
  pc : Pc
  killed : Bool
  -- has the read end or the write end open
  reads : Bool
  writes : Bool
  deriving DecidableEq

structure State (n : Nat) where
  pipe : Pipe
  lock : Option (Fin n)
  proc : Fin n → Proc

inductive Action (n : Nat) where
  | write (t : Fin n) (src : List Byte)
  | read (t : Fin n) (n : Nat)
  | close (t : Fin n) (writable : Bool)
  | fork (t np : Fin n)
  | kill (t : Fin n)
  | go (t : Fin n)

variable {n : Nat}

def Pipe.empty (p : Pipe) : Prop := p.nread = p.nwrite

def Pipe.full (p : Pipe) : Prop := p.nwrite = p.nread + UInt32.ofNat PIPESIZE

instance (p : Pipe) : Decidable p.empty := inferInstanceAs (Decidable (_ = _))

instance (p : Pipe) : Decidable p.full := inferInstanceAs (Decidable (_ = _))

def Pipe.put (p : Pipe) (b : Byte) : Pipe :=
  { p with data := Function.update p.data (slot PIPESIZE p.nwrite) b, nwrite := p.nwrite + 1 }

def Pipe.next (p : Pipe) : Byte := p.data (slot PIPESIZE p.nread)

def Pipe.get (p : Pipe) : Pipe := { p with nread := p.nread + 1 }

def Pipe.shut (p : Pipe) (writable : Bool) : Pipe :=
  if writable then { p with writeopen := false } else { p with readopen := false }

def Pc.wakeRead : Pc → Pc
  | .readAsleep n => .readWoken n
  | pc => pc

def Pc.wakeWrite : Pc → Pc
  | .writeAsleep src => .writeWoken src
  | pc => pc

def wakeup (wake : Pc → Pc) (proc : Fin n → Proc) : Fin n → Proc := fun r => { proc r with pc := wake (proc r).pc }

namespace State

def setProc (s : State n) (t : Fin n) (p : Proc) : State n := { s with proc := Function.update s.proc t p }

def goto (s : State n) (t : Fin n) (pc : Pc) : State n := s.setProc t { s.proc t with pc := pc }

def acquire (s : State n) (t : Fin n) (pc : Pc) : Option (State n) :=
  if s.lock = none then some { s.goto t pc with lock := some t } else none

def release (s : State n) (t : Fin n) (pc : Pc) : State n := { s.goto t pc with lock := none }

end State

def go (s : State n) (t : Fin n) : Option (State n) :=
  match (s.proc t).pc with
  | .idle | .writeAsleep _ | .readAsleep _ => none
  | .writeAcquire src | .writeWoken src => s.acquire t (.writeLoop src)
  | .writeLoop [] => some (s.goto t .writeEnd)
  | .writeLoop (b :: src) =>
    if s.pipe.full then some (s.goto t (.writeFull (b :: src)))
    else some { s.goto t (.writeLoop src) with pipe := s.pipe.put b }
  | .writeFull src =>
    if s.pipe.readopen = false ∨ (s.proc t).killed = true then some (s.goto t (.writeRelease false))
    else some (s.goto t (.writeWakeup src))
  | .writeWakeup src => some ({ s with proc := wakeup Pc.wakeRead s.proc }.goto t (.writeSleep src))
  | .writeSleep src => some (s.release t (.writeAsleep src))
  | .writeEnd => some ({ s with proc := wakeup Pc.wakeRead s.proc }.goto t (.writeRelease true))
  | .writeRelease _ => some (s.release t .idle)
  | .readAcquire n | .readWoken n => s.acquire t (.readTest n)
  | .readTest n =>
    if s.pipe.empty ∧ s.pipe.writeopen = true then some (s.goto t (.readEmpty n)) else some (s.goto t (.readCopy n []))
  | .readEmpty n =>
    if (s.proc t).killed = true then some (s.goto t (.readRelease none)) else some (s.goto t (.readSleep n))
  | .readSleep n => some (s.release t (.readAsleep n))
  | .readCopy 0 dst => some (s.goto t (.readEnd dst))
  | .readCopy (n + 1) dst =>
    if s.pipe.empty then some (s.goto t (.readEnd dst))
    else some { s.goto t (.readCopy n (dst ++ [s.pipe.next])) with pipe := s.pipe.get }
  | .readEnd dst => some ({ s with proc := wakeup Pc.wakeWrite s.proc }.goto t (.readRelease (some dst)))
  | .readRelease _ => some (s.release t .idle)
  | .closeAcquire writable => s.acquire t (.closeEnd writable)
  | .closeEnd writable => some { s.goto t (.closeWakeup writable) with pipe := s.pipe.shut writable }
  | .closeWakeup writable =>
    some ({ s with proc := wakeup (if writable then Pc.wakeRead else Pc.wakeWrite) s.proc }.goto t .closeRelease)
  | .closeRelease => some (s.release t .idle)

def Proc.has (p : Proc) (writable : Bool) : Bool := if writable then p.writes else p.reads

def Proc.closed (p : Proc) (writable : Bool) : Proc :=
  if writable then { p with writes := false } else { p with reads := false }

def step (s : State n) : Action n → Option (State n)
  | .write t src =>
    if (s.proc t).pc = .idle ∧ (s.proc t).writes = true then some (s.goto t (.writeAcquire src)) else none
  | .read t k => if (s.proc t).pc = .idle ∧ (s.proc t).reads = true then some (s.goto t (.readAcquire k)) else none
  | .close t writable =>
    if (s.proc t).pc = .idle ∧ (s.proc t).has writable = true then
      -- fileclose() calls pipeclose() for the last descriptor of that end
      let pc := if ∀ r, r ≠ t → (s.proc r).has writable = false then .closeAcquire writable else .idle
      some (s.setProc t { (s.proc t).closed writable with pc := pc })
    else none
  | .fork t np =>
    if (s.proc t).pc = .idle ∧ (s.proc np).pc = .idle ∧ (s.proc np).reads = false ∧ (s.proc np).writes = false then
      some (s.setProc np { s.proc t with killed := false })
    else none
  | .kill t => some (s.setProc t { s.proc t with killed := true, pc := (s.proc t).pc.wakeRead.wakeWrite })
  | .go t => go s t

/-- A new pipe, with both ends open in one process. The counters may start anywhere. -/
def pipealloc (creator : Fin n) (data : Fin PIPESIZE → Byte) (counter : UInt32) : State n where
  pipe := ⟨data, counter, counter, true, true⟩
  lock := none
  proc := fun t => ⟨.idle, false, t = creator, t = creator⟩

end Xv6.Pipes
