import Xv6.Kernel.Log
import Xv6.Library.Links

/-!
# The buffer cache

The functions of bio.c on `bcache` and the disk of memide.c. What a function does under `bcache.lock`, or as the holder
of a buffer's sleep lock, is one function here; `none` is a panic, or for `acquiresleep` that the lock is taken.
-/

namespace Xv6.Bio
open Xv6.Library
open Xv6.Log (Word Block)

instance : NeZero NBUF := ⟨by decide⟩

structure Buf (n : Nat) where
  -- `flags`
  valid : Bool
  dirty : Bool
  dev : Word
  blockno : Word
  -- the process that has `lock`
  lock : Option (Fin n)
  refcnt : Nat
  data : Block

structure Cache (n : Nat) where
  links : Links (Fin NBUF)
  buf : Fin NBUF → Buf n
  disk : Word → Block

variable {n : Nat}

namespace Cache

def set (c : Cache n) (b : Fin NBUF) (x : Buf n) : Cache n := { c with buf := Function.update c.buf b x }

def binit (disk : Word → Block) : Cache n where
  links := (List.finRange NBUF).foldl Links.push ⟨fun _ => none, fun _ => none⟩
  buf := fun _ => ⟨false, false, 0, 0, none, 0, fun _ => 0⟩
  disk := disk

def holds (c : Cache n) (dev blockno : Word) (b : Fin NBUF) : Bool := (c.buf b).dev = dev ∧ (c.buf b).blockno = blockno

def unused (c : Cache n) (b : Fin NBUF) : Bool := (c.buf b).refcnt = 0 ∧ (c.buf b).dirty = false

def bget (c : Cache n) (dev blockno : Word) : Option (Fin NBUF × Cache n) := do
  match ← Links.scan c.links.next (c.holds dev blockno) NBUF (c.links.next none) with
  | some b => some (b, c.set b { c.buf b with refcnt := (c.buf b).refcnt + 1 })
  | none =>
    match ← Links.scan c.links.prev c.unused NBUF (c.links.prev none) with
    | some b => some (b, c.set b { c.buf b with dev, blockno, valid := false, dirty := false, refcnt := 1 })
    | none => none

def acquiresleep (c : Cache n) (t : Fin n) (b : Fin NBUF) : Option (Cache n) :=
  if (c.buf b).lock = none then some (c.set b { c.buf b with lock := some t }) else none

def holdingsleep (c : Cache n) (t : Fin n) (b : Fin NBUF) : Bool := (c.buf b).lock = some t

def iderw (disksize : Nat) (c : Cache n) (t : Fin n) (b : Fin NBUF) : Option (Cache n) :=
  let x := c.buf b
  if c.holdingsleep t b = false then none
  else if x.valid = true ∧ x.dirty = false then none
  else if x.dev ≠ 1 then none
  else if x.blockno.toNat ≥ disksize then none
  else if x.dirty then
    some { c.set b { x with dirty := false, valid := true } with disk := Function.update c.disk x.blockno x.data }
  else some (c.set b { x with data := c.disk x.blockno, valid := true })

def bread (disksize : Nat) (c : Cache n) (t : Fin n) (b : Fin NBUF) : Option (Cache n) :=
  if (c.buf b).valid = false then c.iderw disksize t b else some c

def bwrite (disksize : Nat) (c : Cache n) (t : Fin n) (b : Fin NBUF) : Option (Cache n) :=
  if c.holdingsleep t b = false then none
  else (c.set b { c.buf b with dirty := true }).iderw disksize t b

def brelse (c : Cache n) (t : Fin n) (b : Fin NBUF) : Option (Cache n) :=
  if c.holdingsleep t b = false then none else some (c.set b { c.buf b with lock := none })

def drop (c : Cache n) (b : Fin NBUF) : Cache n :=
  let c := c.set b { c.buf b with refcnt := (c.buf b).refcnt - 1 }
  if (c.buf b).refcnt = 0 then { c with links := (c.links.unlink b).push b } else c

/-- What `log_write` does to the buffer. -/
def pin (c : Cache n) (b : Fin NBUF) : Cache n := c.set b { c.buf b with dirty := true }

end Cache

inductive Pc where
  | out
  -- in bget(), before acquiresleep(&b->lock) returns
  | waiting (b : Fin NBUF)
  -- in bread(), before it looks at B_VALID
  | reading (b : Fin NBUF)
  -- in brelse(), between releasesleep() and acquire(&bcache.lock)
  | leaving (b : Fin NBUF)
  deriving DecidableEq

structure State (n : Nat) where
  cache : Cache n
  pc : Fin n → Pc

inductive Action where
  | bread (dev blockno : Word)
  | store (b : Fin NBUF) (data : Block)
  | logWrite (b : Fin NBUF)
  | bwrite (b : Fin NBUF)
  | brelse (b : Fin NBUF)
  | go

namespace State

def goto (s : State n) (t : Fin n) (pc : Pc) (cache : Cache n) : State n := ⟨cache, Function.update s.pc t pc⟩

def go (disksize : Nat) (s : State n) (t : Fin n) : Option (State n) :=
  match s.pc t with
  | .out => none
  | .waiting b => (s.cache.acquiresleep t b).map (s.goto t (.reading b))
  | .reading b => (s.cache.bread disksize t b).map (s.goto t .out)
  | .leaving b => some (s.goto t .out (s.cache.drop b))

/-- What a process does that is not in a call: it changes and logs only buffers that it holds. -/
def call (disksize : Nat) (s : State n) (t : Fin n) : Action → Option (State n)
  | .bread dev blockno => (s.cache.bget dev blockno).map fun (b, cache) => s.goto t (.waiting b) cache
  | .store b data =>
    if s.cache.holdingsleep t b then some { s with cache := s.cache.set b { s.cache.buf b with data } } else none
  | .logWrite b => if s.cache.holdingsleep t b then some { s with cache := s.cache.pin b } else none
  | .bwrite b => (s.cache.bwrite disksize t b).map fun cache => { s with cache }
  | .brelse b => (s.cache.brelse t b).map (s.goto t (.leaving b))
  | .go => none

end State

def step (disksize : Nat) (s : State n) (e : Fin n × Action) : Option (State n) :=
  match s.pc e.1, e.2 with
  | .out, a => s.call disksize e.1 a
  | _, .go => s.go disksize e.1
  | _, _ => none

def start (disk : Word → Block) : State n := ⟨.binit disk, fun _ => .out⟩

end Xv6.Bio
