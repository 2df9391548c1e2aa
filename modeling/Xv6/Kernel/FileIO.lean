import Xv6.Kernel.Log

/-!
# Reading and writing through one `struct file`

Any number of processes share the file, as they do after `fork` or `dup`. A step of `fileread` or `filewrite` takes or
gives back the lock of the inode, copies one block in the loop of `readi` or `writei`, or adds to `f->off`.
-/

namespace Xv6.FileIO

abbrev Byte := BitVec 8

def maxChunk : Nat := ((MAXOPBLOCKS - 1 - 1 - 2) / 2) * 512

inductive Pc where
  | out
  -- fileread(): before ilock(), in the loop of readi(), after it returned r, before iunlock()
  | readLock (n : Nat)
  | readLoop (off n : Nat) (dst : List Byte)
  | readRet (off : Nat) (r : Int) (dst : List Byte)
  | readUnlock (r : Int)
  -- filewrite(), at addr + i
  | writeLock (src : List Byte) (i : Nat)
  | writeLoop (src : List Byte) (i off n tot : Nat)
  | writeRet (src : List Byte) (i off n : Nat) (r : Int)
  | writeUnlock (src : List Byte) (i n : Nat) (r : Int)
  deriving DecidableEq

structure State (n : Nat) where
  off : Nat
  readable : Bool
  writable : Bool
  -- the inode, of type T_FILE
  size : Nat
  data : Nat → Byte
  lock : Option (Fin n)
  pc : Fin n → Pc

inductive Action where
  | read (n : Nat)
  | write (src : List Byte)
  | go

variable {n : Nat}

namespace State

def goto (s : State n) (t : Fin n) (pc : Pc) : State n := { s with pc := Function.update s.pc t pc }

/-- `ip->size` and the sum of `off` and `n` are unsigned ints. -/
def wraps (off n : Nat) : Prop := (off + n) % 2 ^ 32 < off

instance (off n : Nat) : Decidable (wraps off n) := inferInstanceAs (Decidable (_ < _))

def span (off n tot : Nat) : Nat := min (n - tot) (BSIZE - (off + tot) % BSIZE)

def readi (s : State n) (n : Nat) : Pc :=
  if s.off > s.size ∨ wraps s.off n then .readRet s.off (-1) []
  else .readLoop s.off (if s.off + n > s.size then s.size - s.off else n) []

def writei (s : State n) (src : List Byte) (i n : Nat) : Pc :=
  if s.off > s.size ∨ wraps s.off n then .writeRet src i s.off n (-1)
  else if s.off + n > MAXFILE * BSIZE then .writeRet src i s.off n (-1)
  else .writeLoop src i s.off n 0

def copy (data : Nat → Byte) (off m : Nat) : List Byte := (List.range m).map fun j => data (off + j)

def paste (data : Nat → Byte) (off m : Nat) (src : List Byte) (i : Nat) : Nat → Byte := fun k =>
  if off ≤ k ∧ k < off + m then src.getD (i + (k - off)) 0 else data k

def advance (s : State n) (r : Int) : State n := if r > 0 then { s with off := (s.off + r.toNat) % 2 ^ 32 } else s

def go (s : State n) (t : Fin n) : Option (State n) :=
  match s.pc t with
  | .out => none
  | .readLock n => if s.lock = none then some { s.goto t (s.readi n) with lock := some t } else none
  | .readLoop off n dst =>
    if dst.length < n then
      some (s.goto t (.readLoop off n (dst ++ copy s.data (off + dst.length) (span off n dst.length))))
    else some (s.goto t (.readRet off n dst))
  | .readRet _ r _ => some ((s.advance r).goto t (.readUnlock r))
  | .readUnlock _ => some { s.goto t .out with lock := none }
  | .writeLock src i =>
    if s.lock = none then
      some { s.goto t (s.writei src i (min (src.length - i) maxChunk)) with lock := some t }
    else none
  | .writeLoop src i off n tot =>
    if tot < n then
      some { s.goto t (.writeLoop src i off n (tot + span off n tot)) with
        data := paste s.data (off + tot) (span off n tot) src (i + tot) }
    else some { s.goto t (.writeRet src i off n n) with size := if n > 0 ∧ off + n > s.size then off + n else s.size }
  | .writeRet src i _ n r => some ((s.advance r).goto t (.writeUnlock src i n r))
  | .writeUnlock src i n r =>
    if r < 0 then some { s.goto t .out with lock := none }
    -- panic("short filewrite")
    else if r ≠ n then none
    else some { s.goto t (if i + n < src.length then .writeLock src (i + n) else .out) with lock := none }

end State

/-- The byte counts of the calls are ints. -/
def step (s : State n) (e : Fin n × Action) : Option (State n) :=
  match e.2 with
  | .go => s.go e.1
  | .read n =>
    if s.pc e.1 = .out ∧ n < 2 ^ 31 then some (if s.readable then s.goto e.1 (.readLock n) else s) else none
  | .write src =>
    if s.pc e.1 = .out ∧ src.length < 2 ^ 31 then
      some (if s.writable ∧ 0 < src.length then s.goto e.1 (.writeLock src 0) else s)
    else none

def start (off size : Nat) (data : Nat → Byte) (readable writable : Bool) : State n :=
  ⟨off, readable, writable, size, data, none, fun _ => .out⟩

end Xv6.FileIO
