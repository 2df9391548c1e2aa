import Xv6.Kernel.Param

/-!
# The log on disk

`commit` and `recover_from_log`, one `bwrite` at a step, so that a crash can come between any two writes. A crash loses
the buffer cache and the log header in memory, and the machine goes on with `recover_from_log`.
-/

namespace Xv6.Log

abbrev Word := BitVec 32

abbrev Block := Fin 128 → Word

/-- `log.start` and `log.size`: the header block and the blocks after it. -/
structure Layout where
  start : Word
  size : Nat
  pos : 0 < size
  fits : size ≤ 2 ^ 32

inductive Pc where
  | idle
  | writeLog (tail : Nat)
  | writeHead
  | install (recovering : Bool) (tail : Nat)
  | clear (recovering : Bool)
  deriving DecidableEq

structure State where
  disk : Word → Block
  -- what `bread` returns, from the buffer cache or the disk
  mem : Word → Block
  -- `log.lh.block[i]` for `i < log.lh.n`
  lh : List Word
  pc : Pc

inductive Action where
  -- the data of a buffer is modified, and `log_write` called
  | write (b : Word) (data : Block)
  | commit
  | go
  | crash

namespace State

def bwrite (s : State) (b : Word) (data : Block) : State :=
  { s with disk := Function.update s.disk b data, mem := Function.update s.mem b data }

def slot (L : Layout) (tail : Nat) : Word := L.start + BitVec.ofNat 32 (tail + 1)

/-- The header block after `write_head` has filled in `hb->n` and `hb->block[i]` for `i < n`. -/
def head (old : Block) (lh : List Word) : Block := fun i =>
  if i.val = 0 then BitVec.ofNat 32 lh.length else lh.getD (i.val - 1) (old i)

def readHead (hb : Block) : List Word := (List.range (hb 0).toInt.toNat).map fun i => hb (Fin.ofNat 128 (i + 1))

def logWrite (L : Layout) (s : State) (b : Word) (data : Block) : Option State :=
  if s.lh.length ≥ LOGSIZE ∨ s.lh.length ≥ L.size - 1 then none
  else some { s with
    mem := Function.update s.mem b data
    -- log absorption
    lh := if b ∈ s.lh then s.lh else s.lh ++ [b] }

def commit (s : State) : State := if s.lh.length > 0 then { s with pc := .writeLog 0 } else s

def recoverFromLog (L : Layout) (disk : Word → Block) : State :=
  let lh := readHead (disk L.start)
  { disk := disk, mem := disk, lh := lh, pc := if 0 < lh.length then .install true 0 else .clear true }

def go (L : Layout) (s : State) : Option State :=
  match s.pc with
  | .idle => none
  | .writeLog tail =>
    some { s.bwrite (slot L tail) (s.mem (s.lh.getD tail 0)) with
      pc := if tail + 1 < s.lh.length then .writeLog (tail + 1) else .writeHead }
  | .writeHead => some { s.bwrite L.start (head (s.mem L.start) s.lh) with pc := .install false 0 }
  | .install recovering tail =>
    some { s.bwrite (s.lh.getD tail 0) (s.mem (slot L tail)) with
      pc := if tail + 1 < s.lh.length then .install recovering (tail + 1) else .clear recovering }
  | .clear _ => some { s.bwrite L.start (head (s.mem L.start) []) with lh := [], pc := .idle }

end State

open State

def step (L : Layout) (s : State) : Action → Option State
  | .write b data => if s.pc = .idle then s.logWrite L b data else none
  | .commit => if s.pc = .idle then some s.commit else none
  | .go => s.go L
  | .crash => some (recoverFromLog L s.disk)

def start (disk : Word → Block) : State := ⟨disk, disk, [], .idle⟩

end Xv6.Log
