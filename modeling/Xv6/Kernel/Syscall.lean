import Xv6.Kernel.Param
import Xv6.Kernel.State

/-!
# System calls that take a buffer

`argptr` checks a pointer from user space against the size that its caller names, and the callee uses the pointer.
Here each call gives the addresses that the kernel reads or writes through the pointer, or nothing if the arguments
are refused. What other processes and the devices decide while the call goes on is a `World`.
-/

namespace Xv6.Syscall

abbrev Word := BitVec 32

def CONSOLE : Nat := 1

inductive FileType where
  | none
  | pipe
  | inode
  deriving DecidableEq

structure File where
  type : FileType
  readable : Bool
  writable : Bool

structure Proc where
  sz : Word
  esp : Word
  -- the int at an address of its memory
  word : Word → Word
  ofile : Nat → Option File

structure Inode where
  device : Bool
  major : Int
  size : Word

structure World where
  -- the inode of the file and the offset, each time that the inode is locked
  inode : Nat → Inode
  off : Nat → Word
  -- the pipe is empty, or full with no reader, when it comes to byte `i`
  empty : Nat → Bool
  broken : Nat → Bool
  -- the process is killed while it waits for the pipe
  killed : Bool
  -- what is typed in, or nothing if the process is killed first
  input : Nat → Option (BitVec 8)
  -- `waitx` finds a zombie, `pipe` finds room
  zombie : Bool
  room : Bool

def fetchint (p : Proc) (addr : Word) : Option Word :=
  if addr ≥ p.sz ∨ addr + 4 > p.sz then none else some (p.word addr)

def argint (p : Proc) (n : Word) : Option Word := fetchint p (p.esp + 4 + 4 * n)

def argptr (p : Proc) (n size : Word) : Option Word :=
  (argint p n).bind fun i => if size.slt 0 ∨ i ≥ p.sz ∨ i + size > p.sz then none else some i

def argfd (p : Proc) (n : Word) : Option File :=
  (argint p n).bind fun fd => if fd.slt 0 ∨ fd.toNat ≥ NOFILE then none else p.ofile fd.toNat

def bytes (addr : Word) (n : Nat) : List Word := (List.range n).map fun i => addr + BitVec.ofNat 32 i

/-- The loop over `addr[i]` that is left before the first byte `i` with `stop i`. -/
def bytesUntil (stop : Nat → Bool) (addr : Word) (n : Nat) : List Word :=
  ((List.range n).takeWhile fun i => !stop i).map fun i => addr + BitVec.ofNat 32 i

def piperead (w : World) (addr : Word) (n : Nat) : List Word := if w.killed then [] else bytesUntil w.empty addr n

def pipewrite (w : World) (addr : Word) (n : Nat) : List Word := bytesUntil w.broken addr n

/-- `i` bytes have been typed in before; control-D ends the input, and a new line does after it is copied. -/
def consoleread (w : World) (i : Nat) (dst : Word) : Nat → List Word
  | 0 => []
  | n + 1 =>
    match w.input i with
    | none => []
    | some c =>
      if c = 4 then [] else dst :: if c = 10 then [] else consoleread w (i + 1) (dst + 1) n

def consolewrite (buf : Word) (n : Nat) : List Word := bytes buf n

def Inode.noDevice (ip : Inode) : Bool := ip.major < 0 ∨ ip.major ≥ NDEV ∨ ip.major ≠ CONSOLE

/-- The loop of `readi` and `writei`; none of its sums reaches 2^32. -/
def moveBlocks (n tot off : Nat) (addr : Word) : List Word :=
  if tot < n then
    let m := min (n - tot) (BSIZE - off % BSIZE)
    bytes addr m ++ moveBlocks n (tot + m) (off + m) (addr + BitVec.ofNat 32 m)
  else []
termination_by n - tot
decreasing_by
  have : off % BSIZE < BSIZE := Nat.mod_lt _ (by decide)
  omega

def readi (w : World) (ip : Inode) (dst off n : Word) : List Word :=
  if ip.device then
    if ip.noDevice then [] else consoleread w 0 dst n.toNat
  else if off > ip.size ∨ off + n < off then []
  else
    let n := if off + n > ip.size then ip.size - off else n
    moveBlocks n.toNat 0 off.toNat dst

/-- What `writei` reads, and whether it returns `n` and not -1. -/
def writei (ip : Inode) (src off n : Word) : List Word × Bool :=
  if ip.device then
    if ip.noDevice then ([], false) else (consolewrite src n.toNat, true)
  else if off > ip.size ∨ off + n < off then ([], false)
  else if (off + n).toNat > MAXFILE * BSIZE then ([], false)
  else (moveBlocks n.toNat 0 off.toNat src, true)

def fileread (w : World) (f : File) (addr n : Word) : List Word :=
  if f.readable then
    match f.type with
    | .pipe => piperead w addr n.toNat
    | .inode => readi w (w.inode 0) addr (w.off 0) n
    | .none => []
  else []

def chunk : Nat := (MAXOPBLOCKS - 1 - 1 - 2) / 2 * 512

def writeChunks (w : World) (k n i : Nat) (addr : Word) : List Word :=
  if i < n then
    let m := min (n - i) chunk
    let (moved, ok) := writei (w.inode k) (addr + BitVec.ofNat 32 i) (w.off k) (BitVec.ofNat 32 m)
    moved ++ if ok then writeChunks w (k + 1) n (i + m) addr else []
  else []
termination_by n - i
decreasing_by
  have : 0 < chunk := by decide
  omega

def filewrite (w : World) (f : File) (addr n : Word) : List Word :=
  if f.writable then
    match f.type with
    | .pipe => pipewrite w addr n.toNat
    | .inode => writeChunks w 0 n.toNat 0 addr
    | .none => []
  else []

def stati (st : Word) : List Word :=
  bytes (st + 4) 4 ++ bytes (st + 8) 4 ++ bytes st 2 ++ bytes (st + 12) 2 ++ bytes (st + 16) 4

def filestat (f : File) (st : Word) : List Word :=
  match f.type with
  | .inode => stati st
  | .pipe | .none => []

def waitx (w : World) (wtime rtime : Word) : List Word := if w.zombie then bytes rtime 4 ++ bytes wtime 4 else []

def getpinfo (s : Word) : List Word :=
  bytes s 4 ++ bytes (s + 4) 4 ++ bytes (s + 8) 4 ++ bytes (s + 12) 4 ++
    (List.range 5).flatMap fun i => bytes (s + 16 + BitVec.ofNat 32 (4 * i)) 4

def sizeofStat : Nat := 20
def sizeofProcStat : Nat := 36
def sizeofInt : Nat := 4
def sizeofPointer : Nat := 4

def sysRead (w : World) (p : Proc) : Option (List Word) := do
  let f ← argfd p 0
  let n ← argint p 2
  let addr ← argptr p 1 n
  return fileread w f addr n

def sysWrite (w : World) (p : Proc) : Option (List Word) := do
  let f ← argfd p 0
  let n ← argint p 2
  let addr ← argptr p 1 n
  return filewrite w f addr n

def sysFstat (p : Proc) : Option (List Word) := do
  let f ← argfd p 0
  let st ← argptr p 1 (BitVec.ofNat 32 sizeofStat)
  return filestat f st

def sysPipe (w : World) (p : Proc) : Option (List Word) := do
  let fd ← argptr p 0 (BitVec.ofNat 32 (2 * sizeofInt))
  return if w.room then bytes fd 4 ++ bytes (fd + 4) 4 else []

def sysWaitx (w : World) (p : Proc) : Option (List Word) := do
  let rtime ← argptr p 1 (BitVec.ofNat 32 sizeofPointer)
  let wtime ← argptr p 0 (BitVec.ofNat 32 sizeofPointer)
  return waitx w wtime rtime

def sysGetpinfo (p : Proc) : Option (List Word) := do
  let s ← argptr p 0 (BitVec.ofNat 32 sizeofPointer)
  return getpinfo s

inductive Call where
  | read
  | write
  | fstat
  | pipe
  | waitx
  | getpinfo
  deriving DecidableEq

def syscall (w : World) (p : Proc) : Call → Option (List Word)
  | .read => sysRead w p
  | .write => sysWrite w p
  | .fstat => sysFstat p
  | .pipe => sysPipe w p
  | .waitx => sysWaitx w p
  | .getpinfo => sysGetpinfo p

end Xv6.Syscall
