import Xv6.Kernel.Log
import Xv6.Library.Layout
import Xv6.Library.Program

/-!
# The file system down to its blocks

The functions of `fs.c` from `balloc` to `dirlink` except `ialloc`, and `filewrite`, over a disk of blocks. A process
performs one operation at a time: it takes or gives back a buffer or an inode, changes a buffer and calls `log_write`,
or uses a field of an inode in memory. `bread` returns what was last written to the block.
-/

namespace Xv6.Fs
open Xv6.Library
open Function (update)

def IPB : Nat := BSIZE / 64
def BPB : Nat := BSIZE * 8

def T_DIR : UInt16 := 1
def T_FILE : UInt16 := 2
def T_DEV : UInt16 := 3

structure Superblock where
  size : Nat
  ninodes : Nat
  inodestart : Nat
  bmapstart : Nat
  deriving DecidableEq

variable (sb : Superblock)

def iblock (i : Nat) : Nat := i / IPB + sb.inodestart

def bblock (b : Nat) : Nat := b / BPB + sb.bmapstart

structure Dinode where
  type : UInt16
  major : UInt16
  minor : UInt16
  nlink : UInt16
  size : UInt32
  addrs : Fin (NDIRECT + 1) → UInt32

def Dinode.zero : Dinode := ⟨0, 0, 0, 0, 0, fun _ => 0⟩

def Dinode.setAddr (d : Dinode) (i : Fin (NDIRECT + 1)) (addr : Nat) : Dinode :=
  { d with addrs := update d.addrs i (UInt32.ofNat addr) }

def getShort (data : Bytes) (o : Nat) : UInt16 := UInt16.ofNat (field data o 2)

def getInt (data : Bytes) (o : Nat) : UInt32 := UInt32.ofNat (field data o 4)

def getAddr (data : Bytes) (i : Nat) : Nat := field data (4 * i) 4

def setAddr (data : Bytes) (i addr : Nat) : Bytes := setField data (4 * i) 4 addr

def getDinode (data : Bytes) (i : Nat) : Dinode :=
  let o := 64 * (i % IPB)
  ⟨getShort data o, getShort data (o + 2), getShort data (o + 4), getShort data (o + 6), getInt data (o + 8),
    fun k => getInt data (o + 12 + 4 * k.val)⟩

def putAddrs (data : Bytes) (o : Nat) (addrs : Fin (NDIRECT + 1) → UInt32) : Bytes := fun i =>
  if inside : o ≤ i ∧ i < o + 4 * (NDIRECT + 1) then
    BitVec.ofNat 8 ((addrs ⟨(i - o) / 4, by omega⟩).toNat / 256 ^ ((i - o) % 4))
  else data i

def putDinode (data : Bytes) (i : Nat) (d : Dinode) : Bytes :=
  let o := 64 * (i % IPB)
  let data := setField data o 2 d.type.toNat
  let data := setField data (o + 2) 2 d.major.toNat
  let data := setField data (o + 4) 2 d.minor.toNat
  let data := setField data (o + 6) 2 d.nlink.toNat
  let data := setField data (o + 8) 4 d.size.toNat
  putAddrs data (o + 12) d.addrs

/-- A `struct inode` in memory. There is at most one with `ref > 0` for an inode number. -/
structure Inode (n : Nat) where
  ref : Nat
  lock : Option (Fin n)
  valid : Bool
  d : Dinode

structure State (n : Nat) where
  block : Nat → Bytes
  -- who has the buffer of a block
  buf : Nat → Option (Fin n)
  inode : Nat → Inode n
  -- the number of inodes with a reference, each of which has a place in the cache
  cached : Nat
  -- the blocks that a process has passed to log_write since begin_op, and those of its operations that have ended
  log : Fin n → List Nat
  ops : Fin n → List (List Nat)

inductive Op where
  | bread (b : Nat)
  | log_write (b : Nat) (data : Bytes)
  | brelse (b : Nat)
  | get (ip : Nat)
  | set (ip : Nat) (f : Dinode → Dinode)
  | isValid (ip : Nat)
  | setValid (ip : Nat) (valid : Bool)
  | acquiresleep (ip : Nat)
  | releasesleep (ip : Nat)
  | holdingsleep (ip : Nat)
  | iget (inum : Nat)
  | getRef (ip : Nat)
  | decRef (ip : Nat)
  | device (write : Bool) (major : UInt16) (n : UInt32)
  | begin_op
  | end_op
  | panic (message : String)

@[reducible] def Res : Op → Type
  | .bread _ => Bytes
  | .get _ => Dinode
  | .isValid _ | .holdingsleep _ | .iget _ => Bool
  | .getRef _ => Nat
  | .device _ _ _ => Int
  | .panic _ => Empty
  | .log_write _ _ | .brelse _ | .set _ _ | .setValid _ _ | .acquiresleep _ | .releasesleep _ | .decRef _ | .begin_op
  | .end_op => Unit

abbrev Program := Prog Op Res

section State
variable {n : Nat}

def State.setInode (s : State n) (ip : Nat) (x : Inode n) : State n := { s with inode := update s.inode ip x }

/-- One operation of process `t`; it does not return while the process has to wait, nor from a panic. What a device
returns is left open. -/
def act (s : State n) (t : Fin n) : (o : Op) → Int → Option (State n × Res o)
  | .bread b, _ => if s.buf b = none then some ({ s with buf := update s.buf b (some t) }, s.block b) else none
  | .log_write b data, _ =>
    if s.buf b = some t then
      some ({ s with block := update s.block b data, log := update s.log t (s.log t ++ [b]) }, ())
    else none
  | .brelse b, _ => if s.buf b = some t then some ({ s with buf := update s.buf b none }, ()) else none
  | .get ip, _ => some (s, (s.inode ip).d)
  | .set ip f, _ => some (s.setInode ip { s.inode ip with d := f (s.inode ip).d }, ())
  | .isValid ip, _ => some (s, (s.inode ip).valid)
  | .setValid ip valid, _ => some (s.setInode ip { s.inode ip with valid := valid }, ())
  | .acquiresleep ip, _ =>
    if (s.inode ip).lock = none then some (s.setInode ip { s.inode ip with lock := some t }, ()) else none
  | .releasesleep ip, _ =>
    if (s.inode ip).lock = some t then some (s.setInode ip { s.inode ip with lock := none }, ()) else none
  | .holdingsleep ip, _ => some (s, (s.inode ip).lock = some t)
  | .iget inum, _ =>
    let x := s.inode inum
    if 0 < x.ref then some (s.setInode inum { x with ref := x.ref + 1 }, true)
    else if s.cached < NINODE then
      some ({ s.setInode inum { x with ref := 1, valid := false } with cached := s.cached + 1 }, true)
    else some (s, false)
  | .getRef ip, _ => some (s, (s.inode ip).ref)
  | .decRef ip, _ =>
    let x := s.inode ip
    some ({ s.setInode ip { x with ref := x.ref - 1 } with cached := if x.ref = 1 then s.cached - 1 else s.cached }, ())
  | .device _ _ _, r => some (s, r)
  | .begin_op, _ => some ({ s with log := update s.log t [] }, ())
  | .end_op, _ => some ({ s with ops := update s.ops t (s.ops t ++ [s.log t]) }, ())
  | .panic _, _ => none

end State

def perform (o : Op) : Program (Res o) := Prog.perform o

def panic {α : Type} (message : String) : Program α := .op (.panic message) Empty.elim

def bread (b : Nat) : Program Bytes := perform (.bread b)
def log_write (b : Nat) (data : Bytes) : Program Unit := perform (.log_write b data)
def brelse (b : Nat) : Program Unit := perform (.brelse b)
def getInode (ip : Nat) : Program Dinode := perform (.get ip)
def setInode (ip : Nat) (f : Dinode → Dinode) : Program Unit := perform (.set ip f)

def bzero (bno : Nat) : Program Unit := do
  let _ ← bread bno
  log_write bno fun _ => 0
  brelse bno

def firstFree (data : Bytes) (limit : Nat) : Option Nat := (List.range limit).find? fun bi => !bit data bi

/-- The loop of `balloc` over the blocks of the bitmap, from the `k`-th one on. -/
def ballocFrom : Nat → Nat → Program Nat
  | 0, _ => panic "balloc: out of blocks"
  | fuel + 1, k => do
    let b := k * BPB
    let data ← bread (bblock sb b)
    match firstFree data (min BPB (sb.size - b)) with
    | some bi => do
      log_write (bblock sb b) (setBit data bi)
      brelse (bblock sb b)
      bzero (b + bi)
      return b + bi
    | none => do
      brelse (bblock sb b)
      ballocFrom fuel (k + 1)

def balloc : Program Nat := ballocFrom sb ((sb.size + BPB - 1) / BPB) 0

def bfree (b : Nat) : Program Unit := do
  let data ← bread (bblock sb b)
  if bit data (b % BPB) = false then panic "freeing free block"
  else do
    log_write (bblock sb b) (clearBit data (b % BPB))
    brelse (bblock sb b)

def iupdate (ip : Nat) : Program Unit := do
  let data ← bread (iblock sb ip)
  let d ← getInode ip
  log_write (iblock sb ip) (putDinode data ip d)
  brelse (iblock sb ip)

def indirect : Fin (NDIRECT + 1) := Fin.last NDIRECT

def bmapIndirect (bn addr : Nat) : Program Nat := do
  let data ← bread addr
  if getAddr data bn = 0 then do
    let new ← balloc sb
    log_write addr (setAddr data bn new)
    brelse addr
    return new
  else do
    brelse addr
    return getAddr data bn

def bmap (ip bn : Nat) : Program Nat := do
  let d ← getInode ip
  if direct : bn < NDIRECT then
    let i : Fin (NDIRECT + 1) := ⟨bn, Nat.lt_succ_of_lt direct⟩
    if d.addrs i = 0 then do
      let addr ← balloc sb
      setInode ip (·.setAddr i addr)
      return addr
    else return (d.addrs i).toNat
  else if bn - NDIRECT < NINDIRECT then
    if d.addrs indirect = 0 then do
      let addr ← balloc sb
      setInode ip (·.setAddr indirect addr)
      bmapIndirect sb (bn - NDIRECT) addr
    else bmapIndirect sb (bn - NDIRECT) (d.addrs indirect).toNat
  else panic "bmap: out of range"

def truncDirect (ip : Nat) : List (Fin (NDIRECT + 1)) → Program Unit
  | [] => return
  | i :: is => do
    let d ← getInode ip
    if d.addrs i ≠ 0 then do
      bfree sb (d.addrs i).toNat
      setInode ip (·.setAddr i 0)
      truncDirect ip is
    else truncDirect ip is

def truncIndirect (data : Bytes) : List Nat → Program Unit
  | [] => return
  | j :: js => do
    if getAddr data j ≠ 0 then do
      bfree sb (getAddr data j)
      truncIndirect data js
    else truncIndirect data js

def itrunc (ip : Nat) : Program Unit := do
  truncDirect sb ip ((List.finRange NDIRECT).map Fin.castSucc)
  let d ← getInode ip
  let addr := (d.addrs indirect).toNat
  if d.addrs indirect ≠ 0 then do
    let data ← bread addr
    truncIndirect sb data (List.range NINDIRECT)
    brelse addr
    bfree sb addr
    setInode ip (·.setAddr indirect 0)
    setInode ip ({ · with size := 0 })
    iupdate sb ip
  else do
    setInode ip ({ · with size := 0 })
    iupdate sb ip

def readLoop (ip : Nat) : Nat → Nat → Nat → Program (List Byte)
  | 0, _, _ => return []
  | fuel + 1, off, n => do
    if n = 0 then return []
    else do
      let addr ← bmap sb ip (off / BSIZE)
      let data ← bread addr
      let m := min n (BSIZE - off % BSIZE)
      brelse addr
      let rest ← readLoop ip fuel (off + m) (n - m)
      return slice data (off % BSIZE) m ++ rest

def readi (ip : Nat) (off n : UInt32) : Program (Int × List Byte) := do
  let d ← getInode ip
  if d.type = T_DEV then
    if d.major.toNat ≥ NDEV then return (-1, [])
    else do
      let r ← perform (.device false d.major n)
      return (r, [])
  else if off > d.size ∨ off + n < off then return (-1, [])
  else do
    let n := if off + n > d.size then d.size - off else n
    let dst ← readLoop sb ip n.toNat off.toNat n.toNat
    return (n.toNat, dst)

def writeLoop (ip : Nat) : Nat → Nat → List Byte → Program Unit
  | 0, _, _ => return
  | fuel + 1, off, src => do
    if src = [] then return
    else do
      let addr ← bmap sb ip (off / BSIZE)
      let data ← bread addr
      let m := min src.length (BSIZE - off % BSIZE)
      log_write addr (splice data (off % BSIZE) (src.take m))
      brelse addr
      writeLoop ip fuel (off + m) (src.drop m)

def writei (ip : Nat) (src : List Byte) (off : UInt32) : Program Int := do
  let n := UInt32.ofNat src.length
  let d ← getInode ip
  if d.type = T_DEV then
    if d.major.toNat ≥ NDEV then return -1
    else perform (.device true d.major n)
  else if off > d.size ∨ off + n < off then return -1
  else if off + n > UInt32.ofNat (MAXFILE * BSIZE) then return -1
  else do
    writeLoop sb ip src.length off.toNat src
    let d ← getInode ip
    if n > 0 ∧ off + n > d.size then do
      setInode ip ({ · with size := off + n })
      iupdate sb ip
      return src.length
    else return src.length

def iget (inum : Nat) : Program Unit := do
  let found : Bool ← perform (.iget inum)
  if found then return else panic "iget: no inodes"

def ilock (ip : Nat) : Program Unit := do
  let r : Nat ← perform (.getRef ip)
  if r < 1 then panic "ilock"
  else do
    perform (.acquiresleep ip)
    let valid : Bool ← perform (.isValid ip)
    if valid then return
    else do
      let data ← bread (iblock sb ip)
      setInode ip fun _ => getDinode data ip
      brelse (iblock sb ip)
      perform (.setValid ip true)
      if (getDinode data ip).type = 0 then panic "ilock: no type" else return

def iunlock (ip : Nat) : Program Unit := do
  let held : Bool ← perform (.holdingsleep ip)
  let r : Nat ← perform (.getRef ip)
  if held = false ∨ r < 1 then panic "iunlock" else perform (.releasesleep ip)

/-- The end of `iput`. -/
def iputEnd (ip : Nat) : Program Unit := do
  perform (.releasesleep ip)
  perform (.decRef ip)

/-- The part of `iput` for an inode without links and other references. -/
def ifree (ip : Nat) : Program Unit := do
  itrunc sb ip
  setInode ip ({ · with type := 0 })
  iupdate sb ip
  perform (.setValid ip false)
  iputEnd ip

def iput (ip : Nat) : Program Unit := do
  perform (.acquiresleep ip)
  let valid : Bool ← perform (.isValid ip)
  let d ← getInode ip
  if valid = true ∧ d.nlink = 0 then do
    let r : Nat ← perform (.getRef ip)
    if r = 1 then ifree sb ip else iputEnd ip
  else iputEnd ip

def strncmp : Nat → List Byte → List Byte → Bool
  | 0, _, _ => true
  | n + 1, p, q => if p.headD 0 ≠ 0 ∧ p.headD 0 = q.headD 0 then strncmp n p.tail q.tail else p.headD 0 = q.headD 0

def direntInum (de : List Byte) : Nat := field (fun i => de.getD i 0) 0 2

def direntName (de : List Byte) : List Byte := (de.drop 2).take DIRSIZ

def dirent (inum : Nat) (name : List Byte) : List Byte :=
  let short := name.takeWhile (· ≠ 0)
  slice (setField (fun _ => 0) 0 2 inum) 0 2 ++ ((short ++ List.replicate DIRSIZ 0).take DIRSIZ)

def lookupFrom (dp : Nat) (name : List Byte) : Nat → Nat → Program (Option (Nat × Nat))
  | 0, _ => return none
  | fuel + 1, off => do
    let d ← getInode dp
    if off < d.size.toNat then do
      let (r, de) ← readi sb dp (UInt32.ofNat off) 16
      if r ≠ 16 then panic "dirlookup read"
      else if direntInum de ≠ 0 ∧ strncmp DIRSIZ name (direntName de) = true then do
        iget (direntInum de)
        return some (direntInum de, off)
      else lookupFrom dp name fuel (off + 16)
    else return none

def dirlookup (dp : Nat) (name : List Byte) : Program (Option (Nat × Nat)) := do
  let d ← getInode dp
  if d.type ≠ T_DIR then panic "dirlookup not DIR"
  else lookupFrom sb dp name (d.size.toNat / 16 + 1) 0

def emptyFrom (dp : Nat) : Nat → Nat → Program Nat
  | 0, off => return off
  | fuel + 1, off => do
    let d ← getInode dp
    if off < d.size.toNat then do
      let (r, de) ← readi sb dp (UInt32.ofNat off) 16
      if r ≠ 16 then panic "dirlink read"
      else if direntInum de = 0 then return off
      else emptyFrom dp fuel (off + 16)
    else return off

def dirlink (dp : Nat) (name : List Byte) (inum : Nat) : Program Int := do
  match ← dirlookup sb dp name with
  | some (ip, _) => do
    iput sb ip
    return -1
  | none => do
    let d ← getInode dp
    let off ← emptyFrom sb dp (d.size.toNat / 16 + 1) 0
    let r ← writei sb dp (dirent inum name) (UInt32.ofNat off)
    if r ≠ 16 then panic "dirlink" else return 0

/-- What `sys_unlink` does with the directory. It gives the inode of the entry, with a reference to it; between the
lookup and the write `sys_unlink` locks and checks that inode. -/
def unlinkEntry (dp : Nat) (name : List Byte) : Program (Option Nat) := do
  if strncmp DIRSIZ name [46] = true ∨ strncmp DIRSIZ name [46, 46] = true then return none
  else do
    match ← dirlookup sb dp name with
    | none => return none
    | some (ip, off) => do
      let r ← writei sb dp (List.replicate 16 0) (UInt32.ofNat off)
      if r ≠ 16 then panic "unlink: writei" else return some ip

def maxChunk : Nat := ((MAXOPBLOCKS - 1 - 1 - 2) / 2) * 512

/-- The loop of `filewrite` at `addr + i`, with `f->off`; it returns `i` and `f->off`. -/
def filewriteFrom (ip : Nat) (src : List Byte) : Nat → Nat → UInt32 → Program (Nat × UInt32)
  | 0, i, off => return (i, off)
  | fuel + 1, i, off => do
    if i < src.length then do
      let n1 := min (src.length - i) maxChunk
      perform .begin_op
      ilock sb ip
      let r ← writei sb ip ((src.drop i).take n1) off
      let off := if r > 0 then off + UInt32.ofNat r.toNat else off
      iunlock ip
      perform .end_op
      if r < 0 then return (i, off)
      else if r ≠ n1 then panic "short filewrite"
      else filewriteFrom ip src fuel (i + n1) off
    else return (i, off)

/-- `filewrite` on a writable file of type `FD_INODE`, with what it leaves in `f->off`. -/
def filewrite (ip : Nat) (src : List Byte) (off : UInt32) : Program (Int × UInt32) := do
  let (i, off) ← filewriteFrom sb ip src src.length 0 off
  return (if i = src.length then src.length else -1, off)

section Call
variable {n : Nat}

/-- A call that does not come back, and the state in which it is then. -/
structure Halt (n : Nat) where
  message : String
  state : State n

/-- One operation when no other process runs: a process that has to wait then waits for ever. -/
def alone (t : Fin n) (device : Int) (s : State n) : (o : Op) → Except (Halt n) (State n × Res o)
  | .panic message => .error ⟨message, s⟩
  | o =>
    match act s t o device with
    | some result => .ok result
    | none => .error ⟨"deadlock", s⟩

/-- A call of process `t` with no other process running. -/
def call {α : Type} (t : Fin n) (device : Int) (p : Program α) :
    StateT (State n) (Except (Halt n)) α := p.eval (alone t device)

end Call

end Xv6.Fs
