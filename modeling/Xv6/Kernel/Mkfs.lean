import Xv6.Kernel.Fs

/-!
# mkfs

The program that writes the first file system. It keeps the image in a file of `FSSIZE` sectors and allocates inodes and
blocks by counting up; the bitmap is written at the end. An input file is given by its name on the command line and by
what each `read` of it returns, up to the end of the file.
-/

namespace Xv6.Mkfs
open Xv6.Library Xv6.Fs

def nbitmap : Nat := FSSIZE / (BSIZE * 8) + 1
def ninodeblocks : Nat := NINODES / IPB + 1
def nlog : Nat := LOGSIZE
def nmeta : Nat := 2 + nlog + ninodeblocks + nbitmap
def nblocks : Nat := FSSIZE - nmeta

def sb : Superblock := ⟨FSSIZE, NINODES, 2 + nlog, 2 + nlog + ninodeblocks⟩

def superblock : Bytes :=
  let data := setField (fun _ => 0) 0 4 FSSIZE
  let data := setField data 4 4 nblocks
  let data := setField data 8 4 NINODES
  let data := setField data 12 4 nlog
  let data := setField data 16 4 2
  let data := setField data 20 4 (2 + nlog)
  setField data 24 4 (2 + nlog + ninodeblocks)

def readsb (data : Bytes) : Superblock := ⟨field data 0 4, field data 8 4, field data 20 4, field data 24 4⟩

structure Image where
  block : Nat → Bytes
  freeinode : Nat
  freeblock : Nat

abbrev Make := StateT Image (Except String)

def wsect (sec : Nat) (buf : Bytes) : Make Unit :=
  modify fun img => { img with block := Function.update img.block sec buf }

def rsect (sec : Nat) : Make Bytes := do
  let img ← get
  if sec < FSSIZE then return img.block sec else throw "read"

def winode (inum : Nat) (d : Dinode) : Make Unit := do
  let buf ← rsect (iblock sb inum)
  wsect (iblock sb inum) (putDinode buf inum d)

def rinode (inum : Nat) : Make Dinode := do
  let buf ← rsect (iblock sb inum)
  return getDinode buf inum

def ialloc (type : UInt16) : Make Nat := do
  let img ← get
  set { img with freeinode := img.freeinode + 1 }
  winode img.freeinode { Dinode.zero with type := type, nlink := 1 }
  return img.freeinode

def nextblock : Make Nat := do
  let img ← get
  set { img with freeblock := img.freeblock + 1 }
  return img.freeblock

def bitmap (used : Nat) : Bytes := (List.range used).foldl setBit fun _ => 0

def balloc (used : Nat) : Make Unit := do
  if used < BSIZE * 8 then wsect sb.bmapstart (bitmap used) else throw "assert"

def placeIndirect (fbn : Nat) (din : Dinode) : Make (Dinode × Nat) := do
  let x := (din.addrs indirect).toNat
  let data ← rsect x
  if getAddr data (fbn - NDIRECT) = 0 then do
    let b ← nextblock
    wsect x (setAddr data (fbn - NDIRECT) b)
    return (din, getAddr (setAddr data (fbn - NDIRECT) b) (fbn - NDIRECT))
  else return (din, getAddr data (fbn - NDIRECT))

/-- The sector `x` of block `fbn` in `iappend`, allocated if necessary. -/
def place (fbn : Nat) (din : Dinode) : Make (Dinode × Nat) :=
  if direct : fbn < NDIRECT then
    let i : Fin (NDIRECT + 1) := ⟨fbn, Nat.lt_succ_of_lt direct⟩
    if din.addrs i = 0 then do
      let b ← nextblock
      return (din.setAddr i b, ((din.setAddr i b).addrs i).toNat)
    else return (din, (din.addrs i).toNat)
  else
    if din.addrs indirect = 0 then do
      let b ← nextblock
      placeIndirect fbn (din.setAddr indirect b)
    else placeIndirect fbn din

def appendLoop : Nat → Dinode → Nat → List Byte → Make (Dinode × Nat)
  | 0, din, off, _ => return (din, off)
  | fuel + 1, din, off, p =>
    if p = [] then return (din, off)
    else if off / BSIZE < MAXFILE then do
      let (din, x) ← place (off / BSIZE) din
      let n1 := min p.length ((off / BSIZE + 1) * BSIZE - off)
      let buf ← rsect x
      wsect x (splice buf (off - off / BSIZE * BSIZE) (p.take n1))
      appendLoop fuel din (off + n1) (p.drop n1)
    else throw "assert"

def iappend (inum : Nat) (p : List Byte) : Make Unit := do
  let din ← rinode inum
  let (din, off) ← appendLoop p.length din din.size.toNat p
  winode inum { din with size := UInt32.ofNat off }

structure Input where
  arg : List Byte
  reads : List (List Byte)

def Input.name (f : Input) : List Byte := if f.arg.head? = some 95 then f.arg.tail else f.arg

def Input.bytes (f : Input) : List Byte := f.reads.flatten

def appendAll (inum : Nat) : List (List Byte) → Make Unit
  | [] => return
  | buf :: rest => do
    iappend inum buf
    appendAll inum rest

def addFile (f : Input) : Make Unit := do
  if (47 : Byte) ∈ f.arg then throw "assert"
  else do
    let inum ← ialloc T_FILE
    iappend ROOTINO (dirent inum f.name)
    appendAll inum f.reads

def addFiles : List Input → Make Unit
  | [] => return
  | f :: rest => do
    addFile f
    addFiles rest

/-- The size of the root directory is rounded up. -/
def fixRoot : Make Unit := do
  let din ← rinode ROOTINO
  let off := din.size.toNat
  winode ROOTINO { din with size := UInt32.ofNat ((off / BSIZE + 1) * BSIZE) }

def makeRoot : Make Unit := do
  let rootino ← ialloc T_DIR
  if rootino = ROOTINO then do
    iappend rootino (dirent rootino [46])
    iappend rootino (dirent rootino [46, 46])
  else throw "assert"

def main (files : List Input) : Make Unit := do
  wsect 1 superblock
  makeRoot
  addFiles files
  fixRoot
  let img ← get
  balloc img.freeblock

def blank : Image := ⟨fun _ _ => 0, 1, nmeta⟩

def mkfs (files : List Input) : Except String (Nat → Bytes) :=
  match main files blank with
  | .ok (_, img) => .ok img.block
  | .error e => .error e

section Boot
variable {n : Nat}

/-- The state of a kernel that has read nothing yet. -/
def boot (block : Nat → Bytes) : State n where
  block := block
  buf _ := none
  inode _ := ⟨0, none, false, .zero⟩
  cached := 0
  log _ := []
  ops _ := []

end Boot

end Xv6.Mkfs
