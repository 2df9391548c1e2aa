import Xv6.Kernel.Directory

/-!
# System calls on the directory tree

`open`, `mkdir`, `mknod`, `link`, `unlink`, `chdir`, `close`, `fork` and `exit` of any processes, where no two calls
overlap: each returns before the next one is made. (`namex` gives up the lock of a directory before it takes that of the
next one, and `create` and `sys_link` lock the directory of a name again after `nameiparent`, so calls of other
processes can fall in between; those runs are not among the ones here.) An inode that is changed is written back by
`iupdate` before it is unlocked, so one copy of it stands for the one on the disk and the one in memory. Of the contents
of a file only the number of its blocks is kept.
-/

namespace Xv6.Namespace
open Xv6.Directory
open Function (update)

def DPB : Nat := 32
def O_CREATE : Nat := 0x200

abbrev File := Fin NFILE
abbrev Fd := Fin NOFILE

inductive FileType where
  | none
  | dir
  | file
  | dev
  deriving DecidableEq

structure Dinode where
  type : FileType
  nlink : Int16
  entries : List Dirent
  deriving DecidableEq

structure Entry where
  ref : Nat
  ip : Option Inum

structure Proc where
  live : Bool
  cwd : Inum
  ofile : Fd → Option File

structure State (n : Nat) where
  inode : Inum → Dinode
  -- the data blocks of an inode, which are mapped from the front
  mapped : Inum → Nat
  free : Nat
  -- the inode cache: of the inodes with a reference, `inUse` in all
  ref : Inum → Nat
  valid : Inum → Bool
  locked : Inum → Bool
  inUse : Nat
  file : File → Entry
  proc : Fin n → Proc

inductive Panic where
  | balloc
  | bmap
  | igetNoInodes
  | iallocNoInodes
  | ilock
  | ilockNoType
  | iunlock
  | dirlookupNotDir
  | dirlink
  | unlinkNlink
  | createDots
  | createDirlink
  | filedup
  | fileclose
  | initExiting
  deriving DecidableEq

/-- Why a call does not return. -/
inductive Stop where
  | panic (p : Panic)
  -- the process waits for a lock that it holds itself
  | deadlock
  deriving DecidableEq

abbrev M (n : Nat) := StateT (State n) (Except Stop)

variable {n : Nat}

def panicIf (c : Prop) [Decidable c] (p : Panic) : M n Unit := if c then throw (.panic p) else return

def getInode (ip : Inum) : M n Dinode := do return (← get).inode ip

def setInode (ip : Inum) (x : Dinode) : M n Unit := modify fun s => { s with inode := update s.inode ip x }

def balloc : M n Unit := do
  panicIf ((← get).free = 0) .balloc
  modify fun s => { s with free := s.free - 1 }

def bmap (ip : Inum) (bn : Nat) : M n Unit := do
  let s ← get
  if bn < s.mapped ip then return
  else do
    panicIf (MAXFILE ≤ bn) .bmap
    -- the indirect block
    (if NDIRECT ≤ bn ∧ s.mapped ip ≤ NDIRECT then balloc else return)
    balloc
    modify fun s => { s with mapped := update s.mapped ip (bn + 1) }

def blocks (k : Nat) : Nat := k + if NDIRECT < k then 1 else 0

def itrunc (ip : Inum) : M n Unit := modify fun s =>
  { s with
    inode := update s.inode ip { s.inode ip with entries := [] }
    mapped := update s.mapped ip 0
    free := s.free + blocks (s.mapped ip) }

def iget (inum : Inum) : M n Inum := do
  let s ← get
  if 0 < s.ref inum then do
    set { s with ref := update s.ref inum (s.ref inum + 1) }
    return inum
  else do
    panicIf (NINODE ≤ s.inUse) .igetNoInodes
    set { s with
      ref := update s.ref inum 1
      valid := update s.valid inum false
      inUse := s.inUse + 1 }
    return inum

def idup (ip : Inum) : M n Inum := do
  modify fun s => { s with ref := update s.ref ip (s.ref ip + 1) }
  return ip

def ialloc (type : FileType) : M n Inum := do
  let s ← get
  match (List.finRange NINODES).find? fun i => i ≠ 0 ∧ (s.inode i).type = .none with
  | none => throw (.panic .iallocNoInodes)
  | some inum => do
    setInode inum { type, nlink := 0, entries := [] }
    iget inum

def acquiresleep (ip : Inum) : M n Unit := do
  if (← get).locked ip then throw .deadlock
  else modify fun s => { s with locked := update s.locked ip true }

def releasesleep (ip : Inum) : M n Unit := modify fun s => { s with locked := update s.locked ip false }

def ilock (ip : Inum) : M n Unit := do
  panicIf ((← get).ref ip < 1) .ilock
  acquiresleep ip
  let s ← get
  if s.valid ip = false then do
    set { s with valid := update s.valid ip true }
    panicIf ((s.inode ip).type = .none) .ilockNoType
  else return

def iunlock (ip : Inum) : M n Unit := do
  let s ← get
  panicIf (s.locked ip = false ∨ s.ref ip < 1) .iunlock
  releasesleep ip

def ifree (ip : Inum) : M n Unit := do
  itrunc ip
  modify fun s =>
    { s with
      inode := update s.inode ip { s.inode ip with type := .none }
      valid := update s.valid ip false }

def iput (ip : Inum) : M n Unit := do
  acquiresleep ip
  let s ← get
  (if s.valid ip ∧ (s.inode ip).nlink = 0 ∧ s.ref ip = 1 then ifree ip else return)
  releasesleep ip
  modify fun s =>
    { s with
      ref := update s.ref ip (s.ref ip - 1)
      inUse := if s.ref ip = 1 then s.inUse - 1 else s.inUse }

def iunlockput (ip : Inum) : M n Unit := do
  iunlock ip
  iput ip

/-- The first entry with `p` from offset `i` on, each read with `readi`. -/
def scan (dp : Inum) (p : Dirent → Bool) : List Dirent → Nat → M n (Option (Nat × Dirent))
  | [], _ => return none
  | e :: es, i => do
    bmap dp (i / DPB)
    if p e then return some (i, e) else scan dp p es (i + 1)

def dirlookup (dp : Inum) (name : Name) : M n (Option (Inum × Nat)) := do
  let x ← getInode dp
  panicIf (x.type ≠ .dir) .dirlookupNotDir
  match ← scan dp (Dirent.matches name) x.entries 0 with
  | none => return none
  | some (off, e) => return some (← iget e.inum, off)

/-- Whether the entry has been added. -/
def dirlink (dp : Inum) (name : Name) (inum : Inum) : M n Bool := do
  match ← dirlookup dp name with
  | some (ip, _) => do
    iput ip
    return false
  | none => do
    let x ← getInode dp
    let off := ((← scan dp (fun e => !e.live) x.entries 0).map Prod.fst).getD x.entries.length
    panicIf (MAXFILE * DPB ≤ off) .dirlink
    bmap dp (off / DPB)
    setInode dp { x with entries := put x.entries off ⟨inum, cut name⟩ }
    return true

def namexFrom (nameiparent : Bool) : Nat → Inum → Name → Path → M n (Option (Inum × Name))
  | 0, ip, name, _ => namexEnd ip name
  | fuel + 1, ip, name, path =>
    match skipelem path with
    | none => namexEnd ip name
    | some (name, path) => do
      ilock ip
      if (← getInode ip).type ≠ .dir then do
        iunlockput ip
        return none
      else if nameiparent ∧ path = [] then do
        iunlock ip
        return some (ip, name)
      else match ← dirlookup ip name with
        | none => do
          iunlockput ip
          return none
        | some (next, _) => do
          iunlockput ip
          namexFrom nameiparent fuel next name path
where
  namexEnd (ip : Inum) (name : Name) : M n (Option (Inum × Name)) :=
    if nameiparent then do
      iput ip
      return none
    else return some (ip, name)

def namexStart (t : Fin n) (path : Path) : M n Inum :=
  if path.head? = some slash then iget ROOTINO else do idup ((← get).proc t).cwd

def namex (t : Fin n) (path : Path) (nameiparent : Bool) : M n (Option (Inum × Name)) := do
  let ip ← namexStart t path
  namexFrom nameiparent path.length ip [] path

def namei (t : Fin n) (path : Path) : M n (Option Inum) := do return (← namex t path false).map Prod.fst

def nameiparent (t : Fin n) (path : Path) : M n (Option (Inum × Name)) := namex t path true

def createDots (ip dp : Inum) : M n Unit := do
  let x ← getInode dp
  setInode dp { x with nlink := x.nlink + 1 }
  panicIf ((← dirlink ip dot ip) = false) .createDots
  panicIf ((← dirlink ip dotdot dp) = false) .createDots

/-- `create` of a name that is not there. -/
def createNew (dp : Inum) (name : Name) (type : FileType) : M n Inum := do
  let ip ← ialloc type
  ilock ip
  let x ← getInode ip
  setInode ip { x with nlink := 1 }
  (if type = .dir then createDots ip dp else return)
  panicIf ((← dirlink dp name ip) = false) .createDirlink
  iunlockput dp
  return ip

def create (t : Fin n) (path : Path) (type : FileType) : M n (Option Inum) := do
  match ← nameiparent t path with
  | none => return none
  | some (dp, name) => do
    ilock dp
    match ← dirlookup dp name with
    | some (ip, _) => do
      iunlockput dp
      ilock ip
      if type = .file ∧ (← getInode ip).type = .file then return some ip
      else do
        iunlockput ip
        return none
    | none => return some (← createNew dp name type)

def filealloc : M n (Option File) := do
  let s ← get
  match (List.finRange NFILE).find? fun f => (s.file f).ref = 0 with
  | none => return none
  | some f => do
    set { s with file := update s.file f { s.file f with ref := 1 } }
    return some f

def fdalloc (t : Fin n) (f : File) : M n (Option Fd) := do
  let s ← get
  match (List.finRange NOFILE).find? fun fd => (s.proc t).ofile fd = none with
  | none => return none
  | some fd => do
    set { s with proc := update s.proc t
                   { s.proc t with ofile := update (s.proc t).ofile fd (some f) } }
    return some fd

def fileclose (f : File) : M n Unit := do
  let s ← get
  let x := s.file f
  panicIf (x.ref < 1) .fileclose
  if x.ref - 1 > 0 then set { s with file := update s.file f { x with ref := x.ref - 1 } }
  else do
    set { s with file := update s.file f ⟨0, none⟩ }
    match x.ip with
    | none => return
    | some ip => iput ip

def filedup (f : File) : M n Unit := do
  let s ← get
  let x := s.file f
  panicIf (x.ref < 1) .filedup
  set { s with file := update s.file f { x with ref := x.ref + 1 } }

def setFd (t : Fin n) (fd : Fd) (f : Option File) : M n Unit := modify fun s =>
  { s with proc := update s.proc t { s.proc t with ofile := update (s.proc t).ofile fd f } }

/-- `sys_open` from `filealloc` on, with the inode locked. -/
def openFile (t : Fin n) (ip : Inum) : M n Int := do
  match ← filealloc with
  | none => do
    iunlockput ip
    return -1
  | some f => do
    match ← fdalloc t f with
    | none => do
      fileclose f
      iunlockput ip
      return -1
    | some fd => do
      iunlock ip
      modify fun s => { s with file := update s.file f { s.file f with ip := some ip } }
      return fd

def sys_open (t : Fin n) (path : Path) (omode : Nat) : M n Int := do
  if omode &&& O_CREATE ≠ 0 then
    match ← create t path .file with
    | none => return -1
    | some ip => openFile t ip
  else
    match ← namei t path with
    | none => return -1
    | some ip => do
      ilock ip
      if (← getInode ip).type = .dir ∧ omode ≠ 0 then do
        iunlockput ip
        return -1
      else openFile t ip

def sys_make (t : Fin n) (path : Path) (type : FileType) : M n Int := do
  match ← create t path type with
  | none => return -1
  | some ip => do
    iunlockput ip
    return 0

def sys_mkdir (t : Fin n) (path : Path) : M n Int := sys_make t path .dir

def sys_mknod (t : Fin n) (path : Path) : M n Int := sys_make t path .dev

/-- `bad:` of `sys_link`. -/
def linkBad (ip : Inum) : M n Int := do
  ilock ip
  let x ← getInode ip
  setInode ip { x with nlink := x.nlink - 1 }
  iunlockput ip
  return -1

/-- `sys_link` with the directory of the new name. -/
def linkAt (dp : Inum) (name : Name) (ip : Inum) : M n Int := do
  ilock dp
  if ← dirlink dp name ip then do
    iunlockput dp
    iput ip
    return 0
  else do
    iunlockput dp
    linkBad ip

def sys_link (t : Fin n) (old new : Path) : M n Int := do
  match ← namei t old with
  | none => return -1
  | some ip => do
    ilock ip
    let x ← getInode ip
    if x.type = .dir then do
      iunlockput ip
      return -1
    else do
      setInode ip { x with nlink := x.nlink + 1 }
      iunlock ip
      match ← nameiparent t new with
      | none => linkBad ip
      | some (dp, name) => linkAt dp name ip

def isdirempty (dp : Inum) : M n Bool := do
  let x ← getInode dp
  return (← scan dp Dirent.live (x.entries.drop 2) 2).isNone

/-- `sys_unlink` of an entry that may go. -/
def unlinkEntry (dp ip : Inum) (off : Nat) : M n Unit := do
  bmap dp (off / DPB)
  let d ← getInode dp
  let x ← getInode ip
  let d := { d with entries := put d.entries off ⟨0, []⟩ }
  setInode dp (if x.type = .dir then { d with nlink := d.nlink - 1 } else d)
  iunlockput dp
  let x ← getInode ip
  setInode ip { x with nlink := x.nlink - 1 }
  iunlockput ip

def sys_unlink (t : Fin n) (path : Path) : M n Int := do
  match ← nameiparent t path with
  | none => return -1
  | some (dp, name) => do
    ilock dp
    if namecmp name dot ∨ namecmp name dotdot then bad dp
    else match ← dirlookup dp name with
      | none => bad dp
      | some (ip, off) => do
        ilock ip
        let x ← getInode ip
        panicIf (x.nlink < 1) .unlinkNlink
        if ← (if x.type = .dir then isdirempty ip else return true) then do
          unlinkEntry dp ip off
          return 0
        else do
          iunlockput ip
          bad dp
where
  bad (dp : Inum) : M n Int := do
    iunlockput dp
    return -1

def sys_chdir (t : Fin n) (path : Path) : M n Int := do
  match ← namei t path with
  | none => return -1
  | some ip => do
    ilock ip
    if (← getInode ip).type ≠ .dir then do
      iunlockput ip
      return -1
    else do
      iunlock ip
      iput ((← get).proc t).cwd
      modify fun s => { s with proc := update s.proc t { s.proc t with cwd := ip } }
      return 0

def sys_close (t : Fin n) (fd : Fd) : M n Int := do
  match ((← get).proc t).ofile fd with
  | none => return -1
  | some f => do
    setFd t fd none
    fileclose f
    return 0

def forkFiles (t np : Fin n) : List Fd → M n Unit
  | [] => return
  | fd :: fds => do
    match ((← get).proc t).ofile fd with
    | none => forkFiles t np fds
    | some f => do
      filedup f
      setFd np fd (some f)
      forkFiles t np fds

/-- `fork` into the slot that `allocproc` has found. -/
def fork (t np : Fin n) : M n Int := do
  if ((← get).proc np).live then return -1
  else do
    forkFiles t np (List.finRange NOFILE)
    let cwd ← idup ((← get).proc t).cwd
    modify fun s => { s with proc := update s.proc np { s.proc np with live := true, cwd } }
    return np

def exitFiles (t : Fin n) : List Fd → M n Unit
  | [] => return
  | fd :: fds => do
    match ((← get).proc t).ofile fd with
    | none => exitFiles t fds
    | some f => do
      fileclose f
      setFd t fd none
      exitFiles t fds

def exit (initproc t : Fin n) : M n Int := do
  panicIf (t = initproc) .initExiting
  exitFiles t (List.finRange NOFILE)
  iput ((← get).proc t).cwd
  modify fun s => { s with proc := update s.proc t { s.proc t with live := false } }
  return 0

inductive Call (n : Nat) where
  | open (path : Path) (omode : Nat)
  | mkdir (path : Path)
  | mknod (path : Path)
  | link (old new : Path)
  | unlink (path : Path)
  | chdir (path : Path)
  | close (fd : Fd)
  | fork (np : Fin n)
  | exit

def call (initproc t : Fin n) : Call n → M n Int
  | .open path omode => sys_open t path omode
  | .mkdir path => sys_mkdir t path
  | .mknod path => sys_mknod t path
  | .link old new => sys_link t old new
  | .unlink path => sys_unlink t path
  | .chdir path => sys_chdir t path
  | .close fd => sys_close t fd
  | .fork np => fork t np
  | .exit => exit initproc t

/-- One whole call of a process, when it returns; no other process is in a call meanwhile. -/
def step (initproc : Fin n) (s : State n) (e : Fin n × Call n) : Option (State n) :=
  if (s.proc e.1).live then
    match call initproc e.1 e.2 s with
    | .ok (_, s) => some s
    | .error _ => none
  else none

structure Image where
  inode : Inum → Dinode
  mapped : Inum → Nat
  free : Nat

def boot (initproc : Fin n) (image : Image) : State n where
  inode := image.inode
  mapped := image.mapped
  free := image.free
  ref := fun i => if i = ROOTINO then 1 else 0
  valid := fun _ => false
  locked := fun _ => false
  inUse := 1
  file := fun _ => ⟨0, none⟩
  proc := fun t => ⟨t = initproc, ROOTINO, fun _ => none⟩

def nmeta : Nat := 59

/-- The root directory that `mkfs` makes, with one entry for each file. Its size is rounded up to a block, or to the
next one when it ends with a block. -/
def rootDirectory (files : List (Name × Nat)) : List Dirent :=
  let entries := ⟨ROOTINO, dot⟩ :: ⟨ROOTINO, dotdot⟩ :: files.mapIdx fun i x => ⟨Fin.ofNat NINODES (i + 2), cut x.1⟩
  entries ++ List.replicate (DPB - entries.length % DPB) ⟨0, []⟩

def mkfs (files : List (Name × Nat)) : Image where
  inode i :=
    if i = ROOTINO then ⟨.dir, 1, rootDirectory files⟩
    else if 2 ≤ i.val ∧ i.val < files.length + 2 then ⟨.file, 1, []⟩
    else ⟨.none, 0, []⟩
  mapped i :=
    if i = ROOTINO then (files.length + 2 + DPB - 1) / DPB
    else if 2 ≤ i.val then (files.getD (i.val - 2) ([], 0)).2
    else 0
  free := FSSIZE - nmeta - (blocks ((files.length + 2 + DPB - 1) / DPB) + (files.map fun x => blocks x.2).sum)

end Xv6.Namespace
