import Xv6.Library.Program
import Xv6.Kernel.Namespace

/-!
# The inode cache

`open`, `close`, `dup`, `fork`, `exit`, `chdir` and `unlink`, called by any processes at any time. A process performs
one operation at a time: a critical section of `icache.lock`, `ftable.lock` or `ptable.lock`, taking or giving back the
sleep lock of an inode, an access to what that lock protects, or an access to an inode on the disk while its buffer is
locked. What the directories contain is left open: a lookup may find any inode number.
-/

namespace Xv6.InodeCache
open Xv6.Library Xv6.Directory
open Function (update)
open Xv6.Namespace (FileType File Fd O_CREATE)

abbrev Slot := Fin NINODE

instance : NeZero NINODE := ⟨by decide⟩

structure Dinode where
  type : FileType
  nlink : Int16
  deriving DecidableEq

structure Inode (n : Nat) where
  inum : Inum
  ref : Nat
  lock : Option (Fin n)
  valid : Bool
  type : FileType
  nlink : Int16

/-- A `struct file`, with its inode when its type is `FD_INODE`. -/
structure Entry where
  ref : Nat
  ip : Option Slot

inductive Status where
  | unused
  | embryo
  | live
  | zombie
  deriving DecidableEq

structure Proc where
  status : Status
  cwd : Option Slot
  -- the reference in `cwd` has been passed to `iput`
  given : Bool
  ofile : Fd → Option File
  -- the references to an inode in the variables of the call in progress
  held : Slot → Nat

structure Shared (n : Nat) where
  inode : Slot → Inode n
  disk : Inum → Dinode
  file : File → Entry
  proc : Fin n → Proc

inductive Op (n : Nat) where
  | iget (inum : Inum)
  | idupCwd
  | checkRef (ip : Slot)
  | acquiresleep (ip : Slot)
  | releasesleep (ip : Slot)
  | getInode (ip : Slot)
  | load (ip : Slot)
  | setNlink (ip : Slot) (f : Int16 → Int16)
  | iupdate (ip : Slot)
  | getRef (ip : Slot)
  | truncate (ip : Slot)
  | invalidate (ip : Slot)
  | decRef (ip : Slot)
  | takeDinode (type : FileType)
  | lookup (dp : Slot) (name : Name)
  | isdirempty (dp : Slot)
  | filealloc
  | filedup (f : File)
  | fileclose (f : File)
  | setIp (f : File) (ip : Slot)
  | getFd (fd : Fd)
  | clearFd (fd : Fd)
  | fdalloc (f : File)
  | handCwd
  | setCwd (ip : Slot)
  | clearCwd
  | allocproc
  | childFd (np : Fin n) (fd : Fd) (f : File)
  | childCwd (np : Fin n) (ip : Slot)
  | childRun (np : Fin n)
  | zombie
  | panic

variable {n : Nat}

@[reducible] def Res : Op n → Type
  | .iget _ | .idupCwd | .handCwd => Slot
  | .getInode _ => Bool × Dinode
  | .load _ => Dinode
  | .getRef _ => Nat
  | .takeDinode _ => Inum
  | .lookup _ _ => Option Inum
  | .isdirempty _ => Bool
  | .filealloc | .getFd _ => Option File
  | .fileclose _ => Option Slot
  | .fdalloc _ => Option Fd
  | .allocproc => Option (Fin n)
  | .checkRef _ | .acquiresleep _ | .releasesleep _ | .setNlink _ _ | .iupdate _ | .truncate _ | .invalidate _
  | .decRef _
  | .filedup _ | .setIp _ _ | .clearFd _ | .setCwd _ | .clearCwd | .childFd _ _ _ | .childCwd _ _ | .childRun _
  | .zombie
  | .panic => Unit

/-- What the state does not determine: the inode number that a directory or the search for a free inode gives, whether a
directory is empty or a process has been found, and which. -/
structure Choice (n : Nat) where
  inum : Option Inum
  flag : Bool
  np : Fin n

def Shared.setInode (s : Shared n) (ip : Slot) (x : Inode n) : Shared n := { s with inode := update s.inode ip x }

def Shared.setDisk (s : Shared n) (inum : Inum) (d : Dinode) : Shared n := { s with disk := update s.disk inum d }

def Shared.setFile (s : Shared n) (f : File) (x : Entry) : Shared n := { s with file := update s.file f x }

def Shared.setProc (s : Shared n) (t : Fin n) (p : Proc) : Shared n := { s with proc := update s.proc t p }

def Proc.take (p : Proc) (ip : Slot) : Proc := { p with held := update p.held ip (p.held ip + 1) }

def Proc.drop (p : Proc) (ip : Slot) : Proc := { p with held := update p.held ip (p.held ip - 1) }

def cached (s : Shared n) (inum : Inum) : Option Slot :=
  (List.finRange NINODE).find? fun ip => 0 < (s.inode ip).ref ∧ (s.inode ip).inum = inum

def empty (s : Shared n) : Option Slot := (List.finRange NINODE).find? fun ip => (s.inode ip).ref = 0

def igetSlot (s : Shared n) (inum : Inum) : Option (Shared n × Slot) :=
  match cached s inum with
  | some ip => some (s.setInode ip { s.inode ip with ref := (s.inode ip).ref + 1 }, ip)
  | none =>
    match empty s with
    | some ip => some (s.setInode ip { s.inode ip with inum := inum, ref := 1, valid := false }, ip)
    | none => none

/-- One operation of process `t`; it does not return when the process has to wait or the kernel panics. -/
def act (s : Shared n) (t : Fin n) : (o : Op n) → Choice n → Option (Shared n × Res o)
  | .iget inum, _ => (igetSlot s inum).map fun (s', ip) => (s'.setProc t ((s.proc t).take ip), ip)
  | .idupCwd, _ =>
    match (s.proc t).cwd with
    | some ip =>
      some ((s.setInode ip { s.inode ip with ref := (s.inode ip).ref + 1 }).setProc t ((s.proc t).take ip), ip)
    | none => none
  | .checkRef ip, _ => if 0 < (s.inode ip).ref then some (s, ()) else none
  | .acquiresleep ip, _ =>
    if (s.inode ip).lock = none then some (s.setInode ip { s.inode ip with lock := some t }, ()) else none
  | .releasesleep ip, _ =>
    if (s.inode ip).lock = some t then some (s.setInode ip { s.inode ip with lock := none }, ()) else none
  | .getInode ip, _ => some (s, ((s.inode ip).valid, ⟨(s.inode ip).type, (s.inode ip).nlink⟩))
  | .load ip, _ =>
    let d := s.disk (s.inode ip).inum
    -- otherwise it panics
    if d.type ≠ .none then
      some (s.setInode ip { s.inode ip with valid := true, type := d.type, nlink := d.nlink }, d)
    else none
  | .setNlink ip f, _ => some (s.setInode ip { s.inode ip with nlink := f (s.inode ip).nlink }, ())
  | .iupdate ip, _ => some (s.setDisk (s.inode ip).inum ⟨(s.inode ip).type, (s.inode ip).nlink⟩, ())
  | .getRef ip, _ => some (s, (s.inode ip).ref)
  | .truncate ip, _ => some (s.setInode ip { s.inode ip with type := .none }, ())
  | .invalidate ip, _ => some (s.setInode ip { s.inode ip with valid := false }, ())
  | .decRef ip, _ =>
    some ((s.setInode ip { s.inode ip with ref := (s.inode ip).ref - 1 }).setProc t ((s.proc t).drop ip), ())
  | .takeDinode type, c =>
    match c.inum with
    | some inum => if (s.disk inum).type = .none then some (s.setDisk inum ⟨type, 0⟩, inum) else none
    | none => none
  | .lookup _ _, c => some (s, c.inum)
  | .isdirempty _, c => some (s, c.flag)
  | .filealloc, _ =>
    match (List.finRange NFILE).find? fun f => (s.file f).ref = 0 with
    | some f => some (s.setFile f { s.file f with ref := 1 }, some f)
    | none => some (s, none)
  | .filedup f, _ =>
    if 1 ≤ (s.file f).ref then some (s.setFile f { s.file f with ref := (s.file f).ref + 1 }, ()) else none
  | .fileclose f, _ =>
    if (s.file f).ref < 1 then none
    else if 1 < (s.file f).ref then some (s.setFile f { s.file f with ref := (s.file f).ref - 1 }, none)
    else
      match (s.file f).ip with
      | some ip => some ((s.setFile f ⟨0, none⟩).setProc t ((s.proc t).take ip), some ip)
      | none => some (s.setFile f ⟨0, none⟩, none)
  | .setIp f ip, _ => some ((s.setFile f { s.file f with ip := some ip }).setProc t ((s.proc t).drop ip), ())
  | .getFd fd, _ => some (s, (s.proc t).ofile fd)
  | .clearFd fd, _ => some (s.setProc t { s.proc t with ofile := update (s.proc t).ofile fd none }, ())
  | .fdalloc f, _ =>
    match (List.finRange NOFILE).find? fun fd => (s.proc t).ofile fd = none with
    | some fd => some (s.setProc t { s.proc t with ofile := update (s.proc t).ofile fd (some f) }, some fd)
    | none => some (s, none)
  | .handCwd, _ =>
    match (s.proc t).cwd with
    | some ip => some (s.setProc t { (s.proc t).take ip with given := true }, ip)
    | none => none
  | .setCwd ip, _ => some (s.setProc t { (s.proc t).drop ip with cwd := some ip, given := false }, ())
  | .clearCwd, _ => some (s.setProc t { s.proc t with cwd := none, given := false }, ())
  | .allocproc, c =>
    if c.flag then
      if (s.proc c.np).status = .unused then some (s.setProc c.np { s.proc c.np with status := .embryo }, some c.np)
      else none
    else some (s, none)
  | .childFd np fd f, _ =>
    some (s.setProc np { s.proc np with ofile := update (s.proc np).ofile fd (some f) }, ())
  | .childCwd np ip, _ =>
    let s' := s.setProc t ((s.proc t).drop ip)
    some (s'.setProc np { s'.proc np with cwd := some ip }, ())
  | .childRun np, _ => some (s.setProc np { s.proc np with status := .live }, ())
  | .zombie, _ => some (s.setProc t { s.proc t with status := .zombie }, ())
  | .panic, _ => none

abbrev Program (n : Nat) := Prog (Op n) Res

abbrev perform (o : Op n) : Program n (Res o) := Prog.perform o

def ilock (ip : Slot) : Program n Dinode := do
  perform (.checkRef ip)
  perform (.acquiresleep ip)
  let (valid, d) : Bool × Dinode ← perform (.getInode ip)
  if valid then return d else perform (.load ip)

def iunlock (ip : Slot) : Program n Unit := do
  perform (.checkRef ip)
  perform (.releasesleep ip)

def ifree (ip : Slot) : Program n Unit := do
  let r ← perform (.getRef ip)
  if r = 1 then do
    perform (.truncate ip)
    perform (.iupdate ip)
    perform (.invalidate ip)
  else return

def iput (ip : Slot) : Program n Unit := do
  perform (.acquiresleep ip)
  let (valid, d) : Bool × Dinode ← perform (.getInode ip)
  (if valid = true ∧ d.nlink = 0 then ifree ip else return)
  perform (.releasesleep ip)
  perform (.decRef ip)

def iunlockput (ip : Slot) : Program n Unit := do
  iunlock ip
  iput ip

def ialloc (type : FileType) : Program n Slot := do
  let inum ← perform (.takeDinode type)
  perform (.iget inum)

def dirlookup (dp : Slot) (name : Name) : Program n (Option Slot) := do
  match ← perform (.lookup dp name) with
  | none => return none
  | some inum => do
    let ip ← perform (.iget inum)
    return some ip

/-- The entry is written when there is none of that name; the result is whether it was. -/
def dirlink (dp : Slot) (name : Name) : Program n Bool := do
  match ← dirlookup dp name with
  | some ip => do
    iput ip
    return false
  | none => return true

def namexFrom (nameiparent : Bool) : Nat → Slot → Name → Path → Program n (Option (Slot × Name))
  | 0, ip, name, _ => namexEnd ip name
  | fuel + 1, ip, name, path =>
    match skipelem path with
    | none => namexEnd ip name
    | some (name, path) => do
      let d ← ilock ip
      if d.type ≠ .dir then do
        iunlockput ip
        return none
      else if nameiparent ∧ path = [] then do
        iunlock ip
        return some (ip, name)
      else do
        match ← dirlookup ip name with
        | none => do
          iunlockput ip
          return none
        | some next => do
          iunlockput ip
          namexFrom nameiparent fuel next name path
where
  namexEnd (ip : Slot) (name : Name) : Program n (Option (Slot × Name)) :=
    if nameiparent then do
      iput ip
      return none
    else return some (ip, name)

def namexStart (path : Path) : Program n Slot :=
  if path.head? = some slash then perform (.iget ROOTINO) else perform .idupCwd

def namex (path : Path) (nameiparent : Bool) : Program n (Option (Slot × Name)) := do
  let ip ← namexStart path
  namexFrom nameiparent path.length ip [] path

/-- `create` of a file. -/
def create (path : Path) : Program n (Option Slot) := do
  match ← namex path true with
  | none => return none
  | some (dp, name) => do
    let _ ← ilock dp
    match ← dirlookup dp name with
    | some ip => do
      iunlockput dp
      let d ← ilock ip
      if d.type = .file then return some ip
      else do
        iunlockput ip
        return none
    | none => do
      let ip ← ialloc .file
      let _ ← ilock ip
      perform (.setNlink ip fun _ => 1)
      perform (.iupdate ip)
      let linked ← dirlink dp name
      (if linked then return else perform .panic)
      iunlockput dp
      return some ip

def fileclose (f : File) : Program n Unit := do
  match ← perform (.fileclose f) with
  | none => return
  | some ip => iput ip

def openFile (ip : Slot) : Program n Int := do
  match ← perform .filealloc with
  | none => do
    iunlockput ip
    return -1
  | some f => do
    match ← perform (.fdalloc f) with
    | none => do
      fileclose f
      iunlockput ip
      return -1
    | some fd => do
      iunlock ip
      perform (.setIp f ip)
      return fd

def sys_open (path : Path) (omode : Nat) : Program n Int := do
  if omode &&& O_CREATE ≠ 0 then do
    match ← create path with
    | none => return -1
    | some ip => openFile ip
  else do
    match ← namex path false with
    | none => return -1
    | some (ip, _) => do
      let d ← ilock ip
      if d.type = .dir ∧ omode ≠ 0 then do
        iunlockput ip
        return -1
      else openFile ip

def sys_close (fd : Fd) : Program n Int := do
  match ← perform (.getFd fd) with
  | none => return -1
  | some f => do
    perform (.clearFd fd)
    fileclose f
    return 0

def sys_dup (fd : Fd) : Program n Int := do
  match ← perform (.getFd fd) with
  | none => return -1
  | some f => do
    match ← perform (.fdalloc f) with
    | none => return -1
    | some fd => do
      perform (.filedup f)
      return fd

def sys_chdir (path : Path) : Program n Int := do
  match ← namex path false with
  | none => return -1
  | some (ip, _) => do
    let d ← ilock ip
    if d.type ≠ .dir then do
      iunlockput ip
      return -1
    else do
      iunlock ip
      let cwd ← perform .handCwd
      iput cwd
      perform (.setCwd ip)
      return 0

/-- `sys_unlink` once the entry and its inode have been found, both inodes locked. -/
def unlinkEntry (dp ip : Slot) (type : FileType) : Program n Int := do
  (if type = .dir then do
      perform (.setNlink dp (· - 1))
      perform (.iupdate dp)
    else return)
  iunlockput dp
  perform (.setNlink ip (· - 1))
  perform (.iupdate ip)
  iunlockput ip
  return 0

def sys_unlink (path : Path) : Program n Int := do
  match ← namex path true with
  | none => return -1
  | some (dp, name) => do
    let _ ← ilock dp
    if namecmp name dot ∨ namecmp name dotdot then bad dp
    else do
      match ← dirlookup dp name with
      | none => bad dp
      | some ip => do
        let d ← ilock ip
        (if d.nlink < 1 then perform .panic else return)
        let empty ← (if d.type = .dir then perform (.isdirempty ip) else return true)
        if empty = false then do
          iunlockput ip
          bad dp
        else unlinkEntry dp ip d.type
where
  bad (dp : Slot) : Program n Int := do
    iunlockput dp
    return -1

def forkFiles (np : Fin n) : List Fd → Program n Unit
  | [] => return
  | fd :: fds => do
    match ← perform (.getFd fd) with
    | some f => do
      perform (.filedup f)
      perform (.childFd np fd f)
      forkFiles np fds
    | none => forkFiles np fds

def fork : Program n Int := do
  match ← perform .allocproc with
  | none => return -1
  | some np => do
    forkFiles np (List.finRange NOFILE)
    let cwd ← perform .idupCwd
    perform (.childCwd np cwd)
    perform (.childRun np)
    return np

def exitFiles : List Fd → Program n Unit
  | [] => return
  | fd :: fds => do
    match ← perform (.getFd fd) with
    | some f => do
      fileclose f
      perform (.clearFd fd)
      exitFiles fds
    | none => exitFiles fds

def exit (initproc t : Fin n) : Program n Int := do
  (if t = initproc then perform .panic else return)
  exitFiles (List.finRange NOFILE)
  let cwd ← perform .handCwd
  iput cwd
  perform .clearCwd
  perform .zombie
  return 0

inductive Call where
  | open (path : Path) (omode : Nat)
  | close (fd : Fd)
  | dup (fd : Fd)
  | fork
  | exit
  | chdir (path : Path)
  | unlink (path : Path)

def call (initproc t : Fin n) : Call → Program n Int
  | .open path omode => sys_open path omode
  | .close fd => sys_close fd
  | .dup fd => sys_dup fd
  | .fork => fork
  | .exit => exit initproc t
  | .chdir path => sys_chdir path
  | .unlink path => sys_unlink path

structure State (n : Nat) where
  shared : Shared n
  prog : Fin n → Program n Unit

inductive Action (n : Nat) where
  /-- A process that is not in a call makes one. -/
  | call (t : Fin n) (c : Call)
  /-- A process performs its next operation. -/
  | go (t : Fin n) (c : Choice n)
  /-- `wait` has found a zombie. -/
  | reap (t : Fin n)

def step (initproc : Fin n) (s : State n) : Action n → Option (State n)
  | .call t c =>
    if (s.shared.proc t).status = .live ∧ (s.prog t).returned = true then
      some { s with prog := update s.prog t (do let _ ← call initproc t c) }
    else none
  | .go t c =>
    if (s.shared.proc t).status = .live then (advance act s.shared s.prog t c).map fun (shared, prog) => ⟨shared, prog⟩
    else none
  | .reap t =>
    if (s.shared.proc t).status = .zombie ∧ (s.prog t).returned = true then
      some { s with shared := s.shared.setProc t { s.shared.proc t with status := .unused } }
    else none

/-- The first process, in the root directory, over any contents of the disk. -/
def boot (initproc : Fin n) (disk : Inum → Dinode) : State n where
  shared :=
    { inode := fun ip => ⟨ROOTINO, if ip = 0 then 1 else 0, none, false, .none, 0⟩
      disk := disk
      file := fun _ => ⟨0, none⟩
      proc := fun t =>
        if t = initproc then ⟨.live, some 0, false, fun _ => none, fun _ => 0⟩
        else ⟨.unused, none, false, fun _ => none, fun _ => 0⟩ }
  prog := fun _ => .ret ()

end Xv6.InodeCache
