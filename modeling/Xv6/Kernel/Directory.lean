import Xv6.Kernel.Param

/-!
# Names and directories

`skipelem` and the contents of a directory, a list of entries of which those with inode number 0 are free.
-/

namespace Xv6.Directory

abbrev Byte := UInt8
abbrev Name := List Byte
abbrev Path := List Byte
abbrev Inum := Fin NINODES

def slash : Byte := 47
def dot : Name := [46]
def dotdot : Name := [46, 46]

def skipelem (path : Path) : Option (Name × Path) :=
  match path.dropWhile (· = slash) with
  | [] => none
  | s => some ((s.takeWhile (· ≠ slash)).take DIRSIZ, (s.dropWhile (· ≠ slash)).dropWhile (· = slash))

structure Dirent where
  inum : Inum
  name : Name
  deriving DecidableEq

def Dirent.live (e : Dirent) : Bool := e.inum ≠ 0

/-- What an entry keeps of a name. -/
def cut (name : Name) : Name := name.take DIRSIZ

@[simp] theorem cut_dot : cut dot = dot := rfl

@[simp] theorem cut_dotdot : cut dotdot = dotdot := rfl

/-- Whether `namecmp` finds the names equal. -/
def namecmp (s t : Name) : Bool := cut s = cut t

theorem namecmp_iff {s t : Name} : namecmp s t = true ↔ cut s = cut t := decide_eq_true_iff

def Dirent.matches (name : Name) (e : Dirent) : Bool := e.live && namecmp name e.name

def put (entries : List Dirent) (off : Nat) (e : Dirent) : List Dirent :=
  if off < entries.length then entries.set off e else entries ++ [e]

end Xv6.Directory
