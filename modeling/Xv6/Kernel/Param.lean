import Xv6.Library.Instances

/-! Limits and sizes that several parts of the kernel share: param.h, fs.h, memlayout.h and mkfs.c. -/

namespace Xv6

def NCPU : Nat := 8
def NOFILE : Nat := 16
def NFILE : Nat := 100
def NINODE : Nat := 50
def NDEV : Nat := 10
def MAXOPBLOCKS : Nat := 10
def LOGSIZE : Nat := MAXOPBLOCKS * 3
def NBUF : Nat := MAXOPBLOCKS * 3
def FSSIZE : Nat := 1000

def BSIZE : Nat := 512
def NDIRECT : Nat := 12
def NINDIRECT : Nat := BSIZE / 4
def MAXFILE : Nat := NDIRECT + NINDIRECT
def DIRSIZ : Nat := 14
def NINODES : Nat := 200

instance : NeZero NINODES := ⟨by decide⟩

def ROOTINO : Fin NINODES := 1

def KERNBASE : Nat := 0x80000000

end Xv6
