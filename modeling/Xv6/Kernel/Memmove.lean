import Xv6.Library.Layout

/-!
# Moving bytes

`memmove` of the kernel (string.c) and of the user library (ulib.c), on a memory of 2^32 bytes.
-/

namespace Xv6.Memmove
open Xv6.Library

def addr (a : Nat) : Nat := a % 2 ^ 32

def copyUp : Nat → Nat → Nat → Bytes → Bytes
  | 0, _, _, m => m
  | n + 1, d, s, m => copyUp n (addr (d + 1)) (addr (s + 1)) (Function.update m d (m s))

def copyDown : Nat → Nat → Nat → Bytes → Bytes
  | 0, _, _, m => m
  | n + 1, d, s, m =>
      let d := addr (d + 2 ^ 32 - 1)
      let s := addr (s + 2 ^ 32 - 1)
      copyDown n d s (Function.update m d (m s))

namespace Kernel

def memmove (dst src n : Nat) (m : Bytes) : Bytes :=
  if src < dst ∧ dst < addr (src + n) then copyDown n (addr (dst + n)) (addr (src + n)) m else copyUp n dst src m

end Kernel

namespace User

def memmove (dst src : Nat) (n : Int) (m : Bytes) : Bytes := copyUp n.toNat dst src m

end User

end Xv6.Memmove
