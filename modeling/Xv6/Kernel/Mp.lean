import Xv6.Kernel.Param
import Xv6.Library.Layout

/-!
# The multiprocessor table

What `mpconfig` (mp.c) checks of the configuration table, and the loop of `mpinit` over its entries. Positions count
from the start of the table.
-/

namespace Xv6.Mp
open Xv6.Library

def header : Nat := 44

def sum (addr : Bytes) (len : Nat) : Byte := ((List.range len).map addr).sum

/-- The length of a table that `mpconfig` accepts. -/
def mpconfig (conf : Bytes) : Option Nat :=
  let length := field conf 4 2
  if (List.range 4).map conf ≠ [80, 67, 77, 80] then none
  else if conf 6 ≠ 1 ∧ conf 6 ≠ 4 then none
  else if sum conf length ≠ 0 then none
  else some length

structure Scan where
  p : Nat
  ismp : Bool
  apicids : List Byte
  ioapicid : Byte
  deriving DecidableEq

def start : Scan := ⟨header, true, [], 0⟩

/-- The body of the loop. The `break` of the last case leaves the switch. -/
def turn (conf : Bytes) (s : Scan) : Scan :=
  match (conf s.p).toNat with
  | 0 =>
    { s with p := s.p + 20, apicids := if s.apicids.length < NCPU then s.apicids ++ [conf (s.p + 1)] else s.apicids }
  | 2 => { s with p := s.p + 8, ioapicid := conf (s.p + 1) }
  | 1 | 3 | 4 => { s with p := s.p + 8 }
  | _ => { s with ismp := false }

/-- `none` when the loop has not ended after the given number of turns. -/
def scan (conf : Bytes) (length : Nat) : Nat → Scan → Option Scan
  | 0, _ => none
  | n + 1, s => if s.p < length then scan conf length n (turn conf s) else some s

inductive Panic where
  | unsuitable
  deriving DecidableEq

def mpinit (conf : Bytes) (length turns : Nat) : Option (Except Panic Scan) :=
  (scan conf length turns start).map fun s => if s.ismp then .ok s else .error .unsuitable

end Xv6.Mp
