import Xv6.Library.Window

/-!
# The console's input

`consoleintr` and `consoleread` do their work with `cons.lock` held, from `acquire` to `release` or to the `sleep` that
gives the lock up. A step is one keystroke of `consoleintr`, or what a reader does between getting the lock and giving
it up.
-/

namespace Xv6.Console
open Xv6.Library

abbrev Byte := UInt8

def INPUT_BUF : Nat := 128

instance : NeZero INPUT_BUF := ⟨by decide⟩

def ctrl (x : Byte) : Byte := x - 64

def newline : Byte := 10

def ctrlD : Byte := ctrl 68

structure Input where
  buf : Fin INPUT_BUF → Byte
  r : UInt32
  w : UInt32
  e : UInt32

namespace Input

def killLine : Nat → Input → Input
  | 0, input => input
  | fuel + 1, input =>
    if input.e ≠ input.w ∧ input.buf (slot INPUT_BUF (input.e - 1)) ≠ newline then
      killLine fuel { input with e := input.e - 1 }
    else input

def key (input : Input) (c : Byte) : Input × Bool :=
  if c = ctrl 80 then (input, false)
  else if c = ctrl 85 then (input.killLine (input.e - input.w).toNat, false)
  else if c = ctrl 72 ∨ c = 127 then
    if input.e ≠ input.w then ({ input with e := input.e - 1 }, false) else (input, false)
  else if c ≠ 0 ∧ input.e - input.r < UInt32.ofNat INPUT_BUF then
    let c := if c = 13 then newline else c
    let input := { input with buf := Function.update input.buf (slot INPUT_BUF input.e) c, e := input.e + 1 }
    if c = newline ∨ c = ctrlD ∨ input.e = input.r + UInt32.ofNat INPUT_BUF then ({ input with w := input.e }, true)
    else (input, false)
  else (input, false)

end Input

/-- How a reader gives the lock up: asleep with `n` bytes still wanted, or with its result. -/
inductive Outcome where
  | sleeps (n : Nat) (dst : List Byte)
  | returns (dst : List Byte)
  | fails
  deriving DecidableEq

def readLoop (target : Nat) (killed : Bool) : Nat → List Byte → Input → Input × Outcome
  | 0, dst, input => (input, .returns dst)
  | n + 1, dst, input =>
    if input.r = input.w then if killed then (input, .fails) else (input, .sleeps (n + 1) dst)
    else
      let c := input.buf (slot INPUT_BUF input.r)
      let input := { input with r := input.r + 1 }
      if c = ctrlD then
        -- save ^D for next time, so that the caller gets a 0-byte result
        if n + 1 < target then ({ input with r := input.r - 1 }, .returns dst) else (input, .returns dst)
      else if c = newline then (input, .returns (dst ++ [c]))
      else readLoop target killed n (dst ++ [c]) input

inductive Pc where
  | idle
  -- in consoleread(), before it gets the lock
  | ready (target n : Nat) (dst : List Byte)
  | asleep (target n : Nat) (dst : List Byte)
  deriving DecidableEq

structure Proc where
  pc : Pc
  killed : Bool
  deriving DecidableEq

structure State (m : Nat) where
  input : Input
  proc : Fin m → Proc

inductive Action (m : Nat) where
  | key (c : Byte)
  | read (t : Fin m) (n : Nat)
  | go (t : Fin m)
  | kill (t : Fin m)

variable {m : Nat}

def Pc.wake : Pc → Pc
  | .asleep target n dst => .ready target n dst
  | pc => pc

def wakeup (proc : Fin m → Proc) : Fin m → Proc := fun t => { proc t with pc := (proc t).pc.wake }

def Outcome.pc (target : Nat) : Outcome → Pc
  | .sleeps n dst => .asleep target n dst
  | .returns _ | .fails => .idle

def step (s : State m) : Action m → Option (State m)
  | .key c =>
    let (input, woken) := s.input.key c
    some ⟨input, if woken then wakeup s.proc else s.proc⟩
  | .read t n =>
    if (s.proc t).pc = .idle then some { s with proc := Function.update s.proc t { s.proc t with pc := .ready n n [] } }
    else none
  | .go t =>
    match (s.proc t).pc with
    | .ready target n dst =>
      let (input, outcome) := readLoop target (s.proc t).killed n dst s.input
      some ⟨input, Function.update s.proc t { s.proc t with pc := outcome.pc target }⟩
    | _ => none
  | .kill t => some { s with proc := Function.update s.proc t ⟨(s.proc t).pc.wake, true⟩ }

/-- Nothing has been typed. The indices may start anywhere. -/
def boot (buf : Fin INPUT_BUF → Byte) (index : UInt32) : State m where
  input := ⟨buf, index, index, index⟩
  proc := fun _ => ⟨.idle, false⟩

end Xv6.Console
