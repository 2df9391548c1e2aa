import Xv6.Library.Layout

/-!
# grep

The matcher and the reading loop of grep.c. A string stands without its final NUL.
-/

namespace Xv6.Grep
open Xv6.Library

def newline : Byte := 10
def dollar : Byte := 36
def star : Byte := 42
def dot : Byte := 46
def caret : Byte := 94

/-- `matchstar(c, re, text)`, given `matchhere(re, ·)` -/
def matchstar (c : Byte) (matchhere : List Byte → Bool) : List Byte → Bool
  | [] => matchhere []
  | x :: text => matchhere (x :: text) || ((x = c || c = dot) && matchstar c matchhere text)

/-- `*text!='\0' && (c=='.' || c==*text)`, and then `matchhere(re, text+1)` -/
def matchone (c : Byte) (matchhere : List Byte → Bool) : List Byte → Bool
  | [] => false
  | x :: text => (c = dot || c = x) && matchhere text

def matchhere : List Byte → List Byte → Bool
  | [], _ => true
  | [c], text => if c = dollar then text.isEmpty else matchone c (matchhere []) text
  | c :: d :: re, text => if d = star then matchstar c (matchhere re) text else matchone c (matchhere (d :: re)) text

/-- The loop of `match`, over the ends of the text. -/
def matchany (matchhere : List Byte → Bool) : List Byte → Bool
  | [] => matchhere []
  | x :: text => matchhere (x :: text) || matchany matchhere text

/-- `match(re, text)` -/
def matchText (re text : List Byte) : Bool :=
  match re with
  | [] => matchany (matchhere []) text
  | c :: re => if c = caret then matchhere re text else matchany (matchhere (c :: re)) text

/-- `strchr(p, '\n')`: what stands before the newline, and what stands after it. -/
def findLine : List Byte → Option (List Byte × List Byte)
  | [] => none
  | b :: p =>
      if b = 0 then none
      else if b = newline then some ([], p)
      else (findLine p).map fun r => (b :: r.1, r.2)

/-- The loop over the lines in the buffer: what is written, and what is left. A line takes a byte at least. -/
def scan (re : List Byte) : Nat → List Byte → List Byte × List Byte
  | 0, p => ([], p)
  | n + 1, p =>
      match findLine p with
      | none => ([], p)
      | some (line, rest) =>
          let r := scan re n rest
          ((if matchText re line then line ++ [newline] else []) ++ r.1, r.2)

/-- What `grep` writes when its calls of `read` return the given pieces, with `buf` in the buffer. -/
def grep (re : List Byte) : List (List Byte) → List Byte → List Byte
  | [], _ => []
  | piece :: pieces, buf =>
      if piece = [] then []
      else
        let r := scan re (buf ++ piece).length (buf ++ piece)
        r.1 ++ grep re pieces (if r.2.length = (buf ++ piece).length then [] else r.2)

end Xv6.Grep
