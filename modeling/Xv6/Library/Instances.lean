import Mathlib

/-!
# Constants for common instances

The library derives these instances from parameters (`NeZero 64` from `NeZero (n + 1)`), and a definition with such a
derivation gets an auxiliary proof of its own for it. The numerals of slots, queues and processors and the searches in
lists of bytes and words are elaborated with the constants below instead, so that terms of different modules agree.
-/

namespace Xv6.Library

instance neZero_one : NeZero 1 := inferInstance

instance neZero_two : NeZero 2 := inferInstance

instance neZero_three : NeZero 3 := inferInstance

instance neZero_five : NeZero 5 := inferInstance

instance neZero_sixtyFour : NeZero 64 := inferInstance

instance lawfulBEq_byte : LawfulBEq (BitVec 8) := inferInstance

instance lawfulBEq_word : LawfulBEq (BitVec 32) := inferInstance

end Xv6.Library
