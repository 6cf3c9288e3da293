import Mathlib.Data.Nat.Basic
import Mathlib.Tactic.Ring

/-!
# Unsigned 32-bit arithmetic on natural numbers

On the x86 target `unsigned int`, `unsigned long` and `size_t` are all 32 bits
wide.  A machine word is a natural number below `wordSize`; every operation that
can leave that range reduces its result explicitly.
-/

namespace Memstashed.Foundation

def wordSize : Nat := 4294967296

def wordMax : Nat := 4294967295

def toWord (n : Nat) : Nat := n % 4294967296

/-- Unsigned subtraction; a negative result wraps around. -/
def wordSub (a b : Nat) : Nat :=
  (a + (4294967296 - b % 4294967296)) % 4294967296

def wordToInt (n : Nat) : Int :=
  if n < 2147483648 then (n : Int) else (n : Int) - 4294967296

theorem toWord_lt (n : Nat) : toWord n < wordSize := by
  unfold toWord wordSize
  omega

@[simp] theorem toWord_of_lt {n : Nat} (h : n < wordSize) : toWord n = n := by
  unfold toWord wordSize at *
  omega

theorem wordSub_of_le {a b : Nat} (ha : a < wordSize) (h : b ≤ a) :
    wordSub a b = a - b := by
  unfold wordSub wordSize at *
  omega

theorem toWord_add_wordSub {a b : Nat} (ha : a < wordSize) :
    toWord (b + wordSub a b) = a := by
  unfold toWord wordSub wordSize at *
  omega

end Memstashed.Foundation
