import Mathlib.Logic.Function.Iterate

/-!
# The 64-bit Mersenne Twister

`std::mt19937_64`: a generator object is determined by its seed, and `output
seed n` is the value returned by the `n`-th call (from 0) on an object seeded
with `seed`.  Words are natural numbers below `2 ^ 64`.
-/

namespace Memstashed.Foundation.MersenneTwister

def stateSize : Nat := 312

def shiftSize : Nat := 156

def mod64 (n : Nat) : Nat := n % 18446744073709551616

/-- The words written by the seeding loop, the latest first. -/
def seedWords (seed : Nat) : Nat → List Nat
  | 0 => [mod64 seed]
  | i + 1 =>
      match seedWords seed i with
      | [] => []
      | x :: xs =>
          mod64 (6364136223846793005 * (x ^^^ (x >>> 62)) + (i + 1)) :: x :: xs

def seedState (seed : Nat) : List Nat :=
  (seedWords seed (stateSize - 1)).reverse

/-- The recurrence: the upper bits of one word, the lower bits of the next, and
the word `shiftSize` places further on. -/
def mix (upper lower far : Nat) : Nat :=
  let y := (upper &&& 0xFFFFFFFF80000000) ||| (lower &&& 0x7FFFFFFF)
  far ^^^ (y >>> 1) ^^^ (if y % 2 = 0 then 0 else 0xB5026F5AA96619E9)

def nextWord (window : List Nat) : Nat :=
  mix (window.getD 0 0) (window.getD 1 0) (window.getD shiftSize 0)

def slide (window : List Nat) : List Nat :=
  window.tail ++ [nextWord window]

def temper (x : Nat) : Nat :=
  let x₁ := x ^^^ ((x >>> 29) &&& 0x5555555555555555)
  let x₂ := x₁ ^^^ (mod64 (x₁ <<< 17) &&& 0x71D67FFFEDA60000)
  let x₃ := x₂ ^^^ (mod64 (x₂ <<< 37) &&& 0xFFF7EEE000000000)
  x₃ ^^^ (x₃ >>> 43)

def output (seed n : Nat) : Nat :=
  temper (nextWord (slide^[n] (seedState seed)))

-- The first value of the default seed, as the standard lists it.
example : output 5489 0 = 14514284786278117030 := by decide +kernel

end Memstashed.Foundation.MersenneTwister
