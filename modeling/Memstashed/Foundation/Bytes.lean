import Memstashed.Foundation.Word
import Mathlib.Data.List.Basic

/-!
# Byte strings and the string operations of the C++ standard library

A `std::string` is a list of bytes.  `find`, `substr`, `stoul` and `toDecimal`
follow the documented behaviour of `string::find`, `string::substr`,
`std::stoul` and `std::to_string`; the two exceptions they can raise are the
constructors of `StdException`.
-/

namespace Memstashed.Foundation

abbrev Bytes := List UInt8

def byteOfChar (c : Char) : UInt8 := UInt8.ofNat c.toNat

def ascii (s : String) : Bytes := s.toList.map byteOfChar

def space : UInt8 := 32

def crlf : Bytes := [13, 10]

inductive StdException where
  | invalidArgument
  | outOfRange
  deriving DecidableEq, Repr

/-! ## Searching and cutting -/

def npos : Nat := wordMax

def find? (needle : Bytes) : Bytes → Option Nat
  | [] => if needle = [] then some 0 else none
  | b :: s =>
      if needle.isPrefixOf (b :: s) then some 0
      else (find? needle s).map (· + 1)

def find (s needle : Bytes) (pos : Nat) : Nat :=
  match find? needle (s.drop pos) with
  | some i => pos + i
  | none => npos

def substr (s : Bytes) (pos n : Nat) : Except StdException Bytes :=
  if s.length < pos then .error .outOfRange
  else .ok ((s.drop pos).take n)

/-! ## Numbers -/

def isSpaceByte (b : UInt8) : Bool := b == 32 || (9 ≤ b && b ≤ 13)

def isDigitByte (b : UInt8) : Bool := 48 ≤ b && b ≤ 57

def digitsValue (digits : Bytes) : Nat :=
  digits.foldl (fun value b => 10 * value + (b.toNat - 48)) 0

def splitSign : Bytes → Bool × Bytes
  | 45 :: rest => (true, rest)
  | 43 :: rest => (false, rest)
  | rest => (false, rest)

/-- `stoul(s)`: leading white space, an optional sign, then the longest run of
digits.  What follows the digits is ignored. -/
def stoul (s : Bytes) : Except StdException Nat :=
  let (negative, rest) := splitSign (s.dropWhile isSpaceByte)
  let digits := rest.takeWhile isDigitByte
  if digits = [] then .error .invalidArgument
  else if wordMax < digitsValue digits then .error .outOfRange
  else .ok (if negative then wordSub 0 (digitsValue digits)
    else digitsValue digits)

def toDecimal (n : Nat) : Bytes := (Nat.toDigits 10 n).map byteOfChar

theorem toDecimal_ne_nil (n : Nat) : toDecimal n ≠ [] := by
  simp [toDecimal]

private theorem toNat_byteOfChar_of_isDigit {c : Char} (h : c.isDigit = true) :
    (byteOfChar c).toNat = c.toNat := by
  simp only [Char.isDigit, Bool.and_eq_true, decide_eq_true_eq] at h
  have hle : c.toNat ≤ 57 := UInt32.le_iff_toNat_le.mp h.2
  simp only [byteOfChar, UInt8.toNat_ofNat']
  omega

theorem isDigitByte_of_mem_toDecimal {n : Nat} {b : UInt8}
    (h : b ∈ toDecimal n) : isDigitByte b = true := by
  obtain ⟨c, hc, rfl⟩ := List.mem_map.mp h
  have hdigit := Nat.isDigit_of_mem_toDigits (by decide) (by decide) hc
  have hnat := toNat_byteOfChar_of_isDigit hdigit
  simp only [Char.isDigit, Bool.and_eq_true, decide_eq_true_eq] at hdigit
  have hlow : 48 ≤ c.toNat := UInt32.le_iff_toNat_le.mp hdigit.1
  have hhigh : c.toNat ≤ 57 := UInt32.le_iff_toNat_le.mp hdigit.2
  simp only [isDigitByte, Bool.and_eq_true, decide_eq_true_eq,
    UInt8.le_iff_toNat_le, hnat]
  exact ⟨hlow, hhigh⟩

private theorem foldl_map_byteOfChar (chars : List Char)
    (h : ∀ c ∈ chars, c.isDigit = true) (value : Nat) :
    (chars.map byteOfChar).foldl
        (fun value b => 10 * value + (b.toNat - 48)) value =
      Nat.ofDigitChars 10 chars value := by
  induction chars generalizing value with
  | nil => rfl
  | cons c chars ih =>
      have hc := toNat_byteOfChar_of_isDigit (h c (by simp))
      rw [List.map_cons, List.foldl_cons, Nat.ofDigitChars_cons, hc]
      exact ih (fun d hd => h d (by simp [hd])) _

@[simp] theorem digitsValue_toDecimal (n : Nat) :
    digitsValue (toDecimal n) = n := by
  have hdigits : ∀ c ∈ Nat.toDigits 10 n, c.isDigit = true :=
    fun c hc => Nat.isDigit_of_mem_toDigits (by decide) (by decide) hc
  exact (foldl_map_byteOfChar _ hdigits 0).trans
    Nat.ofDigitChars_ten_toDigits

theorem toDecimal_injective : Function.Injective toDecimal := by
  intro m n h
  simpa using congrArg digitsValue h

end Memstashed.Foundation
