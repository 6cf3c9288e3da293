import Memstashed.Scmd.Silence

/-!
# The short form of `append` and `prepend`

Without flags and expiry the index is moved twice between the key and the byte
count, and the first digit of the count is not read.  What is read is what was
written exactly if that digit is a zero.
-/

namespace Memstashed.Scmd

open Memstashed.Foundation
open Memstashed.Dblru

def shortLine (w : Word) (key count : Bytes) : Bytes :=
  ascii w.text ++ space :: (key ++ space :: count)

/-- The first parse of `append` and `prepend` reads the fields of the request
and the whole block. -/
def ReadsShort (now : Nat) (input key block : Bytes) (n : Nat)
    (noreply : Bool) : Prop :=
  ∃ store : StorageStruct,
    cmdProcessCommon now input false true = .ok (0, store) ∧
      store.key = key ∧ store.bytes = n ∧ store.data = block ∧
      store.noreply = noreply

section Reading

variable {w : Word} {key count block : Bytes} {noreply : Bool}

theorem framed_shortLine (hkey : OneWord key) (hcount : Digits count)
    (hsmall : (requestOf (shortLine w key count) (block ++ crlf)
      noreply).length + 2 < wordSize) :
    Framed (requestOf (shortLine w key count) (block ++ crlf) noreply)
      (shortLine w key count ++ optionsText noreply) (block ++ crlf) := by
  have hline : ¬ crlf <:+: shortLine w key count :=
    oneLine_append (oneLine_text w)
      (oneLine_append hkey.2 (oneWord_of_digits hcount).2)
  exact ⟨rfl, find?_crlf (oneLine_options hline noreply) _, hsmall⟩

theorem cmdProcessCommon_shortLine {b : UInt8} {digits : Bytes} (now : Nat)
    (hkey : OneWord key) (hcount : Digits (b :: digits))
    (hsmall : (requestOf (shortLine w key (b :: digits)) (block ++ crlf)
      noreply).length + 2 < wordSize) :
    cmdProcessCommon now
        (requestOf (shortLine w key (b :: digits)) (block ++ crlf) noreply)
        false true =
      (do
        let (ret, n, data) ← dataOf (block ++ crlf) digits
        return (ret, ⟨key, [], 0, n, [], noreply, data⟩)) := by
  have hdigits : space ∉ digits :=
    fun hmem => hcount.noSpace (List.mem_cons_of_mem b hmem)
  rw [cmdProcessCommon_short (framed_shortLine hkey hcount hsmall) now]
  exact shortOf_plain hkey.1 hdigits b noreply (block ++ crlf)

theorem dataOf_block {digits : Bytes} (hdigits : Digits digits)
    (hlength : block.length = digitsValue digits)
    (hfits : digitsValue digits ≤ wordMax) :
    dataOf (block ++ crlf) digits = .ok (0, digitsValue digits, block) := by
  rw [dataOf_complete (stoul_of_digits hdigits hfits) (by simp [hlength]),
    ← hlength, List.take_left]

theorem readsShort_cons_iff {b : UInt8} {digits : Bytes} (now : Nat)
    (hkey : OneWord key) (hcount : Digits (b :: digits))
    (hpos : 1 ≤ digitsValue (b :: digits))
    (hblock : block.length = digitsValue (b :: digits))
    (hsmall : (requestOf (shortLine w key (b :: digits)) (block ++ crlf)
      noreply).length + 2 < wordSize) :
    ReadsShort now
        (requestOf (shortLine w key (b :: digits)) (block ++ crlf) noreply)
        key block (digitsValue (b :: digits)) noreply ↔
      b = 48 := by
  have hfits : digitsValue (b :: digits) ≤ wordMax := by
    simp only [requestOf, List.length_append, hblock] at hsmall
    unfold wordSize wordMax at *
    omega
  have htail : ∀ c ∈ digits, isDigitByte c = true :=
    fun c hc => hcount.2 c (List.mem_cons_of_mem b hc)
  have hsmaller : digitsValue digits ≤ digitsValue (b :: digits) := by
    rw [digitsValue_cons]
    omega
  rw [← digitsValue_cons_eq_tail (s := digits) (hcount.2 b List.mem_cons_self),
    ReadsShort, cmdProcessCommon_shortLine now hkey hcount hsmall]
  constructor
  · rintro ⟨store, hparse, -, hbytes, -, -⟩
    cases digits with
    | nil => cases hparse
    | cons c digits =>
        have hdigits : Digits (c :: digits) := ⟨List.cons_ne_nil _ _, htail⟩
        have hcountRead := stoul_of_digits hdigits (hsmaller.trans hfits)
        obtain ⟨ret, data, hdata⟩ := exists_dataOf hcountRead (block ++ crlf)
        rw [hdata] at hparse
        cases hparse
        exact hbytes.symm
  · intro hsame
    have hdigits : Digits digits := by
      refine ⟨?_, htail⟩
      rintro rfl
      rw [hsame] at hpos
      contradiction
    rw [hsame] at hblock hfits ⊢
    rw [dataOf_block hdigits hblock hfits]
    exact ⟨_, rfl, rfl, rfl, rfl, rfl⟩

/-- No count that is written without a leading zero is read as such. -/
theorem not_readsShort_toDecimal {n : Nat} (now : Nat) (hkey : OneWord key)
    (hpos : 1 ≤ n) (hblock : block.length = n)
    (hsmall : (requestOf (shortLine w key (toDecimal n)) (block ++ crlf)
      noreply).length + 2 < wordSize) :
    ¬ ReadsShort now
      (requestOf (shortLine w key (toDecimal n)) (block ++ crlf) noreply)
      key block n noreply := by
  have hdigits := toDecimal_digits n
  have hhead := head?_toDecimal hpos
  have hvalue := digitsValue_toDecimal n
  cases htext : toDecimal n with
  | nil => exact absurd htext (toDecimal_ne_nil n)
  | cons b digits =>
      rw [htext] at hdigits hhead hvalue hsmall
      have hiff := readsShort_cons_iff now hkey hdigits (by rwa [hvalue])
        (by rwa [hvalue]) hsmall
      rw [hvalue] at hiff
      rw [hiff]
      rintro rfl
      exact hhead rfl

end Reading

/-- The short form is read as it was written exactly if the count is written
with a leading zero. -/
theorem readsShort_iff (w : Word) (now : Nat) (key count block : Bytes)
    (noreply : Bool) (hkey : OneWord key) (hcount : Digits count)
    (hpos : 1 ≤ digitsValue count)
    (hblock : block.length = digitsValue count)
    (hsmall : (requestOf (shortLine w key count) (block ++ crlf)
      noreply).length + 2 < wordSize) :
    ReadsShort now
        (requestOf (shortLine w key count) (block ++ crlf) noreply)
        key block (digitsValue count) noreply ↔
      count.head? = some 48 := by
  cases count with
  | nil => exact absurd rfl hcount.1
  | cons b digits =>
      rw [List.head?_cons, Option.some_inj]
      exact readsShort_cons_iff now hkey hcount hpos hblock hsmall

/-- With the zero in front, -/
theorem readsShort_five :
    ReadsShort 0 (requestOf (shortLine .append [107] [48, 53])
      ([1, 2, 3, 4, 5] ++ crlf) true) [107] [1, 2, 3, 4, 5] 5 true :=
  (readsShort_iff .append 0 [107] [48, 53] [1, 2, 3, 4, 5] true (by decide)
    (by decide) (by decide) rfl (by decide)).mpr rfl

/-- and without it: `append k 1` is refused, although its block is there. -/
theorem not_readsShort_one :
    ¬ ReadsShort 0 (requestOf (shortLine .append [107] (toDecimal 1))
      ([53] ++ crlf) false) [107] [53] 1 false := by
  rintro ⟨store, hparse, -⟩
  have hrefused : cmdProcessCommon 0 (requestOf (shortLine .append [107]
      (toDecimal 1)) ([53] ++ crlf) false) false true =
      reply "CLIENT_ERROR invalid number of bytes\r\n" := by
    decide
  rw [hrefused] at hparse
  cases hparse

end Memstashed.Scmd
