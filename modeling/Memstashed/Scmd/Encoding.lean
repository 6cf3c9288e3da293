import Memstashed.Foundation.Numerals
import Memstashed.Scmd.Headers
import Memstashed.Scmd.Lifetime

/-!
# Encoding a storage request

A client writes the fields of a request separated by spaces, the block of data,
and a CRLF behind both.  The parser finds the fields again, whatever the block
contains.
-/

namespace Memstashed.Scmd

open Memstashed.Foundation
open Memstashed.Dblru

structure Fields where
  word : Bytes
  key : Bytes
  flags : Bytes
  expTime : Bytes
  bytes : Bytes
  token : Option Bytes
  noreply : Bool
  deriving DecidableEq, Repr

namespace Fields

def isCas (h : Fields) : Bool := h.token.isSome

def ending (h : Fields) : Bytes :=
  match h.token with
  | none => h.bytes ++ optionsText h.noreply
  | some token => h.bytes ++ space :: (token ++ optionsText h.noreply)

def line (h : Fields) : Bytes :=
  h.word ++ space :: (h.key ++ space :: (h.flags ++ space ::
    (h.expTime ++ space :: h.ending)))

def request (h : Fields) (block : Bytes) : Bytes :=
  h.line ++ (crlf ++ (block ++ crlf))

def stored (h : Fields) (expTime n : Nat) (block : Bytes) : StorageStruct where
  key := h.key
  flags := h.flags
  expTime := expTime
  bytes := n
  casStr := h.token.getD []
  noreply := h.noreply
  data := block

end Fields

def OneWord (s : Bytes) : Prop := space ∉ s ∧ ¬ crlf <:+: s

instance (s : Bytes) : Decidable (OneWord s) :=
  inferInstanceAs (Decidable (_ ∧ _))

/-- The fields can be written on a line: texts without spaces and line ends, an
exptime `e` that fits `unsigned long`, and `n` bytes of data. -/
structure Fields.Writable (h : Fields) (e n : Nat) : Prop where
  word : OneWord h.word
  key : OneWord h.key
  flags : OneWord h.flags
  expTime : Digits h.expTime ∧ digitsValue h.expTime = e
  fits : e ≤ wordMax
  bytes : Digits h.bytes ∧ digitsValue h.bytes = n
  some : 1 ≤ n
  small : n < 2147483646
  token : ∀ token ∈ h.token, token ≠ [] ∧ OneWord token

/-! ## One line -/

theorem oneWord_of_digits {s : Bytes} (h : Digits s) : OneWord s := by
  refine ⟨h.noSpace, fun hcrlf => ?_⟩
  have hmem : (13 : UInt8) ∈ s := hcrlf.subset (by decide)
  have hdigit := h.2 13 hmem
  contradiction

theorem mem_of_prefix_cons {c : UInt8} {s t : Bytes} (hne : s ≠ [])
    (h : s <+: c :: t) : c ∈ s := by
  cases s with
  | nil => exact absurd rfl hne
  | cons b s =>
      rw [List.cons_prefix_cons] at h
      rw [h.1]
      exact List.mem_cons_self

theorem oneLine_append {s t : Bytes} (hs : ¬ crlf <:+: s)
    (ht : ¬ crlf <:+: t) : ¬ crlf <:+: s ++ space :: t := by
  have hnot : space ∉ crlf := by decide
  rw [List.infix_append_iff_ne_nil, List.infix_cons_iff]
  rintro (hleft | (hstart | hinside) | ⟨u, v, -, hne, huv, -, hprefix⟩)
  · exact hs hleft
  · exact hnot (mem_of_prefix_cons (by decide) hstart)
  · exact ht hinside
  · have hmem := mem_of_prefix_cons hne hprefix
    rw [huv] at hnot
    exact hnot (List.mem_append_right u hmem)

section Parsing

variable {h : Fields} {e n : Nat}

theorem oneLine_options {text : Bytes} (htext : ¬ crlf <:+: text)
    (noreply : Bool) : ¬ crlf <:+: text ++ optionsText noreply := by
  cases noreply with
  | true => exact oneLine_append htext (by decide)
  | false =>
      change ¬ crlf <:+: text ++ []
      rwa [List.append_nil]

theorem Fields.Writable.oneLine (w : h.Writable e n) : ¬ crlf <:+: h.line := by
  have hbytes := (oneWord_of_digits w.bytes.1).2
  have hexpTime := (oneWord_of_digits w.expTime.1).2
  have hending : ¬ crlf <:+: h.ending := by
    unfold Fields.ending
    cases htoken : h.token with
    | none => exact oneLine_options hbytes h.noreply
    | some token =>
        have hline := (w.token token htoken).2.2
        exact oneLine_append hbytes (oneLine_options hline h.noreply)
  exact oneLine_append w.word.2 (oneLine_append w.key.2
    (oneLine_append w.flags.2 (oneLine_append hexpTime hending)))

theorem Fields.Writable.ending (w : h.Writable e n) (data : Bytes) :
    bytesAndTokenOf h.isCas data h.ending =
      .ok (h.bytes, h.token.getD [], h.noreply) := by
  have hbytes := w.bytes.1.noSpace
  unfold Fields.isCas Fields.ending
  cases htoken : h.token with
  | none => exact bytesAndTokenOf_plain hbytes h.noreply data
  | some token =>
      exact bytesAndTokenOf_token hbytes (w.token token htoken).2.1 h.noreply
        data

theorem Fields.Writable.expiry (w : h.Writable e n) (now : Nat) :
    expiryField now h.expTime = .ok (relativeExpiry now e) := by
  have hfits : digitsValue h.expTime ≤ wordMax := by
    rw [w.expTime.2]
    exact w.fits
  simp only [expiryField, stoulOr, stoul_of_digits w.expTime.1 hfits,
    w.expTime.2, Parse.ok_bind]
  rfl

theorem commonOf_fields (w : h.Writable e n) (now : Nat) (data : Bytes) :
    commonOf now h.isCas h.line data =
      .ok (missingBytes n data,
        h.stored (relativeExpiry now e) n (data.take n)) := by
  have hfits : digitsValue h.bytes ≤ wordMax := by
    have hsmall := w.small
    rw [w.bytes.2]
    unfold wordMax
    omega
  have hstoul : stoul h.bytes = .ok n := by
    rw [stoul_of_digits w.bytes.1 hfits, w.bytes.2]
  have hsmall : n + 2 < 2147483648 := by
    have hsmall := w.small
    omega
  unfold commonOf flagsAndExpiryOf Fields.line
  simp only [cut_append_cons _ w.word.1, cut_append_cons _ w.key.1,
    cut_append_cons _ w.flags.1, cut_append_cons _ w.expTime.1.noSpace,
    w.expiry now, Parse.ok_bind, Parse.pure_eq, w.ending data,
    dataOf_of_stoul hstoul hsmall data]
  rfl

theorem parse_line (w : h.Writable e n) (now : Nat) {data : Bytes}
    (hsmall : (h.line ++ (crlf ++ data)).length + 2 < wordSize) :
    cmdProcessCommon now (h.line ++ (crlf ++ data)) h.isCas false =
      .ok (missingBytes n data,
        h.stored (relativeExpiry now e) n (data.take n)) := by
  have f : Framed (h.line ++ (crlf ++ data)) h.line data :=
    ⟨rfl, find?_crlf w.oneLine data, hsmall⟩
  rw [cmdProcessCommon_full f]
  exact commonOf_fields w now data

end Parsing

/-- A token with a line end in it would end the line; every other request is
read as it was written, and a part of it is answered with what is missing. -/
theorem request_read_back {h : Fields} {e n : Nat} (w : h.Writable e n)
    (now : Nat) {block : Bytes} (hblock : block.length = n)
    (hsmall : (h.request block).length + 2 < wordSize) :
    cmdProcessCommon now (h.request block) h.isCas false =
        .ok (0, h.stored (relativeExpiry now e) n block) ∧
      ∀ m < n,
        cmdProcessCommon now (h.line ++ (crlf ++ block.take m)) h.isCas false =
          .ok ((n : Int) + 2 - m,
            h.stored (relativeExpiry now e) n (block.take m)) := by
  constructor
  · have hwhole := parse_line w now hsmall
    have hthere : ¬ (block ++ crlf).length < n := by
      rw [List.length_append]
      omega
    rw [missingBytes, if_neg hthere, List.take_left' hblock] at hwhole
    exact hwhole
  · intro m hm
    have hlength : (block.take m).length = m := by
      rw [List.length_take]
      omega
    have hpart : (h.line ++ (crlf ++ block.take m)).length + 2 < wordSize := by
      simp only [Fields.request, List.length_append] at hsmall
      simp only [List.length_append, hlength]
      omega
    have hread := parse_line w now hpart
    have hall : (block.take m).take n = block.take m :=
      List.take_of_length_le (by omega)
    rw [missingBytes, hlength, if_pos hm, hall] at hread
    exact hread

/-- Empty flags, a line end and a space in the block, and `noreply`. -/
theorem request_read_back_cas :
    cmdProcessCommon 1000 (ascii "cas k  5 3 t noreply\r\n\r\n \r\n") true false =
      .ok (0, ⟨ascii "k", [], 5, 3, ascii "t", true, [13, 10, 32]⟩) := by
  have hwritable : Fields.Writable
      ⟨ascii "cas", ascii "k", [], ascii "5", ascii "3", some (ascii "t"), true⟩
      5 3 := by
    constructor
    · decide
    · decide
    · decide
    · decide
    · decide
    · decide
    · decide
    · decide
    · rintro token ⟨⟩
      decide
  have hblock : ([13, 10, 32] : Bytes).length = 3 := rfl
  exact (request_read_back hwritable 1000 hblock (by decide)).1

/-- A token without a space, but with a line end. -/
theorem token_ends_line :
    space ∉ ascii "a\r\nb" ∧
    Fields.request ⟨ascii "cas", ascii "k", ascii "0", ascii "0", ascii "1",
        some (ascii "a\r\nb"), false⟩ (ascii "x") =
      ascii "cas k 0 0 1 a\r\nb\r\nx\r\n" ∧
    cmdProcessCommon 1000 (ascii "cas k 0 0 1 a\r\nb\r\nx\r\n") true false =
      .ok (0, ⟨ascii "k", ascii "0", 0, 1, ascii "a", false, ascii "b"⟩) := by
  decide

end Memstashed.Scmd
