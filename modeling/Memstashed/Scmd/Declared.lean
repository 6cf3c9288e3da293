import Memstashed.Scmd.Acceptance
import Memstashed.Scmd.Headers

/-!
# Declared and stored lengths

The byte count is converted to an unsigned word, and the number of bytes that
are missing to a signed one.  The handlers go on when it is not positive: that
is when the block is there, or when the number does not fit.
-/

namespace Memstashed.Scmd

open Memstashed.Foundation
open Memstashed.Dblru

def Word.triesShort : Word → Bool
  | .append => true
  | .prepend => true
  | _ => false

/-- The call of `cmdProcessCommon` with which the handler goes on, and what it
returns. -/
inductive Word.Reads (now : Nat) (input : Bytes) :
    Word → Bool → Int × StorageStruct → Prop
  | full {w : Word} {r : Int × StorageStruct}
      (hrefused : w.triesShort = true → ∃ output,
        cmdProcessCommon now input false true = .error (.reply output))
      (h : cmdProcessCommon now input (w = .cas) false = .ok r) :
      Reads now input w false r
  | short {w : Word} {r : Int × StorageStruct} (hshort : w.triesShort = true)
      (h : cmdProcessCommon now input false true = .ok r) :
      Reads now input w true r

theorem storageRequest_ok_iff {w : Word} (hstores : w.stores = true) {now : Nat}
    {input : Bytes} {r : Int × StorageStruct} :
    w.storageRequest now input = .ok r ↔
      ∃ isExistData, w.Reads now input isExistData r := by
  have hextend : ∀ {w : Word}, w.triesShort = true → w ≠ .cas →
      (extendRequest now input = .ok r ↔
        ∃ isExistData, w.Reads now input isExistData r) := by
    intro w hshort hcas
    have hfull := decide_eq_false hcas
    unfold extendRequest
    constructor
    · intro h
      split at h
      · rename_i output hrefused
        exact ⟨false, .full (fun _ => ⟨output, hrefused⟩) (hfull ▸ h)⟩
      · exact ⟨true, .short hshort h⟩
    · rintro ⟨isExistData, hreads⟩
      cases hreads with
      | full hrefused h =>
          obtain ⟨output, houtput⟩ := hrefused hshort
          rw [hfull] at h
          rw [houtput]
          exact h
      | short _ h => rw [h]
  have hplain : ∀ {w : Word}, w.triesShort = false →
      (cmdProcessCommon now input (w = .cas) false = .ok r ↔
        ∃ isExistData, w.Reads now input isExistData r) := by
    intro w hshort
    constructor
    · exact fun h => ⟨false, .full (fun htries => by simp [hshort] at htries) h⟩
    · rintro ⟨isExistData, hreads⟩
      cases hreads with
      | full _ h => exact h
      | short htries => simp [hshort] at htries
  cases w with
  | append => exact hextend rfl (by decide)
  | prepend => exact hextend rfl (by decide)
  | set => exact hplain rfl
  | add => exact hplain rfl
  | replace => exact hplain rfl
  | cas => exact hplain rfl
  | _ => contradiction

/-! ## The byte count -/

def countField (isExistData : Bool) (line : Bytes) : Bytes :=
  (line.splitOn space).getD (if isExistData then 2 else 4) []

/-- The text that is converted.  The short form skips a byte, and a `cas`
without a token reads on. -/
def countText (isCas isExistData : Bool) (input : Bytes) : Bytes :=
  match isExistData, (lineOf input).splitOn space with
  | false, [_, _, _, _, bytes] =>
      if isCas then bytes ++ (crlf ++ afterLine input) else bytes
  | false, _ :: _ :: _ :: _ :: bytes :: _ => bytes
  | true, [_, _, []] =>
      (10 :: afterLine input).take (find (10 :: afterLine input) crlf 0)
  | true, _ :: _ :: [] :: bytes :: _ => bytes
  | true, _ :: _ :: bytes :: _ => bytes.drop 1
  | _, _ => []

section Count

variable {input rest bytesStr casStr : Bytes} {isCas noreply : Bool}

theorem countText_full {word key flags text : Bytes}
    (hline : (lineOf input).splitOn space =
      word :: key :: flags :: text :: rest.splitOn space)
    (hending : endingOf input isCas rest = .ok (bytesStr, casStr, noreply)) :
    countText isCas false input = bytesStr := by
  obtain ⟨bytes, more, hrest, hends⟩ :=
    (endingOf_ok_iff isCas).mp ⟨casStr, noreply, hending⟩
  rw [hrest] at hline
  unfold countText
  cases hends with
  | plain hmore => cases more <;> simp [hline]
  | token hmore => simp [hline]
  | noToken hcrlf hdata => simp [hline]

theorem countText_short_cons {word key : Bytes} {b : UInt8} {x : Bytes}
    {more : List Bytes}
    (hline : (lineOf input).splitOn space =
      word :: key :: (b :: rest).splitOn space)
    (hrest : rest.splitOn space = x :: more) :
    countText false true input = x := by
  rw [List.splitOn_cons_eq_if_modifyHead, hrest] at hline
  unfold countText
  by_cases hb : b = space
  · simp [hline, hb]
  · simp [hline, hb]

theorem countText_short {word key : Bytes}
    (hline : (lineOf input).splitOn space = word :: key :: rest.splitOn space)
    (hending : shortEndingIn input rest = .ok (bytesStr, casStr, noreply)) :
    countText false true input = bytesStr := by
  unfold shortEndingIn at hending
  cases rest with
  | nil =>
      split at hending
      · cases hending
        simp [countText, hline]
      · contradiction
  | cons b rest =>
      have hin : endingOf input false rest = .ok (bytesStr, casStr, noreply) :=
        hending
      obtain ⟨bytes, more, hrest, hends⟩ :=
        (endingOf_ok_iff false).mp ⟨casStr, noreply, hin⟩
      rw [countText_short_cons hline hrest]
      cases hends
      rfl

theorem dataOf_ok {data : Bytes} {ret : Int} {bytes : Nat} {block : Bytes}
    (h : dataOf data bytesStr = .ok (ret, bytes, block)) :
    stoul bytesStr = .ok bytes ∧ block = data.take bytes ∧
      ret = if data.length < bytes then
        wordToInt (wordSub (toWord (bytes + 2)) data.length) else 0 := by
  unfold dataOf stoulOr at h
  cases hstoul : stoul bytesStr with
  | error e => cases e <;> simp [hstoul, reply] at h
  | ok n =>
      rw [hstoul, Parse.ok_bind] at h
      have htake : (data.take n).length < n ↔ data.length < n := by
        rw [List.length_take]
        omega
      simp only [htake] at h
      split at h
      · rename_i hshort
        cases h
        have hall : (data.take bytes).length = data.length := by
          rw [List.length_take]
          omega
        rw [if_pos hshort, hall]
        exact ⟨rfl, rfl, rfl⟩
      · rename_i hlong
        cases h
        exact ⟨rfl, rfl, (if_neg hlong).symm⟩

theorem Word.Reads.count {w : Word} {now : Nat} {isExistData : Bool} {ret : Int}
    {store : StorageStruct} (hsmall : input.length + 2 < wordSize)
    (h : w.Reads now input isExistData (ret, store)) :
    stoul (countText (w = .cas) isExistData input) = .ok store.bytes ∧
      store.data = (afterLine input).take store.bytes ∧
      ret = if (afterLine input).length < store.bytes then
        wordToInt (wordSub (toWord (store.bytes + 2)) (afterLine input).length)
        else 0 := by
  cases h with
  | full hrefused h =>
      rw [cmdProcessCommon_eq hsmall] at h
      obtain ⟨word, text, rest, bytesStr, hline, -, hending, hdata⟩ :=
        fullOf_ok h
      rw [countText_full hline hending]
      exact dataOf_ok hdata
  | short hshort h =>
      have hcas : decide (w = .cas) = false := by
        cases w <;> first | rfl | contradiction
      rw [cmdProcessCommon_short_eq hsmall] at h
      obtain ⟨word, rest, bytesStr, hline, hending, hdata⟩ := shortFormOf_ok h
      rw [hcas, countText_short hline hending]
      exact dataOf_ok hdata

end Count

/-! ## The stored length -/

/-- What is stored has the length that was declared, and an incomplete block is
answered with the number of bytes that are missing. -/
structure StoredAsDeclared (w : Word) (times : Times) (input : Bytes)
    (isExistData : Bool) (ret : Int) (store : StorageStruct) : Prop where
  complete : ret ≤ 0 → store.data.length = store.bytes ∧
    numberAt (countField isExistData (lineOf input)) = some (store.bytes : Int)
  incomplete : (afterLine input).length < store.bytes →
    0 < ret ∧ ret = store.bytes + 2 - (afterLine input).length ∧
      w.process times input = .done ⟨ret, []⟩

/-- The block is there and the number that was read is the one in the field; or
the number of bytes that are missing fits an `int`. -/
def CountFits (isCas isExistData : Bool) (input : Bytes) : Prop :=
  ∃ n, stoul (countText isCas isExistData input) = .ok n ∧
    (n ≤ (afterLine input).length ∧
        numberAt (countField isExistData (lineOf input)) = some (n : Int) ∨
      (afterLine input).length < n ∧
        n + 2 < (afterLine input).length + 2147483648)

theorem missing_eq {bytes present : Nat} (hshort : present < bytes) :
    wordToInt (wordSub (toWord (bytes + 2)) present) = bytes + 2 - present ↔
      bytes + 2 < present + 2147483648 := by
  unfold wordToInt wordSub toWord
  split <;> omega

/-- The slips: the number of missing bytes is negative from 2^31 on, and the
number that is converted need not be the one that the line declares. -/
theorem stored_as_declared_iff {w : Word} (hstores : w.stores = true)
    (times : Times) {input : Bytes} (hsmall : input.length + 2 < wordSize)
    {isExistData : Bool} {ret : Int} {store : StorageStruct}
    (hreads : w.Reads times.parse input isExistData (ret, store)) :
    StoredAsDeclared w times input isExistData ret store ↔
      CountFits (w = .cas) isExistData input := by
  obtain ⟨hcount, hdata, hret⟩ := hreads.count hsmall
  constructor
  · intro h
    refine ⟨store.bytes, hcount, ?_⟩
    by_cases hshort : (afterLine input).length < store.bytes
    · obtain ⟨-, heq, -⟩ := h.incomplete hshort
      rw [hret, if_pos hshort] at heq
      exact .inr ⟨hshort, (missing_eq hshort).mp heq⟩
    · rw [if_neg hshort] at hret
      exact .inl ⟨not_lt.mp hshort, (h.complete hret.le).2⟩
  · rintro ⟨n, hn, hfits⟩
    rw [hcount] at hn
    cases hn
    rcases hfits with ⟨hthere, hnumber⟩ | ⟨hshort, hfits⟩
    · constructor
      · intro _
        refine ⟨?_, hnumber⟩
        rw [hdata, List.length_take_of_le hthere]
      · intro hshort
        omega
    · rw [if_pos hshort, (missing_eq hshort).mpr hfits] at hret
      have hpos : 0 < ret := by omega
      constructor
      · intro hle
        omega
      · intro _
        have hrequest := (storageRequest_ok_iff hstores).mpr ⟨_, hreads⟩
        refine ⟨hpos, hret, ?_⟩
        rw [process_storage hstores, hrequest, storage, parsed]
        exact if_pos hpos

theorem stored_as_declared_threeBytes :
    StoredAsDeclared .set (.const 1000) (ascii "set k 0 0 3\r\nabc\r\n") false 0
      ⟨ascii "k", ascii "0", 0, 3, [], false, ascii "abc"⟩ := by
  have hreads : Word.Reads 1000 (ascii "set k 0 0 3\r\nabc\r\n") .set false
      (0, ⟨ascii "k", ascii "0", 0, 3, [], false, ascii "abc"⟩) :=
    .full (fun h => by contradiction) (by decide)
  exact (stored_as_declared_iff rfl (.const 1000) (by decide) hreads).mpr
    ⟨3, by decide, by decide⟩

/-- No byte of the block is there, and the handler goes on to store it. -/
theorem stored_without_data :
    ¬ ∀ (w : Word) (times : Times) (input : Bytes) (isExistData : Bool)
        (ret : Int) (store : StorageStruct),
      w.stores = true → input.length + 2 < wordSize →
      w.Reads times.parse input isExistData (ret, store) →
      StoredAsDeclared w times input isExistData ret store := by
  intro hall
  have hreads : Word.Reads 1000 (ascii "set k 0 0 2147483646\r\n") .set false
      (-2147483648, ⟨ascii "k", ascii "0", 0, 2147483646, [], false, []⟩) :=
    .full (fun h => by contradiction) (by decide)
  have hdeclared := hall .set (.const 1000) _ false _ _ rfl (by decide) hreads
  have hlength := (hdeclared.complete (by decide)).1
  contradiction

end Memstashed.Scmd
