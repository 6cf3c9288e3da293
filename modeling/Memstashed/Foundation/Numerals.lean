import Memstashed.Foundation.Bytes
import Mathlib.Data.List.TakeWhile
import Mathlib.Tactic.IntervalCases

/-!
# Numbers at the start of a text

`stoul` reads a prefix: white space, a sign and digits.  Here is the number it
reads before it is reduced to a word, and what becomes of it when something is
written behind the text.
-/

namespace Memstashed.Foundation

def numberAt (s : Bytes) : Option Int :=
  let (negative, rest) := splitSign (s.dropWhile isSpaceByte)
  let digits := rest.takeWhile isDigitByte
  if digits = [] then none
  else some (if negative then -(digitsValue digits : Int) else digitsValue digits)

def Blank (s : Bytes) : Prop := ∀ b ∈ s, isSpaceByte b = true

instance (s : Bytes) : Decidable (Blank s) :=
  List.decidableBAll (fun b => isSpaceByte b = true) s

def Digits (s : Bytes) : Prop := s ≠ [] ∧ ∀ b ∈ s, isDigitByte b = true

instance (s : Bytes) : Decidable (Digits s) :=
  letI := List.decidableBAll (fun b => isDigitByte b = true) s
  inferInstanceAs (Decidable (_ ∧ _))

theorem Digits.noSpace {s : Bytes} (h : Digits s) : space ∉ s := by
  intro hmem
  have hdigit := h.2 space hmem
  contradiction

theorem stoul_eq_numberAt (s : Bytes) :
    stoul s =
      match numberAt s with
      | none => .error .invalidArgument
      | some m =>
          if wordMax < m.natAbs then .error .outOfRange
          else .ok (m % 4294967296).toNat := by
  unfold stoul numberAt
  cases splitSign (s.dropWhile isSpaceByte) with
  | mk negative rest =>
      by_cases hdigits : rest.takeWhile isDigitByte = []
      · simp [hdigits]
      · cases negative with
        | true =>
            simp only [hdigits, if_false, if_true, Int.natAbs_neg,
              Int.natAbs_natCast]
            split
            · rfl
            · rename_i hfits
              congr 1
              unfold wordSub wordMax at *
              omega
        | false =>
            simp only [hdigits, if_false, Bool.false_eq_true, Int.natAbs_natCast]
            split
            · rfl
            · rename_i hfits
              congr 1
              unfold wordMax at *
              omega

theorem stoul_eq_invalidArgument {s : Bytes} :
    stoul s = .error .invalidArgument ↔ numberAt s = none := by
  rw [stoul_eq_numberAt]
  cases numberAt s with
  | none => simp
  | some m =>
      simp only [reduceCtorEq, iff_false]
      split <;> simp

theorem stoul_congr {s t : Bytes} (h : numberAt s = numberAt t) :
    stoul s = stoul t := by
  rw [stoul_eq_numberAt, stoul_eq_numberAt, h]

/-- The word that is read is the number that is written, unless that is
negative. -/
theorem numberAt_of_stoul {s : Bytes} {n : Nat} (h : stoul s = .ok n) :
    ∃ m, numberAt s = some m ∧ m.natAbs ≤ wordMax ∧
      n = (m % 4294967296).toNat := by
  rw [stoul_eq_numberAt] at h
  cases hm : numberAt s with
  | none => simp [hm] at h
  | some m =>
      simp only [hm] at h
      split at h
      · contradiction
      · rename_i hfits
        exact ⟨m, rfl, not_lt.mp hfits, (Except.ok.inj h).symm⟩

theorem stoul_le_wordMax {s : Bytes} {n : Nat} (h : stoul s = .ok n) :
    n ≤ wordMax := by
  obtain ⟨m, -, -, rfl⟩ := numberAt_of_stoul h
  unfold wordMax
  omega

/-! ## Something behind the text -/

theorem numberAt_blank_append {s : Bytes} (h : Blank s) (t : Bytes) :
    numberAt (s ++ t) = numberAt t := by
  have hdrop : (s ++ t).dropWhile isSpaceByte = t.dropWhile isSpaceByte :=
    List.dropWhile_append_of_pos h
  simp only [numberAt, hdrop]

private theorem takeWhile_digits_append {c : UInt8}
    (hc : isDigitByte c = false) (s t : Bytes) :
    (s ++ c :: t).takeWhile isDigitByte = s.takeWhile isDigitByte := by
  rw [List.takeWhile_append]
  split
  · rename_i hall
    rw [List.takeWhile_cons_of_neg (by simp [hc]), List.append_nil]
    exact (List.IsPrefix.eq_of_length (List.takeWhile_prefix _) hall).symm
  · rfl

private theorem splitSign_append {b : UInt8} (s t : Bytes) :
    splitSign (b :: s ++ t) =
      ((splitSign (b :: s)).1, (splitSign (b :: s)).2 ++ t) := by
  by_cases hminus : b = 45
  · subst hminus
    rfl
  · by_cases hplus : b = 43
    · subst hplus
      rfl
    · have hsplit : ∀ u : Bytes, splitSign (b :: u) = (false, b :: u) := by
        intro u
        unfold splitSign
        split
        · rename_i heq
          exact absurd (List.cons.inj heq).1 hminus
        · rename_i heq
          exact absurd (List.cons.inj heq).1 hplus
        · rfl
      rw [List.cons_append, hsplit, hsplit]
      rfl

theorem numberAt_append {s : Bytes} (h : ¬ Blank s) {c : UInt8}
    (hc : isDigitByte c = false) (t : Bytes) :
    numberAt (s ++ c :: t) = numberAt s := by
  have hdrop : (s ++ c :: t).dropWhile isSpaceByte =
      s.dropWhile isSpaceByte ++ c :: t := by
    rw [List.dropWhile_append, if_neg]
    rw [List.isEmpty_iff, List.dropWhile_eq_nil_iff]
    exact h
  unfold numberAt
  rw [hdrop]
  cases hrest : s.dropWhile isSpaceByte with
  | nil => exact absurd (List.dropWhile_eq_nil_iff.mp hrest) h
  | cons b rest =>
      rw [splitSign_append]
      simp only [takeWhile_digits_append hc]

theorem numberAt_crlf_append (s t : Bytes) :
    numberAt (s ++ (crlf ++ t)) =
      if Blank s then numberAt t else numberAt s := by
  split
  · rename_i hblank
    rw [numberAt_blank_append hblank]
    exact numberAt_blank_append (by decide) t
  · rename_i hblank
    exact numberAt_append hblank rfl (10 :: t)

theorem numberAt_of_digits {s : Bytes} (h : Digits s) :
    numberAt s = some (digitsValue s : Int) := by
  obtain ⟨hne, hdigits⟩ := h
  cases s with
  | nil => exact absurd rfl hne
  | cons b s =>
      have hb := hdigits b List.mem_cons_self
      have hspace : isSpaceByte b = false := by
        simp only [isDigitByte, isSpaceByte, Bool.and_eq_true,
          decide_eq_true_eq] at hb ⊢
        grind
      have hsplit : splitSign (b :: s) = (false, b :: s) := by
        unfold splitSign
        split
        · rename_i heq
          cases (List.cons.inj heq).1
          contradiction
        · rename_i heq
          cases (List.cons.inj heq).1
          contradiction
        · rfl
      have hall : (b :: s).takeWhile isDigitByte = b :: s :=
        List.takeWhile_eq_self_iff.mpr hdigits
      have hdrop : (b :: s).dropWhile isSpaceByte = b :: s :=
        List.dropWhile_cons_of_neg (by simp [hspace])
      simp [numberAt, hdrop, hsplit, hall]

theorem stoul_of_digits {s : Bytes} (h : Digits s)
    (hfits : digitsValue s ≤ wordMax) : stoul s = .ok (digitsValue s) := by
  rw [stoul_eq_numberAt, numberAt_of_digits h]
  simp only [Int.natAbs_natCast, Nat.not_lt.mpr hfits, if_false]
  congr 1
  unfold wordMax at hfits
  omega

private theorem foldl_digits (s : Bytes) (value : Nat) :
    s.foldl (fun value b => 10 * value + (b.toNat - 48)) value =
      value * 10 ^ s.length + digitsValue s := by
  induction s generalizing value with
  | nil => simp [digitsValue]
  | cons b s ih =>
      have hfirst : digitsValue (b :: s) =
          (b.toNat - 48) * 10 ^ s.length + digitsValue s := by
        rw [digitsValue, List.foldl_cons, ih]
        ring
      rw [List.foldl_cons, ih, hfirst, List.length_cons, pow_succ]
      ring

theorem digitsValue_cons (b : UInt8) (s : Bytes) :
    digitsValue (b :: s) =
      (b.toNat - 48) * 10 ^ s.length + digitsValue s := by
  rw [digitsValue, List.foldl_cons, foldl_digits]
  ring

theorem digitsValue_cons_eq_tail {b : UInt8} {s : Bytes}
    (hb : isDigitByte b = true) :
    digitsValue (b :: s) = digitsValue s ↔ b = 48 := by
  have hpow : 0 < 10 ^ s.length := Nat.pow_pos (by decide)
  rw [digitsValue_cons]
  constructor
  · intro hsame
    have hzero : (b.toNat - 48) * 10 ^ s.length = 0 := by omega
    have hlow : b.toNat ≤ 48 := by
      rcases Nat.mul_eq_zero.mp hzero with hdigit | hnone
      · omega
      · omega
    simp only [isDigitByte, Bool.and_eq_true, decide_eq_true_eq,
      UInt8.le_iff_toNat_le] at hb
    exact UInt8.toNat_inj.mp (Nat.le_antisymm hlow hb.1)
  · rintro rfl
    simp

theorem toDecimal_digits (n : Nat) : Digits (toDecimal n) :=
  ⟨toDecimal_ne_nil n, fun _ => isDigitByte_of_mem_toDecimal⟩

theorem head?_toDecimal {n : Nat} (hpos : 1 ≤ n) :
    (toDecimal n).head? ≠ some 48 := by
  induction n using Nat.strong_induction_on with
  | _ n ih =>
      by_cases hdigit : n < 10
      · rw [toDecimal, Nat.toDigits_of_lt_base hdigit]
        interval_cases n <;> decide
      · have hsplit : toDecimal n =
            toDecimal (n / 10) ++ [byteOfChar (n % 10).digitChar] := by
          rw [toDecimal, Nat.toDigits_of_base_le (by decide) (by omega),
            List.map_append]
          rfl
        rw [hsplit, List.head?_append_of_ne_nil _ (toDecimal_ne_nil _)]
        exact ih (n / 10) (by omega) (by omega)

end Memstashed.Foundation
