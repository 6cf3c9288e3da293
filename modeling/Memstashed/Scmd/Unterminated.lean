import Memstashed.Scmd.Lines

/-!
# Requests without a line end

The loop hands over nothing that has no CRLF, but the parser can be called with
any string.  Then `nextEndl` is `npos`, no position lies behind it, and the last
field of the line is never taken for the last: the position behind it wraps to
zero, and the text found there is the whole request.
-/

namespace Memstashed.Scmd

open Memstashed.Foundation
open Memstashed.Dblru

structure Unended (input : Bytes) : Prop where
  noCrlf : ¬ crlf <:+: input
  small : input.length + 2 < wordSize

theorem framed_or_unended {input : Bytes}
    (hsmall : input.length + 2 < wordSize) :
    Framed input (lineOf input) (afterLine input) ∨ Unended input := by
  by_cases h : crlf <:+: input
  · exact .inl (framed_of_crlf h hsmall)
  · exact .inr ⟨h, hsmall⟩

structure Tail (input : Bytes) (pos : Nat) (rest : Bytes) : Prop where
  text : input.drop pos = rest
  endl : pos + rest.length = input.length

section Positions

variable {input : Bytes} {pos : Nat} {rest t r : Bytes}

theorem Unended.find_crlf (u : Unended input) (pos : Nat) :
    find input crlf pos = npos := by
  unfold find
  cases hfind : find? crlf (input.drop pos) with
  | none => rfl
  | some i =>
      have hinside : crlf <:+: input :=
        (find?_isPrefixOf hfind).isInfix.trans
          ((List.drop_suffix _ _).isInfix.trans (List.drop_suffix _ _).isInfix)
      exact absurd hinside u.noCrlf

theorem Unended.lineOf_eq (u : Unended input) : lineOf input = input := by
  have hsmall := u.small
  rw [lineOf, u.find_crlf]
  refine List.take_of_length_le ?_
  unfold npos wordMax wordSize at *
  omega

theorem Unended.afterLine_eq (u : Unended input) : afterLine input = [] := by
  have hsmall := u.small
  rw [afterLine, u.find_crlf, List.drop_eq_nil_iff]
  unfold npos wordMax wordSize at *
  omega

theorem Unended.start (_ : Unended input) : Tail input 0 input :=
  ⟨rfl, Nat.zero_add _⟩

theorem Tail.find_space (c : Tail input pos rest)
    (hcut : cut space rest = (t, some r)) :
    find input [space] pos = pos + t.length := by
  obtain ⟨hrest, hnot⟩ := cut_of_some hcut
  rw [find, c.text, hrest, find?_append_cons _ hnot]

theorem Tail.find_space_none (c : Tail input pos rest)
    (hcut : cut space rest = (t, none)) : find input [space] pos = npos := by
  obtain ⟨-, hnot⟩ := cut_of_none hcut
  rw [find, c.text, find?_of_notMem hnot]

theorem Tail.next (c : Tail input pos rest) (u : Unended input)
    (hcut : cut space rest = (t, some r)) :
    Tail input (Scmd.next (pos + t.length)) r := by
  obtain ⟨hrest, -⟩ := cut_of_some hcut
  have hendl := c.endl
  have hsmall := u.small
  rw [hrest] at hendl
  simp only [List.length_append, List.length_cons] at hendl
  have hnext : Scmd.next (pos + t.length) = pos + (t.length + 1) := by
    unfold Scmd.next toWord wordSize at *
    omega
  rw [hnext]
  constructor
  · rw [← List.drop_drop, c.text, hrest]
    simp
  · omega

theorem Tail.not_missing (c : Tail input pos rest) (u : Unended input)
    (hcut : cut space rest = (t, some r)) :
    ¬ Missing (pos + t.length) npos := by
  obtain ⟨hrest, -⟩ := cut_of_some hcut
  have hendl := c.endl
  have hsmall := u.small
  rw [hrest] at hendl
  simp only [List.length_append, List.length_cons] at hendl
  unfold Missing npos wordMax wordSize at *
  omega

theorem missing_npos : Missing npos npos := .inl rfl

theorem Tail.field_space (c : Tail input pos rest) (u : Unended input)
    (hcut : cut space rest = (t, some r)) :
    field input [space] pos = .ok (t, pos + t.length) := by
  obtain ⟨hrest, hnot⟩ := cut_of_some hcut
  have hendl := c.endl
  have htake : rest.take (find rest [space] 0) = t := by
    rw [hrest, find, List.drop_zero, find?_append_cons _ hnot]
    simp
  rw [field_at u.small _ (by omega), c.text, htake, c.find_space hcut]

theorem Tail.field_space_none (c : Tail input pos rest) (u : Unended input)
    (hcut : cut space rest = (t, none)) :
    field input [space] pos = .ok (rest, npos) := by
  obtain ⟨-, hnot⟩ := cut_of_none hcut
  have hendl := c.endl
  have hsmall := u.small
  have htake : rest.take (find rest [space] 0) = rest := by
    rw [find, List.drop_zero, find?_of_notMem hnot]
    refine List.take_of_length_le ?_
    simp only [npos]
    unfold wordMax wordSize at *
    omega
  rw [field_at u.small _ (by omega), c.text, htake, c.find_space_none hcut]

theorem Tail.field_crlf (c : Tail input pos rest) (u : Unended input) :
    field input crlf pos = .ok (rest, npos) := by
  have hendl := c.endl
  have hsmall := u.small
  have hrest : find? crlf rest = none := by
    have hfind := u.find_crlf pos
    unfold find at hfind
    rw [c.text] at hfind
    cases hcrlf : find? crlf rest with
    | none => rfl
    | some i =>
        have hle := find?_le_length hcrlf
        rw [hcrlf] at hfind
        simp only at hfind
        unfold npos wordMax wordSize at *
        omega
  have htake : rest.take (find rest crlf 0) = rest := by
    rw [find, List.drop_zero, hrest]
    refine List.take_of_length_le ?_
    simp only [npos]
    unfold wordMax wordSize at *
    omega
  rw [field_at u.small _ (by omega), c.text, htake, u.find_crlf]

end Positions

/-! ## Storage requests -/

def junk {α : Type} : Parse α :=
  reply "CLIENT_ERROR junk found instead of \"noreply\"\r\n"

def openNoreplyOf (rest : Bytes) : Parse Bool :=
  if rest ≠ ascii "noreply" ∧ rest ≠ ascii "noreply " then junk
  else return true

def openEndingOf (isCas : Bool) (rest : Bytes) :
    Parse (Bytes × Bytes × Bool) :=
  match isCas, cut space rest with
  | _, (_, none) => junk
  | false, (bytesStr, some rest) => do
      let noreply ← openNoreplyOf rest
      return (bytesStr, [], noreply)
  | true, (bytesStr, some rest) =>
      match cut space rest with
      | (_, none) => junk
      | (casStr, some rest) => do
          let noreply ← openNoreplyOf rest
          return (bytesStr, casStr, noreply)

def openShortEndingOf : Bytes → Parse (Bytes × Bytes × Bool)
  | [] => .error (.exception .outOfRange)
  | _ :: rest => openEndingOf false rest

section Storage

variable {input : Bytes} {pos : Nat} {rest : Bytes}

theorem openNoreply_eq (c : Tail input pos rest) (u : Unended input) :
    noreplyField input npos pos = openNoreplyOf rest := by
  have hendl := c.endl
  have hsmall := u.small
  have hpos : pos ≠ npos := by
    unfold npos wordMax wordSize at *
    omega
  simp only [noreplyField, hpos, if_false, c.field_crlf u, openNoreplyOf]
  rfl

/-- The position behind `npos` is the start of the input, which is more than
`noreply`. -/
theorem noreplyField_wrapped (u : Unended input)
    (hfields : 2 < (input.splitOn space).length) :
    noreplyField input npos (next npos) = junk := by
  have hnext : next npos = 0 := by simp [next, toWord, npos, wordMax]
  have hnot : input ≠ ascii "noreply" ∧ input ≠ ascii "noreply " := by
    constructor
    · rintro rfl
      revert hfields
      decide
    · rintro rfl
      revert hfields
      decide
  have hzero : (0 : Nat) ≠ npos := by simp [npos, wordMax]
  simp only [noreplyField, hnext, hzero, if_false, u.start.field_crlf u,
    junk]
  simp [hnot]

theorem casField_npos (input : Bytes) (isCas : Bool) (nextEndl nextSpace : Nat) :
    casField input isCas nextEndl nextSpace npos = .ok (nextSpace, [], npos) := by
  rw [casField, if_neg (fun h => h.2 rfl)]
  rfl

theorem lastFields_npos (u : Unended input)
    (hfields : 2 < (input.splitOn space).length) (isCas : Bool) (pos : Nat)
    (bytesStr casStr : Bytes) :
    lastFields input isCas npos pos npos bytesStr casStr = junk := by
  rw [lastFields, if_neg (Nat.lt_irrefl npos), noreplyField_wrapped u hfields]
  rfl

theorem bytesAndToken_none (c : Tail input pos rest) (u : Unended input)
    (hfields : 2 < (input.splitOn space).length) (isCas : Bool) {t : Bytes}
    (hcut : cut space rest = (t, none)) :
    bytesAndToken input isCas npos pos = junk := by
  rw [bytesAndToken, c.field_space_none u hcut, Parse.ok_bind]
  dsimp only
  rw [casField_npos, Parse.ok_bind]
  exact lastFields_npos u hfields ..

theorem openEnding_eq (c : Tail input pos rest) (u : Unended input)
    (hfields : 2 < (input.splitOn space).length) (isCas : Bool) :
    bytesAndToken input isCas npos pos = openEndingOf isCas rest := by
  cases hcut : cut space rest with
  | mk bytesStr after =>
      cases after with
      | none =>
          rw [bytesAndToken_none c u hfields isCas hcut]
          cases isCas with
          | false => simp only [openEndingOf, hcut]
          | true => simp only [openEndingOf, hcut]
      | some after =>
          have hfound := c.not_missing u hcut
          have cnext := c.next u hcut
          have hnpos : pos + bytesStr.length ≠ npos :=
            fun heq => hfound (.inl heq)
          have hle : ¬ pos + bytesStr.length > npos :=
            fun hlt => hfound (.inr hlt)
          cases isCas with
          | false =>
              simp only [bytesAndToken, openEndingOf, hcut,
                c.field_space u hcut, casField, lastFields,
                openNoreply_eq cnext u, Parse.ok_bind, Parse.pure_eq, hle,
                Bool.false_eq_true, false_and, if_false]
          | true =>
              cases hcut' : cut space after with
              | mk casStr last =>
                  cases last with
                  | none =>
                      simp only [openEndingOf, hcut, hcut']
                      rw [bytesAndToken, c.field_space u hcut, Parse.ok_bind]
                      dsimp only
                      rw [casField, if_pos ⟨rfl, hnpos⟩, if_neg hfound,
                        cnext.field_space_none u hcut', Parse.ok_bind]
                      dsimp only
                      rw [Parse.pure_eq, Parse.ok_bind]
                      exact lastFields_npos u hfields true _ bytesStr after
                  | some last =>
                      have hlast := cnext.not_missing u hcut'
                      have hle' : ¬ next (pos + bytesStr.length) +
                          casStr.length > npos :=
                        fun hlt => hlast (.inr hlt)
                      simp only [bytesAndToken, openEndingOf, hcut, hcut',
                        c.field_space u hcut, casField, lastFields, hfound,
                        cnext.field_space u hcut',
                        openNoreply_eq (cnext.next u hcut') u,
                        Parse.ok_bind, Parse.pure_eq, hnpos, ne_eq,
                        not_false_eq_true, and_self, if_true, if_false, hle']

theorem openShortEnding_eq (c : Tail input pos rest) (u : Unended input)
    (hfields : 2 < (input.splitOn space).length) :
    bytesAndToken input false npos (next pos) = openShortEndingOf rest := by
  have hendl := c.endl
  have hsmall := u.small
  have hpos : next pos = pos + 1 := by
    unfold next toWord wordSize at *
    omega
  rw [hpos]
  cases rest with
  | nil =>
      have hbehind : input.length < pos + 1 := by
        simp only [List.length_nil] at hendl
        omega
      simp only [bytesAndToken, field, between, substr, hbehind, if_true,
        Parse.error_bind, openShortEndingOf]
  | cons b rest =>
      refine openEnding_eq ⟨?_, ?_⟩ u hfields false
      · rw [← List.drop_drop, c.text]
        rfl
      · simp only [List.length_cons] at hendl
        omega

theorem openDataField_eq (bytes : Nat) :
    dataField input npos bytes =
      .ok (if (([] : Bytes).take bytes).length < bytes then
          (wordToInt (wordSub (toWord (bytes + 2))
            (([] : Bytes).take bytes).length), ([] : Bytes).take bytes)
        else (0, ([] : Bytes).take bytes)) := by
  by_cases hzero : bytes = 0
  · rw [dataField, if_neg (fun h => h.2 hzero), if_pos hzero, hzero]
    rfl
  · have hsub : wordSub (toWord (bytes + 2)) 0 = toWord (bytes + 2) := by
      unfold wordSub toWord
      omega
    have hpos : 0 < bytes := Nat.pos_of_ne_zero hzero
    rw [dataField, if_pos ⟨.inl rfl, hzero⟩, List.take_nil, List.length_nil,
      if_pos hpos, hsub]
    rfl

theorem cmdProcessCommon_open (u : Unended input) (now : Nat) (isCas : Bool) :
    cmdProcessCommon now input isCas false =
      fullOf now [] (openEndingOf isCas) [] input := by
  have c := u.start
  have hendl := u.find_crlf 0
  unfold fullOf
  cases hword : cut space input with
  | mk word after =>
      cases after with
      | none =>
          rw [cmdProcessCommon, c.find_space_none hword, hendl,
            if_pos missing_npos]
      | some after =>
          have hfound := c.not_missing u hword
          have ckey := c.next u hword
          cases hkey : cut space after with
          | mk key rest =>
              cases rest with
              | none =>
                  rw [cmdProcessCommon, c.find_space hword, hendl,
                    if_neg hfound, ckey.field_space_none u hkey, Parse.ok_bind]
                  dsimp only
                  rw [if_pos missing_npos, hkey]
              | some rest =>
                  have hfound' := ckey.not_missing u hkey
                  have cflags := ckey.next u hkey
                  rw [cmdProcessCommon, c.find_space hword, hendl,
                    if_neg hfound, ckey.field_space u hkey, Parse.ok_bind]
                  dsimp only
                  rw [if_neg hfound', hkey, flagsAndExpiry,
                    if_neg Bool.false_ne_true]
                  cases hflags : cut space rest with
                  | mk flags last =>
                      cases last with
                      | none =>
                          rw [cflags.field_space_none u hflags, Parse.ok_bind]
                          dsimp only
                          rw [if_pos missing_npos, hflags]
                          rfl
                      | some last =>
                          have hfound'' := cflags.not_missing u hflags
                          have ctext := cflags.next u hflags
                          rw [cflags.field_space u hflags, Parse.ok_bind]
                          dsimp only
                          rw [if_neg hfound'', hflags]
                          cases htext : cut space last with
                          | mk text ending =>
                              cases ending with
                              | none =>
                                  obtain ⟨rfl, -⟩ := cut_of_none htext
                                  rw [ctext.field_space_none u htext,
                                    Parse.ok_bind]
                                  dsimp only
                                  rw [htext]
                                  dsimp only
                                  rw [List.append_nil]
                                  cases expiryField now text with
                                  | error e => rfl
                                  | ok expTime =>
                                      rw [Parse.ok_bind, if_pos missing_npos]
                                      rfl
                              | some ending =>
                                  have hlast := ctext.not_missing u htext
                                  have cending := ctext.next u htext
                                  have hfields :
                                      2 < (input.splitOn space).length := by
                                    rw [splitOn_cut hword, splitOn_cut hkey,
                                      splitOn_cut hflags, splitOn_cut htext]
                                    simp
                                  rw [ctext.field_space u htext, Parse.ok_bind]
                                  dsimp only
                                  rw [htext]
                                  dsimp only
                                  cases expiryField now text with
                                  | error e => rfl
                                  | ok expTime =>
                                      rw [Parse.ok_bind, if_neg hlast,
                                        Parse.pure_eq, Parse.ok_bind]
                                      dsimp only
                                      rw [openEnding_eq cending u hfields]
                                      exact common_eq openDataField_eq
                                        (.ok (flags, expTime, ending))
                                        (openEndingOf isCas) key

theorem cmdProcessCommon_openShort (u : Unended input) (now : Nat) :
    cmdProcessCommon now input false true =
      shortFormOf openShortEndingOf [] input := by
  have c := u.start
  have hendl := u.find_crlf 0
  unfold shortFormOf
  cases hword : cut space input with
  | mk word after =>
      cases after with
      | none =>
          rw [cmdProcessCommon, c.find_space_none hword, hendl,
            if_pos missing_npos]
      | some after =>
          have hfound := c.not_missing u hword
          have ckey := c.next u hword
          cases hkey : cut space after with
          | mk key rest =>
              cases rest with
              | none =>
                  rw [cmdProcessCommon, c.find_space hword, hendl,
                    if_neg hfound, ckey.field_space_none u hkey, Parse.ok_bind]
                  dsimp only
                  rw [if_pos missing_npos, hkey]
              | some rest =>
                  have hfound' := ckey.not_missing u hkey
                  have crest := ckey.next u hkey
                  have hfields : 2 < (input.splitOn space).length := by
                    have hne := List.splitOn_ne_nil space rest
                    have hpos := List.length_pos_iff.mpr hne
                    rw [splitOn_cut hword, splitOn_cut hkey]
                    simp only [List.length_cons]
                    omega
                  rw [cmdProcessCommon, c.find_space hword, hendl,
                    if_neg hfound, ckey.field_space u hkey, Parse.ok_bind]
                  dsimp only
                  rw [if_neg hfound', hkey, flagsAndExpiry, if_pos rfl,
                    Parse.pure_eq, Parse.ok_bind]
                  dsimp only
                  rw [openShortEnding_eq crest u hfields]
                  exact common_eq openDataField_eq (.ok ([], 0, rest))
                    openShortEndingOf key

end Storage

end Memstashed.Scmd
