import Memstashed.Scmd.Acceptance

/-!
# What the header owes to the data

Two requests with the same line differ in their data only.  Where the parser
looks for a space behind the last field of the line, it finds one in the data or
none at all; most tests do not tell the two apart, and the ones that do are in
the lines listed here.
-/

namespace Memstashed.Scmd

open Memstashed.Foundation
open Memstashed.Dblru

/-- What is read from the line: the members other than the data, or the error. -/
def headerPart (request : Parse (Int × StorageStruct)) : Parse StorageStruct :=
  request.map fun r => { r.2 with data := [] }

def SameHeader (now : Nat) (isCas isExistData : Bool) (line : Bytes) : Prop :=
  ∀ input input' data data', Framed input line data → Framed input' line data' →
    headerPart (cmdProcessCommon now input isCas isExistData) =
      headerPart (cmdProcessCommon now input' isCas isExistData)

/-- The lines behind which the parser reads on: an exptime of white space with
no field behind it, a `cas` without a token, and in the short form a count that
is missing, or a count without the token that `isCas` asks for. -/
inductive ReadsPast : Bool → Bool → Bytes → Prop
  | expiry {isCas : Bool} {line word key flags text : Bytes}
      (hline : line.splitOn space = [word, key, flags, text])
      (hblank : Blank text) : ReadsPast isCas false line
  | token {line word key flags text bytes : Bytes}
      (hline : line.splitOn space = [word, key, flags, text, bytes])
      (hexpiry : ∃ expTime, stoul text = .ok expTime) :
      ReadsPast true false line
  | count {line word key : Bytes}
      (hline : line.splitOn space = [word, key, []]) :
      ReadsPast false true line
  | shortToken {line word key rest : Bytes}
      (hline : line.splitOn space = word :: key :: rest.splitOn space)
      (hrest : space ∉ rest.drop 1) : ReadsPast true true line

/-! ## The short form of a `cas` -/

/-- A count behind the line is read up to the next space; without one it is
taken for the token as well. -/
def shortCasEndingOf (data : Bytes) : Bytes → Parse (Bytes × Bytes × Bool)
  | [] =>
      if space ∈ data then reply "CLIENT_ERROR cas string not found\r\n"
      else .ok (10 :: data, (10 :: data).take (find (10 :: data) crlf 0), false)
  | _ :: rest => bytesAndTokenOf true data rest

section Storage

variable {input line data rest : Bytes} {pos : Nat}

theorem bytesAndToken_past_cas (f : Framed input line data) :
    bytesAndToken input true line.length (line.length + 1) =
      shortCasEndingOf data [] := by
  have hlength := f.length_eq
  have hlt := f.lt
  have hsmall := f.small
  have hpos : line.length + 1 ≤ input.length := by omega
  have hdrop : input.drop (line.length + 1) = 10 :: data := by
    rw [f.eq, ← List.drop_drop]
    simp [crlf]
  have hfirst : space ∉ ([10] : Bytes) := by decide
  have hsearch : find? [space] (10 :: data) = (find? [space] data).map (1 + ·) :=
    find?_append_of_notMem data hfirst
  unfold bytesAndToken shortCasEndingOf
  rw [field_at f.small _ hpos, hdrop, Parse.ok_bind]
  dsimp only
  by_cases hdata : space ∈ data
  · obtain ⟨d, d', rfl⟩ := List.append_of_mem hdata
    cases hcut : cut space (d ++ space :: d') with
    | mk u o =>
        cases o with
        | none => exact absurd hdata (cut_of_none hcut).2
        | some v =>
            obtain ⟨heq, hnot⟩ := cut_of_some hcut
            rw [heq] at hlength
            have hspace : find input [space] (line.length + 1) =
                line.length + 1 + (1 + u.length) := by
              rw [find, hdrop, hsearch, heq, find?_append_cons _ hnot]
              rfl
            simp only [List.length_append, List.length_cons] at hlength
            have hnpos : line.length + 1 + (1 + u.length) ≠ npos := by
              unfold npos wordMax wordSize at *
              omega
            have hmissing : Missing (line.length + 1 + (1 + u.length))
                line.length := .inr (by omega)
            rw [hspace, casField, if_pos ⟨rfl, hnpos⟩, if_pos hmissing,
              if_pos hdata]
            rfl
  · have hspace : find input [space] (line.length + 1) = npos := by
      rw [find, hdrop, hsearch, find?_of_notMem hdata]
      rfl
    have hall : (10 :: data).take (find (10 :: data) [space] 0) = 10 :: data := by
      rw [find, List.drop_zero, hsearch, find?_of_notMem hdata]
      refine List.take_of_length_le ?_
      simp only [Option.map_none, List.length_cons]
      unfold npos wordMax wordSize at *
      omega
    have hlarge : npos > line.length := by
      unfold npos wordMax wordSize at *
      omega
    rw [hspace, hall, casField, if_neg (fun h => h.2 rfl), Parse.pure_eq,
      Parse.ok_bind]
    dsimp only
    rw [lastFields, if_pos hlarge, field_at f.small _ hpos, hdrop, if_neg hdata]
    rfl

theorem bytesAndToken_skip_cas (f : Framed input line data)
    (c : Cursor input line data pos rest) :
    bytesAndToken input true line.length (next pos) =
      shortCasEndingOf data rest := by
  cases rest with
  | nil =>
      rw [c.next_endl f]
      exact bytesAndToken_past_cas f
  | cons b rest => exact bytesAndToken_skip_cons f c true

theorem cmdProcessCommon_shortCas (f : Framed input line data) (now : Nat) :
    cmdProcessCommon now input true true =
      shortFormOf (shortCasEndingOf data) data line :=
  cmdProcessCommon_shortForm f now true (bytesAndToken_skip_cas f)

end Storage

/-! ## The header without the data -/

def fieldsOf (key flags : Bytes) (expTime : Nat)
    (ending : Parse (Bytes × Bytes × Bool)) : Parse StorageStruct := do
  let (bytesStr, casStr, noreply) ← ending
  let bytes ← stoulOr "CLIENT_ERROR invalid number of bytes\r\n" bytesStr
  return ⟨key, flags, expTime, bytes, casStr, noreply, []⟩

@[simp] theorem headerPart_bind {α : Type} (x : Parse α)
    (k : α → Parse (Int × StorageStruct)) :
    headerPart (x >>= k) = x >>= fun a => headerPart (k a) := by
  cases x with
  | ok a => rfl
  | error e => rfl

@[simp] theorem headerPart_reply (output : String) :
    headerPart (reply output) = reply output := rfl

theorem headerPart_fields (data key flags : Bytes) (expTime : Nat)
    (ending : Parse (Bytes × Bytes × Bool)) :
    headerPart (do
        let (bytesStr, casStr, noreply) ← ending
        let (ret, bytes, data) ← dataOf data bytesStr
        return (ret, ⟨key, flags, expTime, bytes, casStr, noreply, data⟩)) =
      fieldsOf key flags expTime ending := by
  cases ending with
  | error e => rfl
  | ok last =>
      simp only [Parse.ok_bind, fieldsOf, dataOf, Parse.bind_bind]
      cases stoulOr "CLIENT_ERROR invalid number of bytes\r\n" last.1 with
      | error e => rfl
      | ok bytes =>
          simp only [Parse.ok_bind]
          split
          · rfl
          · rfl

theorem bytesAndTokenOf_congr {isCas : Bool} {rest : Bytes}
    (h : isCas = true → space ∈ rest) (data data' : Bytes) :
    bytesAndTokenOf isCas data rest = bytesAndTokenOf isCas data' rest := by
  cases hcut : cut space rest with
  | mk text after =>
      cases after with
      | none =>
          cases isCas with
          | false => simp only [bytesAndTokenOf, hcut]
          | true => exact absurd (h rfl) (cut_of_none hcut).2
      | some after =>
          cases isCas with
          | false => simp only [bytesAndTokenOf, hcut]
          | true => simp only [bytesAndTokenOf, hcut]

theorem expiryField_congr {text text' : Bytes}
    (h : numberAt text = numberAt text') (now : Nat) :
    expiryField now text = expiryField now text' := by
  simp only [expiryField, stoulOr, stoul_congr h]

section Lines

variable {input line data : Bytes}

theorem header_full (f : Framed input line data) (now : Nat) (isCas : Bool) :
    headerPart (cmdProcessCommon now input isCas false) =
      headerPart (fullOf now (crlf ++ (cut space data).1)
        (bytesAndTokenOf isCas data) data line) := by
  rw [cmdProcessCommon_full f, commonOf_eq_fullOf]

theorem header_short (f : Framed input line data) (now : Nat) :
    headerPart (cmdProcessCommon now input false true) =
      headerPart (shortFormOf (shortEndingOf data) data line) := by
  rw [cmdProcessCommon_short f, shortOf_eq_shortFormOf]

theorem header_shortCas (f : Framed input line data) (now : Nat) :
    headerPart (cmdProcessCommon now input true true) =
      headerPart (shortFormOf (shortCasEndingOf data) data line) := by
  rw [cmdProcessCommon_shortCas f]

theorem sameHeader_full {now : Nat} {isCas : Bool}
    (h : ¬ ReadsPast isCas false line) : SameHeader now isCas false line := by
  intro input input' data data' f f'
  rw [header_full f, header_full f']
  obtain ⟨output, -, heq⟩ | ⟨word, key, flags, text, hline, heq⟩ |
    ⟨word, key, flags, text, rest, hline, heq⟩ := fullOf_cases line
  · rw [heq, heq]
  · have hblank : ¬ Blank text := fun hblank => h (.expiry hline hblank)
    have hnumber : ∀ d, numberAt (text ++ (crlf ++ d)) = numberAt text := by
      intro d
      rw [numberAt_crlf_append, if_neg hblank]
    have hexpiry := expiryField_congr
      ((hnumber (cut space data).1).trans (hnumber (cut space data').1).symm)
      now
    rw [heq, heq, hexpiry]
  · rw [heq, heq]
    cases hexpiry : expiryField now text with
    | error e => rfl
    | ok expTime =>
        have htoken : isCas = true → space ∈ rest := by
          rintro rfl
          by_contra hspace
          rw [List.splitOn_eq_singleton hspace] at hline
          exact h (.token hline (expiryField_ok_iff.mp ⟨expTime, hexpiry⟩))
        rw [Parse.ok_bind, Parse.ok_bind, headerPart_fields, headerPart_fields,
          bytesAndTokenOf_congr htoken data data']

theorem sameHeader_short {now : Nat} (h : ¬ ReadsPast false true line) :
    SameHeader now false true line := by
  intro input input' data data' f f'
  rw [header_short f, header_short f']
  obtain ⟨output, -, heq⟩ | ⟨word, key, rest, hline, heq⟩ :=
    shortFormOf_cases line
  · rw [heq, heq]
  · rw [heq, heq, headerPart_fields, headerPart_fields]
    cases rest with
    | nil => exact absurd (.count hline) h
    | cons b rest =>
        have hsame : bytesAndTokenOf false data rest =
            bytesAndTokenOf false data' rest :=
          bytesAndTokenOf_congr (by simp) data data'
        exact congrArg (fieldsOf key [] 0) hsame

theorem sameHeader_shortCas {now : Nat} (h : ¬ ReadsPast true true line) :
    SameHeader now true true line := by
  intro input input' data data' f f'
  rw [header_shortCas f, header_shortCas f']
  obtain ⟨output, -, heq⟩ | ⟨word, key, rest, hline, heq⟩ :=
    shortFormOf_cases line
  · rw [heq, heq]
  · rw [heq, heq, headerPart_fields, headerPart_fields]
    have hspace : space ∈ rest.drop 1 := by
      by_contra hnot
      exact h (.shortToken hline hnot)
    cases rest with
    | nil => simp at hspace
    | cons b rest =>
        have hsame : bytesAndTokenOf true data rest =
            bytesAndTokenOf true data' rest :=
          bytesAndTokenOf_congr (fun _ => hspace) data data'
        exact congrArg (fieldsOf key [] 0) hsame

/-! ## Reading on -/

theorem framed_of_line (hline : ¬ crlf <:+: line)
    (hroom : line.length + 8 < wordSize) (hdata : data.length ≤ 1) :
    Framed (line ++ (crlf ++ data)) line data := by
  refine ⟨rfl, find?_crlf hline data, ?_⟩
  simp only [crlf, List.length_append, List.length_cons, List.length_nil]
  omega

theorem reply_ne {α : Type} {output output' : String}
    (h : ascii output ≠ ascii output') :
    (reply output : Parse α) ≠ reply output' := by
  intro heq
  exact h (Stop.reply.inj (Except.error.inj heq))

theorem fieldsOf_ne_noToken (key flags : Bytes) (expTime : Nat)
    (last : Bytes × Bytes × Bool) :
    fieldsOf key flags expTime (.ok last) ≠
      reply "CLIENT_ERROR cas string not found\r\n" := by
  rw [fieldsOf, Parse.ok_bind]
  dsimp only
  unfold stoulOr
  cases stoul last.1 with
  | ok bytes =>
      intro h
      cases h
  | error e =>
      cases e with
      | invalidArgument => exact reply_ne (by decide)
      | outOfRange =>
          intro h
          cases h

section Witnesses

variable {now : Nat} {word key flags text : Bytes}

theorem expiry_readsPast {isCas : Bool} (f : Framed (line ++ (crlf ++ [])) line [])
    (f' : Framed (line ++ (crlf ++ [49])) line [49])
    (hline : line.splitOn space = [word, key, flags, text])
    (hblank : Blank text) : ¬ SameHeader now isCas false line := by
  intro hsame
  have hequal := hsame _ _ _ _ f f'
  have hread : ∀ d, stoul (text ++ (crlf ++ d)) = stoul d := by
    intro d
    refine stoul_congr ?_
    rw [numberAt_crlf_append, if_pos hblank]
  rw [header_full f, header_full f'] at hequal
  obtain ⟨output, hshort, -⟩ | ⟨word, key, flags, text', hline', heq⟩ |
    ⟨word, key, flags, text', rest, hline', -⟩ := fullOf_cases line
  · simp [hline] at hshort
  · simp only [hline, List.cons.injEq] at hline'
    obtain ⟨-, -, -, rfl, -⟩ := hline'
    have hempty : stoul (cut space []).1 = .error .invalidArgument := by decide
    have hdigit : stoul (cut space [49]).1 = .ok 1 := by decide
    rw [heq, heq, expiryField, expiryField, stoulOr, stoulOr, hread, hread,
      hempty, hdigit] at hequal
    exact reply_ne (by decide) hequal
  · simp only [hline, List.cons.injEq] at hline'
    exact absurd hline'.2.2.2.2.symm (List.splitOn_ne_nil space rest)

theorem token_readsPast {bytes : Bytes}
    (f : Framed (line ++ (crlf ++ [])) line [])
    (f' : Framed (line ++ (crlf ++ [space])) line [space])
    (hline : line.splitOn space = [word, key, flags, text, bytes])
    (hexpiry : ∃ expTime, stoul text = .ok expTime) :
    ¬ SameHeader now true false line := by
  intro hsame
  have hequal := hsame _ _ _ _ f f'
  rw [header_full f, header_full f'] at hequal
  obtain ⟨output, hshort, -⟩ | ⟨word, key, flags, text', hline', -⟩ |
    ⟨word, key, flags, text', rest, hline', heq⟩ := fullOf_cases line
  · simp [hline] at hshort
  · simp [hline] at hline'
  · simp only [hline, List.cons.injEq] at hline'
    obtain ⟨-, -, -, rfl, hrest⟩ := hline'
    obtain ⟨expTime, hexpTime⟩ :
        ∃ expTime, expiryField now text = .ok expTime :=
      expiryField_ok_iff.mpr hexpiry
    have hcut : cut space rest = (rest, none) := by
      cases hcut : cut space rest with
      | mk t after =>
          cases after with
          | none => rw [(cut_of_none hcut).1]
          | some after =>
              rw [splitOn_cut hcut, List.cons.injEq] at hrest
              exact absurd hrest.2.symm (List.splitOn_ne_nil space after)
    have hempty : bytesAndTokenOf true [] rest =
        .ok (rest ++ (crlf ++ []), rest, false) := by
      simp [bytesAndTokenOf, hcut]
    have hspace : bytesAndTokenOf true [space] rest =
        reply "CLIENT_ERROR cas string not found\r\n" := by
      simp [bytesAndTokenOf, hcut]
    rw [heq, heq, hexpTime, Parse.ok_bind, Parse.ok_bind, headerPart_fields,
      headerPart_fields, hempty, hspace] at hequal
    exact fieldsOf_ne_noToken _ _ _ _ hequal

theorem count_readsPast (f : Framed (line ++ (crlf ++ [])) line [])
    (f' : Framed (line ++ (crlf ++ [49])) line [49])
    (hline : line.splitOn space = [word, key, []]) :
    ¬ SameHeader now false true line := by
  intro hsame
  have hequal := hsame _ _ _ _ f f'
  rw [header_short f, header_short f'] at hequal
  obtain ⟨output, hshort, -⟩ | ⟨word, key, rest, hline', heq⟩ :=
    shortFormOf_cases line
  · simp [hline] at hshort
  · simp only [hline, List.cons.injEq] at hline'
    have hempty : rest.splitOn space = ([] : Bytes).splitOn space :=
      hline'.2.2.symm
    have hrest : rest = [] := splitOn_injective hempty
    subst hrest
    rw [heq, heq, headerPart_fields, headerPart_fields] at hequal
    have hempty : fieldsOf key [] 0 (shortEndingOf [] []) =
        reply "CLIENT_ERROR invalid number of bytes\r\n" := rfl
    have hdigit : fieldsOf key [] 0 (shortEndingOf [49] []) =
        .ok ⟨key, [], 0, 1, [], false, []⟩ := rfl
    rw [hempty, hdigit] at hequal
    cases hequal

theorem shortToken_readsPast {rest : Bytes}
    (f : Framed (line ++ (crlf ++ [])) line [])
    (f' : Framed (line ++ (crlf ++ [space])) line [space])
    (hline : line.splitOn space = word :: key :: rest.splitOn space)
    (hrest : space ∉ rest.drop 1) : ¬ SameHeader now true true line := by
  intro hsame
  have hequal := hsame _ _ _ _ f f'
  rw [header_shortCas f, header_shortCas f'] at hequal
  obtain ⟨output, hshort, -⟩ | ⟨word, key, rest', hline', heq⟩ :=
    shortFormOf_cases line
  · have hpos := List.length_pos_iff.mpr (List.splitOn_ne_nil space rest)
    simp only [hline, List.length_cons] at hshort
    omega
  · simp only [hline, List.cons.injEq] at hline'
    obtain rfl : rest = rest' := splitOn_injective hline'.2.2
    have hempty : ∃ last, shortCasEndingOf [] rest = .ok last := by
      cases rest with
      | nil => exact ⟨_, rfl⟩
      | cons b rest =>
          have hcut : cut space rest = (rest, none) := cut_of_notMem hrest
          refine ⟨(rest ++ (crlf ++ []), rest, false), ?_⟩
          simp [shortCasEndingOf, bytesAndTokenOf, hcut]
    have hspace : shortCasEndingOf [space] rest =
        reply "CLIENT_ERROR cas string not found\r\n" := by
      cases rest with
      | nil => rfl
      | cons b rest =>
          have hcut : cut space rest = (rest, none) := cut_of_notMem hrest
          simp [shortCasEndingOf, bytesAndTokenOf, hcut]
    obtain ⟨last, hlast⟩ := hempty
    rw [heq, heq, headerPart_fields, headerPart_fields, hlast, hspace] at hequal
    exact fieldsOf_ne_noToken _ _ _ _ hequal

end Witnesses

theorem not_sameHeader {now : Nat} {isCas isExistData : Bool}
    (hcrlf : ¬ crlf <:+: line) (hroom : line.length + 8 < wordSize)
    (h : ReadsPast isCas isExistData line) :
    ¬ SameHeader now isCas isExistData line := by
  have hframed : ∀ {data : Bytes}, data.length ≤ 1 →
      Framed (line ++ (crlf ++ data)) line data :=
    fun hdata => framed_of_line hcrlf hroom hdata
  cases h with
  | expiry hline hblank =>
      exact expiry_readsPast (hframed (by simp)) (hframed (by simp)) hline
        hblank
  | token hline hexpiry =>
      exact token_readsPast (hframed (by simp)) (hframed (by simp)) hline
        hexpiry
  | count hline =>
      exact count_readsPast (hframed (by simp)) (hframed (by simp)) hline
  | shortToken hline hrest =>
      exact shortToken_readsPast (hframed (by simp)) (hframed (by simp)) hline
        hrest

end Lines

/-- The slip of a `cas`: the test for a space behind the byte count compares with
`npos`, where its siblings compare with the end of the line. -/
theorem sameHeader_iff (now : Nat) (isCas isExistData : Bool) {line : Bytes}
    (hcrlf : ¬ crlf <:+: line) (hroom : line.length + 8 < wordSize) :
    SameHeader now isCas isExistData line ↔
      ¬ ReadsPast isCas isExistData line := by
  constructor
  · exact fun hsame h => not_sameHeader hcrlf hroom h hsame
  · intro h
    cases isExistData with
    | false => exact sameHeader_full h
    | true =>
        cases isCas with
        | false => exact sameHeader_short h
        | true => exact sameHeader_shortCas h

theorem sameHeader_set : SameHeader 1000 false false (ascii "set k 0 0 1") := by
  have hfields : (ascii "set k 0 0 1").splitOn space =
      [ascii "set", ascii "k", ascii "0", ascii "0", ascii "1"] := by decide
  refine (sameHeader_iff 1000 false false (by decide) (by decide)).mpr
    fun h => ?_
  cases h with
  | expiry hline => simp [hfields] at hline

/-- The first request is accepted with the token `1`, and the second is
refused for want of one. -/
theorem header_depends_on_data :
    lineOf (ascii "cas k 0 0 1\r\na\r\n") =
      lineOf (ascii "cas k 0 0 1\r\n \r\n") ∧
    headerPart (cmdProcessCommon 1000 (ascii "cas k 0 0 1\r\na\r\n") true
        false) =
      .ok ⟨ascii "k", ascii "0", 0, 1, ascii "1", false, []⟩ ∧
    headerPart (cmdProcessCommon 1000 (ascii "cas k 0 0 1\r\n \r\n") true
        false) =
      reply "CLIENT_ERROR cas string not found\r\n" := by
  decide

end Memstashed.Scmd
