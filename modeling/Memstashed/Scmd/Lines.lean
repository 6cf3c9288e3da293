import Memstashed.Foundation.Search
import Memstashed.Scmd.Parsing

/-!
# Requests as lines

A request that contains a CRLF is a line and what follows it.  Read from inside
the line, the searches of the parser cut the line at its spaces, and a search
that leaves the line is recognised as such; so every parser of `scmd.cpp` is a
function of the line, cut at its spaces, and in a few places of the data.
-/

namespace Memstashed.Scmd

open Memstashed.Foundation
open Memstashed.Dblru

/-- The input, cut at its first CRLF; its size is that of a string. -/
structure Framed (input line data : Bytes) : Prop where
  eq : input = line ++ (crlf ++ data)
  endl : find? crlf input = some line.length
  small : input.length + 2 < wordSize

def lineOf (input : Bytes) : Bytes := input.take (find input crlf 0)

def afterLine (input : Bytes) : Bytes := input.drop (find input crlf 0 + 2)

theorem framed_of_crlf {input : Bytes} (h : crlf <:+: input)
    (hsmall : input.length + 2 < wordSize) :
    Framed input (lineOf input) (afterLine input) := by
  obtain ⟨i, hi⟩ := exists_find?_of_isInfix h
  obtain ⟨data, hdata⟩ := find?_isPrefixOf hi
  have hle : i ≤ input.length := by
    have hlength := congrArg List.length hdata
    simp only [crlf, List.length_append, List.length_cons, List.length_nil,
      List.length_drop] at hlength
    omega
  have hfind : find input crlf 0 = i := by simp [find, hi]
  have hafter : afterLine input = data := by
    rw [afterLine, hfind, ← List.drop_drop, ← hdata]
    simp [crlf]
  refine ⟨?_, ?_, hsmall⟩
  · rw [hafter, hdata, lineOf, hfind, List.take_append_drop]
  · rw [lineOf, hfind, List.length_take_of_le hle, hi]

/-- The position `pos` is inside the line, before `rest`. -/
structure Cursor (input line data : Bytes) (pos : Nat) (rest : Bytes) :
    Prop where
  text : input.drop pos = rest ++ (crlf ++ data)
  endl : pos + rest.length = line.length

section Cursors

variable {input line data : Bytes} {pos : Nat} {rest t r : Bytes}

theorem Framed.length_eq (f : Framed input line data) :
    input.length = line.length + 2 + data.length := by
  rw [f.eq]
  simp only [crlf, List.length_append, List.length_cons, List.length_nil]
  omega

theorem Framed.lt (f : Framed input line data) :
    line.length + 4 < wordSize := by
  have hlength := f.length_eq
  have hsmall := f.small
  omega

theorem Framed.find_crlf (f : Framed input line data) :
    find input crlf 0 = line.length := by
  simp [find, f.endl]

theorem Framed.start (f : Framed input line data) :
    Cursor input line data 0 line :=
  ⟨by simpa using f.eq, by simp⟩

theorem Cursor.find_crlf (c : Cursor input line data pos rest)
    (f : Framed input line data) : find input crlf pos = line.length := by
  have hpos : pos ≤ line.length := by
    have hendl := c.endl
    omega
  rw [find, find?_drop f.endl hpos]
  simp only
  omega

theorem Cursor.find_space (c : Cursor input line data pos rest)
    (hcut : cut space rest = (t, some r)) :
    find input [space] pos = pos + t.length := by
  obtain ⟨hrest, hnot⟩ := cut_of_some hcut
  have htext : input.drop pos = t ++ space :: (r ++ (crlf ++ data)) := by
    rw [c.text, hrest]
    simp
  rw [find, htext, find?_append_cons _ hnot]

theorem Cursor.next (c : Cursor input line data pos rest)
    (f : Framed input line data) (hcut : cut space rest = (t, some r)) :
    Cursor input line data (Scmd.next (pos + t.length)) r := by
  obtain ⟨hrest, -⟩ := cut_of_some hcut
  have hendl := c.endl
  have hlt := f.lt
  rw [hrest] at hendl
  simp only [List.length_append, List.length_cons] at hendl
  have hnext : Scmd.next (pos + t.length) = pos + (t.length + 1) := by
    unfold Scmd.next toWord wordSize at *
    omega
  rw [hnext]
  constructor
  · rw [← List.drop_drop, c.text, hrest]
    simp
  · omega

theorem Cursor.not_missing (c : Cursor input line data pos rest)
    (f : Framed input line data) (hcut : cut space rest = (t, some r)) :
    ¬ Missing (find input [space] pos) line.length := by
  obtain ⟨hrest, -⟩ := cut_of_some hcut
  have hendl := c.endl
  have hlt := f.lt
  rw [hrest] at hendl
  simp only [List.length_append, List.length_cons] at hendl
  rw [c.find_space hcut]
  unfold Missing npos wordMax wordSize at *
  omega

theorem Cursor.find_space_none (c : Cursor input line data pos rest)
    (hcut : cut space rest = (t, none)) :
    find input [space] pos =
      match find? [space] data with
      | some i => line.length + 2 + i
      | none => npos := by
  obtain ⟨-, hnot⟩ := cut_of_none hcut
  have hendl := c.endl
  have hcrlf : space ∉ crlf := by decide
  rw [find, c.text, find?_append_of_notMem _ hnot, find?_append_of_notMem _ hcrlf]
  cases find? [space] data with
  | none => rfl
  | some i =>
      simp only [Option.map_some, crlf, List.length_cons, List.length_nil]
      omega

theorem Cursor.lt_find_space (c : Cursor input line data pos rest)
    (f : Framed input line data) (hcut : cut space rest = (t, none)) :
    line.length < find input [space] pos := by
  have hlt := f.lt
  rw [c.find_space_none hcut]
  cases find? [space] data with
  | some i =>
      simp only
      omega
  | none =>
      simp only
      unfold npos wordMax wordSize at *
      omega

theorem Cursor.missing (c : Cursor input line data pos rest)
    (f : Framed input line data) (hcut : cut space rest = (t, none)) :
    Missing (find input [space] pos) line.length :=
  .inr (c.lt_find_space f hcut)

/-! ## Texts -/

theorem Cursor.le_length (c : Cursor input line data pos rest)
    (f : Framed input line data) : pos ≤ input.length := by
  have hendl := c.endl
  have hlength := f.length_eq
  omega

theorem Cursor.between_eq (c : Cursor input line data pos rest)
    (f : Framed input line data) (hstarts : t <+: rest) :
    between input pos (pos + t.length) = .ok t := by
  obtain ⟨u, rfl⟩ := hstarts
  have hle := c.le_length f
  have hendl := c.endl
  have hlt := f.lt
  simp only [List.length_append] at hendl
  have hsub : wordSub (pos + t.length) pos = t.length := by
    rw [wordSub_of_le (by omega) (by omega)]
    omega
  rw [between, substr, if_neg (by omega), hsub, c.text]
  simp

theorem Cursor.between_endl (c : Cursor input line data pos rest)
    (f : Framed input line data) : between input pos line.length = .ok rest := by
  have hbetween := c.between_eq f (List.prefix_refl rest)
  rwa [c.endl] at hbetween

theorem Cursor.field_crlf (c : Cursor input line data pos rest)
    (f : Framed input line data) :
    field input crlf pos = .ok (rest, line.length) := by
  simp only [field, c.find_crlf f, c.between_endl f]
  rfl

theorem Cursor.field_space (c : Cursor input line data pos rest)
    (f : Framed input line data) (hcut : cut space rest = (t, some r)) :
    field input [space] pos = .ok (t, pos + t.length) := by
  obtain ⟨hrest, -⟩ := cut_of_some hcut
  have hbetween : between input pos (pos + t.length) = .ok t :=
    c.between_eq f ⟨space :: r, hrest.symm⟩
  simp only [field, c.find_space hcut, hbetween]
  rfl

/-- The last field of a line, when it is taken to end at a space, runs on into
the data. -/
theorem Cursor.field_space_none (c : Cursor input line data pos rest)
    (f : Framed input line data) (hcut : cut space rest = (t, none)) :
    field input [space] pos =
      .ok (rest ++ (crlf ++ (cut space data).1), find input [space] pos) := by
  have hle := c.le_length f
  have hendl := c.endl
  have hlength := f.length_eq
  have hsmall := f.small
  have htext : between input pos (find input [space] pos) =
      .ok (rest ++ (crlf ++ (cut space data).1)) := by
    rw [between, substr, if_neg (by omega), c.find_space_none hcut, c.text]
    obtain ⟨d, hd⟩ | ⟨d, d', hd⟩ : (∃ d, cut space data = (d, none)) ∨
        ∃ d d', cut space data = (d, some d') := by
      cases hsplit : cut space data with
      | mk d o => cases o <;> simp
    · obtain ⟨rfl, hnot⟩ := cut_of_none hd
      rw [find?_of_notMem hnot, hd]
      have hall : (rest ++ (crlf ++ d)).length ≤ wordSub npos pos := by
        rw [wordSub_of_le (by decide) (by unfold npos wordMax wordSize at *; omega)]
        simp only [crlf, List.length_append, List.length_cons, List.length_nil]
        unfold npos wordMax wordSize at *
        omega
      simp only [List.take_of_length_le hall]
    · obtain ⟨rfl, hnot⟩ := cut_of_some hd
      simp only [List.length_append, List.length_cons] at hlength
      have hsub : wordSub (line.length + 2 + d.length) pos =
          (rest ++ (crlf ++ d)).length := by
        rw [wordSub_of_le (by omega) (by omega)]
        simp only [crlf, List.length_append, List.length_cons, List.length_nil]
        omega
      have hsplit : rest ++ (crlf ++ (d ++ space :: d')) =
          (rest ++ (crlf ++ d)) ++ space :: d' := by simp
      simp only [find?_append_cons _ hnot, hd, hsub, hsplit, List.take_left]
  simp only [field, htext]
  rfl

end Cursors

/-! ## Storage requests -/

def noreplyOf (rest : Bytes) : Parse Bool :=
  if rest = [] then return false
  else if rest ≠ ascii "noreply" ∧ rest ≠ ascii "noreply " then
    reply "CLIENT_ERROR junk found instead of \"noreply\"\r\n"
  else return true

/-- The end of a line from the byte count on: the text that is converted to the
number of bytes, the token, and the `noreply` flag. -/
def bytesAndTokenOf (isCas : Bool) (data rest : Bytes) :
    Parse (Bytes × Bytes × Bool) :=
  match isCas, cut space rest with
  | false, (bytesStr, none) => return (bytesStr, [], false)
  | false, (bytesStr, some rest) => do
      let noreply ← noreplyOf rest
      return (bytesStr, [], noreply)
  | true, (_, none) =>
      if space ∈ data then reply "CLIENT_ERROR cas string not found\r\n"
      else return (rest ++ (crlf ++ data), rest, false)
  | true, (bytesStr, some rest) =>
      match cut space rest with
      | (casStr, none) => return (bytesStr, casStr, false)
      | (casStr, some rest) => do
          let noreply ← noreplyOf rest
          return (bytesStr, casStr, noreply)

def flagsAndExpiryOf (now : Nat) (data rest : Bytes) :
    Parse (Bytes × Nat × Bytes) :=
  match cut space rest with
  | (_, none) => reply "CLIENT_ERROR expiry time not found\r\n"
  | (flags, some rest) =>
      match cut space rest with
      | (text, none) => do
          let _ ← expiryField now (text ++ (crlf ++ (cut space data).1))
          reply "CLIENT_ERROR bytes not found\r\n"
      | (text, some rest) => do
          let expTime ← expiryField now text
          return (flags, expTime, rest)

def dataOf (data bytesStr : Bytes) : Parse (Int × Nat × Bytes) := do
  let bytes ← stoulOr "CLIENT_ERROR invalid number of bytes\r\n" bytesStr
  if (data.take bytes).length < bytes then
    return (wordToInt (wordSub (toWord (bytes + 2)) (data.take bytes).length),
      bytes, data.take bytes)
  else return (0, bytes, data.take bytes)

def commonOf (now : Nat) (isCas : Bool) (line data : Bytes) :
    Parse (Int × StorageStruct) :=
  match cut space line with
  | (_, none) => reply "CLIENT_ERROR key not found\r\n"
  | (_, some rest) =>
      match cut space rest with
      | (_, none) => reply "CLIENT_ERROR flags not found\r\n"
      | (key, some rest) => do
          let (flags, expTime, rest) ← flagsAndExpiryOf now data rest
          let (bytesStr, casStr, noreply) ← bytesAndTokenOf isCas data rest
          let (ret, bytes, data) ← dataOf data bytesStr
          return (ret, ⟨key, flags, expTime, bytes, casStr, noreply, data⟩)

/-- The end of a short header: the first byte of the count is skipped, and if
there is none, the count is looked for in the line that follows. -/
def shortEndingOf (data : Bytes) : Bytes → Parse (Bytes × Bytes × Bool)
  | [] => .ok ((10 :: data).take (find (10 :: data) crlf 0), [], false)
  | _ :: rest => bytesAndTokenOf false data rest

def shortOf (line data : Bytes) : Parse (Int × StorageStruct) :=
  match cut space line with
  | (_, none) => reply "CLIENT_ERROR key not found\r\n"
  | (_, some rest) =>
      match cut space rest with
      | (_, none) => reply "CLIENT_ERROR flags not found\r\n"
      | (key, some rest) => do
          let (bytesStr, casStr, noreply) ← shortEndingOf data rest
          let (ret, bytes, data) ← dataOf data bytesStr
          return (ret, ⟨key, [], 0, bytes, casStr, noreply, data⟩)

/-- A full header whose last field is followed by `runOn` up to the next space,
and whose line is read by `ending` from the byte count on. -/
def fullOf (now : Nat) (runOn : Bytes)
    (ending : Bytes → Parse (Bytes × Bytes × Bool)) (data line : Bytes) :
    Parse (Int × StorageStruct) :=
  match cut space line with
  | (_, none) => reply "CLIENT_ERROR key not found\r\n"
  | (_, some rest) =>
      match cut space rest with
      | (_, none) => reply "CLIENT_ERROR flags not found\r\n"
      | (key, some rest) =>
          match cut space rest with
          | (_, none) => reply "CLIENT_ERROR expiry time not found\r\n"
          | (flags, some rest) =>
              match cut space rest with
              | (text, none) => do
                  let _ ← expiryField now (text ++ runOn)
                  reply "CLIENT_ERROR bytes not found\r\n"
              | (text, some rest) => do
                  let expTime ← expiryField now text
                  let (bytesStr, casStr, noreply) ← ending rest
                  let (ret, bytes, data) ← dataOf data bytesStr
                  return (ret,
                    ⟨key, flags, expTime, bytes, casStr, noreply, data⟩)

def shortFormOf (ending : Bytes → Parse (Bytes × Bytes × Bool))
    (data line : Bytes) : Parse (Int × StorageStruct) :=
  match cut space line with
  | (_, none) => reply "CLIENT_ERROR key not found\r\n"
  | (_, some rest) =>
      match cut space rest with
      | (_, none) => reply "CLIENT_ERROR flags not found\r\n"
      | (key, some rest) => do
          let (bytesStr, casStr, noreply) ← ending rest
          let (ret, bytes, data) ← dataOf data bytesStr
          return (ret, ⟨key, [], 0, bytes, casStr, noreply, data⟩)

section Storage

@[simp] theorem Parse.ok_bind {α β : Type} (a : α) (f : α → Parse β) :
    ((.ok a : Parse α) >>= f) = f a := rfl

@[simp] theorem Parse.error_bind {α β : Type} (e : Stop) (f : α → Parse β) :
    ((.error e : Parse α) >>= f) = .error e := rfl

theorem Parse.bind_bind {α β γ : Type} (x : Parse α) (f : α → Parse β)
    (g : β → Parse γ) : (x >>= f) >>= g = x >>= fun a => f a >>= g := by
  cases x with
  | ok a => rfl
  | error e => rfl

theorem Parse.bind_eq_ok {α β : Type} {x : Parse α} {f : α → Parse β}
    {b : β} : x >>= f = .ok b ↔ ∃ a, x = .ok a ∧ f a = .ok b := by
  cases x with
  | ok a => simp
  | error e => simp

@[simp] theorem Parse.pure_eq {α : Type} (a : α) :
    (pure a : Parse α) = .ok a := rfl

variable {input line data : Bytes} {pos : Nat} {rest : Bytes}

theorem noreplyField_eq (f : Framed input line data)
    (c : Cursor input line data pos rest) :
    noreplyField input line.length pos = noreplyOf rest := by
  have hendl := c.endl
  have hempty : pos = line.length ↔ rest = [] := by
    constructor
    · intro hpos
      exact List.eq_nil_of_length_eq_zero (by omega)
    · rintro rfl
      simpa using hendl
  simp only [noreplyField, noreplyOf, hempty, c.field_crlf f]
  rfl

theorem Cursor.find_space_none_ne_npos (c : Cursor input line data pos rest)
    (f : Framed input line data) {t : Bytes}
    (hcut : cut space rest = (t, none)) :
    find input [space] pos ≠ npos ↔ space ∈ data := by
  have hlength := f.length_eq
  have hsmall := f.small
  rw [c.find_space_none hcut]
  by_cases hmem : space ∈ data
  · obtain ⟨d, d', rfl⟩ := List.append_of_mem hmem
    cases hdata : cut space (d ++ space :: d') with
    | mk u o =>
        cases o with
        | none => exact absurd hmem (cut_of_none hdata).2
        | some v =>
            obtain ⟨heq, hnot⟩ := cut_of_some hdata
            rw [heq] at hlength ⊢
            simp only [find?_append_cons _ hnot, List.length_append,
              List.length_cons, List.mem_append, List.mem_cons, true_or,
              or_true, iff_true] at hlength ⊢
            have hbound : line.length + 2 + u.length < npos := by
              unfold npos wordMax wordSize at *
              omega
            exact hbound.ne
  · simp [find?_of_notMem hmem, hmem]

theorem bytesAndToken_eq (f : Framed input line data)
    (c : Cursor input line data pos rest) (isCas : Bool) :
    bytesAndToken input isCas line.length pos =
      bytesAndTokenOf isCas data rest := by
  cases hcut : cut space rest with
  | mk bytesStr after =>
      cases after with
      | none =>
          have hafter := c.lt_find_space f hcut
          have hmissing := c.missing f hcut
          obtain ⟨rfl, -⟩ := cut_of_none hcut
          cases isCas with
          | false =>
              simp only [bytesAndToken, bytesAndTokenOf, hcut,
                c.field_space_none f hcut, casField, lastFields,
                c.field_crlf f, Parse.ok_bind, Parse.pure_eq, hafter,
                Bool.false_eq_true, false_and, if_false, gt_iff_lt, if_true]
          | true =>
              have hnpos := c.find_space_none_ne_npos f hcut
              by_cases hmem : space ∈ data
              · simp only [bytesAndToken, bytesAndTokenOf, hcut,
                  c.field_space_none f hcut, casField, Parse.ok_bind,
                  hnpos.mpr hmem, hmissing, hmem, ne_eq, not_false_eq_true,
                  and_self, if_true, reply, Parse.error_bind]
              · have hdata := cut_of_notMem hmem
                simp only [bytesAndToken, bytesAndTokenOf, hcut,
                  c.field_space_none f hcut, casField, lastFields, hdata,
                  c.field_crlf f, Parse.ok_bind, Parse.pure_eq, hafter, hnpos,
                  hmem, and_false, if_false, gt_iff_lt, if_true]
      | some after =>
          have hfound := c.not_missing f hcut
          have hspace := c.find_space hcut
          have cnext := c.next f hcut
          rw [hspace] at hfound
          have hnpos : pos + bytesStr.length ≠ npos :=
            fun heq => hfound (.inl heq)
          have hle : ¬ line.length < pos + bytesStr.length :=
            fun hlt => hfound (.inr hlt)
          cases isCas with
          | false =>
              simp only [bytesAndToken, bytesAndTokenOf, hcut,
                c.field_space f hcut, casField, lastFields,
                noreplyField_eq f cnext, Parse.ok_bind, Parse.pure_eq, hle,
                Bool.false_eq_true, false_and, if_false, gt_iff_lt]
          | true =>
              cases hcut' : cut space after with
              | mk casStr last =>
                  cases last with
                  | none =>
                      have hlast := cnext.lt_find_space f hcut'
                      obtain ⟨rfl, -⟩ := cut_of_none hcut'
                      simp only [bytesAndToken, bytesAndTokenOf, hcut, hcut',
                        c.field_space f hcut, casField, lastFields, hfound,
                        cnext.field_space_none f hcut', cnext.field_crlf f,
                        Parse.ok_bind, Parse.pure_eq, hnpos, ne_eq,
                        not_false_eq_true, and_self, if_true, if_false, hlast,
                        gt_iff_lt]
                  | some last =>
                      have hlast := cnext.not_missing f hcut'
                      rw [cnext.find_space hcut'] at hlast
                      have hle' : ¬ line.length <
                          next (pos + bytesStr.length) + casStr.length :=
                        fun hlt => hlast (.inr hlt)
                      simp only [bytesAndToken, bytesAndTokenOf, hcut, hcut',
                        c.field_space f hcut, casField, lastFields, hfound,
                        cnext.field_space f hcut',
                        noreplyField_eq f (cnext.next f hcut'),
                        Parse.ok_bind, Parse.pure_eq, hnpos, ne_eq,
                        not_false_eq_true, and_self, if_true, if_false, hle',
                        gt_iff_lt]

theorem flagsAndExpiry_eq (f : Framed input line data)
    (c : Cursor input line data pos rest) (now : Nat) (isCas : Bool)
    {α : Type} (k : Bytes → Nat → Bytes × Bytes × Bool → Parse α) :
    (flagsAndExpiry now input false line.length pos >>= fun fields =>
        bytesAndToken input isCas line.length fields.2.2 >>=
          k fields.1 fields.2.1) =
      (flagsAndExpiryOf now data rest >>= fun fields =>
        bytesAndTokenOf isCas data fields.2.2 >>= k fields.1 fields.2.1) := by
  cases hflags : cut space rest with
  | mk flags after =>
      cases after with
      | none =>
          simp only [flagsAndExpiry, flagsAndExpiryOf, hflags,
            c.field_space_none f hflags, c.missing f hflags, Parse.ok_bind,
            Bool.false_eq_true, if_false, if_true, reply, Parse.error_bind]
      | some after =>
          have hfound := c.not_missing f hflags
          have cnext := c.next f hflags
          rw [c.find_space hflags] at hfound
          cases htext : cut space after with
          | mk text last =>
              cases last with
              | none =>
                  obtain ⟨rfl, -⟩ := cut_of_none htext
                  simp only [flagsAndExpiry, flagsAndExpiryOf, hflags, htext,
                    c.field_space f hflags, hfound,
                    cnext.field_space_none f htext, cnext.missing f htext,
                    Parse.ok_bind, Bool.false_eq_true, if_false, if_true]
                  cases expiryField now (text ++ (crlf ++ (cut space data).1))
                    <;> simp [reply]
              | some last =>
                  have hlast := cnext.not_missing f htext
                  rw [cnext.find_space htext] at hlast
                  simp only [flagsAndExpiry, flagsAndExpiryOf, hflags, htext,
                    c.field_space f hflags, hfound, hlast,
                    cnext.field_space f htext, Parse.ok_bind,
                    Bool.false_eq_true, if_false]
                  cases expiryField now text with
                  | error e => rfl
                  | ok expTime =>
                      simp only [Parse.ok_bind, Parse.pure_eq,
                        bytesAndToken_eq f (cnext.next f htext)]

theorem dataField_eq (f : Framed input line data) (bytes : Nat) :
    dataField input line.length bytes =
      .ok (if (data.take bytes).length < bytes then
          (wordToInt (wordSub (toWord (bytes + 2)) (data.take bytes).length),
            data.take bytes)
        else (0, data.take bytes)) := by
  have hlength := f.length_eq
  have hlt := f.lt
  have hpos : toWord (line.length + 2) = line.length + 2 :=
    toWord_of_lt (by omega)
  have hnpos : ¬ line.length = npos := by
    unfold npos wordMax wordSize at *
    omega
  have hthere : ¬ input.length < line.length + 2 := by omega
  have hdata : input.drop (line.length + 2) = data := by
    rw [f.eq, ← List.drop_drop]
    simp [crlf]
  by_cases hzero : bytes = 0
  · simp [dataField, hzero]
  · simp only [dataField, hpos, hnpos, hthere, or_self, false_and, if_false,
      hzero, substr, hdata, Parse.pure_eq]
    split
    · rfl
    · rfl

theorem common_eq {nextEndl : Nat}
    (hdata : ∀ bytes, dataField input nextEndl bytes =
      .ok (if (data.take bytes).length < bytes then
          (wordToInt (wordSub (toWord (bytes + 2)) (data.take bytes).length),
            data.take bytes)
        else (0, data.take bytes)))
    (request : Parse (Bytes × Nat × Bytes))
    (ending : Bytes → Parse (Bytes × Bytes × Bool)) (key : Bytes) :
    (request >>= fun fields => ending fields.2.2 >>= fun last => do
        let bytes ← stoulOr "CLIENT_ERROR invalid number of bytes\r\n" last.1
        let (ret, data) ← dataField input nextEndl bytes
        return (ret, (⟨key, fields.1, fields.2.1, bytes, last.2.1, last.2.2,
          data⟩ : StorageStruct))) =
      (request >>= fun fields => ending fields.2.2 >>= fun last => do
        let (ret, bytes, data) ← dataOf data last.1
        return (ret, (⟨key, fields.1, fields.2.1, bytes, last.2.1, last.2.2,
          data⟩ : StorageStruct))) := by
  cases request with
  | error e => rfl
  | ok fields =>
      simp only [Parse.ok_bind]
      cases ending fields.2.2 with
      | error e => rfl
      | ok last =>
          simp only [Parse.ok_bind, dataOf]
          cases stoulOr "CLIENT_ERROR invalid number of bytes\r\n" last.1 with
          | error e => rfl
          | ok bytes =>
              simp only [Parse.ok_bind, hdata]
              split
              · rfl
              · rfl

theorem cmdProcessCommon_full (f : Framed input line data) (now : Nat)
    (isCas : Bool) :
    cmdProcessCommon now input isCas false = commonOf now isCas line data := by
  have c := f.start
  cases hword : cut space line with
  | mk word after =>
      cases after with
      | none =>
          simp only [cmdProcessCommon, commonOf, hword, f.find_crlf,
            c.missing f hword, if_true]
      | some after =>
          have hfound := c.not_missing f hword
          have ckey := c.next f hword
          rw [c.find_space hword] at hfound
          cases hkey : cut space after with
          | mk key rest =>
              cases rest with
              | none =>
                  simp only [cmdProcessCommon, commonOf, hword, hkey,
                    f.find_crlf, c.find_space hword, hfound, if_false,
                    ckey.field_space_none f hkey, ckey.missing f hkey,
                    Parse.ok_bind, if_true]
              | some rest =>
                  have hfound' := ckey.not_missing f hkey
                  have crest := ckey.next f hkey
                  rw [ckey.find_space hkey] at hfound'
                  have hfields := flagsAndExpiry_eq f crest now isCas
                    fun flags expTime last => do
                      let bytes ← stoulOr
                        "CLIENT_ERROR invalid number of bytes\r\n" last.1
                      let (ret, data) ← dataField input line.length bytes
                      return (ret, (⟨key, flags, expTime, bytes, last.2.1,
                        last.2.2, data⟩ : StorageStruct))
                  simp only [cmdProcessCommon, commonOf, hword, hkey,
                    f.find_crlf, c.find_space hword, hfound, if_false,
                    ckey.field_space f hkey, hfound', Parse.ok_bind]
                  refine hfields.trans ?_
                  exact common_eq (dataField_eq f) ..

theorem field_at (hsmall : input.length + 2 < wordSize) (needle : Bytes)
    {pos : Nat} (hpos : pos ≤ input.length) :
    field input needle pos =
      .ok ((input.drop pos).take (find (input.drop pos) needle 0),
        find input needle pos) := by
  have hlength : (input.drop pos).length = input.length - pos :=
    List.length_drop
  have htake : (input.drop pos).take (wordSub (find input needle pos) pos) =
      (input.drop pos).take (find (input.drop pos) needle 0) := by
    simp only [find, List.drop_zero]
    cases hfind : find? needle (input.drop pos) with
    | none =>
        have hsub : wordSub npos pos = npos - pos :=
          wordSub_of_le (by decide) (by unfold npos wordMax wordSize at *; omega)
        have hall : input.length ≤ npos := by
          unfold npos wordMax wordSize at *
          omega
        simp only [hsub]
        rw [List.take_of_length_le (by omega),
          List.take_of_length_le (by omega)]
    | some i =>
        have hle := find?_le_length hfind
        have hsub : wordSub (pos + i) pos = i := by
          rw [wordSub_of_le (by omega) (by omega)]
          omega
        simp only [hsub, Nat.zero_add]
  simp only [field, between, substr, Nat.not_lt.mpr hpos, if_false, htake]
  rfl

theorem bytesAndToken_past (f : Framed input line data) :
    bytesAndToken input false line.length (line.length + 1) =
      .ok ((10 :: data).take (find (10 :: data) crlf 0), [], false) := by
  have hlength := f.length_eq
  have hlt := f.lt
  have hpos : line.length + 1 ≤ input.length := by omega
  have hdrop : input.drop (line.length + 1) = 10 :: data := by
    rw [f.eq, ← List.drop_drop]
    simp [crlf]
  have hafter : line.length < find input [space] (line.length + 1) := by
    unfold find
    cases find? [space] (input.drop (line.length + 1)) with
    | some i =>
        simp only
        omega
    | none =>
        simp only
        unfold npos wordMax wordSize at *
        omega
  simp only [bytesAndToken, field_at f.small _ hpos, hdrop, casField, lastFields,
    Parse.ok_bind, Parse.pure_eq, hafter, Bool.false_eq_true, false_and,
    if_false, gt_iff_lt, if_true]

theorem bytesAndToken_skip_cons {b : UInt8} (f : Framed input line data)
    (c : Cursor input line data pos (b :: rest)) (isCas : Bool) :
    bytesAndToken input isCas line.length (next pos) =
      bytesAndTokenOf isCas data rest := by
  have hendl := c.endl
  have hlt := f.lt
  simp only [List.length_cons] at hendl
  have hpos : next pos = pos + 1 := by
    unfold next toWord wordSize at *
    omega
  rw [hpos]
  apply bytesAndToken_eq f
  constructor
  · rw [← List.drop_drop, c.text]
    rfl
  · omega

theorem Cursor.next_endl (c : Cursor input line data pos [])
    (f : Framed input line data) : Scmd.next pos = line.length + 1 := by
  have hendl := c.endl
  have hlt := f.lt
  simp only [List.length_nil, Nat.add_zero] at hendl
  unfold Scmd.next toWord wordSize at *
  omega

theorem bytesAndToken_skip (f : Framed input line data)
    (c : Cursor input line data pos rest) :
    bytesAndToken input false line.length (next pos) =
      shortEndingOf data rest := by
  cases rest with
  | nil =>
      rw [c.next_endl f]
      exact bytesAndToken_past f
  | cons b rest => exact bytesAndToken_skip_cons f c false

theorem cmdProcessCommon_shortForm (f : Framed input line data) (now : Nat)
    (isCas : Bool) {ending : Bytes → Parse (Bytes × Bytes × Bool)}
    (hending : ∀ {pos : Nat} {rest : Bytes}, Cursor input line data pos rest →
      bytesAndToken input isCas line.length (next pos) = ending rest) :
    cmdProcessCommon now input isCas true = shortFormOf ending data line := by
  have c := f.start
  cases hword : cut space line with
  | mk word after =>
      cases after with
      | none =>
          simp only [cmdProcessCommon, shortFormOf, hword, f.find_crlf,
            c.missing f hword, if_true]
      | some after =>
          have hfound := c.not_missing f hword
          have ckey := c.next f hword
          rw [c.find_space hword] at hfound
          cases hkey : cut space after with
          | mk key rest =>
              cases rest with
              | none =>
                  simp only [cmdProcessCommon, shortFormOf, hword, hkey,
                    f.find_crlf, c.find_space hword, hfound, if_false,
                    ckey.field_space_none f hkey, ckey.missing f hkey,
                    Parse.ok_bind, if_true]
              | some rest =>
                  have hfound' := ckey.not_missing f hkey
                  have crest := ckey.next f hkey
                  rw [ckey.find_space hkey] at hfound'
                  simp only [cmdProcessCommon, shortFormOf, hword, hkey,
                    f.find_crlf, c.find_space hword, hfound, if_false,
                    ckey.field_space f hkey, hfound', Parse.ok_bind,
                    flagsAndExpiry, if_true, Parse.pure_eq, hending crest]
                  exact common_eq (dataField_eq f) (.ok ([], 0, rest)) ending
                    key

theorem cmdProcessCommon_short (f : Framed input line data) (now : Nat) :
    cmdProcessCommon now input false true = shortOf line data :=
  cmdProcessCommon_shortForm f now false (bytesAndToken_skip f)

end Storage

/-! ## Accepted requests -/

theorem splitOn_cut {s t r : Bytes} (h : cut space s = (t, some r)) :
    s.splitOn space = t :: r.splitOn space := by
  obtain ⟨rfl, hnot⟩ := cut_of_some h
  exact List.splitOn_append_cons_self_of_not_mem hnot r

theorem splitOn_cut_none {s t : Bytes} (h : cut space s = (t, none)) :
    s.splitOn space = [t] := by
  obtain ⟨rfl, hnot⟩ := cut_of_none h
  exact List.splitOn_eq_singleton hnot

theorem commonOf_eq_fullOf (now : Nat) (isCas : Bool) (line data : Bytes) :
    commonOf now isCas line data =
      fullOf now (crlf ++ (cut space data).1) (bytesAndTokenOf isCas data) data
        line := by
  unfold commonOf fullOf flagsAndExpiryOf
  cases hword : cut space line with
  | mk word after =>
    cases after with
    | none => rfl
    | some after =>
      cases hkey : cut space after with
      | mk key after' =>
        cases after' with
        | none => simp only [hkey]
        | some after' =>
          cases hflags : cut space after' with
          | mk flags rest =>
            cases rest with
            | none => simp only [hkey, hflags, reply, Parse.error_bind]
            | some rest =>
              cases htext : cut space rest with
              | mk text last =>
                cases last with
                | none =>
                    simp only [hkey, hflags, htext, Parse.bind_bind, reply,
                      Parse.error_bind]
                | some last =>
                    simp only [hkey, hflags, htext, Parse.bind_bind,
                      Parse.pure_eq, Parse.ok_bind]

theorem shortOf_eq_shortFormOf (line data : Bytes) :
    shortOf line data = shortFormOf (shortEndingOf data) data line := rfl

theorem fullOf_cases (line : Bytes) :
    (∃ output, (line.splitOn space).length < 4 ∧
      ∀ now runOn ending data,
        fullOf now runOn ending data line = reply output) ∨
    (∃ word key flags text, line.splitOn space = [word, key, flags, text] ∧
      ∀ now runOn ending data, fullOf now runOn ending data line =
        (do
          let _ ← expiryField now (text ++ runOn)
          reply "CLIENT_ERROR bytes not found\r\n")) ∨
    ∃ word key flags text rest,
      line.splitOn space =
        word :: key :: flags :: text :: rest.splitOn space ∧
      ∀ now runOn ending data, fullOf now runOn ending data line =
        (do
          let expTime ← expiryField now text
          let (bytesStr, casStr, noreply) ← ending rest
          let (ret, bytes, data) ← dataOf data bytesStr
          return (ret,
            ⟨key, flags, expTime, bytes, casStr, noreply, data⟩)) := by
  unfold fullOf
  cases hword : cut space line with
  | mk word after =>
    cases after with
    | none =>
        refine .inl ⟨_, ?_, fun _ _ _ _ => rfl⟩
        rw [splitOn_cut_none hword]
        simp
    | some after =>
      cases hkey : cut space after with
      | mk key after' =>
        cases after' with
        | none =>
            refine .inl ⟨_, ?_, fun _ _ _ _ => by simp only [hkey]; rfl⟩
            rw [splitOn_cut hword, splitOn_cut_none hkey]
            simp
        | some after' =>
          cases hflags : cut space after' with
          | mk flags rest =>
            cases rest with
            | none =>
                refine .inl ⟨_, ?_, fun _ _ _ _ => by
                  simp only [hkey, hflags]
                  rfl⟩
                rw [splitOn_cut hword, splitOn_cut hkey,
                  splitOn_cut_none hflags]
                simp
            | some rest =>
              cases htext : cut space rest with
              | mk text last =>
                cases last with
                | none =>
                    refine .inr (.inl ⟨word, key, flags, text, ?_,
                      fun _ _ _ _ => by simp only [hkey, hflags, htext]⟩)
                    rw [splitOn_cut hword, splitOn_cut hkey,
                      splitOn_cut hflags, splitOn_cut_none htext]
                | some last =>
                    refine .inr (.inr ⟨word, key, flags, text, last, ?_,
                      fun _ _ _ _ => by simp only [hkey, hflags, htext]⟩)
                    rw [splitOn_cut hword, splitOn_cut hkey,
                      splitOn_cut hflags, splitOn_cut htext]

theorem shortFormOf_cases (line : Bytes) :
    (∃ output, (line.splitOn space).length < 3 ∧
      ∀ ending data, shortFormOf ending data line = reply output) ∨
    ∃ word key rest,
      line.splitOn space = word :: key :: rest.splitOn space ∧
      ∀ ending data, shortFormOf ending data line =
        (do
          let (bytesStr, casStr, noreply) ← ending rest
          let (ret, bytes, data) ← dataOf data bytesStr
          return (ret, ⟨key, [], 0, bytes, casStr, noreply, data⟩)) := by
  unfold shortFormOf
  cases hword : cut space line with
  | mk word after =>
    cases after with
    | none =>
        refine .inl ⟨_, ?_, fun _ _ => rfl⟩
        rw [splitOn_cut_none hword]
        simp
    | some after =>
      cases hkey : cut space after with
      | mk key rest =>
        cases rest with
        | none =>
            refine .inl ⟨_, ?_, fun _ _ => by simp only [hkey]; rfl⟩
            rw [splitOn_cut hword, splitOn_cut_none hkey]
            simp
        | some rest =>
            refine .inr ⟨word, key, rest, ?_, fun _ _ => by simp only [hkey]⟩
            rw [splitOn_cut hword, splitOn_cut hkey]

theorem fullOf_ok {now : Nat} {runOn data line : Bytes}
    {ending : Bytes → Parse (Bytes × Bytes × Bool)} {ret : Int}
    {store : StorageStruct}
    (h : fullOf now runOn ending data line = .ok (ret, store)) :
    ∃ word text rest bytesStr,
      line.splitOn space =
        word :: store.key :: store.flags :: text :: rest.splitOn space ∧
      expiryField now text = .ok store.expTime ∧
      ending rest = .ok (bytesStr, store.casStr, store.noreply) ∧
      dataOf data bytesStr = .ok (ret, store.bytes, store.data) := by
  obtain ⟨output, -, heq⟩ | ⟨word, key, flags, text, -, heq⟩ |
    ⟨word, key, flags, text, rest, hline, heq⟩ := fullOf_cases line
  · rw [heq] at h
    contradiction
  · simp only [heq, Parse.bind_eq_ok, reply, reduceCtorEq, and_false,
      exists_false] at h
  · simp only [heq, Parse.bind_eq_ok, Parse.pure_eq, Except.ok.injEq,
      Prod.mk.injEq] at h
    obtain ⟨expTime, hexp, ⟨bytesStr, casStr, noreply⟩, hlast,
      ⟨ret', bytes, data'⟩, hdata, rfl, rfl⟩ := h
    exact ⟨word, text, rest, bytesStr, hline, hexp, hlast, hdata⟩

theorem shortFormOf_ok {data line : Bytes}
    {ending : Bytes → Parse (Bytes × Bytes × Bool)} {ret : Int}
    {store : StorageStruct}
    (h : shortFormOf ending data line = .ok (ret, store)) :
    ∃ word rest bytesStr,
      line.splitOn space = word :: store.key :: rest.splitOn space ∧
      ending rest = .ok (bytesStr, store.casStr, store.noreply) ∧
      dataOf data bytesStr = .ok (ret, store.bytes, store.data) := by
  obtain ⟨output, -, heq⟩ | ⟨word, key, rest, hline, heq⟩ :=
    shortFormOf_cases line
  · rw [heq] at h
    contradiction
  · simp only [heq, Parse.bind_eq_ok, Parse.pure_eq, Except.ok.injEq,
      Prod.mk.injEq] at h
    obtain ⟨⟨bytesStr, casStr, noreply⟩, hlast, ⟨ret', bytes, data'⟩, hdata,
      rfl, rfl⟩ := h
    exact ⟨word, rest, bytesStr, hline, hlast, hdata⟩

theorem commonOf_ok {now : Nat} {isCas : Bool} {line data : Bytes} {ret : Int}
    {store : StorageStruct}
    (h : commonOf now isCas line data = .ok (ret, store)) :
    ∃ word text rest bytesStr,
      line.splitOn space =
        word :: store.key :: store.flags :: text :: rest.splitOn space ∧
      expiryField now text = .ok store.expTime ∧
      bytesAndTokenOf isCas data rest =
        .ok (bytesStr, store.casStr, store.noreply) ∧
      dataOf data bytesStr = .ok (ret, store.bytes, store.data) := by
  rw [commonOf_eq_fullOf] at h
  exact fullOf_ok h

end Memstashed.Scmd
