import Memstashed.Scmd.Lines

/-!
# One-line requests

The parsers of the commands without a data block, as functions of the line.
-/

namespace Memstashed.Scmd

open Memstashed.Foundation
open Memstashed.Dblru

/-! ## What the parsers read -/

def keysOf (line : Bytes) : Parse (List Bytes) :=
  match cut space line with
  | (_, none) => reply "CLIENT_ERROR no key found\r\n"
  | (_, some rest) => return rest.splitOn space

def deleteOf (line : Bytes) : Parse (Bytes × Bool) :=
  match cut space line with
  | (_, none) => reply "CLIENT_ERROR key not found\r\n"
  | (_, some rest) =>
      match cut space rest with
      | (key, none) => return (key, false)
      | (key, some rest) =>
          if rest ≠ ascii "noreply" then
            reply "CLIENT_ERROR junk found after key\r\n"
          else return (key, true)

def keyAndValueOf (line : Bytes) : Parse (Bytes × Bytes × Option Bytes) :=
  match cut space line with
  | (_, none) => reply "CLIENT_ERROR key not found\r\n"
  | (_, some rest) =>
      match cut space rest with
      | (_, none) => reply "CLIENT_ERROR value not found\r\n"
      | (key, some rest) => return (key, cut space rest)

def counterOf (line : Bytes) : Parse (Bytes × Bytes × Bool) := do
  let (key, value, rest) ← keyAndValueOf line
  return (key, value, rest = some (ascii "noreply"))

def touchOf (line : Bytes) : Parse (Bytes × Nat × Bool) := do
  let (key, expTimeStr, rest) ← keyAndValueOf line
  let expTime ← stoulOr "CLIENT_ERROR invalid expiry time\r\n" expTimeStr
  return (key, expTime, rest = some (ascii "noreply"))

def flushAllOf (line : Bytes) : Parse (Nat × Bool) :=
  match cut space line with
  | (_, none) => return (0, false)
  | (_, some rest) =>
      match cut space rest with
      | (text, none) =>
          if text = ascii "noreply" then return (0, true)
          else do
            let expTime ← stoulOr "CLIENT_ERROR invalid expiry time\r\n" text
            return (expTime, false)
      | (text, some rest) => do
          let expTime ← stoulOr "CLIENT_ERROR invalid expiry time\r\n" text
          if rest ≠ ascii "noreply" then
            reply "CLIENT_ERROR invalid noreply field\r\n"
          else return (expTime, true)

def verbosityOf (line : Bytes) : Parse Bool :=
  match cut space line with
  | (_, none) => reply "CLIENT_ERROR exp time not found\r\n"
  | (_, some rest) => do
      let _ ← stoulOr "CLIENT_ERROR invalid expiry time\r\n" (cut space rest).1
      return (cut space rest).2 = some (ascii "noreply")

/-! ## Agreement with the source -/

section OneLine

variable {input line data : Bytes} {pos : Nat} {rest t r : Bytes}

theorem lastOrNot_last (f : Framed input line data)
    (c : Cursor input line data pos rest)
    (hcut : cut space rest = (t, none)) :
    lastOrNot input line.length pos = .ok (t, next line.length, false) := by
  have ht := (cut_of_none hcut).1
  simp only [lastOrNot, c.missing f hcut, if_true, c.between_endl f, ht,
    Parse.ok_bind, Parse.pure_eq]

theorem lastOrNot_more (f : Framed input line data)
    (c : Cursor input line data pos rest)
    (hcut : cut space rest = (t, some r)) :
    lastOrNot input line.length pos =
      .ok (t, next (pos + t.length), true) := by
  have hfound := c.not_missing f hcut
  have hbetween := c.between_eq f ⟨space :: r, (cut_of_some hcut).1.symm⟩
  rw [c.find_space hcut] at hfound
  simp only [lastOrNot, c.find_space hcut, hfound, if_false, hbetween,
    Parse.ok_bind, Parse.pure_eq]

theorem lenientNoreply_eq (f : Framed input line data)
    (c : Cursor input line data pos rest) :
    lenientNoreply input line.length pos true =
      .ok (rest = ascii "noreply") := by
  simp only [lenientNoreply, if_true, c.between_endl f, Parse.ok_bind,
    Parse.pure_eq]

theorem deleteRequest_eq (f : Framed input line data) :
    deleteRequest input = deleteOf line := by
  have c := f.start
  cases hword : cut space line with
  | mk word after =>
      cases after with
      | none =>
          simp only [deleteRequest, deleteOf, hword, f.find_crlf,
            c.missing f hword, if_true]
      | some after =>
          have hfound := c.not_missing f hword
          have ckey := c.next f hword
          rw [c.find_space hword] at hfound
          cases hkey : cut space after with
          | mk key rest =>
              cases rest with
              | none =>
                  simp only [deleteRequest, deleteOf, hword, hkey, f.find_crlf,
                    c.find_space hword, hfound, if_false,
                    lastOrNot_last f ckey hkey, Parse.ok_bind,
                    Bool.false_eq_true]
              | some rest =>
                  simp only [deleteRequest, deleteOf, hword, hkey, f.find_crlf,
                    c.find_space hword, hfound, if_false,
                    lastOrNot_more f ckey hkey, Parse.ok_bind, if_true,
                    (ckey.next f hkey).between_endl f]

theorem keyAndValue_eq (f : Framed input line data) {α β : Type}
    (k : Bytes → Bytes → Parse α) (k' : Bytes → α → Bool → Parse β) :
    (keyAndValue input line.length >>= fun fields =>
        k fields.1 fields.2.1 >>= fun a =>
          lenientNoreply input line.length fields.2.2.1 fields.2.2.2 >>=
            k' fields.1 a) =
      (keyAndValueOf line >>= fun fields =>
        k fields.1 fields.2.1 >>= fun a =>
          k' fields.1 a (fields.2.2 = some (ascii "noreply"))) := by
  have c := f.start
  cases hword : cut space line with
  | mk word after =>
      cases after with
      | none =>
          simp only [keyAndValue, keyAndValueOf, hword, c.missing f hword,
            if_true, reply, Parse.error_bind]
      | some after =>
          have hfound := c.not_missing f hword
          have ckey := c.next f hword
          rw [c.find_space hword] at hfound
          cases hkey : cut space after with
          | mk key rest =>
              cases rest with
              | none =>
                  simp only [keyAndValue, keyAndValueOf, hword, hkey,
                    c.find_space hword, hfound, if_false,
                    ckey.missing f hkey, if_true, reply, Parse.error_bind]
              | some rest =>
                  have hfound' := ckey.not_missing f hkey
                  have cvalue := ckey.next f hkey
                  have hbetween := ckey.between_eq f
                    ⟨space :: rest, (cut_of_some hkey).1.symm⟩
                  rw [ckey.find_space hkey] at hfound'
                  cases hvalue : cut space rest with
                  | mk value last =>
                      cases last with
                      | none =>
                          simp only [keyAndValue, keyAndValueOf, hword, hkey,
                            hvalue, c.find_space hword, hfound, if_false,
                            ckey.find_space hkey, hfound', hbetween,
                            lastOrNot_last f cvalue hvalue, Parse.ok_bind,
                            Parse.pure_eq, lenientNoreply, Bool.false_eq_true,
                            reduceCtorEq, decide_false]
                      | some last =>
                          simp only [keyAndValue, keyAndValueOf, hword, hkey,
                            hvalue, c.find_space hword, hfound, if_false,
                            ckey.find_space hkey, hfound', hbetween,
                            lastOrNot_more f cvalue hvalue, Parse.ok_bind,
                            Parse.pure_eq,
                            lenientNoreply_eq f (cvalue.next f hvalue),
                            Option.some.injEq]

theorem counterRequest_eq (f : Framed input line data) :
    counterRequest input = counterOf line := by
  have hfields := keyAndValue_eq f (fun _ value => .ok value)
    (fun key value noreply => .ok (key, value, noreply))
  rw [counterRequest, f.find_crlf]
  exact hfields

theorem touchRequest_eq (f : Framed input line data) :
    touchRequest input = touchOf line := by
  have hfields := keyAndValue_eq f
    (fun _ text => stoulOr "CLIENT_ERROR invalid expiry time\r\n" text)
    (fun key expTime noreply => .ok (key, expTime, noreply))
  rw [touchRequest, f.find_crlf]
  exact hfields

theorem verbosityRequest_eq (f : Framed input line data) :
    verbosityRequest input = verbosityOf line := by
  have c := f.start
  cases hword : cut space line with
  | mk word after =>
      cases after with
      | none =>
          simp only [verbosityRequest, verbosityOf, hword, f.find_crlf,
            c.missing f hword, if_true]
      | some after =>
          have hfound := c.not_missing f hword
          have ckey := c.next f hword
          rw [c.find_space hword] at hfound
          cases hverb : cut space after with
          | mk verb rest =>
              cases rest with
              | none =>
                  simp only [verbosityRequest, verbosityOf, hword, hverb,
                    f.find_crlf, c.find_space hword, hfound, if_false,
                    lastOrNot_last f ckey hverb, Parse.ok_bind, lenientNoreply,
                    Bool.false_eq_true, reduceCtorEq, decide_false]
              | some rest =>
                  simp only [verbosityRequest, verbosityOf, hword, hverb,
                    f.find_crlf, c.find_space hword, hfound, if_false,
                    lastOrNot_more f ckey hverb, Parse.ok_bind,
                    lenientNoreply_eq f (ckey.next f hverb),
                    Option.some.injEq, Parse.pure_eq]

theorem flushAllRequest_eq (f : Framed input line data) :
    flushAllRequest input = flushAllOf line := by
  have c := f.start
  cases hword : cut space line with
  | mk word after =>
      cases after with
      | none =>
          simp only [flushAllRequest, flushAllOf, hword, f.find_crlf,
            c.missing f hword, if_true]
      | some after =>
          have hfound := c.not_missing f hword
          have ctext := c.next f hword
          rw [c.find_space hword] at hfound
          cases htext : cut space after with
          | mk text rest =>
              cases rest with
              | none =>
                  obtain ⟨rfl, -⟩ := cut_of_none htext
                  simp only [flushAllRequest, flushAllOf, hword, htext,
                    f.find_crlf, c.find_space hword, hfound, if_false,
                    ctext.missing f htext, if_true, ctext.between_endl f,
                    Parse.ok_bind]
              | some rest =>
                  have hfound' := ctext.not_missing f htext
                  have hbetween := ctext.between_eq f
                    ⟨space :: rest, (cut_of_some htext).1.symm⟩
                  rw [ctext.find_space htext] at hfound'
                  simp only [flushAllRequest, flushAllOf, hword, htext,
                    f.find_crlf, c.find_space hword, hfound, if_false,
                    ctext.find_space htext, hfound', hbetween, Parse.ok_bind,
                    (ctext.next f htext).between_endl f]

/-- The loop over the keys ends with the line; it takes one turn for each of
them. -/
theorem collectKeys_eq (f : Framed input line data) (fuel : Nat) :
    ∀ {pos : Nat} {rest : Bytes}, Cursor input line data (next pos) rest →
      rest.length < fuel →
      collectKeys input line.length fuel pos = .ok (rest.splitOn space) := by
  induction fuel with
  | zero =>
      intro pos rest _ hfuel
      omega
  | succ fuel ih =>
      intro pos rest c hfuel
      cases hkey : cut space rest with
      | mk key last =>
          cases last with
          | none =>
              obtain ⟨-, hnot⟩ := cut_of_none hkey
              simp only [collectKeys, c.missing f hkey, if_true,
                c.between_endl f, Parse.ok_bind, Parse.pure_eq,
                List.splitOn_eq_singleton hnot]
          | some last =>
              obtain ⟨hrest, hnot⟩ := cut_of_some hkey
              have hfound := c.not_missing f hkey
              have hbetween := c.between_eq f ⟨space :: last, hrest.symm⟩
              rw [c.find_space hkey] at hfound
              have hless : last.length < fuel := by
                rw [hrest] at hfuel
                simp only [List.length_append, List.length_cons] at hfuel
                omega
              rw [hrest, List.splitOn_append_cons_self_of_not_mem hnot]
              simp only [collectKeys, c.find_space hkey, hfound, if_false,
                hbetween, Parse.ok_bind, Parse.pure_eq,
                ih (c.next f hkey) hless]

theorem getKeys_eq (f : Framed input line data) :
    getKeys input = keysOf line := by
  have c := f.start
  have hlength := f.length_eq
  cases hword : cut space line with
  | mk word after =>
      cases after with
      | none =>
          simp only [getKeys, keysOf, hword, f.find_crlf, c.missing f hword,
            if_true]
      | some after =>
          have hfound := c.not_missing f hword
          have ckeys := c.next f hword
          have hfuel : after.length < input.length + 1 := by
            have hendl := ckeys.endl
            omega
          rw [c.find_space hword] at hfound
          simp only [getKeys, keysOf, hword, f.find_crlf, c.find_space hword,
            hfound, if_false, collectKeys_eq f _ ckeys hfuel, Parse.pure_eq]

end OneLine

end Memstashed.Scmd
