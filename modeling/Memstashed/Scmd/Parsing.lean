import Memstashed.Dblru.State

/-!
# Reading a request

The index arithmetic of `scmd.cpp`.  Positions are 32-bit words, a search that
finds nothing yields `npos`, and lengths handed to `substr` are differences of
such words.  A parser stops early with a complete reply, or with an exception
that leaves the handler.
-/

namespace Memstashed.Scmd

open Memstashed.Foundation
open Memstashed.Dblru

inductive Stop where
  | reply (output : Bytes)
  | exception (e : StdException)
  deriving DecidableEq, Repr

abbrev Parse (α : Type) := Except Stop α

def reply {α : Type} (output : String) : Parse α :=
  .error (.reply (ascii output))

def next (pos : Nat) : Nat := toWord (pos + 1)

def Missing (pos nextEndl : Nat) : Prop := pos = npos ∨ nextEndl < pos

instance (pos nextEndl : Nat) : Decidable (Missing pos nextEndl) :=
  inferInstanceAs (Decidable (_ ∨ _))

def between (input : Bytes) (pos stop : Nat) : Parse Bytes :=
  match substr input pos (wordSub stop pos) with
  | .ok text => .ok text
  | .error e => .error (.exception e)

def field (input delimiter : Bytes) (pos : Nat) : Parse (Bytes × Nat) := do
  let tempSpace := find input delimiter pos
  let text ← between input pos tempSpace
  return (text, tempSpace)

/-- A conversion in a `try` block that catches `invalid_argument` only. -/
def stoulOr (output : String) (text : Bytes) : Parse Nat :=
  match stoul text with
  | .ok n => .ok n
  | .error .invalidArgument => reply output
  | .error .outOfRange => .error (.exception .outOfRange)

/-! ## Storage requests -/

/-- The members that are left uninitialised are never read before they are
set; here they start at zero. -/
structure StorageStruct where
  key : Bytes := []
  flags : Bytes := []
  expTime : Nat := 0
  bytes : Nat := 0
  casStr : Bytes := []
  noreply : Bool := false
  data : Bytes := []
  deriving DecidableEq, Repr

/-- The expiry field: a number beyond the threshold is an absolute time, and the
current time is subtracted from it as an unsigned word. -/
def expiryField (now : Nat) (expTimeStr : Bytes) : Parse Nat := do
  let expTime ← stoulOr "CLIENT_ERROR invalid expiry time\r\n" expTimeStr
  return if expTime > expiryThreshold then wordSub expTime now else expTime

def flagsAndExpiry (now : Nat) (input : Bytes) (isExistData : Bool)
    (nextEndl nextSpace : Nat) : Parse (Bytes × Nat × Nat) :=
  if isExistData then return ([], 0, next nextSpace)
  else do
    let (flags, tempSpace) ← field input [space] nextSpace
    if Missing tempSpace nextEndl then
      reply "CLIENT_ERROR expiry time not found\r\n"
    else do
      let (expTimeStr, tempSpace) ← field input [space] (next tempSpace)
      let expTime ← expiryField now expTimeStr
      if Missing tempSpace nextEndl then
        reply "CLIENT_ERROR bytes not found\r\n"
      else return (flags, expTime, next tempSpace)

/-- The token of a `cas`, when a space follows the byte count: where the field
starts, the field, and where it ends. -/
def casField (input : Bytes) (isCas : Bool) (nextEndl nextSpace tempSpace : Nat) :
    Parse (Nat × Bytes × Nat) :=
  if isCas = true ∧ tempSpace ≠ npos then
    if Missing tempSpace nextEndl then
      reply "CLIENT_ERROR cas string not found\r\n"
    else do
      let (casStr, after) ← field input [space] (next tempSpace)
      return (next tempSpace, casStr, after)
  else return (nextSpace, [], tempSpace)

def noreplyField (input : Bytes) (nextEndl nextSpace : Nat) : Parse Bool :=
  if nextSpace = nextEndl then return false
  else do
    let (noReplyStr, _) ← field input crlf nextSpace
    if noReplyStr ≠ ascii "noreply" ∧ noReplyStr ≠ ascii "noreply " then
      reply "CLIENT_ERROR junk found instead of \"noreply\"\r\n"
    else return true

/-- The last field of the line (the byte count, or the token of a `cas`) and the
`noreply` flag: byte count text, token and flag. -/
def lastFields (input : Bytes) (isCas : Bool) (nextEndl nextSpace tempSpace : Nat)
    (bytesStr casStr : Bytes) : Parse (Bytes × Bytes × Bool) :=
  if tempSpace > nextEndl then do
    let (text, _) ← field input crlf nextSpace
    return if isCas then (bytesStr, text, false) else (text, casStr, false)
  else do
    let noreply ← noreplyField input nextEndl (next tempSpace)
    return (bytesStr, casStr, noreply)

def bytesAndToken (input : Bytes) (isCas : Bool) (nextEndl nextSpace : Nat) :
    Parse (Bytes × Bytes × Bool) := do
  let (bytesStr, tempSpace) ← field input [space] nextSpace
  let (nextSpace, casStr, tempSpace) ←
    casField input isCas nextEndl nextSpace tempSpace
  lastFields input isCas nextEndl nextSpace tempSpace bytesStr casStr

/-- The data block: the number of bytes still to be read, and the data. -/
def dataField (input : Bytes) (nextEndl bytes : Nat) : Parse (Int × Bytes) :=
  if (nextEndl = npos ∨ input.length < toWord (nextEndl + 2)) ∧ bytes ≠ 0 then
    return (wordToInt (toWord (bytes + 2)), [])
  else if bytes = 0 then return (0, [])
  else
    match substr input (toWord (nextEndl + 2)) bytes with
    | .error e => .error (.exception e)
    | .ok data =>
        if data.length < bytes then
          return (wordToInt (wordSub (toWord (bytes + 2)) data.length), data)
        else return (0, data)

def cmdProcessCommon (now : Nat) (input : Bytes) (isCas isExistData : Bool) :
    Parse (Int × StorageStruct) :=
  let nextSpace := find input [space] 0
  let nextEndl := find input crlf 0
  if Missing nextSpace nextEndl then
    reply "CLIENT_ERROR key not found\r\n"
  else do
    let (key, tempSpace) ← field input [space] (next nextSpace)
    if Missing tempSpace nextEndl then
      reply "CLIENT_ERROR flags not found\r\n"
    else do
      let (flags, expTime, bytesStart) ←
        flagsAndExpiry now input isExistData nextEndl (next tempSpace)
      let (bytesStr, casStr, noreply) ←
        bytesAndToken input isCas nextEndl bytesStart
      let bytes ←
        stoulOr "CLIENT_ERROR invalid number of bytes\r\n" bytesStr
      let (ret, data) ← dataField input nextEndl bytes
      return (ret, ⟨key, flags, expTime, bytes, casStr, noreply, data⟩)

/-! ## One-line requests -/

/-- The loop of `cmdProcessGet` and `cmdProcessGets` that collects the keys;
`nextSpace` is the space before the key that is read next. -/
def collectKeys (input : Bytes) (nextEndl : Nat) :
    Nat → Nat → Parse (List Bytes)
  | 0, _ => .ok []
  | fuel + 1, nextSpace =>
      let nextSpace := next nextSpace
      let tempSpace := find input [space] nextSpace
      if Missing tempSpace nextEndl then do
        let key ← between input nextSpace nextEndl
        return [key]
      else do
        let key ← between input nextSpace tempSpace
        let keys ← collectKeys input nextEndl fuel tempSpace
        return key :: keys

def getKeys (input : Bytes) : Parse (List Bytes) :=
  let nextSpace := find input [space] 0
  let nextEndl := find input crlf 0
  if Missing nextSpace nextEndl then reply "CLIENT_ERROR no key found\r\n"
  else collectKeys input nextEndl (input.length + 1) nextSpace

def lastOrNot (input : Bytes) (nextEndl nextSpace : Nat) :
    Parse (Bytes × Nat × Bool) := do
  let tempSpace := find input [space] nextSpace
  if Missing tempSpace nextEndl then do
    let text ← between input nextSpace nextEndl
    return (text, next nextEndl, false)
  else do
    let text ← between input nextSpace tempSpace
    return (text, next tempSpace, true)

def deleteRequest (input : Bytes) : Parse (Bytes × Bool) :=
  let nextSpace := find input [space] 0
  let nextEndl := find input crlf 0
  if Missing nextSpace nextEndl then reply "CLIENT_ERROR key not found\r\n"
  else do
    let (key, nextSpace, more) ← lastOrNot input nextEndl (next nextSpace)
    if more then do
      let noReplyStr ← between input nextSpace nextEndl
      if noReplyStr ≠ ascii "noreply" then
        reply "CLIENT_ERROR junk found after key\r\n"
      else return (key, true)
    else return (key, false)

def keyAndValue (input : Bytes) (nextEndl : Nat) :
    Parse (Bytes × Bytes × Nat × Bool) :=
  let nextSpace := find input [space] 0
  if Missing nextSpace nextEndl then reply "CLIENT_ERROR key not found\r\n"
  else
    let nextSpace := next nextSpace
    let tempSpace := find input [space] nextSpace
    if Missing tempSpace nextEndl then
      reply "CLIENT_ERROR value not found\r\n"
    else do
      let key ← between input nextSpace tempSpace
      let (value, nextSpace, more) ← lastOrNot input nextEndl (next tempSpace)
      return (key, value, nextSpace, more)

/-- The `noreply` flag of the commands that take anything else for its
absence. -/
def lenientNoreply (input : Bytes) (nextEndl nextSpace : Nat) (more : Bool) :
    Parse Bool :=
  if more then do
    let noReplyStr ← between input nextSpace nextEndl
    return noReplyStr = ascii "noreply"
  else return false

def counterRequest (input : Bytes) : Parse (Bytes × Bytes × Bool) := do
  let nextEndl := find input crlf 0
  let (key, value, nextSpace, more) ← keyAndValue input nextEndl
  let noreply ← lenientNoreply input nextEndl nextSpace more
  return (key, value, noreply)

def touchRequest (input : Bytes) : Parse (Bytes × Nat × Bool) := do
  let nextEndl := find input crlf 0
  let (key, expTimeStr, nextSpace, more) ← keyAndValue input nextEndl
  let expTime ← stoulOr "CLIENT_ERROR invalid expiry time\r\n" expTimeStr
  let noreply ← lenientNoreply input nextEndl nextSpace more
  return (key, expTime, noreply)

/-- The delay of `flush_all`, and whether it is answered: with two parameters it
never is, since the flag for that is not cleared on any path. -/
def flushAllRequest (input : Bytes) : Parse (Nat × Bool) :=
  let nextSpace := find input [space] 0
  let nextEndl := find input crlf 0
  if Missing nextSpace nextEndl then return (0, false)
  else
    let nextSpace := next nextSpace
    let tempSpace := find input [space] nextSpace
    if Missing tempSpace nextEndl then do
      let expTimeStr ← between input nextSpace nextEndl
      if expTimeStr = ascii "noreply" then return (0, true)
      else do
        let expTime ← stoulOr "CLIENT_ERROR invalid expiry time\r\n" expTimeStr
        return (expTime, false)
    else do
      let expTimeStr ← between input nextSpace tempSpace
      let expTime ← stoulOr "CLIENT_ERROR invalid expiry time\r\n" expTimeStr
      let noReplyStr ← between input (next tempSpace) nextEndl
      if noReplyStr ≠ ascii "noreply" then
        reply "CLIENT_ERROR invalid noreply field\r\n"
      else return (expTime, true)

/-- `verbosity` converts its level and does nothing with it. -/
def verbosityRequest (input : Bytes) : Parse Bool :=
  let nextSpace := find input [space] 0
  let nextEndl := find input crlf 0
  if Missing nextSpace nextEndl then
    reply "CLIENT_ERROR exp time not found\r\n"
  else do
    let (verbStr, nextSpace, more) ← lastOrNot input nextEndl (next nextSpace)
    let _ ← stoulOr "CLIENT_ERROR invalid expiry time\r\n" verbStr
    lenientNoreply input nextEndl nextSpace more

end Memstashed.Scmd
