import Memstashed.Dblru.Threads
import Memstashed.Foundation.Mutex

/-!
# The functions of `dblru.cpp`, one access at a time

A section takes its mutexes, makes its accesses to the sets, the maps and the
atomic variables, and releases the mutexes, statement by statement as in the
source.  Other threads may come in between any two of them.  A look up reads the
node it finds; the fields of a node are assigned to one by one.
-/

namespace Memstashed.Dblru

open Memstashed.Foundation

inductive Mutex where
  | timestampToKey (h : HashTblNum)
  | keyToValue (h : HashTblNum)
  deriving DecidableEq

inductive Field where
  | expiry (exp : TimestampType)
  | casUniq (cas : Bytes)
  | value (text : Bytes)
  | flags (text : Bytes)
  | timestamp (time : TimestampType)

def Field.assign : Field → MapEntry → MapEntry
  | expiry exp, it => ({ it.1 with expiry := exp }, it.2)
  | casUniq cas, it => ({ it.1 with casUniq := cas }, it.2)
  | value text, it => ({ it.1 with value := text }, it.2)
  | flags text, it => ({ it.1 with flags := text }, it.2)
  | timestamp time, it => (it.1, time)

def Section.IsAtomic : Section → Prop
  | nextTimestamp => True
  | nextToken _ => True
  | storedSize => True
  | addStoredSize _ => True
  | subStoredSize _ => True
  | isFlushAllSet => True
  | setIsFlushAllSet _ => True
  | flushAllTime => True
  | setFlushAllTime _ => True
  | bumpTimestamp => True
  | setFlushAllTimestamp _ => True
  | _ => False

inductive Access where
  | setSize (h : HashTblNum)
  | stampAt (h : HashTblNum) (n : Nat)
  | insertStamp (h : HashTblNum) (entry : TimestampToKeyStruct)
  | eraseStamp (h : HashTblNum) (timestamp : TimestampType)
  | find (h : HashTblNum) (key : KeyType)
  | node (h : HashTblNum) (key : KeyType)
  | emplace (h : HashTblNum) (key : KeyType) (it : MapEntry)
  | eraseKey (h : HashTblNum) (key : KeyType)
  | assign (h : HashTblNum) (key : KeyType) (field : Field)
  | flushAllTimestamp
  | atomic (i : Section) (single : i.IsAtomic)

namespace Access

abbrev Answer : Access → Type
  | setSize _ => Nat
  | stampAt _ _ => Option TimestampToKeyStruct
  | find _ _ => Option MapEntry
  | node _ _ => MapEntry
  | emplace _ _ _ => Option MapEntry
  | flushAllTimestamp => TimestampType
  | atomic i _ => i.Answer
  | _ => Unit

/-- What is read at `end()`, where the behaviour is undefined. -/
def noNode : MapEntry := (⟨0, [], [], []⟩, 0)

/-- `node` is the look up of a key that has been found before, and `emplace`
answers with the node that was there before. -/
def act (env : Env) : (j : Access) → Store → j.Answer × Store
  | setSize h, s => ((s.gTimestampToKeySet h).toList.length, s)
  | stampAt h n, s => ((s.gTimestampToKeySet h).toList[n]?, s)
  | insertStamp h entry, s => ((), s.insertStamp h entry)
  | eraseStamp h timestamp, s => ((), s.eraseStamp h timestamp)
  | find h key, s => ((s.gKeyToValueHashMap h).lookup key, s)
  | node h key, s => (((s.gKeyToValueHashMap h).lookup key).getD noNode, s)
  | emplace h key it, s =>
      match (s.gKeyToValueHashMap h).lookup key with
      | some old => (some old, s)
      | none => (none, s.setEntry h key it)
  | eraseKey h key, s => ((), s.eraseKey h key)
  | assign h key field, s =>
      match (s.gKeyToValueHashMap h).lookup key with
      | some it => ((), s.setEntry h key (field.assign it))
      | none => ((), s)
  | flushAllTimestamp, s => (s.gFlushAllTimestamp, s)
  | atomic i _, s => i.apply env s

end Access

abbrev Accesses (α : Type) :=
  Prog (Guarded Mutex Access) (Guarded.Answer Access.Answer) Fault α

namespace Accesses

def lock (m : Mutex) : Accesses Unit := Prog.call (.lock m) .done

def unlock (m : Mutex) : Accesses Unit := Prog.call (.unlock m) .done

def step (j : Access) : Accesses j.Answer := Prog.call (.access j) .done

def atomic (i : Section) (single : i.IsAtomic) : Accesses i.Answer :=
  step (.atomic i single)

def setExpiryToMap (h : HashTblNum) (key : KeyType) (exp : TimestampType) :
    Accesses Unit :=
  step (.assign h key (.expiry exp))

def setCasToMap (h : HashTblNum) (key : KeyType) (cas : Bytes) :
    Accesses Unit :=
  step (.assign h key (.casUniq cas))

def setValueToMap (h : HashTblNum) (key : KeyType) (value : Bytes) :
    Accesses Unit :=
  step (.assign h key (.value value))

def setFlagsToMap (h : HashTblNum) (key : KeyType) (flags : Bytes) :
    Accesses Unit :=
  step (.assign h key (.flags flags))

def setTimestampToMap (h : HashTblNum) (key : KeyType) (time : TimestampType) :
    Accesses Unit :=
  step (.assign h key (.timestamp time))

/-- The test on a node that was found; `gFlushAllTimestamp` is read only if the
node has not expired. -/
def isDead (now : Nat) (it : MapEntry) : Accesses Bool :=
  if it.1.expiry < now then return true
  else do
    let stamp ← step .flushAllTimestamp
    return decide (it.2 < stamp)

/-! ## `removeLRUElement` -/

def releaseBoth (h : HashTblNum) : Accesses Unit := do
  unlock (.keyToValue h)
  unlock (.timestampToKey h)

def evictOrphan (h : HashTblNum) (entry : TimestampToKeyStruct) :
    Accesses Unit := do
  atomic (.subStoredSize (entry.key.length + sizeofTimestamp)) trivial
  step (.eraseStamp h entry.timestamp)
  releaseBoth h

def evictPair (h : HashTblNum) (entry : TimestampToKeyStruct) (it : MapEntry) :
    Accesses Unit := do
  atomic (.subStoredSize (evictionRefund entry it)) trivial
  step (.eraseKey h entry.key)
  step (.eraseStamp h entry.timestamp)
  releaseBoth h

/-- A turn of the loop over the timestamp set, at its `n`-th element.  At
`end()` the function returns with both mutexes held. -/
def scanTurn (now : Nat) (h : HashTblNum) (n : Nat)
    (alive : TimestampToKeyStruct → Accesses Unit) : Accesses Unit := do
  match ← step (.stampAt h n) with
  | none => return ()
  | some entry =>
      match ← step (.find h entry.key) with
      | none => evictOrphan h entry
      | some it => do
          if ← isDead now it then evictPair h entry it
          else alive entry

def choose (h : HashTblNum) (one two : TimestampToKeyStruct) :
    Accesses Unit := do
  let valueOne ← step (.node h one.key)
  let valueTwo ← step (.node h two.key)
  if valueOne.1.value.length < valueTwo.1.value.length then
    evictPair h two valueTwo
  else evictPair h one valueOne

def removeLRUElement (now : Nat) (h : HashTblNum) : Accesses Unit := do
  lock (.timestampToKey h)
  lock (.keyToValue h)
  scanTurn now h 0 fun one => scanTurn now h 1 fun two => choose h one two

/-! ## The sections of the other functions -/

def setIsEmpty (h : HashTblNum) : Accesses Bool := do
  lock (.timestampToKey h)
  let size ← step (.setSize h)
  unlock (.timestampToKey h)
  return decide (size ≤ 0)

def getSection (now : Nat) (key : KeyType) (timestamp : TimestampType) :
    Accesses (Option (Element × TimestampType)) := do
  let h := getHashTblNbrFromKey key
  lock (.keyToValue h)
  match ← step (.find h key) with
  | none => do
      unlock (.keyToValue h)
      return none
  | some it => do
      if ← isDead now it then
        step (.eraseKey h key)
        unlock (.keyToValue h)
        return none
      else
        setTimestampToMap h key timestamp
        unlock (.keyToValue h)
        return some (⟨it.1.flags, it.1.casUniq, it.1.value,
          wordSub it.1.expiry now⟩, it.2)

def deleteSection (now : Nat) (key : KeyType) (expiry : Nat) :
    Accesses RetStatus := do
  let h := getHashTblNbrFromKey key
  lock (.keyToValue h)
  match ← step (.find h key) with
  | none => do
      unlock (.keyToValue h)
      return .notExist
  | some it => do
      if ← isDead now it then
        unlock (.keyToValue h)
        return .notExist
      else if expiry = 0 then
        step (.eraseKey h key)
        unlock (.keyToValue h)
        return .success
      else
        setExpiryToMap h key (toWord (now + expiry))
        unlock (.keyToValue h)
        return .success

def overwrite (h : HashTblNum) (key : KeyType) (expiry : Nat)
    (valueStr : ValueStruct) : Accesses Unit := do
  setExpiryToMap h key expiry
  setCasToMap h key valueStr.casUniq
  setValueToMap h key valueStr.value
  setFlagsToMap h key valueStr.flags
  unlock (.keyToValue h)

def insertSection (now : Nat) (key casUniq : Bytes) (expiry : Nat)
    (valueStr : ValueStruct) (timestamp : TimestampType) :
    Accesses InsertOutcome := do
  let h := getHashTblNbrFromKey key
  lock (.keyToValue h)
  match ← step (.emplace h key (valueStr, timestamp)) with
  | some it =>
      if casUniq ≠ [] ∧ it.1.casUniq ≠ casUniq then do
        unlock (.keyToValue h)
        return .exist
      else do
        overwrite h key (toWord (now + expiry)) valueStr
        return .overwritten it.2
          (overwriteDiff it valueStr.flags valueStr.casUniq valueStr.value)
  | none =>
      if casUniq ≠ [] then do
        step (.eraseKey h key)
        unlock (.keyToValue h)
        return .notExist
      else do
        unlock (.keyToValue h)
        return .created

def addSection (now : Nat) (key : Bytes) (expiry : Nat) (valueStr : ValueStruct)
    (timestamp : TimestampType) : Accesses AddOutcome := do
  let h := getHashTblNbrFromKey key
  lock (.keyToValue h)
  match ← step (.emplace h key (valueStr, timestamp)) with
  | some it => do
      if ← isDead now it then
        overwrite h key (toWord (now + expiry)) valueStr
        return .revived it.2
      else
        unlock (.keyToValue h)
        return .exist
  | none => do
      unlock (.keyToValue h)
      return .created

def eraseStamp (entry : TimestampToKeyStruct) : Accesses Unit := do
  lock (.timestampToKey (getHashTblNbrFromKey entry.key))
  step (.eraseStamp (getHashTblNbrFromKey entry.key) entry.timestamp)
  unlock (.timestampToKey (getHashTblNbrFromKey entry.key))

def insertStamp (entry : TimestampToKeyStruct) : Accesses Unit := do
  lock (.timestampToKey (getHashTblNbrFromKey entry.key))
  step (.insertStamp (getHashTblNbrFromKey entry.key) entry)
  unlock (.timestampToKey (getHashTblNbrFromKey entry.key))

def restamp (old : TimestampType) (entry : TimestampToKeyStruct) :
    Accesses Unit := do
  lock (.timestampToKey (getHashTblNbrFromKey entry.key))
  step (.eraseStamp (getHashTblNbrFromKey entry.key) old)
  step (.insertStamp (getHashTblNbrFromKey entry.key) entry)
  unlock (.timestampToKey (getHashTblNbrFromKey entry.key))

/-- A section, access by access. -/
def ofSection : (i : Section) → Accesses i.Answer
  | .setIsEmpty h => setIsEmpty h
  | .removeLRUElement now h => removeLRUElement now h
  | .getSection now key timestamp => getSection now key timestamp
  | .deleteSection now key expiry => deleteSection now key expiry
  | .insertSection now key casUniq expiry valueStr timestamp =>
      insertSection now key casUniq expiry valueStr timestamp
  | .addSection now key expiry valueStr timestamp =>
      addSection now key expiry valueStr timestamp
  | .eraseStamp entry => eraseStamp entry
  | .insertStamp entry => insertStamp entry
  | .restamp old entry => restamp old entry
  | .nextTimestamp => atomic .nextTimestamp trivial
  | .nextToken now => atomic (.nextToken now) trivial
  | .storedSize => atomic .storedSize trivial
  | .addStoredSize n => atomic (.addStoredSize n) trivial
  | .subStoredSize n => atomic (.subStoredSize n) trivial
  | .isFlushAllSet => atomic .isFlushAllSet trivial
  | .setIsFlushAllSet value => atomic (.setIsFlushAllSet value) trivial
  | .flushAllTime => atomic .flushAllTime trivial
  | .setFlushAllTime time => atomic (.setFlushAllTime time) trivial
  | .bumpTimestamp => atomic .bumpTimestamp trivial
  | .setFlushAllTimestamp timestamp =>
      atomic (.setFlushAllTimestamp timestamp) trivial

end Accesses

/-! ## Threads -/

abbrev Access.exec (env : Env) :
    (c : Guarded Mutex Access) → Effect (Locked Mutex Store) Fault
      (c.Answer Access.Answer) :=
  Guarded.exec (Access.act env) .deadlock

def DbCall.accesses (env : Env) (call : DbCall) : Accesses Returned :=
  (call.program env).refine Accesses.ofSection

abbrev AccessTurns (κ : Type) :=
  List (Prog.Event (Guarded Mutex Access) (Guarded.Answer Access.Answer)
    (Locked Mutex Store) κ)

abbrev AdmitsAccess (α κ : Type) :=
  Prog.Admits (Guarded Mutex Access) (Guarded.Answer Access.Answer) Fault α
    (Locked Mutex Store) κ

/-- The calls are made at the same time, their accesses in any order that `ok`
admits. -/
abbrev InterleavesAccesses {κ : Type} [DecidableEq κ] (env : Env)
    (ok : AdmitsAccess Returned κ) (calls : κ → DbCall) (s₀ : Locked Mutex Store)
    (history : AccessTurns κ) (pool : κ → Accesses Returned)
    (s : Locked Mutex Store) : Prop :=
  Prog.Concurrent (Access.exec env) ok (fun k => (calls k).accesses env) s₀
    history pool s

def Locks.held (locks : Locks) : Mutex → Bool
  | .timestampToKey h => locks.gTimestampToKeyMutex h
  | .keyToValue h => locks.gKeyToValueMutex h

end Memstashed.Dblru
