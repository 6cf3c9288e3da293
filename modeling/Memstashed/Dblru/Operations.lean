import Memstashed.Dblru.State
import Mathlib.Tactic.Simps.Basic

/-!
# The operations of `dblru.cpp`

Every function of the LRU plug-in, cut where the source takes and releases its
mutexes: a locked section is a function on `Store`, and the operation strings
its sections together.  Clock readings are arguments, one for each call of
`time` the source makes.
-/

namespace Memstashed.Dblru

open Memstashed.Foundation

/-! ## Updates of one bucket -/

namespace Store

@[simps] def setEntry (s : Store) (h : HashTblNum) (key : KeyType) (it : MapEntry) :
    Store :=
  { s with
    gKeyToValueHashMap := Function.update s.gKeyToValueHashMap h
      ((s.gKeyToValueHashMap h).insert key it) }

@[simps] def eraseKey (s : Store) (h : HashTblNum) (key : KeyType) : Store :=
  { s with
    gKeyToValueHashMap := Function.update s.gKeyToValueHashMap h
      ((s.gKeyToValueHashMap h).erase key) }

@[simps] def insertStamp (s : Store) (h : HashTblNum) (entry : TimestampToKeyStruct) :
    Store :=
  { s with
    gTimestampToKeySet := Function.update s.gTimestampToKeySet h
      ((s.gTimestampToKeySet h).insert entry) }

@[simps] def eraseStamp (s : Store) (h : HashTblNum) (timestamp : TimestampType) :
    Store :=
  { s with
    gTimestampToKeySet := Function.update s.gTimestampToKeySet h
      ((s.gTimestampToKeySet h).erase timestamp) }

@[simps] def addStoredSize (s : Store) (n : Nat) : Store :=
  { s with gStoredSize := toWord (s.gStoredSize + n) }

@[simps] def subStoredSize (s : Store) (n : Nat) : Store :=
  { s with gStoredSize := wordSub s.gStoredSize n }

end Store

/-! ## Flushing -/

def dbSetFlushAll (now expiry : Nat) : Db Unit :=
  onStore fun s => ((), { s with
    gIsFlushAllSet := true
    gFlushAllTime := toWord (now + expiry) })

def handleFlush (now : Nat) (s : Store) : Store :=
  if s.gIsFlushAllSet = true ∧ s.gFlushAllTime ≤ now then
    { s with
      gTimestamp := toWord (s.gTimestamp + 1)
      gFlushAllTimestamp := toWord (s.gTimestamp + 1)
      gIsFlushAllSet := false }
  else s

def dbHandleFlushAll (now : Nat) : Db Unit :=
  onStore fun s => ((), handleFlush now s)

/-- The test on expiry and flush stamp that `removeLRUElement`, `dbAddElement`,
`dbDeleteElement` and `dbGetElement` share. -/
def Dead (s : Store) (now : Nat) (it : MapEntry) : Prop :=
  it.1.expiry < now ∨ it.2 < s.gFlushAllTimestamp

instance (s : Store) (now : Nat) (it : MapEntry) : Decidable (Dead s now it) :=
  inferInstanceAs (Decidable (_ ∨ _))

/-! ## Buckets -/

def charToWord (b : UInt8) : Nat :=
  if b.toNat < 128 then b.toNat else b.toNat + 4294967040

def getHashTblNbrFromKey (key : KeyType) : HashTblNum :=
  let maxLen := key.length
  let i := if maxLen < 5 then 0 else maxLen - 5
  ⟨toWord ((key.drop i).map charToWord).sum % dbMaxHashTables,
    Nat.mod_lt _ (by decide)⟩

def nextHashTblNum (h : HashTblNum) : HashTblNum :=
  if hlt : h.val ≠ dbMaxHashTables - 1 then
    ⟨h.val + 1, by have := h.isLt; unfold dbMaxHashTables at *; omega⟩
  else ⟨0, by decide⟩

/-! ## `removeLRUElement` -/

inductive Scan where
  | orphan (entry : TimestampToKeyStruct)
  | expired (entry : TimestampToKeyStruct) (it : MapEntry)
  | pair (one : TimestampToKeyStruct) (valueOne : MapEntry)
      (two : TimestampToKeyStruct) (valueTwo : MapEntry)
  | ended

/-- The `while` loop over the timestamp set.  `one` is `timestampKeyOne` with
the value its key was found to have. -/
def scan (s : Store) (now : Nat) (h : HashTblNum)
    (one : Option (TimestampToKeyStruct × MapEntry)) :
    List TimestampToKeyStruct → Scan
  | [] => .ended
  | entry :: rest =>
      match (s.gKeyToValueHashMap h).lookup entry.key with
      | none => .orphan entry
      | some it =>
          if Dead s now it then .expired entry it
          else
            match one with
            | none => scan s now h (some (entry, it)) rest
            | some (first, valueOne) => .pair first valueOne entry it

def evictionRefund (entry : TimestampToKeyStruct) (it : MapEntry) : Nat :=
  2 * entry.key.length + 2 * sizeofTimestamp + it.1.casUniq.length +
    it.1.flags.length + it.1.value.length

def evictPair (s : Store) (h : HashTblNum) (entry : TimestampToKeyStruct)
    (it : MapEntry) : Store :=
  ((s.subStoredSize (evictionRefund entry it)).eraseKey h entry.key).eraseStamp
    h entry.timestamp

def evictOrphan (s : Store) (h : HashTblNum) (entry : TimestampToKeyStruct) :
    Store :=
  (s.subStoredSize (entry.key.length + sizeofTimestamp)).eraseStamp
    h entry.timestamp

/--
The body of `removeLRUElement` between taking and releasing the two mutexes.
The flag says whether the mutexes are released: when the loop ends without a
second position, `valueIter` is set to `valueOne`, which was never assigned.  A
default-constructed iterator of the hash map has a null node pointer and so
equals `end()`, and the function returns at once with both mutexes held.
-/
def removeSection (now : Nat) (h : HashTblNum) (s : Store) : Bool × Store :=
  match scan s now h none (s.gTimestampToKeySet h).toList with
  | .orphan entry => (true, evictOrphan s h entry)
  | .expired entry it => (true, evictPair s h entry it)
  | .pair one valueOne two valueTwo =>
      if valueOne.1.value.length < valueTwo.1.value.length then
        (true, evictPair s h two valueTwo)
      else (true, evictPair s h one valueOne)
  | .ended => (false, s)

def removeLRUElement (now : Nat) (h : HashTblNum) : Db Unit := do
  lockTimestampToKey h
  lockKeyToValue h
  let released ← onStore (removeSection now h)
  if released then
    unlockKeyToValue h
    unlockTimestampToKey h
  else return ()

/-! ## Reading -/

def nextTimestamp (s : Store) : TimestampType × Store :=
  (s.gTimestamp, { s with gTimestamp := toWord (s.gTimestamp + 1) })

structure Element where
  flags : Bytes
  cas : Bytes
  value : Bytes
  expiry : Nat
  deriving DecidableEq, Repr

/-- The section of `dbGetElement` under `gKeyToValueMutex`: the element and the
timestamp its entry had before. -/
def getSection (now : Nat) (key : KeyType) (timestamp : TimestampType)
    (s : Store) : Option (Element × TimestampType) × Store :=
  let h := getHashTblNbrFromKey key
  match (s.gKeyToValueHashMap h).lookup key with
  | none => (none, s)
  | some it =>
      if Dead s now it then (none, s.eraseKey h key)
      else (some (⟨it.1.flags, it.1.casUniq, it.1.value,
          wordSub it.1.expiry now⟩, it.2),
        s.setEntry h key (it.1, timestamp))

/-- `none` is `NOT_EXIST`. -/
def dbGetElement (now : Nat) (key : KeyType) : Db (Option Element) := do
  let h := getHashTblNbrFromKey key
  let timestamp ← onStore nextTimestamp
  match ← underKeyToValue h (getSection now key timestamp) with
  | none => return none
  | some (element, old) => do
      underTimestampToKey h fun s =>
        ((), (s.eraseStamp h old).insertStamp h ⟨timestamp, key⟩)
      return some element

/-! ## Deleting -/

def deleteSection (now : Nat) (key : KeyType) (expiry : Nat) (s : Store) :
    RetStatus × Store :=
  let h := getHashTblNbrFromKey key
  match (s.gKeyToValueHashMap h).lookup key with
  | none => (.notExist, s)
  | some it =>
      if Dead s now it then (.notExist, s)
      else if expiry = 0 then (.success, s.eraseKey h key)
      else (.success, s.setEntry h key
        ({ it.1 with expiry := toWord (now + expiry) }, it.2))

def dbDeleteElement (now : Nat) (key : KeyType) (expiry : Nat) :
    Db RetStatus :=
  underKeyToValue (getHashTblNbrFromKey key) (deleteSection now key expiry)

/-! ## Inserting -/

/-- The clock readings of a call that may evict: its own, and the one taken by
each call of `removeLRUElement`. -/
structure Clock where
  now : Nat
  evictions : Nat → Nat

def Clock.const (now : Nat) : Clock := ⟨now, fun _ => now⟩

/-- A draw from the static generator, which the first call seeds. -/
def nextToken (env : Env) (now : Nat) (s : Store) : Bytes × Store :=
  match s.generator with
  | none => (toDecimal (env.mt19937_64 now 0),
      { s with generator := some (now, 1) })
  | some (seed, n) => (toDecimal (env.mt19937_64 seed n),
      { s with generator := some (seed, n + 1) })

def newExpiry (now expiry : Nat) : Nat :=
  if expiry ≠ 0 then toWord (now + expiry) else wordMax

def insertCharge (key flags casUniq value : Bytes) : Nat :=
  2 * key.length + 2 * sizeofTimestamp + casUniq.length + flags.length +
    sizeofTimestamp + value.length

def insertFits (env : Env) (key flags casUniq value : Bytes) (s : Store) :
    Prop :=
  toWord (s.gStoredSize + 2 * key.length + 2 * sizeofTimestamp + flags.length +
    casUniq.length + sizeofTimestamp + value.length) < env.gServMemLimit

instance (env : Env) (key flags casUniq value : Bytes) (s : Store) :
    Decidable (insertFits env key flags casUniq value s) :=
  inferInstanceAs (Decidable (_ < _))

/-- The test of `dbAddElement`, which leaves out the flags and the token. -/
def addFits (env : Env) (key value : Bytes) (s : Store) : Prop :=
  toWord (s.gStoredSize + 2 * key.length + 2 * sizeofTimestamp +
    sizeofTimestamp + value.length) < env.gServMemLimit

instance (env : Env) (key value : Bytes) (s : Store) :
    Decidable (addFits env key value s) :=
  inferInstanceAs (Decidable (_ < _))

def setIsEmpty (h : HashTblNum) (s : Store) : Bool × Store :=
  ((s.gTimestampToKeySet h).toList.isEmpty, s)

/-- The eviction loop of `dbInsertElement`; `false` is `MEMORY_FULL`. -/
def insertMakeRoom (fits : Store → Prop) [DecidablePred fits]
    (orig : HashTblNum) : Nat → (Nat → Nat) → HashTblNum → Db Bool
  | 0, _, _ => throw .spin
  | fuel + 1, clock, h => do
      let s ← get
      if fits s.store then return true
      else if ← underTimestampToKey h (setIsEmpty h) then
        if orig = nextHashTblNum h then return false
        else insertMakeRoom fits orig fuel clock (nextHashTblNum h)
      else do
        removeLRUElement (clock 0) h
        insertMakeRoom fits orig fuel (fun i => clock (i + 1)) h

/-- The eviction loop of `dbAddElement`: having moved on from an empty bucket it
does not look at the next one again before evicting from it. -/
def addMakeRoom (fits : Store → Prop) [DecidablePred fits]
    (orig : HashTblNum) : Nat → (Nat → Nat) → HashTblNum → Db Bool
  | 0, _, _ => throw .spin
  | fuel + 1, clock, h => do
      let s ← get
      if fits s.store then return true
      else if ← underTimestampToKey h (setIsEmpty h) then
        if orig = nextHashTblNum h then return false
        else do
          removeLRUElement (clock 0) (nextHashTblNum h)
          addMakeRoom fits orig fuel (fun i => clock (i + 1)) (nextHashTblNum h)
      else do
        removeLRUElement (clock 0) h
        addMakeRoom fits orig fuel (fun i => clock (i + 1)) h

/-- Enough turns for either loop: every turn but the last empties a bucket's
worth of search or removes an entry. -/
def evictionFuel (s : Store) : Nat :=
  (∑ h, (s.gTimestampToKeySet h).toList.length) + dbMaxHashTables + 1

inductive InsertOutcome where
  | exist
  | notExist
  | overwritten (old : TimestampType) (sizeDiff : Nat)
  | created
  deriving DecidableEq, Repr

/-- `sizeDiff` of an overwrite as the word that is taken off `gStoredSize`; the
detour through `int` does not change it. -/
def overwriteDiff (it : MapEntry) (flags casUniq value : Bytes) : Nat :=
  wordSub
    (sizeofTimestamp + it.1.casUniq.length + it.1.flags.length +
      it.1.value.length)
    (sizeofTimestamp + casUniq.length + flags.length + value.length)

/-- The section of `dbInsertElement` under `gKeyToValueMutex`.  `casUniq` is the
token asked for, the one to be stored is in `valueStr`. -/
def insertSection (now : Nat) (key casUniq : Bytes) (expiry : Nat)
    (valueStr : ValueStruct) (timestamp : TimestampType) (s : Store) :
    InsertOutcome × Store :=
  let h := getHashTblNbrFromKey key
  match (s.gKeyToValueHashMap h).lookup key with
  | some it =>
      if casUniq ≠ [] ∧ it.1.casUniq ≠ casUniq then (.exist, s)
      else
        (.overwritten it.2
            (overwriteDiff it valueStr.flags valueStr.casUniq valueStr.value),
          s.setEntry h key
            ({ valueStr with expiry := toWord (now + expiry) }, it.2))
  | none =>
      let emplaced := s.setEntry h key (valueStr, timestamp)
      if casUniq ≠ [] then (.notExist, emplaced.eraseKey h key)
      else (.created, emplaced)

def insertTail (now : Nat) (key flags casUniq value : Bytes) (expiry : Nat)
    (token : Bytes) (timestamp : TimestampType) : Db RetStatus := do
  let h := getHashTblNbrFromKey key
  match ← underKeyToValue h (insertSection now key casUniq expiry
      ⟨newExpiry now expiry, value, flags, token⟩ timestamp) with
  | .exist => return .exist
  | .notExist => return .notExist
  | .overwritten old sizeDiff => do
      underTimestampToKey h fun s => ((), s.eraseStamp h old)
      onStore fun s => ((), s.subStoredSize sizeDiff)
      underTimestampToKey h fun s => ((), s.insertStamp h ⟨timestamp, key⟩)
      return .success
  | .created => do
      onStore fun s =>
        ((), s.addStoredSize (insertCharge key flags token value))
      underTimestampToKey h fun s => ((), s.insertStamp h ⟨timestamp, key⟩)
      return .success

def dbInsertElement (env : Env) (clock : Clock)
    (key flags casUniq value : Bytes) (expiry : Nat) : Db RetStatus := do
  let h := getHashTblNbrFromKey key
  let timestamp ← onStore nextTimestamp
  let token ← onStore (nextToken env clock.now)
  let s ← get
  if ← insertMakeRoom (insertFits env key flags token value) h
      (evictionFuel s.store) clock.evictions h then
    insertTail clock.now key flags casUniq value expiry token timestamp
  else return .memoryFull

/-! ## Adding -/

inductive AddOutcome where
  | exist
  | revived (old : TimestampType)
  | created
  deriving DecidableEq, Repr

def addSection (now : Nat) (key : Bytes) (expiry : Nat) (valueStr : ValueStruct)
    (timestamp : TimestampType) (s : Store) : AddOutcome × Store :=
  let h := getHashTblNbrFromKey key
  match (s.gKeyToValueHashMap h).lookup key with
  | some it =>
      if Dead s now it then
        (.revived it.2, s.setEntry h key
          ({ valueStr with expiry := toWord (now + expiry) }, it.2))
      else (.exist, s)
  | none => (.created, s.setEntry h key (valueStr, timestamp))

def addTail (now : Nat) (key flags value : Bytes) (expiry : Nat)
    (token : Bytes) (timestamp : TimestampType) : Db RetStatus := do
  let h := getHashTblNbrFromKey key
  match ← underKeyToValue h (addSection now key expiry
      ⟨newExpiry now expiry, value, flags, token⟩ timestamp) with
  | .exist => return .exist
  | .revived old => do
      underTimestampToKey h fun s =>
        ((), (s.eraseStamp h old).insertStamp h ⟨timestamp, key⟩)
      return .success
  | .created => do
      onStore fun s =>
        ((), s.addStoredSize (insertCharge key flags token value))
      underTimestampToKey h fun s => ((), s.insertStamp h ⟨timestamp, key⟩)
      return .success

/-- The token `dbAddElement` stores in a given second: its generator is a local
object, seeded anew by every call. -/
def addToken (env : Env) (now : Nat) : Bytes := toDecimal (env.mt19937_64 now 0)

/-- `dbAddElement` is handed a token as well and does not look at it. -/
def dbAddElement (env : Env) (clock : Clock) (key flags _casUniq value : Bytes)
    (expiry : Nat) : Db RetStatus := do
  let h := getHashTblNbrFromKey key
  let timestamp ← onStore nextTimestamp
  let s ← get
  if ← addMakeRoom (addFits env key value) h (evictionFuel s.store)
      clock.evictions h then
    addTail clock.now key flags value expiry (addToken env clock.now) timestamp
  else return .memoryFull

end Memstashed.Dblru
