import Memstashed.Foundation.Assoc
import Memstashed.Foundation.Bytes
import Memstashed.Foundation.Effect
import Memstashed.Foundation.MersenneTwister
import Memstashed.Foundation.OrderedSet
import Mathlib.Algebra.BigOperators.Fin
import Mathlib.Logic.Function.Basic

/-!
# The state of the store

The globals of `dblru.cpp` as one record.  Each of the `dbMaxHashTables`
buckets has a hash map from keys to values and an ordered set from timestamps to
keys, each with a mutex of its own; the data and the mutexes are kept apart, so
that a locked section is a function on the data alone.
-/

namespace Memstashed.Dblru

open Memstashed.Foundation

/-! ## Constants and types of `sconst.h` and `dblru.h` -/

def dbMaxHashTables : Nat := 10

def expiryThreshold : Nat := 60 * 60 * 24 * 30

abbrev HashTblNum := Fin dbMaxHashTables

abbrev KeyType := Bytes

abbrev TimestampType := Nat

/-- `sizeof(TimestampType)` on the x86 target. -/
def sizeofTimestamp : Nat := 4

inductive RetStatus where
  | success
  | memoryFull
  | exist
  | notExist
  | failure
  deriving DecidableEq, Repr

structure ValueStruct where
  expiry : TimestampType
  value : Bytes
  flags : Bytes
  casUniq : Bytes
  deriving DecidableEq, Repr

structure TimestampToKeyStruct where
  timestamp : TimestampType
  key : KeyType
  deriving DecidableEq, Repr

abbrev TimestampToKeyType := OrderedSet TimestampToKeyStruct.timestamp

abbrev MapEntry := ValueStruct × TimestampType

abbrev KeyToValueType := AList fun _ : KeyType => MapEntry

/-- What the code takes from its surroundings: the memory limit set by `main`,
and the outputs of `std::mt19937_64` by seed and position. -/
structure Env where
  gServMemLimit : Nat
  mt19937_64 : Nat → Nat → Nat

def Env.x86 : Env := ⟨7000, MersenneTwister.output⟩

/-- The data of the store.  `generator` is the function-local static generator
of `dbInsertElement`: its seed and the number of values drawn, once it exists. -/
structure Store where
  gTimestampToKeySet : HashTblNum → TimestampToKeyType
  gKeyToValueHashMap : HashTblNum → KeyToValueType
  gStoredSize : Nat
  gTimestamp : Nat
  gFlushAllTimestamp : Nat
  gFlushAllTime : Nat
  gIsFlushAllSet : Bool
  generator : Option (Nat × Nat)

def Store.init : Store where
  gTimestampToKeySet := fun _ => ∅
  gKeyToValueHashMap := fun _ => ∅
  gStoredSize := 0
  gTimestamp := 0
  gFlushAllTimestamp := 0
  gFlushAllTime := 0
  gIsFlushAllSet := false
  generator := none

/-! ## Mutexes -/

structure Locks where
  gTimestampToKeyMutex : HashTblNum → Bool
  gKeyToValueMutex : HashTblNum → Bool

def Locks.free : Locks := ⟨fun _ => false, fun _ => false⟩

structure State where
  store : Store
  locks : Locks

def State.init : State := ⟨Store.init, Locks.free⟩

/-- Why a call does not return: the thread waits for a mutex it already holds,
the eviction loop never ends, or an exception leaves the call. -/
inductive Fault where
  | deadlock
  | spin
  | exception (e : StdException)
  deriving DecidableEq, Repr

abbrev Db (α : Type) := Effect State Fault α

def lockTimestampToKey (h : HashTblNum) : Db Unit := fun s =>
  if s.locks.gTimestampToKeyMutex h then .error .deadlock
  else .ok ((), { s with locks := { s.locks with
    gTimestampToKeyMutex :=
      Function.update s.locks.gTimestampToKeyMutex h true } })

def unlockTimestampToKey (h : HashTblNum) : Db Unit := fun s =>
  .ok ((), { s with locks := { s.locks with
    gTimestampToKeyMutex :=
      Function.update s.locks.gTimestampToKeyMutex h false } })

def lockKeyToValue (h : HashTblNum) : Db Unit := fun s =>
  if s.locks.gKeyToValueMutex h then .error .deadlock
  else .ok ((), { s with locks := { s.locks with
    gKeyToValueMutex := Function.update s.locks.gKeyToValueMutex h true } })

def unlockKeyToValue (h : HashTblNum) : Db Unit := fun s =>
  .ok ((), { s with locks := { s.locks with
    gKeyToValueMutex := Function.update s.locks.gKeyToValueMutex h false } })

def onStore {α : Type} (f : Store → α × Store) : Db α := fun s =>
  .ok ((f s.store).1, { s with store := (f s.store).2 })

/-- A section under `gTimestampToKeyMutex[h]` that releases it on every path. -/
def underTimestampToKey {α : Type} (h : HashTblNum) (f : Store → α × Store) :
    Db α := do
  lockTimestampToKey h
  let result ← onStore f
  unlockTimestampToKey h
  return result

def underKeyToValue {α : Type} (h : HashTblNum) (f : Store → α × Store) :
    Db α := do
  lockKeyToValue h
  let result ← onStore f
  unlockKeyToValue h
  return result

section Locking

variable {α : Type} {h : HashTblNum} {f : Store → α × Store} {s : Store}
  {locks : Locks}

@[simp] theorem onStore_apply :
    onStore f ⟨s, locks⟩ = .ok ((f s).1, ⟨(f s).2, locks⟩) := rfl

private theorem update_update_self (held : HashTblNum → Bool)
    (hfree : held h = false) :
    Function.update (Function.update held h true) h false = held := by
  rw [Function.update_idem, ← hfree, Function.update_eq_self]

theorem underTimestampToKey_of_free
    (hfree : locks.gTimestampToKeyMutex h = false) :
    underTimestampToKey h f ⟨s, locks⟩ = .ok ((f s).1, ⟨(f s).2, locks⟩) := by
  have hrelease := update_update_self locks.gTimestampToKeyMutex hfree
  simp only [underTimestampToKey, Effect.bind_apply, lockTimestampToKey,
    unlockTimestampToKey, onStore, hfree, Bool.false_eq_true, if_false,
    hrelease, Effect.pure_apply]

theorem underKeyToValue_of_free (hfree : locks.gKeyToValueMutex h = false) :
    underKeyToValue h f ⟨s, locks⟩ = .ok ((f s).1, ⟨(f s).2, locks⟩) := by
  have hrelease := update_update_self locks.gKeyToValueMutex hfree
  simp only [underKeyToValue, Effect.bind_apply, lockKeyToValue,
    unlockKeyToValue, onStore, hfree, Bool.false_eq_true, if_false,
    hrelease, Effect.pure_apply]

@[simp] theorem underTimestampToKey_free :
    underTimestampToKey h f ⟨s, Locks.free⟩ =
      .ok ((f s).1, ⟨(f s).2, Locks.free⟩) :=
  underTimestampToKey_of_free rfl

@[simp] theorem underKeyToValue_free :
    underKeyToValue h f ⟨s, Locks.free⟩ =
      .ok ((f s).1, ⟨(f s).2, Locks.free⟩) :=
  underKeyToValue_of_free rfl

end Locking

end Memstashed.Dblru
