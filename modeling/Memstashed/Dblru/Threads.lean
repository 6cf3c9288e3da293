import Memstashed.Dblru.Sections
import Memstashed.Dblru.Writes
import Memstashed.Foundation.History

/-!
# Calls by many threads

Each thread makes one call of a function of `dblru.cpp`, and the sections of all
the calls come in any order.  The order of the turns is, bucket by bucket, the
order in which its mutexes are taken.
-/

namespace Memstashed.Dblru

open Memstashed.Foundation

/-- A call with its arguments and clock readings.  The eviction loops are cut off
after `fuel` turns; a call that runs out of them never returns. -/
inductive DbCall where
  | insert (fuel : Nat) (clock : Clock) (key flags casUniq value : Bytes)
      (expiry : Nat)
  | add (fuel : Nat) (clock : Clock) (key flags casUniq value : Bytes)
      (expiry : Nat)
  | get (now : Nat) (key : KeyType)
  | delete (now : Nat) (key : KeyType) (expiry : Nat)
  | removeLRUElement (now : Nat) (h : HashTblNum)
  | setFlushAll (now expiry : Nat)
  | handleFlushAll (now : Nat)

inductive Returned where
  | status (ret : RetStatus)
  | element (found : Option Element)
  | nothing
  deriving DecidableEq, Repr

def DbCall.program (env : Env) : DbCall → Sections Returned
  | .insert fuel clock key flags casUniq value expiry => do
      let ret ← Sections.dbInsertElement env fuel clock key flags casUniq value
        expiry
      return .status ret
  | .add fuel clock key flags casUniq value expiry => do
      let ret ← Sections.dbAddElement env fuel clock key flags casUniq value
        expiry
      return .status ret
  | .get now key => do
      let found ← Sections.dbGetElement now key
      return .element found
  | .delete now key expiry => do
      let ret ← Sections.dbDeleteElement now key expiry
      return .status ret
  | .removeLRUElement now h => do
      Sections.step (.removeLRUElement now h)
      return .nothing
  | .setFlushAll now expiry => do
      Sections.dbSetFlushAll now expiry
      return .nothing
  | .handleFlushAll now => do
      Sections.dbHandleFlushAll now
      return .nothing

abbrev Turns (κ : Type) := List (Prog.Event Section Section.Answer State κ)

abbrev Interleaves {κ : Type} [DecidableEq κ] (env : Env) (calls : κ → DbCall)
    (t₀ : State) (history : Turns κ) (pool : κ → Sections Returned)
    (t : State) : Prop :=
  Prog.Concurrent (Section.exec env) (fun _ _ _ _ => True)
    (fun k => (calls k).program env) t₀ history pool t

/-! ## What a section does to the data -/

namespace Section

def apply (env : Env) : (i : Section) → Store → i.Answer × Store
  | nextTimestamp, s => Dblru.nextTimestamp s
  | nextToken now, s => Dblru.nextToken env now s
  | storedSize, s => (s.gStoredSize, s)
  | setIsEmpty h, s => Dblru.setIsEmpty h s
  | removeLRUElement now h, s => ((), (removeSection now h s).2)
  | getSection now key timestamp, s => Dblru.getSection now key timestamp s
  | deleteSection now key expiry, s => Dblru.deleteSection now key expiry s
  | insertSection now key casUniq expiry valueStr timestamp, s =>
      Dblru.insertSection now key casUniq expiry valueStr timestamp s
  | addSection now key expiry valueStr timestamp, s =>
      Dblru.addSection now key expiry valueStr timestamp s
  | eraseStamp entry, s =>
      ((), s.eraseStamp (getHashTblNbrFromKey entry.key) entry.timestamp)
  | insertStamp entry, s =>
      ((), s.insertStamp (getHashTblNbrFromKey entry.key) entry)
  | restamp old entry, s =>
      ((), (s.eraseStamp (getHashTblNbrFromKey entry.key) old).insertStamp
        (getHashTblNbrFromKey entry.key) entry)
  | addStoredSize n, s => ((), s.addStoredSize n)
  | subStoredSize n, s => ((), s.subStoredSize n)
  | isFlushAllSet, s => (s.gIsFlushAllSet, s)
  | setIsFlushAllSet value, s => ((), { s with gIsFlushAllSet := value })
  | flushAllTime, s => (s.gFlushAllTime, s)
  | setFlushAllTime time, s => ((), { s with gFlushAllTime := time })
  | bumpTimestamp, s =>
      (toWord (s.gTimestamp + 1), { s with
        gTimestamp := toWord (s.gTimestamp + 1) })
  | setFlushAllTimestamp timestamp, s =>
      ((), { s with gFlushAllTimestamp := timestamp })

end Section

section Apply

variable {env : Env} {α : Type} {h : HashTblNum} {f : Store → α × Store}
  {t t' : State} {r : α}

theorem underTimestampToKey_ok (hrun : underTimestampToKey h f t = .ok (r, t')) :
    f t.store = (r, t'.store) := by
  by_cases hheld : t.locks.gTimestampToKeyMutex h = true
  · have hdeadlock : lockTimestampToKey h t = .error .deadlock := if_pos hheld
    rw [underTimestampToKey, Effect.bind_of_error hdeadlock] at hrun
    contradiction
  · rw [Bool.not_eq_true] at hheld
    obtain ⟨s, locks⟩ := t
    rw [underTimestampToKey_of_free hheld] at hrun
    cases hrun
    rfl

theorem underKeyToValue_ok (hrun : underKeyToValue h f t = .ok (r, t')) :
    f t.store = (r, t'.store) := by
  by_cases hheld : t.locks.gKeyToValueMutex h = true
  · have hdeadlock : lockKeyToValue h t = .error .deadlock := if_pos hheld
    rw [underKeyToValue, Effect.bind_of_error hdeadlock] at hrun
    contradiction
  · rw [Bool.not_eq_true] at hheld
    obtain ⟨s, locks⟩ := t
    rw [underKeyToValue_of_free hheld] at hrun
    cases hrun
    rfl

theorem removeLRUElement_ok {now : Nat} {u : Unit}
    (hrun : removeLRUElement now h t = .ok (u, t')) :
    t'.store = (removeSection now h t.store).2 := by
  rw [removeLRUElement, Effect.bind_eq_ok] at hrun
  obtain ⟨_, t₁, hlock, hrun⟩ := hrun
  have hsame : t₁.store = t.store := by
    unfold lockTimestampToKey at hlock
    split at hlock
    · contradiction
    · cases hlock
      rfl
  rw [Effect.bind_eq_ok] at hrun
  obtain ⟨_, t₂, hlock', hrun⟩ := hrun
  have hsame' : t₂.store = t₁.store := by
    unfold lockKeyToValue at hlock'
    split at hlock'
    · contradiction
    · cases hlock'
      rfl
  rw [Effect.bind_eq_ok] at hrun
  obtain ⟨released, t₃, hremove, hrun⟩ := hrun
  rw [← hsame, ← hsame']
  cases hremove
  split at hrun
  · cases hrun
    rfl
  · cases hrun
    rfl

theorem Section.apply_of_exec {i : Section} {r : i.Answer}
    (hexec : i.exec env t = .ok (r, t')) :
    i.apply env t.store = (r, t'.store) := by
  cases i with
  | removeLRUElement now h => exact Prod.ext rfl (removeLRUElement_ok hexec).symm
  | setIsEmpty h => exact underTimestampToKey_ok hexec
  | eraseStamp entry => exact underTimestampToKey_ok hexec
  | insertStamp entry => exact underTimestampToKey_ok hexec
  | restamp old entry => exact underTimestampToKey_ok hexec
  | getSection now key timestamp => exact underKeyToValue_ok hexec
  | deleteSection now key expiry => exact underKeyToValue_ok hexec
  | insertSection now key casUniq expiry valueStr timestamp =>
      exact underKeyToValue_ok hexec
  | addSection now key expiry valueStr timestamp =>
      exact underKeyToValue_ok hexec
  | _ =>
      cases hexec
      rfl

end Apply

/-! ## The sections that change the map -/

section Cases

variable {env : Env} {now expiry : Nat} {key casUniq : Bytes}
  {valueStr : ValueStruct} {timestamp : TimestampType} {s s' : Store}

theorem insertSection_cases {r : InsertOutcome}
    (h : insertSection now key casUniq expiry valueStr timestamp s = (r, s')) :
    (∃ it, s.entry key = some it ∧ casUniq ≠ [] ∧ it.1.casUniq ≠ casUniq ∧
      r = .exist ∧ s' = s) ∨
    (∃ it diff, s.entry key = some it ∧
      (casUniq = [] ∨ it.1.casUniq = casUniq) ∧ r = .overwritten it.2 diff ∧
        s' = s.setEntry (getHashTblNbrFromKey key) key
          ({ valueStr with expiry := toWord (now + expiry) }, it.2)) ∨
    (s.entry key = none ∧ casUniq ≠ [] ∧ r = .notExist ∧ s' = s) ∨
    (s.entry key = none ∧ casUniq = [] ∧ r = .created ∧
      s' = s.setEntry (getHashTblNbrFromKey key) key
        (valueStr, timestamp)) := by
  cases hentry : s.entry key with
  | none =>
      have hlookup : (s.gKeyToValueHashMap (getHashTblNbrFromKey key)).lookup
        key = none := hentry
      by_cases hcas : casUniq = []
      · simp only [insertSection, hlookup, hcas, ne_eq, not_true_eq_false,
          if_false] at h
        cases h
        exact .inr (.inr (.inr ⟨rfl, hcas, rfl, rfl⟩))
      · simp only [insertSection, hlookup, hcas, ne_eq, not_false_eq_true,
          if_true, eraseKey_setEntry_new hlookup] at h
        cases h
        exact .inr (.inr (.inl ⟨rfl, hcas, rfl, rfl⟩))
  | some it =>
      have hlookup : (s.gKeyToValueHashMap (getHashTblNbrFromKey key)).lookup
        key = some it := hentry
      by_cases hcas : casUniq ≠ [] ∧ it.1.casUniq ≠ casUniq
      · rw [insertSection] at h
        simp only [hlookup] at h
        rw [if_pos hcas] at h
        cases h
        exact .inl ⟨it, rfl, hcas.1, hcas.2, rfl, rfl⟩
      · simp only [insertSection, hlookup, hcas, if_false] at h
        cases h
        refine .inr (.inl ⟨it, _, rfl, ?_, rfl, rfl⟩)
        by_cases hempty : casUniq = []
        · exact .inl hempty
        · exact .inr (not_not.mp fun hne => hcas ⟨hempty, hne⟩)

theorem addSection_cases {r : AddOutcome}
    (h : addSection now key expiry valueStr timestamp s = (r, s')) :
    (∃ it, s.entry key = some it ∧ ¬ Dead s now it ∧ r = .exist ∧ s' = s) ∨
    (∃ it, s.entry key = some it ∧ Dead s now it ∧ r = .revived it.2 ∧
      s' = s.setEntry (getHashTblNbrFromKey key) key
        ({ valueStr with expiry := toWord (now + expiry) }, it.2)) ∨
    (s.entry key = none ∧ r = .created ∧
      s' = s.setEntry (getHashTblNbrFromKey key) key
        (valueStr, timestamp)) := by
  cases hentry : s.entry key with
  | none =>
      have hlookup : (s.gKeyToValueHashMap (getHashTblNbrFromKey key)).lookup
        key = none := hentry
      simp only [addSection, hlookup] at h
      cases h
      exact .inr (.inr ⟨rfl, rfl, rfl⟩)
  | some it =>
      have hlookup : (s.gKeyToValueHashMap (getHashTblNbrFromKey key)).lookup
        key = some it := hentry
      by_cases hdead : Dead s now it
      · simp only [addSection, hlookup, hdead, if_true] at h
        cases h
        exact .inr (.inl ⟨it, rfl, hdead, rfl, rfl⟩)
      · simp only [addSection, hlookup, hdead, if_false] at h
        cases h
        exact .inl ⟨it, rfl, hdead, rfl, rfl⟩

theorem getSection_cases {r : Option (Element × TimestampType)}
    (h : getSection now key timestamp s = (r, s')) :
    (s.entry key = none ∧ r = none ∧ s' = s) ∨
    (∃ it, s.entry key = some it ∧ Dead s now it ∧ r = none ∧
      s' = s.eraseKey (getHashTblNbrFromKey key) key) ∨
    (∃ it, s.entry key = some it ∧ ¬ Dead s now it ∧
      r = some (⟨it.1.flags, it.1.casUniq, it.1.value,
        wordSub it.1.expiry now⟩, it.2) ∧
      s' = s.setEntry (getHashTblNbrFromKey key) key (it.1, timestamp)) := by
  cases hentry : s.entry key with
  | none =>
      have hlookup : (s.gKeyToValueHashMap (getHashTblNbrFromKey key)).lookup
        key = none := hentry
      simp only [getSection, hlookup] at h
      cases h
      exact .inl ⟨rfl, rfl, rfl⟩
  | some it =>
      have hlookup : (s.gKeyToValueHashMap (getHashTblNbrFromKey key)).lookup
        key = some it := hentry
      by_cases hdead : Dead s now it
      · simp only [getSection, hlookup, hdead, if_true] at h
        cases h
        exact .inr (.inl ⟨it, rfl, hdead, rfl, rfl⟩)
      · simp only [getSection, hlookup, hdead, if_false] at h
        cases h
        exact .inr (.inr ⟨it, rfl, hdead, rfl, rfl⟩)

theorem deleteSection_cases {r : RetStatus}
    (h : deleteSection now key expiry s = (r, s')) :
    (r = .notExist ∧ s' = s) ∨
    (∃ it, s.entry key = some it ∧ expiry = 0 ∧ r = .success ∧
      s' = s.eraseKey (getHashTblNbrFromKey key) key) ∨
    (∃ it, s.entry key = some it ∧ expiry ≠ 0 ∧ r = .success ∧
      s' = s.setEntry (getHashTblNbrFromKey key) key
        ({ it.1 with expiry := toWord (now + expiry) }, it.2)) := by
  cases hentry : s.entry key with
  | none =>
      have hlookup : (s.gKeyToValueHashMap (getHashTblNbrFromKey key)).lookup
        key = none := hentry
      simp only [deleteSection, hlookup] at h
      cases h
      exact .inl ⟨rfl, rfl⟩
  | some it =>
      have hlookup : (s.gKeyToValueHashMap (getHashTblNbrFromKey key)).lookup
        key = some it := hentry
      by_cases hdead : Dead s now it
      · simp only [deleteSection, hlookup, hdead, if_true] at h
        cases h
        exact .inl ⟨rfl, rfl⟩
      · by_cases hexpiry : expiry = 0
        · simp only [deleteSection, hlookup, hdead, hexpiry, if_true,
            if_false] at h
          cases h
          exact .inr (.inl ⟨it, rfl, hexpiry, rfl, rfl⟩)
        · simp only [deleteSection, hlookup, hdead, hexpiry, if_false] at h
          cases h
          exact .inr (.inr ⟨it, rfl, hexpiry, rfl, rfl⟩)

theorem nextToken_cases {r : Bytes} (h : nextToken env now s = (r, s')) :
    ∃ generator, s' = { s with generator := generator } := by
  unfold nextToken at h
  cases hgenerator : s.generator with
  | none =>
      rw [hgenerator] at h
      cases h
      exact ⟨_, rfl⟩
  | some pair =>
      rw [hgenerator] at h
      cases h
      exact ⟨_, rfl⟩

end Cases

theorem removeSection_entry (now : Nat) (h : HashTblNum) (s : Store)
    (key : KeyType) :
    (removeSection now h s).2.entry key = s.entry key ∨
      (removeSection now h s).2.entry key = none :=
  (shrinks_evictsMany (removeSection_evictsMany now h s)).entry key

/-! ## The atomic variables -/

def Section.draws : Section → Bool
  | .nextTimestamp => true
  | .bumpTimestamp => true
  | _ => false

def Section.looks : Section → Bool
  | .isFlushAllSet => true
  | _ => false

def Section.flushStamp? : Section → Option TimestampType
  | .setFlushAllTimestamp timestamp => some timestamp
  | _ => none

def Section.flushTime? : Section → Option Nat
  | .setFlushAllTime time => some time
  | _ => none

def Section.flushSet? : Section → Option Bool
  | .setIsFlushAllSet value => some value
  | _ => none

structure Section.Atomics (i : Section) (s s' : Store) : Prop where
  timestamp : s'.gTimestamp =
    if i.draws = true then toWord (s.gTimestamp + 1) else s.gTimestamp
  flushStamp : s'.gFlushAllTimestamp = i.flushStamp?.getD s.gFlushAllTimestamp
  flushTime : s'.gFlushAllTime = i.flushTime?.getD s.gFlushAllTime
  flushSet : s'.gIsFlushAllSet = i.flushSet?.getD s.gIsFlushAllSet

theorem atomics_of_apply {env : Env} {s s' : Store} {i : Section}
    {r : i.Answer} (happly : i.apply env s = (r, s')) : i.Atomics s s' := by
  cases i with
  | getSection now key timestamp =>
      rcases getSection_cases happly with
        ⟨-, -, rfl⟩ | ⟨it, -, -, -, rfl⟩ | ⟨it, -, -, -, rfl⟩
      · exact ⟨rfl, rfl, rfl, rfl⟩
      · exact ⟨rfl, rfl, rfl, rfl⟩
      · exact ⟨rfl, rfl, rfl, rfl⟩
  | deleteSection now key expiry =>
      rcases deleteSection_cases happly with
        ⟨-, rfl⟩ | ⟨it, -, -, -, rfl⟩ | ⟨it, -, -, -, rfl⟩
      · exact ⟨rfl, rfl, rfl, rfl⟩
      · exact ⟨rfl, rfl, rfl, rfl⟩
      · exact ⟨rfl, rfl, rfl, rfl⟩
  | insertSection now key casUniq expiry valueStr timestamp =>
      rcases insertSection_cases happly with
        ⟨it, -, -, -, -, rfl⟩ | ⟨it, diff, -, -, -, rfl⟩ | ⟨-, -, -, rfl⟩ |
          ⟨-, -, -, rfl⟩
      · exact ⟨rfl, rfl, rfl, rfl⟩
      · exact ⟨rfl, rfl, rfl, rfl⟩
      · exact ⟨rfl, rfl, rfl, rfl⟩
      · exact ⟨rfl, rfl, rfl, rfl⟩
  | addSection now key expiry valueStr timestamp =>
      rcases addSection_cases happly with
        ⟨it, -, -, -, rfl⟩ | ⟨it, -, -, -, rfl⟩ | ⟨-, -, rfl⟩
      · exact ⟨rfl, rfl, rfl, rfl⟩
      · exact ⟨rfl, rfl, rfl, rfl⟩
      · exact ⟨rfl, rfl, rfl, rfl⟩
  | removeLRUElement now b =>
      have hshrinks := shrinks_evictsMany (removeSection_evictsMany now b s)
      cases happly
      exact ⟨hshrinks.timestamp, hshrinks.flushStamp, hshrinks.flushTime,
        hshrinks.flushSet⟩
  | nextToken now =>
      obtain ⟨generator, rfl⟩ := nextToken_cases happly
      exact ⟨rfl, rfl, rfl, rfl⟩
  | _ =>
      cases happly
      exact ⟨rfl, rfl, rfl, rfl⟩

end Memstashed.Dblru
