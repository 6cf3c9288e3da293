import Memstashed.Dblru.Sequential

/-!
# What a successful store leaves behind

`dbInsertElement` and `dbAddElement` write the same kinds of entry: a new one
with the timestamp just drawn, or, over an entry that is in the map already, one
that keeps the timestamp of the old entry and has no expiry of its own for
"never".
-/

namespace Memstashed.Dblru

open Memstashed.Foundation

def Store.entry (s : Store) (key : KeyType) : Option MapEntry :=
  (s.gKeyToValueHashMap (getHashTblNbrFromKey key)).lookup key

/-! ## Evictions -/

/-- An eviction touches neither the counters nor the flush stamp, and changes a
key's entry only by removing it. -/
structure Shrinks (s s' : Store) : Prop where
  timestamp : s'.gTimestamp = s.gTimestamp
  flushStamp : s'.gFlushAllTimestamp = s.gFlushAllTimestamp
  flushTime : s'.gFlushAllTime = s.gFlushAllTime
  flushSet : s'.gIsFlushAllSet = s.gIsFlushAllSet
  generator : s'.generator = s.generator
  entry : ∀ key, s'.entry key = s.entry key ∨ s'.entry key = none

theorem Shrinks.refl (s : Store) : Shrinks s s :=
  ⟨rfl, rfl, rfl, rfl, rfl, fun _ => .inl rfl⟩

theorem Shrinks.trans {s s' s'' : Store} (h : Shrinks s s')
    (h' : Shrinks s' s'') : Shrinks s s'' := by
  refine ⟨h'.timestamp.trans h.timestamp, h'.flushStamp.trans h.flushStamp,
    h'.flushTime.trans h.flushTime, h'.flushSet.trans h.flushSet,
    h'.generator.trans h.generator, fun key => ?_⟩
  rcases h'.entry key with hsame | hnone
  · rw [hsame]
    exact h.entry key
  · exact .inr hnone

private theorem entry_eraseKey (s : Store) (h : HashTblNum)
    (key other : KeyType) :
    (s.eraseKey h key).entry other = s.entry other ∨
      (s.eraseKey h key).entry other = none := by
  unfold Store.entry
  rw [Store.eraseKey_gKeyToValueHashMap]
  by_cases hbucket : getHashTblNbrFromKey other = h
  · rw [hbucket, Function.update_self]
    by_cases hkey : other = key
    · subst hkey
      exact .inr (AList.lookup_erase other _)
    · exact .inl (AList.lookup_erase_ne hkey)
  · rw [Function.update_of_ne hbucket]
    exact .inl rfl

theorem shrinks_evicts {s s' : Store} (h : Evicts s s') : Shrinks s s' := by
  obtain ⟨h, entry, -, ⟨-, rfl⟩ | ⟨it, -, rfl⟩⟩ := h
  · exact ⟨rfl, rfl, rfl, rfl, rfl, fun _ => .inl rfl⟩
  · refine ⟨rfl, rfl, rfl, rfl, rfl, fun key => ?_⟩
    exact entry_eraseKey (s.subStoredSize (evictionRefund entry it)) h
      entry.key key

theorem shrinks_evictsMany {s s' : Store} (h : EvictsMany s s') :
    Shrinks s s' := by
  induction h with
  | refl => exact .refl _
  | tail _ hstep ih => exact ih.trans (shrinks_evicts hstep)

/-! ## Writes -/

structure Write where
  clock : Clock
  key : KeyType
  flags : Bytes
  value : Bytes
  expiry : Nat

def Op.write? : Op → Option Write
  | .insert clock key flags _ value expiry =>
      some ⟨clock, key, flags, value, expiry⟩
  | .add clock key flags _ value expiry =>
      some ⟨clock, key, flags, value, expiry⟩
  | _ => none

def Op.room (env : Env) (s : Store) : Op → Except Fault (Bool × State)
  | .insert clock key flags _ value _ => insertLoop env clock key flags value s
  | .add clock key _ _ value _ => addLoop env clock key value s
  | _ => .ok (true, ⟨s, Locks.free⟩)

def Op.token (env : Env) (s : Store) : Op → Bytes
  | .insert clock _ _ _ _ _ => insertToken env clock.now s
  | .add clock _ _ _ _ _ => addToken env clock.now
  | _ => []

def Write.entry (w : Write) (token : Bytes) (timestamp : TimestampType) :
    Option MapEntry → MapEntry
  | none => (⟨newExpiry w.clock.now w.expiry, w.value, w.flags, token⟩, timestamp)
  | some it =>
      (⟨toWord (w.clock.now + w.expiry), w.value, w.flags, token⟩, it.2)

/-- What a successful store has done, `s₁` being the store once there was
room. -/
structure Wrote (env : Env) (op : Op) (w : Write) (s s₁ s' : Store) : Prop where
  room : op.room env s = .ok (true, ⟨s₁, Locks.free⟩)
  shrinks : ∀ key, s₁.entry key = s.entry key ∨ s₁.entry key = none
  entry : s'.entry w.key =
    some (w.entry (op.token env s) s.gTimestamp (s₁.entry w.key))
  others : ∀ key, key ≠ w.key → s'.entry key = s₁.entry key
  flushStamp : s'.gFlushAllTimestamp = s.gFlushAllTimestamp
  flushStamp₁ : s₁.gFlushAllTimestamp = s.gFlushAllTimestamp
  timestamp : s'.gTimestamp = toWord (s.gTimestamp + 1)
  flushTime : s'.gFlushAllTime = s.gFlushAllTime
  flushSet : s'.gIsFlushAllSet = s.gIsFlushAllSet

theorem entry_setEntry_self (s : Store) (key : KeyType) (it : MapEntry) :
    (s.setEntry (getHashTblNbrFromKey key) key it).entry key = some it := by
  simp [Store.entry]

theorem entry_setEntry_ne (s : Store) {key other : KeyType} (it : MapEntry)
    (h : other ≠ key) :
    (s.setEntry (getHashTblNbrFromKey key) key it).entry other =
      s.entry other := by
  unfold Store.entry
  rw [Store.setEntry_gKeyToValueHashMap]
  by_cases hbucket : getHashTblNbrFromKey other = getHashTblNbrFromKey key
  · rw [hbucket, Function.update_self, AList.lookup_insert_ne h]
  · rw [Function.update_of_ne hbucket]

section Success

variable {env : Env} {s s₁ : Store} {clock : Clock}
  {key flags casUniq value : Bytes} {expiry : Nat}

private theorem wrote_insert
    (hroom : insertLoop env clock key flags value s =
      .ok (true, ⟨s₁, Locks.free⟩))
    (hsuccess : (insertStep clock.now key flags casUniq value expiry
      (insertToken env clock.now s) s.gTimestamp s₁).1 = .success) :
    Wrote env (.insert clock key flags casUniq value expiry)
      ⟨clock, key, flags, value, expiry⟩ s s₁
      (insertStep clock.now key flags casUniq value expiry
        (insertToken env clock.now s) s.gTimestamp s₁).2 := by
  have hshrinks := shrinks_evictsMany (insertLoop_spec hroom).1
  have hentry : ∀ key, s₁.entry key = s.entry key ∨ s₁.entry key = none := by
    intro other
    simpa [Store.entry] using hshrinks.entry other
  have hstamp : s₁.gFlushAllTimestamp = s.gFlushAllTimestamp := by
    simpa using hshrinks.flushStamp
  have htimestamp : s₁.gTimestamp = toWord (s.gTimestamp + 1) := by
    simpa using hshrinks.timestamp
  have htime : s₁.gFlushAllTime = s.gFlushAllTime := by
    rw [hshrinks.flushTime, insertDrawn_eq]
  have hset : s₁.gIsFlushAllSet = s.gIsFlushAllSet := by
    rw [hshrinks.flushSet, insertDrawn_eq]
  cases hlookup :
      (s₁.gKeyToValueHashMap (getHashTblNbrFromKey key)).lookup key with
  | none =>
      have hnone : s₁.entry key = none := hlookup
      by_cases hcas : casUniq = []
      · rw [insertStep_created hlookup hcas]
        refine ⟨hroom, hentry, ?_, ?_, hstamp, hstamp, htimestamp, htime, hset⟩
        · rw [hnone]
          exact entry_setEntry_self s₁ key _
        · intro other hother
          exact entry_setEntry_ne s₁ _ hother
      · rw [insertStep_notExist hlookup hcas] at hsuccess
        contradiction
  | some it =>
      have hsome : s₁.entry key = some it := hlookup
      by_cases hcas : casUniq ≠ [] ∧ it.1.casUniq ≠ casUniq
      · rw [insertStep_refused hlookup hcas] at hsuccess
        contradiction
      · rw [insertStep_overwrite hlookup hcas]
        refine ⟨hroom, hentry, ?_, ?_, hstamp, hstamp, htimestamp, htime, hset⟩
        · rw [hsome]
          exact entry_setEntry_self s₁ key _
        · intro other hother
          exact entry_setEntry_ne s₁ _ hother

private theorem wrote_add
    (hroom : addLoop env clock key value s = .ok (true, ⟨s₁, Locks.free⟩))
    (hsuccess : (addStep clock.now key flags value expiry
      (addToken env clock.now) s.gTimestamp s₁).1 = .success) :
    Wrote env (.add clock key flags casUniq value expiry)
      ⟨clock, key, flags, value, expiry⟩ s s₁
      (addStep clock.now key flags value expiry
        (addToken env clock.now) s.gTimestamp s₁).2 := by
  have hshrinks := shrinks_evictsMany (addLoop_spec hroom).1
  have hentry : ∀ key, s₁.entry key = s.entry key ∨ s₁.entry key = none :=
    fun other => hshrinks.entry other
  cases hlookup :
      (s₁.gKeyToValueHashMap (getHashTblNbrFromKey key)).lookup key with
  | none =>
      have hnone : s₁.entry key = none := hlookup
      rw [addStep_created hlookup]
      refine ⟨hroom, hentry, ?_, ?_, hshrinks.flushStamp, hshrinks.flushStamp,
        hshrinks.timestamp, hshrinks.flushTime, hshrinks.flushSet⟩
      · rw [hnone]
        exact entry_setEntry_self s₁ key _
      · intro other hother
        exact entry_setEntry_ne s₁ _ hother
  | some it =>
      have hsome : s₁.entry key = some it := hlookup
      by_cases hdead : Dead s₁ clock.now it
      · rw [addStep_revived hlookup hdead]
        refine ⟨hroom, hentry, ?_, ?_, hshrinks.flushStamp,
          hshrinks.flushStamp, hshrinks.timestamp, hshrinks.flushTime,
          hshrinks.flushSet⟩
        · rw [hsome]
          exact entry_setEntry_self s₁ key _
        · intro other hother
          exact entry_setEntry_ne s₁ _ hother
      · rw [addStep_exist hlookup hdead] at hsuccess
        contradiction

theorem wrote_of_success {op : Op} {w : Write} {r : RetStatus} {s' : Store}
    (hw : op.write? = some w) (hstep : StoreStep env s op r s')
    (hr : r = .success) : ∃ s₁, Wrote env op w s s₁ s' := by
  cases hstep with
  | insert casUniq expiry room =>
      cases hw
      exact ⟨_, wrote_insert room hr⟩
  | insertFull casUniq expiry full => contradiction
  | add flags casUniq expiry room =>
      cases hw
      exact ⟨_, wrote_add room hr⟩
  | addFull flags casUniq expiry full => contradiction
  | get now key => contradiction
  | delete now key expiry => contradiction
  | setFlushAll now expiry => contradiction
  | handleFlushAll now => contradiction

end Success

/-! ## What can be read -/

theorem visible_iff_entry {s : Store} {now : Nat} {key : KeyType} :
    Visible s now key ↔
      ∃ it, s.entry key = some it ∧ now ≤ it.1.expiry ∧
        s.gFlushAllTimestamp ≤ it.2 := by
  simp [Visible, Store.entry, Dead]

theorem visible_of_wrote {env : Env} {op : Op} {w : Write}
    {s s₁ s' : Store} (h : Wrote env op w s s₁ s') {now : Nat} :
    Visible s' now w.key ↔
      now ≤ (w.entry (op.token env s) s.gTimestamp (s₁.entry w.key)).1.expiry ∧
        s₁.gFlushAllTimestamp ≤
          (w.entry (op.token env s) s.gTimestamp (s₁.entry w.key)).2 := by
  rw [visible_iff_entry, h.entry, h.flushStamp, h.flushStamp₁]
  simp

end Memstashed.Dblru
