import Memstashed.Dblru.Writes

/-!
# What a step leaves alone

An operation changes the entry of a key in a few ways only, and the counters and
the flush in one way each.  The invariants of runs are read off from these two
inversions.
-/

namespace Memstashed.Dblru

open Memstashed.Foundation

/-! ## Entries -/

/-- What an operation can do to the entry of one key. -/
inductive EntryStep (env : Env) (s : Store) (op : Op) (r : RetStatus)
    (s' : Store) (key : KeyType) : Prop
  | kept (entry : s'.entry key = s.entry key)
  | dropped (entry : s'.entry key = none)
  | read (now : Nat) (it : MapEntry) (get : op = .get now key)
      (found : s.entry key = some it) (live : ¬ Dead s now it)
      (entry : s'.entry key = some (it.1, s.gTimestamp))
  | delayed (now expiry : Nat) (it : MapEntry)
      (delete : op = .delete now key expiry) (later : expiry ≠ 0)
      (found : s.entry key = some it)
      (entry : s'.entry key =
        some ({ it.1 with expiry := toWord (now + expiry) }, it.2))
  | written (w : Write) (s₁ : Store) (write : op.write? = some w)
      (stored : w.key = key) (success : r = .success)
      (wrote : Wrote env op w s s₁ s')

section Failures

variable {now : Nat} {key flags casUniq value : Bytes} {expiry : Nat}
  {token : Bytes} {timestamp : TimestampType} {s : Store}

theorem insertStep_of_not_success
    (h : (insertStep now key flags casUniq value expiry token timestamp s).1 ≠
      .success) :
    (insertStep now key flags casUniq value expiry token timestamp s).2 =
      s := by
  cases hlookup :
      (s.gKeyToValueHashMap (getHashTblNbrFromKey key)).lookup key with
  | none =>
      by_cases hcas : casUniq = []
      · rw [insertStep_created hlookup hcas] at h
        contradiction
      · rw [insertStep_notExist hlookup hcas]
  | some it =>
      by_cases hcas : casUniq ≠ [] ∧ it.1.casUniq ≠ casUniq
      · rw [insertStep_refused hlookup hcas]
      · rw [insertStep_overwrite hlookup hcas] at h
        contradiction

theorem addStep_of_not_success
    (h : (addStep now key flags value expiry token timestamp s).1 ≠
      .success) :
    (addStep now key flags value expiry token timestamp s).2 = s := by
  cases hlookup :
      (s.gKeyToValueHashMap (getHashTblNbrFromKey key)).lookup key with
  | none =>
      rw [addStep_created hlookup] at h
      contradiction
  | some it =>
      by_cases hdead : Dead s now it
      · rw [addStep_revived hlookup hdead] at h
        contradiction
      · rw [addStep_exist hlookup hdead]

end Failures

section Steps

variable {env : Env} {s s' : Store} {op : Op} {r : RetStatus}

theorem shrinks_of_failed {w : Write} (hw : op.write? = some w)
    (hstep : StoreStep env s op r s') (hr : r ≠ .success) :
    ∀ key, s'.entry key = s.entry key ∨ s'.entry key = none := by
  intro key
  cases hstep with
  | insert casUniq expiry room =>
      rw [insertStep_of_not_success hr]
      simpa [Store.entry] using
        (shrinks_evictsMany (insertLoop_spec room).1).entry key
  | insertFull casUniq expiry full =>
      simpa [Store.entry] using
        (shrinks_evictsMany (insertLoop_spec full).1).entry key
  | add flags casUniq expiry room =>
      rw [addStep_of_not_success hr]
      exact (shrinks_evictsMany (addLoop_spec room).1).entry key
  | addFull flags casUniq expiry full =>
      exact (shrinks_evictsMany (addLoop_spec full).1).entry key
  | get now key => contradiction
  | delete now key expiry => contradiction
  | setFlushAll now expiry => contradiction
  | handleFlushAll now => contradiction

private theorem entryStep_write {w : Write} (hw : op.write? = some w)
    (hstep : StoreStep env s op r s') (key : KeyType) :
    EntryStep env s op r s' key := by
  by_cases hr : r = .success
  · obtain ⟨s₁, hwrote⟩ := wrote_of_success hw hstep hr
    by_cases hkey : key = w.key
    · exact .written w s₁ hw hkey.symm hr hwrote
    · rcases hwrote.shrinks key with hsame | hnone
      · exact .kept ((hwrote.others key hkey).trans hsame)
      · exact .dropped ((hwrote.others key hkey).trans hnone)
  · rcases shrinks_of_failed hw hstep hr key with hsame | hnone
    · exact .kept hsame
    · exact .dropped hnone

theorem entry_eraseKey_ne (s : Store) {key other : KeyType}
    (h : other ≠ key) :
    (s.eraseKey (getHashTblNbrFromKey key) key).entry other =
      s.entry other := by
  unfold Store.entry
  rw [Store.eraseKey_gKeyToValueHashMap]
  by_cases hbucket : getHashTblNbrFromKey other = getHashTblNbrFromKey key
  · rw [hbucket, Function.update_self, AList.lookup_erase_ne h]
  · rw [Function.update_of_ne hbucket]

@[simp] theorem entry_eraseKey_self (s : Store) (key : KeyType) :
    (s.eraseKey (getHashTblNbrFromKey key) key).entry key = none := by
  simp [Store.entry]

private theorem entryStep_get (now : Nat) (key other : KeyType) :
    EntryStep env s (.get now key) r (getStep now key s).2 other := by
  refine getStep_keeps (P := fun t => EntryStep env s (.get now key) r t other)
    ?_ ?_ ?_
  · exact .kept rfl
  · intro it _ _
    by_cases hkey : other = key
    · subst hkey
      exact .dropped (entry_eraseKey_self _ _)
    · exact .kept (entry_eraseKey_ne (nextTimestamp s).2 hkey)
  · intro it hlookup hlive
    by_cases hkey : other = key
    · subst hkey
      exact .read now it rfl hlookup hlive
        (entry_setEntry_self (nextTimestamp s).2 other _)
    · exact .kept (entry_setEntry_ne (nextTimestamp s).2 _ hkey)

private theorem entryStep_delete (now : Nat) (key : KeyType) (expiry : Nat)
    (other : KeyType) :
    EntryStep env s (.delete now key expiry) r
      (deleteSection now key expiry s).2 other := by
  refine deleteSection_keeps
    (P := fun t => EntryStep env s (.delete now key expiry) r t other) ?_ ?_ ?_
  · exact .kept rfl
  · intro it _ _ _
    by_cases hkey : other = key
    · subst hkey
      exact .dropped (entry_eraseKey_self _ _)
    · exact .kept (entry_eraseKey_ne s hkey)
  · intro it hlookup hlater
    by_cases hkey : other = key
    · subst hkey
      exact .delayed now expiry it rfl hlater hlookup
        (entry_setEntry_self s other _)
    · exact .kept (entry_setEntry_ne s _ hkey)

theorem StoreStep.entryStep (hstep : StoreStep env s op r s')
    (key : KeyType) : EntryStep env s op r s' key := by
  cases op with
  | insert clock k flags casUniq value expiry =>
      exact entryStep_write rfl hstep key
  | add clock k flags casUniq value expiry =>
      exact entryStep_write rfl hstep key
  | get now k =>
      cases hstep
      exact entryStep_get now k key
  | delete now k expiry =>
      cases hstep
      exact entryStep_delete now k expiry key
  | setFlushAll now expiry =>
      cases hstep
      exact .kept rfl
  | handleFlushAll now =>
      cases hstep
      refine .kept ?_
      unfold handleFlush
      split
      · rfl
      · rfl

/-! ## Counters and flush -/

def Op.draws : Op → Bool
  | .insert _ _ _ _ _ _ => true
  | .add _ _ _ _ _ _ => true
  | .get _ _ => true
  | _ => false

def Op.flushes : Op → Bool
  | .setFlushAll _ _ => true
  | .handleFlushAll _ => true
  | _ => false

structure Counts (op : Op) (s s' : Store) : Prop where
  timestamp : s'.gTimestamp =
    if op.draws then toWord (s.gTimestamp + 1) else s.gTimestamp
  flushStamp : s'.gFlushAllTimestamp = s.gFlushAllTimestamp
  flushTime : s'.gFlushAllTime = s.gFlushAllTime
  flushSet : s'.gIsFlushAllSet = s.gIsFlushAllSet

theorem Shrinks.counts {s₀ s₁ : Store} (h : Shrinks s₀ s₁)
    (hdraws : op.draws = true)
    (htimestamp : s₀.gTimestamp = toWord (s.gTimestamp + 1))
    (hstamp : s₀.gFlushAllTimestamp = s.gFlushAllTimestamp)
    (htime : s₀.gFlushAllTime = s.gFlushAllTime)
    (hset : s₀.gIsFlushAllSet = s.gIsFlushAllSet) : Counts op s s₁ := by
  refine ⟨?_, h.flushStamp.trans hstamp, h.flushTime.trans htime,
    h.flushSet.trans hset⟩
  rw [h.timestamp, htimestamp, hdraws, if_pos rfl]

theorem counts_insertLoop {clock : Clock} {key flags casUniq value : Bytes}
    {expiry : Nat} {room : Bool} {s₁ : Store}
    (h : insertLoop env clock key flags value s =
      .ok (room, ⟨s₁, Locks.free⟩)) :
    Counts (.insert clock key flags casUniq value expiry) s s₁ := by
  refine (shrinks_evictsMany (insertLoop_spec h).1).counts rfl ?_ ?_ ?_ ?_
  · rw [insertDrawn_eq]
  · rw [insertDrawn_eq]
  · rw [insertDrawn_eq]
  · rw [insertDrawn_eq]

theorem counts_addLoop {clock : Clock} {key flags casUniq value : Bytes}
    {expiry : Nat} {room : Bool} {s₁ : Store}
    (h : addLoop env clock key value s = .ok (room, ⟨s₁, Locks.free⟩)) :
    Counts (.add clock key flags casUniq value expiry) s s₁ :=
  (shrinks_evictsMany (addLoop_spec h).1).counts rfl rfl rfl rfl rfl

theorem Counts.of_wrote {w : Write} {s₁ : Store} (hdraws : op.draws = true)
    (h : Wrote env op w s s₁ s') : Counts op s s' := by
  refine ⟨?_, h.flushStamp, h.flushTime, h.flushSet⟩
  rw [h.timestamp, hdraws, if_pos rfl]

private theorem counts_get (now : Nat) (key : KeyType) :
    Counts (.get now key) s (getStep now key s).2 := by
  apply getStep_keeps
  · exact ⟨rfl, rfl, rfl, rfl⟩
  · intro it _ _
    exact ⟨rfl, rfl, rfl, rfl⟩
  · intro it _ _
    exact ⟨rfl, rfl, rfl, rfl⟩

private theorem counts_delete (now : Nat) (key : KeyType) (expiry : Nat) :
    Counts (.delete now key expiry) s (deleteSection now key expiry s).2 := by
  apply deleteSection_keeps
  · exact ⟨rfl, rfl, rfl, rfl⟩
  · intro it _ _ _
    exact ⟨rfl, rfl, rfl, rfl⟩
  · intro it _ _
    exact ⟨rfl, rfl, rfl, rfl⟩

theorem Op.draws_of_write {w : Write} (hw : op.write? = some w) :
    op.draws = true := by
  cases op with
  | insert clock key flags casUniq value expiry => rfl
  | add clock key flags casUniq value expiry => rfl
  | _ => contradiction

private theorem counts_write {w : Write} (hw : op.write? = some w)
    (hstep : StoreStep env s op r s') : Counts op s s' := by
  by_cases hr : r = .success
  · obtain ⟨s₁, hwrote⟩ := wrote_of_success hw hstep hr
    exact .of_wrote (Op.draws_of_write hw) hwrote
  · cases hstep with
    | insert casUniq expiry room =>
        rw [insertStep_of_not_success hr]
        exact counts_insertLoop room
    | insertFull casUniq expiry full => exact counts_insertLoop full
    | add flags casUniq expiry room =>
        rw [addStep_of_not_success hr]
        exact counts_addLoop room
    | addFull flags casUniq expiry full => exact counts_addLoop full
    | _ => contradiction

theorem StoreStep.counts (hstep : StoreStep env s op r s')
    (hflush : op.flushes = false) : Counts op s s' := by
  cases op with
  | insert clock key flags casUniq value expiry =>
      exact counts_write rfl hstep
  | add clock key flags casUniq value expiry => exact counts_write rfl hstep
  | get now key =>
      cases hstep
      exact counts_get now key
  | delete now key expiry =>
      cases hstep
      exact counts_delete now key expiry
  | setFlushAll now expiry => contradiction
  | handleFlushAll now => contradiction

end Steps

end Memstashed.Dblru
