import Memstashed.Dblru.Accounting
import Memstashed.Dblru.Writes

/-!
# The memory limit

`gStoredSize` stays under the limit as long as it covers what is stored, so that
no eviction and no overwrite takes off more than was put on, and as long as the
check of `dbAddElement`, which leaves out the flags and the token, happens to
cover what is charged afterwards.
-/

namespace Memstashed.Dblru

open Memstashed.Foundation

/-! ## Evictions under a counter that covers the contents -/

structure Covered (s : Store) : Prop where
  charged : chargedSize s ≤ s.gStoredSize
  word : s.gStoredSize < wordSize

section Evictions

variable {s s' : Store}

theorem covered_evicts (h : Evicts s s') (hs : Covered s) :
    Covered s' ∧ s'.gStoredSize ≤ s.gStoredSize := by
  obtain ⟨hcharged, hword⟩ := hs
  obtain ⟨h, entry, hentry, ⟨-, rfl⟩ | ⟨it, hlookup, rfl⟩⟩ := h
  · have hstamp : chargedSize (evictOrphan s h entry) + stampCharge entry =
        chargedSize s :=
      chargedSize_eraseStamp
        (s := s.subStoredSize (entry.key.length + sizeofTimestamp)) hentry
    have hsize : (evictOrphan s h entry).gStoredSize =
        s.gStoredSize - stampCharge entry :=
      wordSub_of_le hword (by unfold stampCharge at *; omega)
    exact ⟨⟨by omega, by omega⟩, by omega⟩
  · have hstamp : chargedSize (evictPair s h entry it) + stampCharge entry =
        chargedSize (s.eraseKey h entry.key) :=
      chargedSize_eraseStamp
        (s := (s.subStoredSize (evictionRefund entry it)).eraseKey h entry.key)
        hentry
    have hkey := chargedSize_eraseKey hlookup
    have hrefund : evictionRefund entry it + sizeofTimestamp =
        stampCharge entry + entryCharge entry.key it := by
      simp only [evictionRefund, stampCharge, entryCharge]
      omega
    have hsize : (evictPair s h entry it).gStoredSize =
        s.gStoredSize - evictionRefund entry it :=
      wordSub_of_le hword (by omega)
    exact ⟨⟨by omega, by omega⟩, by omega⟩

theorem covered_evictsMany (h : EvictsMany s s') (hs : Covered s) :
    Covered s' ∧ s'.gStoredSize ≤ s.gStoredSize := by
  induction h with
  | refl => exact ⟨hs, le_rfl⟩
  | tail _ hstep ih =>
      obtain ⟨hcovered, hle⟩ := ih
      obtain ⟨hcovered', hle'⟩ := covered_evicts hstep hcovered
      exact ⟨hcovered', hle'.trans hle⟩

theorem indexed_evicts (h : Evicts s s') {key : KeyType} {it : MapEntry}
    {timestamp : TimestampType} (hentry : s'.entry key = some it)
    (hmem : ⟨timestamp, key⟩ ∈
      s.gTimestampToKeySet (getHashTblNbrFromKey key)) :
    ⟨timestamp, key⟩ ∈ s'.gTimestampToKeySet (getHashTblNbrFromKey key) := by
  obtain ⟨h, entry, hin, ⟨hnone, rfl⟩ | ⟨old, -, rfl⟩⟩ := h
  · by_cases hbucket : getHashTblNbrFromKey key = h
    · subst hbucket
      simp only [evictOrphan, Store.eraseStamp_gTimestampToKeySet,
        Function.update_self]
      refine OrderedSet.mem_erase.mpr ⟨hmem, ?_⟩
      intro hstamp
      have hsame := OrderedSet.eq_of_key_eq hmem hin hstamp
      have hpresent : (s.gKeyToValueHashMap (getHashTblNbrFromKey key)).lookup
          key = some it := hentry
      rw [← hsame, hpresent] at hnone
      contradiction
    · simpa [evictOrphan, hbucket] using hmem
  · by_cases hbucket : getHashTblNbrFromKey key = h
    · subst hbucket
      simp only [evictPair, Store.eraseStamp_gTimestampToKeySet,
        Function.update_self]
      refine OrderedSet.mem_erase.mpr ⟨hmem, ?_⟩
      intro hstamp
      have hsame := OrderedSet.eq_of_key_eq hmem hin hstamp
      simp [Store.entry, evictPair, ← hsame] at hentry
    · simpa [evictPair, hbucket] using hmem

theorem indexed_evictsMany (h : EvictsMany s s') {key : KeyType}
    {it : MapEntry} {timestamp : TimestampType}
    (hentry : s'.entry key = some it)
    (hmem : ⟨timestamp, key⟩ ∈
      s.gTimestampToKeySet (getHashTblNbrFromKey key)) :
    ⟨timestamp, key⟩ ∈ s'.gTimestampToKeySet (getHashTblNbrFromKey key) := by
  induction h generalizing it with
  | refl => exact hmem
  | tail _ hstep ih =>
      rcases (shrinks_evicts hstep).entry key with hsame | hnone
      · exact indexed_evicts hstep hentry (ih (hsame ▸ hentry))
      · rw [hnone] at hentry
        contradiction

theorem entryIs_evictsMany (h : EvictsMany s s') {key : KeyType}
    {P : MapEntry → Prop} (hentry : EntryIs s key P) : EntryIs s' key P := by
  intro it hit
  have hafter : s'.entry key = some it := hit
  rcases (shrinks_evictsMany h).entry key with hsame | hnone
  · exact hentry it (hsame.symm.trans hafter)
  · rw [hnone] at hafter
    contradiction

end Evictions

/-! ## The steps that stay under the limit -/

/-- There is room for the flags and the token as well; or nothing is stored,
because the key has an entry already or because the memory is full and there is
nothing to evict. -/
def AddChecked (env : Env) (clock : Clock) (key flags value : Bytes)
    (s : Store) : Prop :=
  insertFits env key flags (addToken env clock.now) value s ∨
    (addFits env key value s ∧ (s.entry key).isSome = true) ∨
    (¬ addFits env key value s ∧ AllSetsEmpty s)

instance (env : Env) (clock : Clock) (key flags value : Bytes) (s : Store) :
    Decidable (AddChecked env clock key flags value s) :=
  inferInstanceAs (Decidable (_ ∨ _))

/--
A step after which the counter still covers what is stored and is under the
limit.  The sum in the check does not overflow; an entry that is overwritten or
read is found in the timestamp set under the timestamp in the map; a dead entry
is revived only with a value that is no larger; and an `add` makes room for
everything it will charge.
-/
def StaysCovered (env : Env) (s : Store) : Op → Prop
  | .insert clock key flags casUniq value _ =>
      s.gStoredSize + insertCharge key flags (insertToken env clock.now s)
          value < wordSize ∧
        EntryIs s key fun it =>
          (casUniq ≠ [] ∧ it.1.casUniq ≠ casUniq) ∨ Indexed s key it
  | .add clock key flags _ value _ =>
      s.gStoredSize + insertCharge key flags (addToken env clock.now) value <
          wordSize ∧
        AddChecked env clock key flags value s ∧
        EntryIs s key fun it => ¬ Dead s clock.now it ∨
          Indexed s key it ∧
            (addToken env clock.now).length + flags.length + value.length ≤
              it.1.casUniq.length + it.1.flags.length + it.1.value.length
  | .get now key =>
      EntryIs s key fun it => Dead s now it ∨ Indexed s key it
  | .delete _ _ _ => True
  | .setFlushAll _ _ => True
  | .handleFlushAll _ => True

instance (env : Env) (s : Store) (op : Op) :
    Decidable (StaysCovered env s op) :=
  match op with
  | .insert .. => inferInstanceAs (Decidable (_ ∧ _))
  | .add .. => inferInstanceAs (Decidable (_ ∧ _))
  | .get now key => inferInstanceAs (Decidable
      (EntryIs s key fun it => Dead s now it ∨ Indexed s key it))
  | .delete .. => inferInstanceAs (Decidable True)
  | .setFlushAll .. => inferInstanceAs (Decidable True)
  | .handleFlushAll .. => inferInstanceAs (Decidable True)

section Steps

variable {s : Store} {key flags value token : Bytes}
  {timestamp : TimestampType} {old : MapEntry}

theorem covered_created (expiry : Nat) (hs : Covered s)
    (hcharge : s.gStoredSize + insertCharge key flags token value < wordSize)
    (hlookup : (s.gKeyToValueHashMap (getHashTblNbrFromKey key)).lookup key =
      none) :
    Covered (((s.setEntry (getHashTblNbrFromKey key) key
        (⟨expiry, value, flags, token⟩, timestamp)).addStoredSize
          (insertCharge key flags token value)).insertStamp
            (getHashTblNbrFromKey key) ⟨timestamp, key⟩) := by
  have hentry := chargedSize_setEntry_new
    (⟨expiry, value, flags, token⟩, timestamp) hlookup
  have hstamp := chargedSize_insertStamp_le
    ((s.setEntry (getHashTblNbrFromKey key) key
        (⟨expiry, value, flags, token⟩, timestamp)).addStoredSize
          (insertCharge key flags token value))
    (getHashTblNbrFromKey key) ⟨timestamp, key⟩
  have hsplit := insertCharge_eq key flags token value expiry timestamp
  have hcovered := hs.charged
  rw [chargedSize_addStoredSize, hentry] at hstamp
  constructor
  · simp only [Store.insertStamp_gStoredSize, Store.addStoredSize_gStoredSize,
      Store.setEntry_gStoredSize, toWord_of_lt hcharge]
    omega
  · exact toWord_lt _

variable (timestamp) in
theorem chargedSize_restamp_le {h : HashTblNum}
    (hindexed : ⟨old.2, key⟩ ∈ s.gTimestampToKeySet h) :
    chargedSize ((s.eraseStamp h old.2).insertStamp h ⟨timestamp, key⟩) ≤
      chargedSize s := by
  have herase := chargedSize_eraseStamp hindexed
  have hinsert := chargedSize_insertStamp_le (s.eraseStamp h old.2) h
    ⟨timestamp, key⟩
  simp only [stampCharge] at herase hinsert
  omega

theorem covered_overwrite (expiry : Nat) (hs : Covered s)
    (hcharge : s.gStoredSize + insertCharge key flags token value < wordSize)
    (hlookup : (s.gKeyToValueHashMap (getHashTblNbrFromKey key)).lookup key =
      some old)
    (hindexed : ⟨old.2, key⟩ ∈
      s.gTimestampToKeySet (getHashTblNbrFromKey key)) :
    let s' := (((s.setEntry (getHashTblNbrFromKey key) key
        (⟨expiry, value, flags, token⟩, old.2)).eraseStamp
          (getHashTblNbrFromKey key) old.2).subStoredSize
            (overwriteDiff old flags token value)).insertStamp
              (getHashTblNbrFromKey key) ⟨timestamp, key⟩
    Covered s' ∧
      s'.gStoredSize ≤ s.gStoredSize + insertCharge key flags token value := by
  intro s'
  have hentry := chargedSize_setEntry_old
    (⟨expiry, value, flags, token⟩, old.2) hlookup
  have hle := entryCharge_le_chargedSize hlookup
  have hcovered := hs.charged
  have hstamps : chargedSize s' ≤ chargedSize (s.setEntry
      (getHashTblNbrFromKey key) key (⟨expiry, value, flags, token⟩, old.2)) :=
    chargedSize_restamp_le timestamp
      (s := s.setEntry (getHashTblNbrFromKey key) key
        (⟨expiry, value, flags, token⟩, old.2)) hindexed
  have hexchange := wordSub_exchange s.gStoredSize
    (sizeofTimestamp + old.1.casUniq.length + old.1.flags.length +
      old.1.value.length)
    (sizeofTimestamp + token.length + flags.length + value.length)
    (by unfold entryCharge at hle; omega)
    (by unfold insertCharge at hcharge; omega)
  have hsize : s'.gStoredSize =
      wordSub s.gStoredSize (overwriteDiff old flags token value) := rfl
  simp only [entryCharge, insertCharge, overwriteDiff] at *
  exact ⟨⟨by omega, by omega⟩, by omega⟩

end Steps

structure UnderLimit (env : Env) (s : Store) : Prop where
  covered : Covered s
  limit : s.gStoredSize < env.gServMemLimit

section Limit

variable {env : Env} {clock : Clock} {key flags casUniq value : Bytes}
  {expiry now : Nat} {s s₁ : Store}

theorem covered_insertDrawn (hs : Covered s) :
    Covered (insertDrawn env now s) := by
  obtain ⟨hcharged, hword⟩ := hs
  constructor
  · unfold chargedSize bucketCharge at *
    simpa using hcharged
  · simpa using hword

theorem underLimit_insertLoop {room : Bool} (hs : UnderLimit env s)
    (hloop : insertLoop env clock key flags value s =
      .ok (room, ⟨s₁, Locks.free⟩)) :
    UnderLimit env s₁ ∧ s₁.gStoredSize ≤ s.gStoredSize := by
  have hevicts := (insertLoop_spec hloop).1
  obtain ⟨hcovered, hle⟩ :=
    covered_evictsMany hevicts (covered_insertDrawn hs.covered)
  rw [insertDrawn_gStoredSize] at hle
  exact ⟨⟨hcovered, hle.trans_lt hs.limit⟩, hle⟩

theorem underLimit_addLoop {room : Bool} (hs : UnderLimit env s)
    (hloop : addLoop env clock key value s =
      .ok (room, ⟨s₁, Locks.free⟩)) :
    UnderLimit env s₁ ∧ s₁.gStoredSize ≤ s.gStoredSize := by
  have hevicts := (addLoop_spec hloop).1
  have hdrawn : Covered (nextTimestamp s).2 :=
    ⟨hs.covered.charged, hs.covered.word⟩
  obtain ⟨hcovered, hle⟩ := covered_evictsMany hevicts hdrawn
  exact ⟨⟨hcovered, lt_of_le_of_lt hle hs.limit⟩, hle⟩

theorem insertFits_iff {token : Bytes}
    (hcharge : s.gStoredSize + insertCharge key flags token value < wordSize) :
    insertFits env key flags token value s ↔
      s.gStoredSize + insertCharge key flags token value <
        env.gServMemLimit := by
  have hsame : s.gStoredSize + 2 * key.length + 2 * sizeofTimestamp +
      flags.length + token.length + sizeofTimestamp + value.length =
      s.gStoredSize + insertCharge key flags token value := by
    unfold insertCharge
    omega
  rw [insertFits, hsame, toWord_of_lt hcharge]

theorem addFits_of_insertFits {token : Bytes}
    (hcharge : s.gStoredSize + insertCharge key flags token value < wordSize)
    (h : insertFits env key flags token value s) : addFits env key value s := by
  rw [insertFits_iff hcharge] at h
  have hless : s.gStoredSize + 2 * key.length + 2 * sizeofTimestamp +
      sizeofTimestamp + value.length ≤
      s.gStoredSize + insertCharge key flags token value := by
    unfold insertCharge
    omega
  rw [addFits, toWord_of_lt (by omega)]
  omega

theorem addLoop_checked (hchecked : AddChecked env clock key flags value s)
    (hcharge : s.gStoredSize + insertCharge key flags
      (addToken env clock.now) value < wordSize)
    (hloop : addLoop env clock key value s = .ok (true, ⟨s₁, Locks.free⟩)) :
    insertFits env key flags (addToken env clock.now) value s₁ ∨
      s₁.entry key ≠ none := by
  rcases hchecked with hfits | ⟨hfits, hentry⟩ | ⟨hfull, hempty⟩
  · rw [addLoop_of_fits (addFits_of_insertFits hcharge hfits)] at hloop
    cases hloop
    exact .inl hfits
  · rw [addLoop_of_fits hfits] at hloop
    cases hloop
    exact .inr (Option.isSome_iff_ne_none.mp hentry)
  · obtain ⟨hevicts, hroom⟩ := addLoop_spec hloop
    obtain rfl := evictsMany_of_allSetsEmpty (by exact hempty) hevicts
    exact absurd (hroom.mp rfl) hfull

theorem underLimit_created {token : Bytes} {timestamp : TimestampType}
    (hs : UnderLimit env s)
    (hcharge : s.gStoredSize + insertCharge key flags token value < wordSize)
    (hfits : insertFits env key flags token value s)
    (hlookup : (s.gKeyToValueHashMap (getHashTblNbrFromKey key)).lookup key =
      none) :
    UnderLimit env (((s.setEntry (getHashTblNbrFromKey key) key
        (⟨newExpiry now expiry, value, flags, token⟩,
          timestamp)).addStoredSize
            (insertCharge key flags token value)).insertStamp
              (getHashTblNbrFromKey key) ⟨timestamp, key⟩) := by
  refine ⟨covered_created _ hs.covered hcharge hlookup, ?_⟩
  simp only [Store.insertStamp_gStoredSize, Store.addStoredSize_gStoredSize,
    Store.setEntry_gStoredSize, toWord_of_lt hcharge]
  exact (insertFits_iff hcharge).mp hfits

private theorem underLimit_insert (hs : UnderLimit env s)
    (hstays : StaysCovered env s (.insert clock key flags casUniq value expiry))
    (hloop : insertLoop env clock key flags value s =
      .ok (true, ⟨s₁, Locks.free⟩)) :
    UnderLimit env (insertStep clock.now key flags casUniq value expiry
      (insertToken env clock.now s) s.gTimestamp s₁).2 := by
  obtain ⟨hcharge, hentry⟩ := hstays
  obtain ⟨hs₁, hle⟩ := underLimit_insertLoop hs hloop
  obtain ⟨hevicts, hroom⟩ := insertLoop_spec hloop
  have hfits := hroom.mp rfl
  have hcharge₁ : s₁.gStoredSize + insertCharge key flags
      (insertToken env clock.now s) value < wordSize := by omega
  cases hlookup :
      (s₁.gKeyToValueHashMap (getHashTblNbrFromKey key)).lookup key with
  | none =>
      by_cases hcas : casUniq = []
      · rw [insertStep_created hlookup hcas]
        exact underLimit_created hs₁ hcharge₁ hfits hlookup
      · rw [insertStep_notExist hlookup hcas]
        exact hs₁
  | some it =>
      by_cases hcas : casUniq ≠ [] ∧ it.1.casUniq ≠ casUniq
      · rw [insertStep_refused hlookup hcas]
        exact hs₁
      · rw [insertStep_overwrite hlookup hcas]
        have hentry' : EntryIs (insertDrawn env clock.now s) key fun it =>
            (casUniq ≠ [] ∧ it.1.casUniq ≠ casUniq) ∨ Indexed s key it := by
          simpa [EntryIs] using hentry
        have hbefore : Indexed s key it :=
          (entryIs_evictsMany hevicts hentry' it hlookup).resolve_left hcas
        have hmem : ⟨it.2, key⟩ ∈ (insertDrawn env clock.now s).gTimestampToKeySet
            (getHashTblNbrFromKey key) := by
          rw [insertDrawn_gTimestampToKeySet]
          exact hbefore
        have hindexed := indexed_evictsMany hevicts hlookup hmem
        obtain ⟨hcovered, hsize⟩ := covered_overwrite
          (toWord (clock.now + expiry)) hs₁.covered hcharge₁ hlookup hindexed
        exact ⟨hcovered,
          lt_of_le_of_lt hsize ((insertFits_iff hcharge₁).mp hfits)⟩

private theorem underLimit_add (hs : UnderLimit env s)
    (hstays : StaysCovered env s (.add clock key flags casUniq value expiry))
    (hloop : addLoop env clock key value s = .ok (true, ⟨s₁, Locks.free⟩)) :
    UnderLimit env (addStep clock.now key flags value expiry
      (addToken env clock.now) s.gTimestamp s₁).2 := by
  obtain ⟨hcharge, hchecked, hentry⟩ := hstays
  obtain ⟨hs₁, hle⟩ := underLimit_addLoop hs hloop
  obtain ⟨hevicts, hroom⟩ := addLoop_spec hloop
  have hcharge₁ : s₁.gStoredSize + insertCharge key flags
      (addToken env clock.now) value < wordSize := by omega
  cases hlookup :
      (s₁.gKeyToValueHashMap (getHashTblNbrFromKey key)).lookup key with
  | none =>
      have hfits := (addLoop_checked hchecked hcharge hloop).resolve_right
        fun hentry => hentry hlookup
      rw [addStep_created hlookup]
      exact underLimit_created hs₁ hcharge₁ hfits hlookup
  | some it =>
      by_cases hdead : Dead s₁ clock.now it
      · rw [addStep_revived hlookup hdead]
        have hdead' : Dead s clock.now it := by
          simpa [Dead, (shrinks_evictsMany hevicts).flushStamp,
            nextTimestamp] using hdead
        have hkept := entryIs_evictsMany (s := (nextTimestamp s).2) hevicts
          hentry it hlookup
        obtain ⟨hbefore, hsmaller⟩ := hkept.resolve_left (not_not_intro hdead')
        have hindexed := indexed_evictsMany hevicts hlookup hbefore
        have hset := chargedSize_setEntry_old
          (⟨toWord (clock.now + expiry), value, flags,
            addToken env clock.now⟩, it.2) hlookup
        have hstamps := chargedSize_restamp_le s.gTimestamp
          (s := s₁.setEntry (getHashTblNbrFromKey key) key
            (⟨toWord (clock.now + expiry), value, flags,
              addToken env clock.now⟩, it.2)) hindexed
        have hcharged := hs₁.covered.charged
        simp only [entryCharge] at hset
        refine ⟨⟨?_, hs₁.covered.word⟩, hs₁.limit⟩
        refine hstamps.trans (le_trans ?_ hcharged)
        omega
      · rw [addStep_exist hlookup hdead]
        exact hs₁

private theorem underLimit_get (hs : UnderLimit env s)
    (hstays : StaysCovered env s (.get now key)) :
    UnderLimit env (getStep now key s).2 := by
  obtain ⟨⟨hcharged, hword⟩, hlimit⟩ := hs
  apply getStep_keeps
  · exact ⟨⟨hcharged, hword⟩, hlimit⟩
  · intro it hlookup _
    have herase := chargedSize_eraseKey (s := (nextTimestamp s).2) hlookup
    refine ⟨⟨le_trans ?_ hcharged, hword⟩, hlimit⟩
    exact Nat.le_of_add_right_le herase.le
  · intro it hlookup hlive
    have hindexed := (hstays it hlookup).resolve_left hlive
    have hset := chargedSize_setEntry_old (s := (nextTimestamp s).2)
      (it.1, s.gTimestamp) hlookup
    have hstamps := chargedSize_restamp_le s.gTimestamp
      (s := (nextTimestamp s).2.setEntry (getHashTblNbrFromKey key) key
        (it.1, s.gTimestamp)) hindexed
    refine ⟨⟨hstamps.trans ?_, hword⟩, hlimit⟩
    exact (Nat.add_right_cancel hset).le.trans hcharged

private theorem underLimit_delete (hs : UnderLimit env s) :
    UnderLimit env (deleteSection now key expiry s).2 := by
  obtain ⟨⟨hcharged, hword⟩, hlimit⟩ := hs
  apply deleteSection_keeps
  · exact ⟨⟨hcharged, hword⟩, hlimit⟩
  · intro it hlookup _ _
    have herase := chargedSize_eraseKey hlookup
    exact ⟨⟨(Nat.le_of_add_right_le herase.le).trans hcharged, hword⟩, hlimit⟩
  · intro it hlookup _
    have hset := chargedSize_setEntry_old
      ({ it.1 with expiry := toWord (now + expiry) }, it.2) hlookup
    exact ⟨⟨(Nat.add_right_cancel hset).le.trans hcharged, hword⟩, hlimit⟩

theorem underLimit_step {op : Op} {r : RetStatus} {s' : Store}
    (hs : UnderLimit env s) (hstays : StaysCovered env s op)
    (hstep : StoreStep env s op r s') : UnderLimit env s' := by
  cases hstep with
  | insert casUniq expiry room => exact underLimit_insert hs hstays room
  | insertFull casUniq expiry full => exact (underLimit_insertLoop hs full).1
  | add flags casUniq expiry room => exact underLimit_add hs hstays room
  | addFull flags casUniq expiry full => exact (underLimit_addLoop hs full).1
  | get now key => exact underLimit_get hs hstays
  | delete now key expiry => exact underLimit_delete hs
  | setFlushAll now expiry => exact ⟨⟨hs.covered.1, hs.covered.2⟩, hs.limit⟩
  | handleFlushAll now =>
      unfold handleFlush
      split
      · exact ⟨⟨hs.covered.1, hs.covered.2⟩, hs.limit⟩
      · exact hs

theorem underLimit_init (hlimit : 0 < env.gServMemLimit) :
    UnderLimit env Store.init :=
  ⟨⟨by decide, by decide⟩, hlimit⟩

end Limit

end Memstashed.Dblru
