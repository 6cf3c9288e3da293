import Memstashed.Dblru.Sequential

/-!
# Memory accounting

`gStoredSize` is meant to be the sum of what the insertion path charges for
everything that is stored.  The overwrite of an entry moves it by a wrapped
difference, evictions give back less than was charged, and several paths drop or
replace an entry without touching it.  The steps that keep the counter exact are
collected in `KeepsAccount`.
-/

namespace Memstashed.Dblru

open Memstashed.Foundation

/-! ## What is charged -/

def entryCharge (key : KeyType) (it : MapEntry) : Nat :=
  key.length + sizeofTimestamp + sizeofTimestamp + it.1.casUniq.length +
    it.1.flags.length + it.1.value.length

def stampCharge (entry : TimestampToKeyStruct) : Nat :=
  entry.key.length + sizeofTimestamp

def bucketCharge (s : Store) (h : HashTblNum) : Nat :=
  mapWeight entryCharge (s.gKeyToValueHashMap h) +
    (s.gTimestampToKeySet h).weight stampCharge

def chargedSize (s : Store) : Nat := ∑ h, bucketCharge s h

theorem insertCharge_eq (key flags token value : Bytes) (expiry : Nat)
    (timestamp : TimestampType) :
    insertCharge key flags token value =
      entryCharge key (⟨expiry, value, flags, token⟩, timestamp) +
        stampCharge ⟨timestamp, key⟩ := by
  simp only [insertCharge, entryCharge, stampCharge]
  omega

theorem chargedSize_split (s : Store) (h : HashTblNum) :
    chargedSize s =
      bucketCharge s h + ∑ h' ∈ Finset.univ.erase h, bucketCharge s h' :=
  (Finset.add_sum_erase _ _ (Finset.mem_univ h)).symm

theorem chargedSize_bucket (s s' : Store) (h : HashTblNum)
    (hother : ∀ h', h' ≠ h → bucketCharge s' h' = bucketCharge s h') :
    chargedSize s' + bucketCharge s h = chargedSize s + bucketCharge s' h := by
  have hrest : ∑ h' ∈ Finset.univ.erase h, bucketCharge s' h' =
      ∑ h' ∈ Finset.univ.erase h, bucketCharge s h' :=
    Finset.sum_congr rfl fun h' hh' => hother h' (Finset.ne_of_mem_erase hh')
  rw [chargedSize_split s h, chargedSize_split s' h, hrest]
  omega

section Updates

variable {s : Store} {h : HashTblNum} {key : KeyType} {old : MapEntry}
  {entry : TimestampToKeyStruct}

theorem chargedSize_setEntry_new (it : MapEntry)
    (hnew : (s.gKeyToValueHashMap h).lookup key = none) :
    chargedSize (s.setEntry h key it) = chargedSize s + entryCharge key it := by
  have hbucket := chargedSize_bucket s (s.setEntry h key it) h
    (fun h' hne => by simp [bucketCharge, hne])
  have hweight := mapWeight_insert_new entryCharge it hnew
  simp only [bucketCharge, Store.setEntry_gKeyToValueHashMap,
    Store.setEntry_gTimestampToKeySet, Function.update_self] at hbucket
  omega

theorem chargedSize_setEntry_old (it : MapEntry)
    (hold : (s.gKeyToValueHashMap h).lookup key = some old) :
    chargedSize (s.setEntry h key it) + entryCharge key old =
      chargedSize s + entryCharge key it := by
  have hbucket := chargedSize_bucket s (s.setEntry h key it) h
    (fun h' hne => by simp [bucketCharge, hne])
  have hweight := mapWeight_insert_old entryCharge it hold
  simp only [bucketCharge, Store.setEntry_gKeyToValueHashMap,
    Store.setEntry_gTimestampToKeySet, Function.update_self] at hbucket
  omega

theorem entryCharge_le_chargedSize
    (hold : (s.gKeyToValueHashMap h).lookup key = some old) :
    entryCharge key old ≤ chargedSize s := by
  have hweight := mapWeight_erase entryCharge hold
  rw [chargedSize_split s h, bucketCharge]
  omega

theorem chargedSize_insertStamp
    (hfresh : ∀ e ∈ s.gTimestampToKeySet h, e.timestamp ≠ entry.timestamp) :
    chargedSize (s.insertStamp h entry) =
      chargedSize s + stampCharge entry := by
  have hbucket := chargedSize_bucket s (s.insertStamp h entry) h
    (fun h' hne => by simp [bucketCharge, hne])
  have hweight := OrderedSet.weight_insert stampCharge hfresh
  simp only [bucketCharge, Store.insertStamp_gKeyToValueHashMap,
    Store.insertStamp_gTimestampToKeySet, Function.update_self] at hbucket
  omega

theorem chargedSize_eraseStamp (hmem : entry ∈ s.gTimestampToKeySet h) :
    chargedSize (s.eraseStamp h entry.timestamp) + stampCharge entry =
      chargedSize s := by
  have hbucket := chargedSize_bucket s (s.eraseStamp h entry.timestamp) h
    (fun h' hne => by simp [bucketCharge, hne])
  have hweight := OrderedSet.weight_erase stampCharge hmem
  simp only [bucketCharge, Store.eraseStamp_gKeyToValueHashMap,
    Store.eraseStamp_gTimestampToKeySet, Function.update_self] at hbucket
  omega

variable (s h entry) in
theorem chargedSize_insertStamp_le :
    chargedSize (s.insertStamp h entry) ≤
      chargedSize s + stampCharge entry := by
  have hbucket := chargedSize_bucket s (s.insertStamp h entry) h
    (fun h' hne => by simp [bucketCharge, hne])
  have hweight := OrderedSet.weight_insert_le stampCharge entry
    (s.gTimestampToKeySet h)
  simp only [bucketCharge, Store.insertStamp_gKeyToValueHashMap,
    Store.insertStamp_gTimestampToKeySet, Function.update_self] at hbucket
  omega

theorem chargedSize_eraseKey
    (hold : (s.gKeyToValueHashMap h).lookup key = some old) :
    chargedSize (s.eraseKey h key) + entryCharge key old = chargedSize s := by
  have hbucket := chargedSize_bucket s (s.eraseKey h key) h
    (fun h' hne => by simp [bucketCharge, hne])
  have hweight := mapWeight_erase entryCharge hold
  simp only [bucketCharge, Store.eraseKey_gKeyToValueHashMap,
    Store.eraseKey_gTimestampToKeySet, Function.update_self] at hbucket
  omega

@[simp] theorem chargedSize_addStoredSize (n : Nat) :
    chargedSize (s.addStoredSize n) = chargedSize s := rfl

@[simp] theorem chargedSize_subStoredSize (n : Nat) :
    chargedSize (s.subStoredSize n) = chargedSize s := rfl

end Updates

/-! ## The steps that keep the account -/

def FreshStamp (s : Store) (h : HashTblNum) : Prop :=
  ∀ e ∈ (s.gTimestampToKeySet h).toList, e.timestamp ≠ s.gTimestamp

instance (s : Store) (h : HashTblNum) : Decidable (FreshStamp s h) :=
  inferInstanceAs (Decidable (∀ e ∈ _, _))

def AllSetsEmpty (s : Store) : Prop :=
  ∀ h, (s.gTimestampToKeySet h).toList = []

instance (s : Store) : Decidable (AllSetsEmpty s) :=
  inferInstanceAs (Decidable (∀ _, _))

def EntryIs (s : Store) (key : KeyType) (P : MapEntry → Prop) : Prop :=
  ∀ it ∈ (s.gKeyToValueHashMap (getHashTblNbrFromKey key)).lookup key, P it

instance (s : Store) (key : KeyType) (P : MapEntry → Prop) [DecidablePred P] :
    Decidable (EntryIs s key P) :=
  inferInstanceAs (Decidable (∀ it ∈ _, P it))

/-- The timestamp set has the entry that the map's timestamp points to. -/
def Indexed (s : Store) (key : KeyType) (it : MapEntry) : Prop :=
  ⟨it.2, key⟩ ∈ (s.gTimestampToKeySet (getHashTblNbrFromKey key)).toList

instance (s : Store) (key : KeyType) (it : MapEntry) :
    Decidable (Indexed s key it) :=
  inferInstanceAs (Decidable (_ ∈ _))

/--
A step whose path keeps `gStoredSize` exact: nothing is evicted, no live entry
is deleted and no expired or flushed one is met, an overwritten or re-read entry
is found in the timestamp set under the timestamp in the map, the drawn
timestamp is new to the set, and the charge does not overflow 32 bits.
-/
def KeepsAccount (env : Env) (s : Store) : Op → Prop
  | .insert clock key flags casUniq value _ =>
      let token := insertToken env clock.now s
      (insertFits env key flags token value s ∨ AllSetsEmpty s) ∧
        s.gStoredSize + insertCharge key flags token value < wordSize ∧
        FreshStamp s (getHashTblNbrFromKey key) ∧
        EntryIs s key fun it =>
          (casUniq ≠ [] ∧ it.1.casUniq ≠ casUniq) ∨ Indexed s key it
  | .add clock key flags _ value _ =>
      (addFits env key value s ∨ AllSetsEmpty s) ∧
        s.gStoredSize + insertCharge key flags (addToken env clock.now) value <
          wordSize ∧
        FreshStamp s (getHashTblNbrFromKey key) ∧
        EntryIs s key fun it => ¬ Dead s clock.now it
  | .get now key =>
      FreshStamp s (getHashTblNbrFromKey key) ∧
        EntryIs s key fun it => ¬ Dead s now it ∧ Indexed s key it
  | .delete now key expiry =>
      expiry = 0 → EntryIs s key fun it => Dead s now it
  | .setFlushAll _ _ => True
  | .handleFlushAll _ => True

instance (env : Env) (s : Store) (op : Op) :
    Decidable (KeepsAccount env s op) :=
  match op with
  | .insert .. => inferInstanceAs (Decidable (_ ∧ _))
  | .add .. => inferInstanceAs (Decidable (_ ∧ _))
  | .get .. => inferInstanceAs (Decidable (_ ∧ _))
  | .delete .. => inferInstanceAs (Decidable (_ → _))
  | .setFlushAll .. => inferInstanceAs (Decidable True)
  | .handleFlushAll .. => inferInstanceAs (Decidable True)

theorem evictsMany_of_allSetsEmpty {s s' : Store} (hempty : AllSetsEmpty s)
    (h : EvictsMany s s') : s' = s := by
  induction h with
  | refl => rfl
  | tail _ hstep ih =>
      subst ih
      obtain ⟨h, entry, hentry, -⟩ := hstep
      rw [OrderedSet.mem_def, hempty h] at hentry
      simp at hentry

/-! ## The account of a whole run -/

def Balanced (s : Store) : Prop := s.gStoredSize = chargedSize s

theorem wordSub_exchange (total old new : Nat) (hold : old ≤ total)
    (hfit : total + new < wordSize) :
    wordSub total (wordSub old new) + old = total + new := by
  unfold wordSub wordSize at *
  omega

section Steps

variable {s : Store} {key flags value token : Bytes}
  {timestamp : TimestampType} {old : MapEntry}

theorem balanced_created (expiry : Nat) (hbalanced : Balanced s)
    (hcharge : s.gStoredSize + insertCharge key flags token value < wordSize)
    (hfresh : ∀ e ∈ s.gTimestampToKeySet (getHashTblNbrFromKey key),
      e.timestamp ≠ timestamp)
    (hlookup : (s.gKeyToValueHashMap (getHashTblNbrFromKey key)).lookup key =
      none) :
    Balanced (((s.setEntry (getHashTblNbrFromKey key) key
        (⟨expiry, value, flags, token⟩, timestamp)).addStoredSize
          (insertCharge key flags token value)).insertStamp
            (getHashTblNbrFromKey key) ⟨timestamp, key⟩) := by
  have hentry := chargedSize_setEntry_new
    (⟨expiry, value, flags, token⟩, timestamp) hlookup
  have hsplit := insertCharge_eq key flags token value expiry timestamp
  unfold Balanced at *
  rw [chargedSize_insertStamp (by exact hfresh), chargedSize_addStoredSize,
    hentry]
  simp only [Store.insertStamp_gStoredSize, Store.addStoredSize_gStoredSize,
    Store.setEntry_gStoredSize, toWord_of_lt hcharge]
  omega

theorem chargedSize_restamp {h : HashTblNum}
    (hindexed : ⟨old.2, key⟩ ∈ s.gTimestampToKeySet h)
    (hfresh : ∀ e ∈ s.gTimestampToKeySet h, e.timestamp ≠ timestamp) :
    chargedSize ((s.eraseStamp h old.2).insertStamp h ⟨timestamp, key⟩) =
      chargedSize s := by
  have hfresh' : ∀ e ∈ (s.eraseStamp h old.2).gTimestampToKeySet h,
      e.timestamp ≠ timestamp := by
    intro e he
    rw [Store.eraseStamp_gTimestampToKeySet, Function.update_self,
      OrderedSet.mem_erase] at he
    exact hfresh e he.1
  have herase := chargedSize_eraseStamp hindexed
  rw [chargedSize_insertStamp (by exact hfresh')]
  exact herase

theorem balanced_overwrite (expiry : Nat) (hbalanced : Balanced s)
    (hcharge : s.gStoredSize + insertCharge key flags token value < wordSize)
    (hfresh : ∀ e ∈ s.gTimestampToKeySet (getHashTblNbrFromKey key),
      e.timestamp ≠ timestamp)
    (hlookup : (s.gKeyToValueHashMap (getHashTblNbrFromKey key)).lookup key =
      some old)
    (hindexed : ⟨old.2, key⟩ ∈
      s.gTimestampToKeySet (getHashTblNbrFromKey key)) :
    Balanced ((((s.setEntry (getHashTblNbrFromKey key) key
        (⟨expiry, value, flags, token⟩, old.2)).eraseStamp
          (getHashTblNbrFromKey key) old.2).subStoredSize
            (overwriteDiff old flags token value)).insertStamp
              (getHashTblNbrFromKey key) ⟨timestamp, key⟩) := by
  have hentry := chargedSize_setEntry_old
    (⟨expiry, value, flags, token⟩, old.2) hlookup
  have hle := entryCharge_le_chargedSize hlookup
  have hstamps : chargedSize (((s.setEntry (getHashTblNbrFromKey key) key
      (⟨expiry, value, flags, token⟩, old.2)).eraseStamp
        (getHashTblNbrFromKey key) old.2).insertStamp
          (getHashTblNbrFromKey key) ⟨timestamp, key⟩) = _ :=
    chargedSize_restamp (by exact hindexed) (by exact hfresh)
  have hexchange := wordSub_exchange s.gStoredSize
    (sizeofTimestamp + old.1.casUniq.length + old.1.flags.length +
      old.1.value.length)
    (sizeofTimestamp + token.length + flags.length + value.length)
    (by unfold Balanced entryCharge at *; omega)
    (by unfold insertCharge at hcharge; omega)
  unfold Balanced at *
  change wordSub s.gStoredSize (overwriteDiff old flags token value) =
    chargedSize (((s.setEntry (getHashTblNbrFromKey key) key
      (⟨expiry, value, flags, token⟩, old.2)).eraseStamp
        (getHashTblNbrFromKey key) old.2).insertStamp
          (getHashTblNbrFromKey key) ⟨timestamp, key⟩)
  rw [hstamps]
  simp only [overwriteDiff, entryCharge] at hentry hle hexchange ⊢
  omega

end Steps

theorem insertLoop_keepsAccount {env : Env} {clock : Clock}
    {key flags value : Bytes} {s s₁ : Store} {room : Bool}
    (h : insertFits env key flags (insertToken env clock.now s) value s ∨
      AllSetsEmpty s)
    (hloop : insertLoop env clock key flags value s =
      .ok (room, ⟨s₁, Locks.free⟩)) :
    s₁ = insertDrawn env clock.now s := by
  rcases h with hfits | hempty
  · rw [insertLoop_of_fits hfits] at hloop
    cases hloop
    rfl
  · refine evictsMany_of_allSetsEmpty ?_ (insertLoop_spec hloop).1
    intro h
    rw [insertDrawn_gTimestampToKeySet]
    exact hempty h

theorem addLoop_keepsAccount {env : Env} {clock : Clock} {key value : Bytes}
    {s s₁ : Store} {room : Bool}
    (h : addFits env key value s ∨ AllSetsEmpty s)
    (hloop : addLoop env clock key value s = .ok (room, ⟨s₁, Locks.free⟩)) :
    s₁ = (nextTimestamp s).2 := by
  rcases h with hfits | hempty
  · rw [addLoop_of_fits hfits] at hloop
    cases hloop
    rfl
  · exact evictsMany_of_allSetsEmpty (by exact hempty) (addLoop_spec hloop).1

private theorem balanced_insertDrawn {env : Env} {now : Nat} {s : Store}
    (h : Balanced s) : Balanced (insertDrawn env now s) := by
  unfold Balanced chargedSize bucketCharge at *
  simpa using h

private theorem balanced_insert {env : Env} {clock : Clock}
    {key flags casUniq value : Bytes} {expiry : Nat} {s s₁ : Store}
    (hbalanced : Balanced s)
    (hkeeps : KeepsAccount env s
      (.insert clock key flags casUniq value expiry))
    (hloop : insertLoop env clock key flags value s =
      .ok (true, ⟨s₁, Locks.free⟩)) :
    Balanced (insertStep clock.now key flags casUniq value expiry
      (insertToken env clock.now s) s.gTimestamp s₁).2 := by
  obtain ⟨hroom, hcharge, hfresh, hentry⟩ := hkeeps
  obtain rfl := insertLoop_keepsAccount hroom hloop
  have hdrawn : Balanced (insertDrawn env clock.now s) :=
    balanced_insertDrawn hbalanced
  have hfresh' : ∀ e ∈ (insertDrawn env clock.now s).gTimestampToKeySet
      (getHashTblNbrFromKey key), e.timestamp ≠ s.gTimestamp := by
    rw [insertDrawn_gTimestampToKeySet]
    exact hfresh
  cases hlookup :
      (s.gKeyToValueHashMap (getHashTblNbrFromKey key)).lookup key with
  | none =>
      have hlookup' : ((insertDrawn env clock.now s).gKeyToValueHashMap
          (getHashTblNbrFromKey key)).lookup key = none := by simpa
      by_cases hcas : casUniq = []
      · rw [insertStep_created hlookup' hcas]
        exact balanced_created _ hdrawn (by simpa using hcharge)
          hfresh' hlookup'
      · rw [insertStep_notExist hlookup' hcas]
        exact hdrawn
  | some it =>
      have hlookup' : ((insertDrawn env clock.now s).gKeyToValueHashMap
          (getHashTblNbrFromKey key)).lookup key = some it := by simpa
      by_cases hcas : casUniq ≠ [] ∧ it.1.casUniq ≠ casUniq
      · rw [insertStep_refused hlookup' hcas]
        exact hdrawn
      · rw [insertStep_overwrite hlookup' hcas]
        refine balanced_overwrite _ hdrawn (by simpa using hcharge)
          hfresh' hlookup' ?_
        rw [insertDrawn_gTimestampToKeySet]
        exact (hentry it hlookup).resolve_left hcas

private theorem balanced_add {env : Env} {clock : Clock}
    {key flags casUniq value : Bytes} {expiry : Nat} {s s₁ : Store}
    (hbalanced : Balanced s)
    (hkeeps : KeepsAccount env s (.add clock key flags casUniq value expiry))
    (hloop : addLoop env clock key value s = .ok (true, ⟨s₁, Locks.free⟩)) :
    Balanced (addStep clock.now key flags value expiry
      (addToken env clock.now) s.gTimestamp s₁).2 := by
  obtain ⟨hroom, hcharge, hfresh, hentry⟩ := hkeeps
  obtain rfl := addLoop_keepsAccount hroom hloop
  have hdrawn : Balanced (nextTimestamp s).2 := hbalanced
  cases hlookup :
      (s.gKeyToValueHashMap (getHashTblNbrFromKey key)).lookup key with
  | none =>
      rw [addStep_created (by exact hlookup)]
      exact balanced_created _ hdrawn hcharge hfresh hlookup
  | some it =>
      rw [addStep_exist (by exact hlookup) (by exact hentry it hlookup)]
      exact hdrawn

private theorem balanced_get {env : Env} {now : Nat} {key : KeyType}
    {s : Store} (hbalanced : Balanced s)
    (hkeeps : KeepsAccount env s (.get now key)) :
    Balanced (getStep now key s).2 := by
  obtain ⟨hfresh, hentry⟩ := hkeeps
  have hdrawn : Balanced (nextTimestamp s).2 := hbalanced
  cases hlookup :
      (s.gKeyToValueHashMap (getHashTblNbrFromKey key)).lookup key with
  | none =>
      rw [getStep_absent hlookup]
      exact hdrawn
  | some it =>
      obtain ⟨hlive, hindexed⟩ := hentry it hlookup
      rw [getStep_live hlookup hlive]
      have hsame := chargedSize_setEntry_old (s := (nextTimestamp s).2)
        (it.1, s.gTimestamp) hlookup
      unfold Balanced at *
      rw [chargedSize_restamp (by exact hindexed) (by exact hfresh)]
      exact hdrawn.trans (Nat.add_right_cancel hsame).symm

private theorem balanced_delete {env : Env} {now : Nat} {key : KeyType}
    {expiry : Nat} {s : Store} (hbalanced : Balanced s)
    (hkeeps : KeepsAccount env s (.delete now key expiry)) :
    Balanced (deleteSection now key expiry s).2 := by
  apply deleteSection_keeps
  · exact hbalanced
  · intro it hlookup hlive hzero
    exact absurd (hkeeps hzero it hlookup) hlive
  · intro it hlookup _
    have hsame := chargedSize_setEntry_old
      ({ it.1 with expiry := toWord (now + expiry) }, it.2) hlookup
    exact hbalanced.trans (Nat.add_right_cancel hsame).symm

theorem balanced_step {env : Env} {s s' : Store} {op : Op} {r : RetStatus}
    (hbalanced : Balanced s) (hkeeps : KeepsAccount env s op)
    (hstep : StoreStep env s op r s') : Balanced s' := by
  cases hstep with
  | insert casUniq expiry room => exact balanced_insert hbalanced hkeeps room
  | insertFull casUniq expiry full =>
      obtain rfl := insertLoop_keepsAccount hkeeps.1 full
      exact balanced_insertDrawn hbalanced
  | add flags casUniq expiry room => exact balanced_add hbalanced hkeeps room
  | addFull flags casUniq expiry full =>
      obtain rfl := addLoop_keepsAccount hkeeps.1 full
      exact hbalanced
  | get now key => exact balanced_get hbalanced hkeeps
  | delete now key expiry => exact balanced_delete hbalanced hkeeps
  | setFlushAll now expiry => exact hbalanced
  | handleFlushAll now =>
      unfold handleFlush
      split
      · exact hbalanced
      · exact hbalanced

/-- In every run whose steps all keep the account, `gStoredSize` is after every
operation the sum of the charges of what is stored. -/
theorem storedSize_eq_chargedSize (env : Env) (t : State)
    (h : Reached (Op.run env) (fun t op => KeepsAccount env t.store op)
      State.init t) :
    t.store.gStoredSize = chargedSize t.store ∧
      ((∀ h, (t.store.gKeyToValueHashMap h).entries = [] ∧
          (t.store.gTimestampToKeySet h).toList = []) →
        t.store.gStoredSize = 0) := by
  have hbalanced : Balanced t.store :=
    (reached_invariant (P := Balanced) rfl
      (fun _ _ _ _ hs hok hstep => balanced_step hs hok hstep) h).2
  refine ⟨hbalanced, fun hempty => ?_⟩
  rw [hbalanced]
  exact Finset.sum_eq_zero fun h _ => by
    simp [bucketCharge, mapWeight, OrderedSet.weight, hempty h]

/-- A key that is stored, read and overwritten once meets the condition. -/
theorem storedSize_eq_chargedSize_setGetSet :
    ∃ t, Reached (Op.run Env.x86)
        (fun t op => KeepsAccount Env.x86 t.store op) State.init t ∧
      t.store.gStoredSize = chargedSize t.store ∧
      t.store.gStoredSize = 39 := by
  obtain ⟨t, hreached, hsize⟩ := exists_reached_of_replay (Op.run Env.x86)
    (fun t op => KeepsAccount Env.x86 t.store op) State.init
    [.insert (.const 1000) (ascii "k") (ascii "0") [] (ascii "v") 0,
      .get 1000 (ascii "k"),
      .insert (.const 1001) (ascii "k") (ascii "0") [] (ascii "word") 0]
    (fun t => t.store.gStoredSize) 39 (by decide +kernel)
  exact ⟨t, hreached, (storedSize_eq_chargedSize _ t hreached).1, hsize⟩

/-- Storing a key and deleting it leaves the charge of its value behind. -/
theorem storedSize_drifts_on_delete :
    ¬ ∀ (env : Env) (t : State),
      Reached (Op.run env) (fun _ _ => True) State.init t →
        t.store.gStoredSize = chargedSize t.store := by
  intro hexact
  obtain ⟨t, hreached, hsizes⟩ := exists_reached_of_replay (Op.run Env.x86)
    (fun _ _ => True) State.init
    [.insert (.const 1000) (ascii "k") (ascii "0") [] (ascii "v") 0,
      .delete 1000 (ascii "k") 0]
    (fun t => (t.store.gStoredSize, chargedSize t.store)) (35, 5)
    (by decide +kernel)
  have hsame := hexact Env.x86 t hreached
  obtain ⟨hstored, hcharged⟩ := Prod.mk.inj hsizes
  omega

end Memstashed.Dblru
