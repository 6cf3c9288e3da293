import Memstashed.Dblru.Accounting

/-!
# Agreement of the two indexes

A bucket keeps every key twice: in the map with the timestamp of its last use,
and in the timestamp set under that timestamp.  Eviction, reading and deleting
preserve the agreement of the two; the overwrite paths write a new timestamp to
the set and leave the old one in the map.
-/

namespace Memstashed.Dblru

open Memstashed.Foundation

/-! ## Properties that every bucket has -/

section Buckets

variable {P : TimestampToKeyType → KeyToValueType → Prop} {s s' : Store}
  {key : KeyType} {it : MapEntry} {entry : TimestampToKeyStruct}

theorem buckets_of_bucket (h : HashTblNum)
    (hall : ∀ h', P (s.gTimestampToKeySet h') (s.gKeyToValueHashMap h'))
    (hstamps : ∀ h', h' ≠ h →
      s'.gTimestampToKeySet h' = s.gTimestampToKeySet h')
    (hmaps : ∀ h', h' ≠ h →
      s'.gKeyToValueHashMap h' = s.gKeyToValueHashMap h')
    (hbucket : P (s'.gTimestampToKeySet h) (s'.gKeyToValueHashMap h)) :
    ∀ h', P (s'.gTimestampToKeySet h') (s'.gKeyToValueHashMap h') := by
  intro h'
  by_cases heq : h' = h
  · subst heq
    exact hbucket
  · rw [hstamps h' heq, hmaps h' heq]
    exact hall h'

theorem buckets_evictsMany
    (horphan : ∀ stamps map (entry : TimestampToKeyStruct), P stamps map →
      entry ∈ stamps → map.lookup entry.key = none →
        P (stamps.erase entry.timestamp) map)
    (hpair : ∀ stamps map (entry : TimestampToKeyStruct), P stamps map →
      entry ∈ stamps → P (stamps.erase entry.timestamp) (map.erase entry.key))
    (hall : ∀ h, P (s.gTimestampToKeySet h) (s.gKeyToValueHashMap h))
    (h : EvictsMany s s') :
    ∀ h, P (s'.gTimestampToKeySet h) (s'.gKeyToValueHashMap h) := by
  induction h with
  | refl => exact hall
  | @tail u s' _ hstep ih =>
      obtain ⟨h, entry, hentry, ⟨hlookup, rfl⟩ | ⟨it, hlookup, rfl⟩⟩ := hstep
      · apply buckets_of_bucket h ih
        · intro h' hne
          simp [evictOrphan, hne]
        · intro h' hne
          simp [evictOrphan]
        · simpa [evictOrphan] using horphan _ _ entry (ih h) hentry hlookup
      · apply buckets_of_bucket h ih
        · intro h' hne
          simp [evictPair, hne]
        · intro h' hne
          simp [evictPair, hne]
        · simpa [evictPair] using hpair _ _ entry (ih h) hentry

theorem buckets_eraseKey (h : HashTblNum)
    (hall : ∀ h', P (s.gTimestampToKeySet h') (s.gKeyToValueHashMap h'))
    (hbucket : P (s.gTimestampToKeySet h)
      ((s.gKeyToValueHashMap h).erase key)) :
    ∀ h', P ((s.eraseKey h key).gTimestampToKeySet h')
      ((s.eraseKey h key).gKeyToValueHashMap h') := by
  apply buckets_of_bucket h hall
  · intro h' hne
    rfl
  · intro h' hne
    simp [hne]
  · simpa using hbucket

theorem buckets_setEntry (h : HashTblNum)
    (hall : ∀ h', P (s.gTimestampToKeySet h') (s.gKeyToValueHashMap h'))
    (hbucket : P (s.gTimestampToKeySet h)
      ((s.gKeyToValueHashMap h).insert key it)) :
    ∀ h', P ((s.setEntry h key it).gTimestampToKeySet h')
      ((s.setEntry h key it).gKeyToValueHashMap h') := by
  apply buckets_of_bucket h hall
  · intro h' hne
    rfl
  · intro h' hne
    simp [hne]
  · simpa using hbucket

theorem buckets_created (h : HashTblNum) (charge : Nat)
    (hall : ∀ h', P (s.gTimestampToKeySet h') (s.gKeyToValueHashMap h'))
    (hbucket : P ((s.gTimestampToKeySet h).insert entry)
      ((s.gKeyToValueHashMap h).insert key it)) :
    ∀ h', P ((((s.setEntry h key it).addStoredSize charge).insertStamp h
        entry).gTimestampToKeySet h')
      ((((s.setEntry h key it).addStoredSize charge).insertStamp h
        entry).gKeyToValueHashMap h') := by
  apply buckets_of_bucket h hall
  · intro h' hne
    simp [hne]
  · intro h' hne
    simp [hne]
  · simpa using hbucket

theorem buckets_restamped (h : HashTblNum) (old : TimestampType)
    (hall : ∀ h', P (s.gTimestampToKeySet h') (s.gKeyToValueHashMap h'))
    (hbucket : P (((s.gTimestampToKeySet h).erase old).insert entry)
      ((s.gKeyToValueHashMap h).insert key it))
    (hmaps : s'.gKeyToValueHashMap = (s.setEntry h key it).gKeyToValueHashMap)
    (hsets : s'.gTimestampToKeySet =
      ((s.eraseStamp h old).insertStamp h entry).gTimestampToKeySet) :
    ∀ h', P (s'.gTimestampToKeySet h') (s'.gKeyToValueHashMap h') := by
  apply buckets_of_bucket h hall
  · intro h' hne
    rw [hsets]
    simp [hne]
  · intro h' hne
    rw [hmaps]
    simp [hne]
  · rw [hsets, hmaps]
    simpa using hbucket

end Buckets

/-! ## Agreement -/

/-- Every key of the map has exactly one entry in the set, under the timestamp
recorded in the map. -/
def BucketAgrees (stamps : TimestampToKeyType) (map : KeyToValueType) : Prop :=
  ∀ key it, map.lookup key = some it →
    ⟨it.2, key⟩ ∈ stamps ∧ ∀ e ∈ stamps, e.key = key → e = ⟨it.2, key⟩

def IndexesAgree (s : Store) : Prop :=
  ∀ h, BucketAgrees (s.gTimestampToKeySet h) (s.gKeyToValueHashMap h)

/-! ## One bucket -/

section Bucket

variable {stamps : TimestampToKeyType} {map : KeyToValueType} {key : KeyType}
  {it : MapEntry} {entry : TimestampToKeyStruct} {timestamp : TimestampType}

theorem BucketAgrees.eraseOrphan (h : BucketAgrees stamps map)
    (hentry : entry ∈ stamps) (hlookup : map.lookup entry.key = none) :
    BucketAgrees (stamps.erase entry.timestamp) map := by
  intro k other hk
  obtain ⟨hmem, hunique⟩ := h k other hk
  constructor
  · refine OrderedSet.mem_erase.mpr ⟨hmem, ?_⟩
    intro hstamp
    have hsame := OrderedSet.eq_of_key_eq hmem hentry hstamp
    rw [← hsame, hk] at hlookup
    contradiction
  · intro e he
    exact hunique e (OrderedSet.mem_erase.mp he).1

theorem BucketAgrees.erasePair (h : BucketAgrees stamps map)
    (hentry : entry ∈ stamps) :
    BucketAgrees (stamps.erase entry.timestamp) (map.erase entry.key) := by
  intro k other hk
  have hne : k ≠ entry.key := by
    rintro rfl
    rw [AList.lookup_erase] at hk
    contradiction
  rw [AList.lookup_erase_ne hne] at hk
  obtain ⟨hmem, hunique⟩ := h k other hk
  constructor
  · refine OrderedSet.mem_erase.mpr ⟨hmem, ?_⟩
    intro hstamp
    exact hne (congrArg TimestampToKeyStruct.key
      (OrderedSet.eq_of_key_eq hmem hentry hstamp))
  · intro e he
    exact hunique e (OrderedSet.mem_erase.mp he).1

theorem BucketAgrees.eraseKey (h : BucketAgrees stamps map) (key : KeyType) :
    BucketAgrees stamps (map.erase key) := by
  intro k other hk
  have hne : k ≠ key := by
    rintro rfl
    rw [AList.lookup_erase] at hk
    contradiction
  rw [AList.lookup_erase_ne hne] at hk
  exact h k other hk

theorem BucketAgrees.update (h : BucketAgrees stamps map)
    (hlookup : map.lookup key = some it) (value : ValueStruct) :
    BucketAgrees stamps (map.insert key (value, it.2)) := by
  intro k other hk
  by_cases hkey : k = key
  · subst hkey
    rw [AList.lookup_insert] at hk
    cases hk
    exact h k it hlookup
  · rw [AList.lookup_insert_ne hkey] at hk
    exact h k other hk

theorem BucketAgrees.restamp (h : BucketAgrees stamps map)
    (hlookup : map.lookup key = some it)
    (hfresh : ∀ e ∈ stamps, e.timestamp ≠ timestamp) (value : ValueStruct) :
    BucketAgrees ((stamps.erase it.2).insert ⟨timestamp, key⟩)
      (map.insert key (value, timestamp)) := by
  obtain ⟨hold, holdUnique⟩ := h key it hlookup
  have hfresh' : ∀ e ∈ stamps.erase it.2, e.timestamp ≠ timestamp :=
    fun e he => hfresh e (OrderedSet.mem_erase.mp he).1
  intro k other hk
  by_cases hkey : k = key
  · subst hkey
    rw [AList.lookup_insert] at hk
    cases hk
    constructor
    · exact OrderedSet.mem_insert.mpr (.inr ⟨rfl, hfresh'⟩)
    · intro e he hek
      rcases OrderedSet.mem_insert.mp he with he | ⟨rfl, -⟩
      · obtain ⟨hmem, hstamp⟩ := OrderedSet.mem_erase.mp he
        rw [holdUnique e hmem hek] at hstamp
        exact absurd rfl hstamp
      · rfl
  · rw [AList.lookup_insert_ne hkey] at hk
    obtain ⟨hmem, hunique⟩ := h k other hk
    constructor
    · refine OrderedSet.mem_insert.mpr (.inl
        (OrderedSet.mem_erase.mpr ⟨hmem, ?_⟩))
      intro hstamp
      exact hkey (congrArg TimestampToKeyStruct.key
        (OrderedSet.eq_of_key_eq hmem hold hstamp))
    · intro e he hek
      rcases OrderedSet.mem_insert.mp he with he | ⟨rfl, -⟩
      · exact hunique e (OrderedSet.mem_erase.mp he).1 hek
      · exact absurd hek.symm hkey

theorem BucketAgrees.create (h : BucketAgrees stamps map)
    (hunseen : ∀ e ∈ stamps, e.key ≠ key)
    (hfresh : ∀ e ∈ stamps, e.timestamp ≠ timestamp) (value : ValueStruct) :
    BucketAgrees (stamps.insert ⟨timestamp, key⟩)
      (map.insert key (value, timestamp)) := by
  intro k other hk
  by_cases hkey : k = key
  · subst hkey
    rw [AList.lookup_insert] at hk
    cases hk
    constructor
    · exact OrderedSet.mem_insert.mpr (.inr ⟨rfl, hfresh⟩)
    · intro e he hek
      rcases OrderedSet.mem_insert.mp he with he | ⟨rfl, -⟩
      · exact absurd hek (hunseen e he)
      · rfl
  · rw [AList.lookup_insert_ne hkey] at hk
    obtain ⟨hmem, hunique⟩ := h k other hk
    constructor
    · exact OrderedSet.mem_insert.mpr (.inl hmem)
    · intro e he hek
      rcases OrderedSet.mem_insert.mp he with he | ⟨rfl, -⟩
      · exact hunique e he hek
      · exact absurd hek.symm hkey

end Bucket

/-! ## One step -/

theorem indexesAgree_evictsMany {s s' : Store} (hagree : IndexesAgree s)
    (h : EvictsMany s s') : IndexesAgree s' :=
  buckets_evictsMany (fun _ _ _ hbucket => hbucket.eraseOrphan)
    (fun _ _ _ hbucket => hbucket.erasePair) hagree h

/-! ## The steps that keep the agreement -/

def NewKey (s : Store) (key : KeyType) (timestamp : TimestampType) : Prop :=
  (s.gKeyToValueHashMap (getHashTblNbrFromKey key)).lookup key = none ∧
    ∀ e ∈ (s.gTimestampToKeySet (getHashTblNbrFromKey key)).toList,
      e.key ≠ key ∧ e.timestamp ≠ timestamp

instance (s : Store) (key : KeyType) (timestamp : TimestampType) :
    Decidable (NewKey s key timestamp) :=
  inferInstanceAs (Decidable (_ ∧ _))

def Refused (s : Store) (key casUniq : Bytes) : Prop :=
  casUniq ≠ [] ∧ EntryIs s key fun it => it.1.casUniq ≠ casUniq

instance (s : Store) (key casUniq : Bytes) : Decidable (Refused s key casUniq) :=
  inferInstanceAs (Decidable (_ ∧ _))

def WhenRoom (P : Store → Prop) : Except Fault (Bool × State) → Prop
  | .ok (true, t) => P t.store
  | _ => True

instance (P : Store → Prop) [DecidablePred P] :
    DecidablePred (WhenRoom P)
  | .ok (true, t) => inferInstanceAs (Decidable (P t.store))
  | .ok (false, _) => inferInstanceAs (Decidable True)
  | .error _ => inferInstanceAs (Decidable True)

/--
A step whose path keeps the two indexes together: what it stores is stored under
a key that neither index knows at that point, so that no overwrite path is taken
and no stale timestamp is left over, and a timestamp that is drawn is not in use
in the bucket.
-/
def KeepsIndexes (env : Env) (s : Store) : Op → Prop
  | .insert clock key flags casUniq value _ =>
      WhenRoom (fun s₁ => Refused s₁ key casUniq ∨ NewKey s₁ key s.gTimestamp)
        (insertLoop env clock key flags value s)
  | .add clock key _ _ value _ =>
      WhenRoom (fun s₁ => Visible s₁ clock.now key ∨ NewKey s₁ key s.gTimestamp)
        (addLoop env clock key value s)
  | .get now key =>
      FreshStamp s (getHashTblNbrFromKey key) ∨
        EntryIs s key fun it => Dead s now it
  | .delete _ _ _ => True
  | .setFlushAll _ _ => True
  | .handleFlushAll _ => True

instance (env : Env) (s : Store) (op : Op) :
    Decidable (KeepsIndexes env s op) :=
  match op with
  | .insert _ key _ casUniq _ _ => inferInstanceAs (Decidable (WhenRoom
      (fun s₁ => Refused s₁ key casUniq ∨ NewKey s₁ key s.gTimestamp) _))
  | .add clock key _ _ _ _ => inferInstanceAs (Decidable (WhenRoom
      (fun s₁ => Visible s₁ clock.now key ∨ NewKey s₁ key s.gTimestamp) _))
  | .get .. => inferInstanceAs (Decidable (_ ∨ _))
  | .delete .. => inferInstanceAs (Decidable True)
  | .setFlushAll .. => inferInstanceAs (Decidable True)
  | .handleFlushAll .. => inferInstanceAs (Decidable True)

section Steps

variable {env : Env} {s s₁ : Store} {clock : Clock} {now expiry : Nat}
  {key flags casUniq value token : Bytes} {timestamp : TimestampType}

private theorem indexesAgree_setEntry (hagree : IndexesAgree s)
    {it : MapEntry} (hlookup : (s.gKeyToValueHashMap
      (getHashTblNbrFromKey key)).lookup key = some it) (v : ValueStruct) :
    IndexesAgree (s.setEntry (getHashTblNbrFromKey key) key (v, it.2)) :=
  buckets_setEntry _ hagree ((hagree _).update hlookup v)

private theorem indexesAgree_eraseKey (hagree : IndexesAgree s) :
    IndexesAgree (s.eraseKey (getHashTblNbrFromKey key) key) :=
  buckets_eraseKey _ hagree ((hagree _).eraseKey key)

private theorem indexesAgree_created (hagree : IndexesAgree s)
    (hnew : NewKey s key timestamp) (v : ValueStruct) (charge : Nat) :
    IndexesAgree (((s.setEntry (getHashTblNbrFromKey key) key
      (v, timestamp)).addStoredSize charge).insertStamp
        (getHashTblNbrFromKey key) ⟨timestamp, key⟩) := by
  apply buckets_created _ charge hagree
  exact (hagree (getHashTblNbrFromKey key)).create
    (fun e he => (hnew.2 e he).1) (fun e he => (hnew.2 e he).2) v

private theorem indexesAgree_insert (hagree : IndexesAgree s)
    (hkeeps : Refused s key casUniq ∨ NewKey s key timestamp) :
    IndexesAgree (insertStep now key flags casUniq value expiry token
      timestamp s).2 := by
  cases hlookup :
      (s.gKeyToValueHashMap (getHashTblNbrFromKey key)).lookup key with
  | none =>
      by_cases hcas : casUniq = []
      · rw [insertStep_created hlookup hcas]
        rcases hkeeps with hrefused | hnew
        · exact absurd hcas hrefused.1
        · exact indexesAgree_created hagree hnew _ _
      · rw [insertStep_notExist hlookup hcas]
        exact hagree
  | some it =>
      rcases hkeeps with hrefused | hnew
      · rw [insertStep_refused hlookup ⟨hrefused.1, hrefused.2 it hlookup⟩]
        exact hagree
      · simp [hnew.1] at hlookup

private theorem indexesAgree_add (hagree : IndexesAgree s)
    (hkeeps : Visible s now key ∨ NewKey s key timestamp) :
    IndexesAgree (addStep now key flags value expiry token
      timestamp s).2 := by
  rcases hkeeps with ⟨it, hlookup, hlive⟩ | hnew
  · rw [addStep_exist hlookup hlive]
    exact hagree
  · rw [addStep_created hnew.1]
    exact indexesAgree_created hagree hnew _ _

private theorem indexesAgree_get (hagree : IndexesAgree s)
    (hkeeps : KeepsIndexes env s (.get now key)) :
    IndexesAgree (getStep now key s).2 := by
  have hdrawn : IndexesAgree (nextTimestamp s).2 := hagree
  apply getStep_keeps
  · exact hdrawn
  · intro it _ _
    exact indexesAgree_eraseKey hdrawn
  · intro it hlookup hlive
    have hfresh : FreshStamp s (getHashTblNbrFromKey key) :=
      hkeeps.resolve_right fun hall => hlive (hall it hlookup)
    have hmoved := (hagree (getHashTblNbrFromKey key)).restamp hlookup
      (fun e he => hfresh e he) it.1
    exact buckets_restamped (getHashTblNbrFromKey key) it.2 hagree hmoved
      rfl rfl

private theorem indexesAgree_delete (hagree : IndexesAgree s) :
    IndexesAgree (deleteSection now key expiry s).2 := by
  apply deleteSection_keeps
  · exact hagree
  · intro it _ _ _
    exact indexesAgree_eraseKey hagree
  · intro it hlookup _
    exact indexesAgree_setEntry hagree hlookup _

end Steps

theorem indexesAgree_step {env : Env} {s s' : Store} {op : Op} {r : RetStatus}
    (hagree : IndexesAgree s) (hkeeps : KeepsIndexes env s op)
    (hstep : StoreStep env s op r s') : IndexesAgree s' := by
  have hdrawn : ∀ now, IndexesAgree (insertDrawn env now s) := by
    intro now h
    simpa using hagree h
  cases hstep with
  | insert casUniq expiry room =>
      have hroom := indexesAgree_evictsMany (hdrawn _) (insertLoop_spec room).1
      simp only [KeepsIndexes, room, WhenRoom] at hkeeps
      exact indexesAgree_insert hroom hkeeps
  | insertFull casUniq expiry full =>
      exact indexesAgree_evictsMany (hdrawn _) (insertLoop_spec full).1
  | add flags casUniq expiry room =>
      have hroom := indexesAgree_evictsMany (by exact hagree)
        (addLoop_spec room).1
      simp only [KeepsIndexes, room, WhenRoom] at hkeeps
      exact indexesAgree_add hroom hkeeps
  | addFull flags casUniq expiry full =>
      exact indexesAgree_evictsMany (by exact hagree) (addLoop_spec full).1
  | get now key => exact indexesAgree_get hagree hkeeps
  | delete now key expiry => exact indexesAgree_delete hagree
  | setFlushAll now expiry => exact hagree
  | handleFlushAll now =>
      unfold handleFlush
      split
      · exact hagree
      · exact hagree

/-- In every run whose steps all keep the indexes together, they agree after
every operation. -/
theorem indexes_agree_of_reached (env : Env) (t : State)
    (h : Reached (Op.run env) (fun t op => KeepsIndexes env t.store op)
      State.init t) :
    ∀ h key it, (t.store.gKeyToValueHashMap h).lookup key = some it →
      ⟨it.2, key⟩ ∈ t.store.gTimestampToKeySet h ∧
        ∀ e ∈ t.store.gTimestampToKeySet h, e.key = key → e = ⟨it.2, key⟩ := by
  have hinit : IndexesAgree Store.init := by
    intro h key it hlookup
    simp [Store.init] at hlookup
  exact (reached_invariant hinit
    (fun _ _ _ _ hs hok hstep => indexesAgree_step hs hok hstep) h).2

/-- Two keys of one bucket are stored and one of them is read: the indexes agree
and the key that was read has the timestamp drawn by the reading. -/
theorem indexes_agree_storeStoreGet :
    ∃ t, Reached (Op.run Env.x86)
        (fun t op => KeepsIndexes Env.x86 t.store op) State.init t ∧
      ∃ it, (t.store.gKeyToValueHashMap (getHashTblNbrFromKey (ascii "k"))).lookup
          (ascii "k") = some it ∧
        it.2 = 2 ∧ ⟨2, ascii "k"⟩ ∈
          t.store.gTimestampToKeySet (getHashTblNbrFromKey (ascii "k")) := by
  obtain ⟨t, hreached, hstamp⟩ := exists_reached_of_replay (Op.run Env.x86)
    (fun t op => KeepsIndexes Env.x86 t.store op) State.init
    [.insert (.const 1000) (ascii "k") (ascii "0") [] (ascii "v") 0,
      .add (.const 1000) (ascii "a") (ascii "0") [] (ascii "w") 0,
      .get 1001 (ascii "k")]
    (fun t => ((t.store.gKeyToValueHashMap
      (getHashTblNbrFromKey (ascii "k"))).lookup (ascii "k")).map Prod.snd)
    (some 2) (by decide +kernel)
  obtain ⟨it, hlookup, htwo⟩ := Option.map_eq_some_iff.mp hstamp
  have hmem := (indexes_agree_of_reached _ t hreached _ _ it hlookup).1
  exact ⟨t, hreached, it, hlookup, htwo, htwo ▸ hmem⟩

/-- A key that is stored twice keeps its first timestamp in the map and is found
in the set under its second. -/
theorem indexes_disagree_after_overwrite :
    ¬ ∀ (env : Env) (t : State),
      Reached (Op.run env) (fun _ _ => True) State.init t →
        ∀ h key it, (t.store.gKeyToValueHashMap h).lookup key = some it →
          ⟨it.2, key⟩ ∈ t.store.gTimestampToKeySet h ∧
            ∀ e ∈ t.store.gTimestampToKeySet h, e.key = key →
              e = ⟨it.2, key⟩ := by
  intro hall
  obtain ⟨t, hreached, hobserved⟩ := exists_reached_of_replay (Op.run Env.x86)
    (fun _ _ => True) State.init
    [.insert (.const 1000) (ascii "k") (ascii "0") [] (ascii "v") 0,
      .insert (.const 1000) (ascii "k") (ascii "0") [] (ascii "w") 0]
    (fun t => (((t.store.gKeyToValueHashMap
        (getHashTblNbrFromKey (ascii "k"))).lookup (ascii "k")).map Prod.snd,
      (t.store.gTimestampToKeySet (getHashTblNbrFromKey (ascii "k"))).toList))
    (some 0, [⟨1, ascii "k"⟩]) (by decide +kernel)
  obtain ⟨hstamp, hset⟩ := Prod.mk.inj hobserved
  obtain ⟨it, hlookup, hzero⟩ := Option.map_eq_some_iff.mp hstamp
  have hmem := (hall Env.x86 t hreached _ _ it hlookup).1
  rw [OrderedSet.mem_def, hset, hzero] at hmem
  exact absurd hmem (by decide)

end Memstashed.Dblru
