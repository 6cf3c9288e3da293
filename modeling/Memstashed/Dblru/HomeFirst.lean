import Memstashed.Dblru.Indexes
import Memstashed.Dblru.Recency
import Memstashed.Dblru.Refunds

/-!
# Eviction bucket by bucket

`dbInsertElement` evicts from the bucket of its key until the timestamp set
there is empty, and only then goes on to the next one.  The map is empty then as
well, because every key of a map has an entry in the set beside it.  A timestamp
that is drawn again while it is in use breaks this: the set takes no second entry
for it, or a restamping takes out the entry of another key.
-/

namespace Memstashed.Dblru

open Memstashed.Foundation

/-! ## Keys with an entry in their set -/

def Unused (stamps : TimestampToKeyType) (map : KeyToValueType)
    (timestamp : TimestampType) : Prop :=
  (∀ e ∈ stamps.toList, e.timestamp ≠ timestamp) ∧
    ∀ e ∈ map.entries, e.2.2 ≠ timestamp

instance (stamps : TimestampToKeyType) (map : KeyToValueType)
    (timestamp : TimestampType) : Decidable (Unused stamps map timestamp) :=
  inferInstanceAs (Decidable (_ ∧ _))

/-- Every key of the map has an entry in the set, and the timestamp recorded for
it in the map is that of no other key in the set. -/
def BucketCovered (stamps : TimestampToKeyType) (map : KeyToValueType) : Prop :=
  ∀ key it, map.lookup key = some it →
    (∀ e ∈ stamps, e.timestamp = it.2 → e.key = key) ∧
      ∃ e ∈ stamps, e.key = key

def AllCovered (s : Store) : Prop :=
  ∀ h, BucketCovered (s.gTimestampToKeySet h) (s.gKeyToValueHashMap h)

section Bucket

variable {stamps stamps' : TimestampToKeyType} {map : KeyToValueType}
  {key : KeyType} {it : MapEntry} {entry : TimestampToKeyStruct}
  {timestamp old : TimestampType}

theorem Unused.notMem (h : Unused stamps map timestamp)
    (hlookup : map.lookup key = some it) : it.2 ≠ timestamp :=
  h.2 ⟨key, it⟩ (AList.mem_lookup_iff.mp hlookup)

theorem BucketCovered.eraseOrphan (h : BucketCovered stamps map)
    (hentry : entry ∈ stamps) (hlookup : map.lookup entry.key = none) :
    BucketCovered (stamps.erase entry.timestamp) map := by
  intro k other hk
  obtain ⟨hown, e, he, hkey⟩ := h k other hk
  constructor
  · intro x hx
    exact hown x (OrderedSet.mem_erase.mp hx).1
  · refine ⟨e, OrderedSet.mem_erase.mpr ⟨he, ?_⟩, hkey⟩
    intro hstamp
    have hsame := OrderedSet.eq_of_key_eq he hentry hstamp
    rw [← hsame, hkey, hk] at hlookup
    contradiction

theorem BucketCovered.eraseKey (h : BucketCovered stamps map) (key : KeyType) :
    BucketCovered stamps (map.erase key) := by
  intro k other hk
  have hne : k ≠ key := by
    rintro rfl
    rw [AList.lookup_erase] at hk
    contradiction
  rw [AList.lookup_erase_ne hne] at hk
  exact h k other hk

theorem BucketCovered.erasePair (h : BucketCovered stamps map)
    (hentry : entry ∈ stamps) :
    BucketCovered (stamps.erase entry.timestamp) (map.erase entry.key) :=
  (h.eraseKey entry.key).eraseOrphan hentry (AList.lookup_erase ..)

theorem BucketCovered.update (h : BucketCovered stamps map)
    (hlookup : map.lookup key = some it) (value : ValueStruct) :
    BucketCovered stamps (map.insert key (value, it.2)) := by
  intro k other hk
  by_cases hkey : k = key
  · subst hkey
    rw [AList.lookup_insert] at hk
    cases hk
    exact h k it hlookup
  · rw [AList.lookup_insert_ne hkey] at hk
    exact h k other hk

theorem BucketCovered.store (h : BucketCovered stamps map)
    (hunused : Unused stamps map timestamp)
    (hold : ∀ e ∈ stamps, e.timestamp = old → e.key = key)
    (hset : ∀ e, e ∈ stamps' ↔
      (e ∈ stamps ∧ e.timestamp ≠ old) ∨ e = ⟨timestamp, key⟩)
    (value : ValueStruct) {recorded : TimestampType}
    (hrecorded : recorded = old ∨ recorded = timestamp) :
    BucketCovered stamps' (map.insert key (value, recorded)) := by
  intro k other hk
  by_cases hkey : k = key
  · subst hkey
    rw [AList.lookup_insert] at hk
    cases hk
    refine ⟨fun e he hstamp => ?_, ⟨timestamp, k⟩, (hset _).mpr (.inr rfl), rfl⟩
    rcases (hset e).mp he with ⟨hmem, hne⟩ | rfl
    · rcases hrecorded with rfl | rfl
      · exact absurd hstamp hne
      · exact absurd hstamp (hunused.1 e hmem)
    · rfl
  · rw [AList.lookup_insert_ne hkey] at hk
    obtain ⟨hown, e, he, hsame⟩ := h k other hk
    constructor
    · intro x hx hstamp
      rcases (hset x).mp hx with ⟨hmem, -⟩ | rfl
      · exact hown x hmem hstamp
      · exact absurd hstamp.symm (hunused.notMem hk)
    · refine ⟨e, (hset e).mpr (.inl ⟨he, fun hstamp => ?_⟩), hsame⟩
      exact hkey (hsame.symm.trans (hold e he hstamp))

variable (key old) in
theorem mem_insert_of_unused (hunused : Unused stamps map timestamp)
    (e : TimestampToKeyStruct) :
    e ∈ (stamps.erase old).insert ⟨timestamp, key⟩ ↔
      (e ∈ stamps ∧ e.timestamp ≠ old) ∨ e = ⟨timestamp, key⟩ := by
  have hfresh : ∀ x ∈ stamps.erase old, x.timestamp ≠ timestamp :=
    fun x hx => hunused.1 x (OrderedSet.mem_erase.mp hx).1
  rw [OrderedSet.mem_insert, OrderedSet.mem_erase]
  constructor
  · rintro (hmem | ⟨hnew, -⟩)
    · exact .inl hmem
    · exact .inr hnew
  · rintro (hmem | hnew)
    · exact .inl hmem
    · exact .inr ⟨hnew, hfresh⟩

theorem BucketCovered.restamp (h : BucketCovered stamps map)
    (hlookup : map.lookup key = some it) (hunused : Unused stamps map timestamp)
    (value : ValueStruct) {recorded : TimestampType}
    (hrecorded : recorded = it.2 ∨ recorded = timestamp) :
    BucketCovered ((stamps.erase it.2).insert ⟨timestamp, key⟩)
      (map.insert key (value, recorded)) :=
  h.store hunused (h key it hlookup).1 (mem_insert_of_unused key it.2 hunused)
    value hrecorded

theorem BucketCovered.create (h : BucketCovered stamps map)
    (hunused : Unused stamps map timestamp) (value : ValueStruct) :
    BucketCovered (stamps.insert ⟨timestamp, key⟩)
      (map.insert key (value, timestamp)) := by
  have hnone : stamps.erase timestamp = stamps :=
    OrderedSet.erase_of_notMem hunused.1
  have hset := mem_insert_of_unused key timestamp hunused
  rw [hnone] at hset
  refine h.store hunused ?_ hset value (.inr rfl)
  intro e he hstamp
  exact absurd hstamp (hunused.1 e he)

theorem BucketCovered.entries_nil (h : BucketCovered stamps map)
    (hempty : stamps.toList = []) : map.entries = [] := by
  apply List.eq_nil_iff_forall_not_mem.mpr
  rintro ⟨key, it⟩ hmem
  obtain ⟨-, e, he, -⟩ := h key it (AList.mem_lookup_iff.mpr hmem)
  rw [OrderedSet.mem_def, hempty] at he
  contradiction

end Bucket

/-! ## One step -/

/-- A step that draws no timestamp which is in use in the bucket of its key, or
does not record the one it draws. -/
def DrawsUnused (env : Env) (s : Store) : Op → Prop
  | .insert _ key _ casUniq _ _ =>
      Refused s key casUniq ∨
        Unused (s.gTimestampToKeySet (getHashTblNbrFromKey key))
          (s.gKeyToValueHashMap (getHashTblNbrFromKey key)) s.gTimestamp
  | .add clock key _ _ value _ =>
      (Visible s clock.now key ∧ addFits env key value s) ∨
        Unused (s.gTimestampToKeySet (getHashTblNbrFromKey key))
          (s.gKeyToValueHashMap (getHashTblNbrFromKey key)) s.gTimestamp
  | .get now key =>
      ¬ Visible s now key ∨
        Unused (s.gTimestampToKeySet (getHashTblNbrFromKey key))
          (s.gKeyToValueHashMap (getHashTblNbrFromKey key)) s.gTimestamp
  | .delete _ _ _ => True
  | .setFlushAll _ _ => True
  | .handleFlushAll _ => True

instance (env : Env) (s : Store) (op : Op) : Decidable (DrawsUnused env s op) :=
  match op with
  | .insert .. => inferInstanceAs (Decidable (_ ∨ _))
  | .add .. => inferInstanceAs (Decidable (_ ∨ _))
  | .get .. => inferInstanceAs (Decidable (_ ∨ _))
  | .delete .. => inferInstanceAs (Decidable True)
  | .setFlushAll .. => inferInstanceAs (Decidable True)
  | .handleFlushAll .. => inferInstanceAs (Decidable True)

section Steps

variable {env : Env} {s s' : Store} {clock : Clock} {now expiry : Nat}
  {key flags casUniq value token : Bytes} {timestamp : TimestampType}

theorem allCovered_evictsMany (hcovered : AllCovered s)
    (h : EvictsMany s s') : AllCovered s' :=
  buckets_evictsMany (fun _ _ _ hbucket => hbucket.eraseOrphan)
    (fun _ _ _ hbucket => hbucket.erasePair) hcovered h

theorem mem_entries_of_evicts (h : Evicts s s') {b : HashTblNum}
    {e : Sigma fun _ : KeyType => MapEntry}
    (he : e ∈ (s'.gKeyToValueHashMap b).entries) :
    e ∈ (s.gKeyToValueHashMap b).entries := by
  obtain ⟨h, entry, -, ⟨-, rfl⟩ | ⟨it, -, rfl⟩⟩ := h
  · exact he
  · by_cases hb : b = h
    · subst hb
      simp only [evictPair, Store.eraseStamp_gKeyToValueHashMap,
        Store.eraseKey_gKeyToValueHashMap, Function.update_self] at he
      exact (List.kerase_sublist _ _).subset he
    · simpa [evictPair, hb] using he

theorem unused_evictsMany (h : EvictsMany s s') {b : HashTblNum}
    (hunused : Unused (s.gTimestampToKeySet b) (s.gKeyToValueHashMap b)
      timestamp) :
    Unused (s'.gTimestampToKeySet b) (s'.gKeyToValueHashMap b) timestamp := by
  induction h with
  | refl => exact hunused
  | tail _ hstep ih =>
      exact ⟨fun e he => ih.1 e (mem_of_evicts hstep he),
        fun e he => ih.2 e (mem_entries_of_evicts hstep he)⟩

theorem allCovered_eraseKey (hcovered : AllCovered s) :
    AllCovered (s.eraseKey (getHashTblNbrFromKey key) key) :=
  buckets_eraseKey _ hcovered ((hcovered _).eraseKey key)

theorem allCovered_created (hcovered : AllCovered s)
    (hunused : Unused (s.gTimestampToKeySet (getHashTblNbrFromKey key))
      (s.gKeyToValueHashMap (getHashTblNbrFromKey key)) timestamp)
    (v : ValueStruct) (charge : Nat) :
    AllCovered (((s.setEntry (getHashTblNbrFromKey key) key
      (v, timestamp)).addStoredSize charge).insertStamp
        (getHashTblNbrFromKey key) ⟨timestamp, key⟩) :=
  buckets_created _ charge hcovered ((hcovered _).create hunused v)

theorem allCovered_restamped (hcovered : AllCovered s) {it : MapEntry}
    (hlookup : (s.gKeyToValueHashMap (getHashTblNbrFromKey key)).lookup key =
      some it)
    (hunused : Unused (s.gTimestampToKeySet (getHashTblNbrFromKey key))
      (s.gKeyToValueHashMap (getHashTblNbrFromKey key)) timestamp)
    (v : ValueStruct) {recorded : TimestampType}
    (hrecorded : recorded = it.2 ∨ recorded = timestamp)
    (hmaps : s'.gKeyToValueHashMap = (s.setEntry (getHashTblNbrFromKey key) key
      (v, recorded)).gKeyToValueHashMap)
    (hsets : s'.gTimestampToKeySet =
      ((s.eraseStamp (getHashTblNbrFromKey key) it.2).insertStamp
        (getHashTblNbrFromKey key) ⟨timestamp, key⟩).gTimestampToKeySet) :
    AllCovered s' := by
  apply buckets_restamped (getHashTblNbrFromKey key) it.2 hcovered _ hmaps hsets
  exact (hcovered _).restamp hlookup hunused v hrecorded

theorem allCovered_insertStep (hcovered : AllCovered s)
    (hdraws : Refused s key casUniq ∨
      Unused (s.gTimestampToKeySet (getHashTblNbrFromKey key))
        (s.gKeyToValueHashMap (getHashTblNbrFromKey key)) timestamp) :
    AllCovered (insertStep now key flags casUniq value expiry token
      timestamp s).2 := by
  cases hlookup :
      (s.gKeyToValueHashMap (getHashTblNbrFromKey key)).lookup key with
  | none =>
      by_cases hcas : casUniq = []
      · rw [insertStep_created hlookup hcas]
        exact allCovered_created hcovered
          (hdraws.resolve_left fun hrefused => hrefused.1 hcas) _ _
      · rw [insertStep_notExist hlookup hcas]
        exact hcovered
  | some it =>
      by_cases hcas : casUniq ≠ [] ∧ it.1.casUniq ≠ casUniq
      · rw [insertStep_refused hlookup hcas]
        exact hcovered
      · rw [insertStep_overwrite hlookup hcas]
        have hunused := hdraws.resolve_left fun hrefused =>
          hcas ⟨hrefused.1, hrefused.2 it hlookup⟩
        exact allCovered_restamped hcovered hlookup hunused _ (.inl rfl) rfl rfl

theorem allCovered_addStep (hcovered : AllCovered s)
    (hdraws : Visible s now key ∨
      Unused (s.gTimestampToKeySet (getHashTblNbrFromKey key))
        (s.gKeyToValueHashMap (getHashTblNbrFromKey key)) timestamp) :
    AllCovered (addStep now key flags value expiry token timestamp s).2 := by
  cases hlookup :
      (s.gKeyToValueHashMap (getHashTblNbrFromKey key)).lookup key with
  | none =>
      rw [addStep_created hlookup]
      refine allCovered_created hcovered (hdraws.resolve_left ?_) _ _
      rintro ⟨it, hit, -⟩
      rw [Option.mem_def, hlookup] at hit
      contradiction
  | some it =>
      by_cases hdead : Dead s now it
      · rw [addStep_revived hlookup hdead]
        refine allCovered_restamped hcovered hlookup (hdraws.resolve_left ?_) _
          (.inl rfl) rfl rfl
        rintro ⟨it', hit, hlive⟩
        rw [Option.mem_def, hlookup] at hit
        cases hit
        exact hlive hdead
      · rw [addStep_exist hlookup hdead]
        exact hcovered

theorem allCovered_getStep (hcovered : AllCovered s)
    (hdraws : DrawsUnused env s (.get now key)) :
    AllCovered (getStep now key s).2 := by
  have hdrawn : AllCovered (nextTimestamp s).2 := hcovered
  apply getStep_keeps
  · exact hdrawn
  · intro it _ _
    exact allCovered_eraseKey hdrawn
  · intro it hlookup hlive
    have hunused := hdraws.resolve_left (not_not_intro ⟨it, hlookup, hlive⟩)
    exact allCovered_restamped hcovered hlookup hunused _ (.inr rfl) rfl rfl

theorem allCovered_delete (hcovered : AllCovered s) :
    AllCovered (deleteSection now key expiry s).2 := by
  apply deleteSection_keeps
  · exact hcovered
  · intro it _ _ _
    exact allCovered_eraseKey hcovered
  · intro it hlookup _
    exact buckets_setEntry _ hcovered ((hcovered _).update hlookup _)

theorem allCovered_insertDrawn (hcovered : AllCovered s) :
    AllCovered (insertDrawn env now s) := by
  intro h
  rw [insertDrawn_gTimestampToKeySet, insertDrawn_gKeyToValueHashMap]
  exact hcovered h

theorem allCovered_step {op : Op} {r : RetStatus} (hcovered : AllCovered s)
    (hdraws : DrawsUnused env s op) (hstep : StoreStep env s op r s') :
    AllCovered s' := by
  cases hstep with
  | @insert clock key flags value s₁ casUniq expiry room =>
      have hevicts := (insertLoop_spec room).1
      have hdrawn : Refused (insertDrawn env clock.now s) key casUniq ∨
          Unused ((insertDrawn env clock.now s).gTimestampToKeySet
              (getHashTblNbrFromKey key))
            ((insertDrawn env clock.now s).gKeyToValueHashMap
              (getHashTblNbrFromKey key)) s.gTimestamp := by
        simpa [DrawsUnused, Refused, EntryIs] using hdraws
      exact allCovered_insertStep
        (allCovered_evictsMany (allCovered_insertDrawn hcovered) hevicts)
        (hdrawn.imp (fun hrefused =>
          ⟨hrefused.1, entryIs_evictsMany hevicts hrefused.2⟩)
          (unused_evictsMany hevicts))
  | insertFull casUniq expiry full =>
      exact allCovered_evictsMany (allCovered_insertDrawn hcovered)
        (insertLoop_spec full).1
  | @add clock key value s₁ flags casUniq expiry room =>
      have hevicts := (addLoop_spec room).1
      have hroom := allCovered_evictsMany (s := (nextTimestamp s).2) hcovered
        hevicts
      refine allCovered_addStep hroom ?_
      rcases hdraws with ⟨hvisible, hfits⟩ | hunused
      · -- nothing is evicted, and the key is found
        rw [addLoop_of_fits hfits] at room
        cases room
        exact .inl hvisible
      · exact .inr (unused_evictsMany hevicts hunused)
  | addFull flags casUniq expiry full =>
      exact allCovered_evictsMany (s := (nextTimestamp s).2) hcovered
        (addLoop_spec full).1
  | get now key => exact allCovered_getStep hcovered hdraws
  | delete now key expiry => exact allCovered_delete hcovered
  | setFlushAll now expiry => exact hcovered
  | handleFlushAll now =>
      unfold handleFlush
      split
      · exact hcovered
      · exact hcovered

end Steps

/-! ## The loop -/

def distance (orig b : HashTblNum) : Nat :=
  (b.val + dbMaxHashTables - orig.val) % dbMaxHashTables

theorem distance_lt_iff : ∀ orig b b' : HashTblNum,
    distance orig b' < distance orig b ↔
      bucketsLeft orig b < bucketsLeft orig b' := by
  decide

def BucketEmpty (s : Store) (b : HashTblNum) : Prop :=
  (s.gTimestampToKeySet b).toList = [] ∧ (s.gKeyToValueHashMap b).entries = []

/-- A call of `dbInsertElement` calls `removeLRUElement` on a bucket only when
its check fails and everything from the bucket of its key up to there is empty,
and it reports a full memory only when there is nothing left. -/
structure EvictsHomeFirst (env : Env) (t : State) : Prop where
  removals : ∀ (clock : Clock) (key flags casUniq value : Bytes)
    (expiry now : Nat) (b : HashTblNum) (u : Store),
    (Op.insert clock key flags casUniq value expiry).Removes env t.store now b
      u →
    ¬ insertFits env key flags (insertToken env clock.now t.store) value u ∧
      ∀ b', distance (getHashTblNbrFromKey key) b' <
        distance (getHashTblNbrFromKey key) b → BucketEmpty u b'
  memoryFull : ∀ (clock : Clock) (key flags casUniq value : Bytes)
    (expiry : Nat) (t' : State),
    dbInsertElement env clock key flags casUniq value expiry t =
      .ok (.memoryFull, t') → ∀ b, BucketEmpty t'.store b

section Loop

variable {action : HashTblNum → Store → LoopAction} {orig h b : HashTblNum}
  {clock : Nat → Nat} {now : Nat} {s u : Store}

theorem Removes.exists_action (hremoves : Removes action now b u clock h s) :
    ∃ h', action h' u = .evict b := by
  induction hremoves with
  | @here clock h haction htime => exact ⟨h, haction⟩
  | advance haction _ ih => exact ih
  | evict haction _ ih => exact ih

theorem Removes.swept (hremoves : Removes action now b u clock h s)
    (hsweeps : Sweeps orig action) (hswept : SweptBefore orig h s) :
    SweptBefore orig b u := by
  induction hremoves with
  | here haction htime => exact hswept.evict hsweeps haction
  | @advance clock h h' s haction _ ih =>
      obtain ⟨hless, hempty⟩ := hsweeps.advance h s h' haction
      exact ih (hswept.advance hless hempty)
  | @evict clock h h' s haction _ ih =>
      exact ih ((hswept.evict hsweeps haction).removed (clock 0) h')

theorem AllCovered.bucketEmpty (hcovered : AllCovered s)
    (hempty : (s.gTimestampToKeySet b).toList = []) : BucketEmpty s b :=
  ⟨hempty, (hcovered b).entries_nil hempty⟩

theorem AllCovered.evictsHomeFirst (env : Env) (hcovered : AllCovered s) :
    EvictsHomeFirst env ⟨s, Locks.free⟩ := by
  constructor
  · intro clock key flags casUniq value expiry now b u hremoves
    have hu : AllCovered u := allCovered_evictsMany
      (allCovered_insertDrawn hcovered) hremoves.evictsMany
    have hstart : SweptBefore (getHashTblNbrFromKey key)
        (getHashTblNbrFromKey key) (insertDrawn env clock.now s) :=
      fun b' hb' => absurd hb' (bucketsLeft_self _ b')
    obtain ⟨h', haction⟩ := Removes.exists_action hremoves
    refine ⟨(insertMakeRoom_loop _).full h' u b haction, fun b' hb' => ?_⟩
    have hswept := Removes.swept hremoves (insertAction_sweeps _) hstart
    exact hu.bucketEmpty (hswept b' ((distance_lt_iff _ b b').mp hb'))
  · rintro clock key flags casUniq value expiry ⟨s', locks⟩ hrun b
    obtain ⟨-, hstep⟩ := dbInsertElement_cases hrun
    generalize hstatus : RetStatus.memoryFull = r at hstep
    cases hstep with
    | insert casUniq expiry room =>
        exact absurd hstatus.symm (insertStep_ne_memoryFull _ _ _ _ _ _ _ _ _)
    | insertFull casUniq expiry full =>
        have hempty : AllSetsEmpty s' :=
          (insertMakeRoom_loop _).full_empty (insertAction_sweeps _)
            (fun b' hb' => absurd hb' (bucketsLeft_self _ b')) full
        have hleft : AllCovered s' := allCovered_evictsMany
          (allCovered_insertDrawn hcovered) (insertLoop_spec full).1
        exact hleft.bucketEmpty (hempty b)

end Loop

theorem allCovered_init : AllCovered Store.init := by
  intro h key it hlookup
  simp [Store.init] at hlookup

/-- In every run that draws no timestamp which is still in use, the evictions
for a `dbInsertElement` stay in the bucket of its key as long as they can. -/
theorem evictions_stay_home (env : Env) (t : State)
    (h : Reached (Op.run env) (fun t op => DrawsUnused env t.store op)
      State.init t) : EvictsHomeFirst env t := by
  obtain ⟨hfree, hcovered⟩ := reached_invariant allCovered_init
    (fun _ _ _ _ hs hok hstep => allCovered_step hs hok hstep) h
  obtain ⟨s, locks⟩ := t
  subst hfree
  exact hcovered.evictsHomeFirst env

/-- Two keys of one bucket, one of them stored twice and then read. -/
theorem evictions_stay_home_storeStoreGet :
    ∃ t, Reached (Op.run Env.x86)
        (fun t op => DrawsUnused Env.x86 t.store op) State.init t ∧
      (t.store.entry (ascii "k")).map Prod.snd = some 3 ∧
      EvictsHomeFirst Env.x86 t := by
  obtain ⟨t, hreached, hstamp⟩ := exists_reached_of_replay (Op.run Env.x86)
    (fun t op => DrawsUnused Env.x86 t.store op) State.init
    [.insert (.const 1000) (ascii "k") (ascii "0") [] (ascii "v") 60,
      .add (.const 1000) (ascii "a") (ascii "0") [] (ascii "w") 0,
      .insert (.const 1000) (ascii "k") (ascii "0") [] (ascii "x") 60,
      .get 1001 (ascii "k")]
    (fun t => (t.store.entry (ascii "k")).map Prod.snd)
    (some 3) (by decide +kernel)
  exact ⟨t, hreached, hstamp, evictions_stay_home Env.x86 t hreached⟩

/-! ## A timestamp drawn twice -/

section Wrap

variable {s : Store} {key : KeyType}

theorem run_get_absent (env : Env) (now : Nat)
    (habsent : s.entry key = none) :
    (Op.get now key).run env ⟨s, Locks.free⟩ =
      .ok (.notExist, ⟨{ s with gTimestamp := toWord (s.gTimestamp + 1) },
        Locks.free⟩) := by
  have hstep : getStep now key s = (none, (nextTimestamp s).2) :=
    getStep_absent habsent
  simp only [Op.run, Op.exec, Effect.bind_apply, dbGetElement_free, hstep]
  rfl

theorem reached_absent_gets {env : Env} (key : KeyType) (now n : Nat)
    (habsent : s.entry key = none) (hword : s.gTimestamp < wordSize)
    (h : Reached (Op.run env) (fun _ _ => True) State.init ⟨s, Locks.free⟩) :
    Reached (Op.run env) (fun _ _ => True) State.init
      ⟨{ s with gTimestamp := toWord (s.gTimestamp + n) }, Locks.free⟩ := by
  induction n with
  | zero =>
      rw [Nat.add_zero, toWord_of_lt hword]
      exact h
  | succ n ih =>
      have hrun := run_get_absent
        (s := { s with gTimestamp := toWord (s.gTimestamp + n) }) env now
        habsent
      have hnext := Reached.next ih trivial hrun
      have hsum : toWord (toWord (s.gTimestamp + n) + 1) =
          toWord (s.gTimestamp + (n + 1)) := by
        unfold toWord
        omega
      rw [← hsum]
      exact hnext

end Wrap

theorem not_evictsHomeFirst {env : Env} {t : State} {clock : Clock}
    {key flags casUniq value : Bytes} {expiry : Nat} {b : HashTblNum}
    (h : (dbInsertElement env clock key flags casUniq value expiry t).map
        (fun r => (r.1, (r.2.store.gKeyToValueHashMap b).entries.isEmpty)) =
      .ok (.memoryFull, false)) : ¬ EvictsHomeFirst env t := by
  intro hfirst
  cases hrun : dbInsertElement env clock key flags casUniq value expiry t with
  | error e =>
      rw [hrun] at h
      contradiction
  | ok result =>
      obtain ⟨r, t'⟩ := result
      rw [hrun] at h
      obtain ⟨hstatus, hleft⟩ := Prod.mk.inj (Except.ok.inj h)
      obtain rfl : r = .memoryFull := hstatus
      have hempty := (hfirst.memoryFull clock key flags casUniq value expiry t'
        hrun b).2
      rw [hempty] at hleft
      contradiction

def storedFirst : Store :=
  (insertStep 1000 (ascii "k") (ascii "0") [] (ascii "v") 0
    (insertToken Env.x86 1000 Store.init) 0
    (insertDrawn Env.x86 1000 Store.init)).2

theorem reached_storedFirst :
    Reached (Op.run Env.x86) (fun _ _ => True) State.init
      ⟨storedFirst, Locks.free⟩ := by
  have hfits : insertFits Env.x86 (ascii "k") (ascii "0")
      (insertToken Env.x86 1000 Store.init) (ascii "v") Store.init := by
    decide +kernel
  have hexec : dbInsertElement Env.x86 (.const 1000) (ascii "k") (ascii "0") []
      (ascii "v") 0 State.init = _ := dbInsertElement_of_fits hfits
  exact .next
    (i := .insert (.const 1000) (ascii "k") (ascii "0") [] (ascii "v") 0)
    .start trivial (Effect.bind_of_ok hexec)

/-- After 2^32 timestamps the first one is drawn again for `a`, while `k` still
has it. -/
theorem evictions_leave_key_after_wrap :
    ¬ ∀ (env : Env) (t : State),
      Reached (Op.run env) (fun _ _ => True) State.init t →
        EvictsHomeFirst env t := by
  intro hall
  have hgets := reached_absent_gets (ascii "x") 1000 4294967295
    (by decide +kernel) (by decide +kernel) reached_storedFirst
  obtain ⟨t, hreached, hobserved⟩ := hgets.exists_of_replay
    [.insert (.const 1000) (ascii "a") (ascii "0") [] (ascii "w") 0,
      .delete 1000 (ascii "k") 0]
    (fun t => (dbInsertElement Env.x86 (.const 1000) (ascii "u") (ascii "0") []
      (List.replicate 7000 65) 0 t).map fun r =>
        (r.1, (r.2.store.gKeyToValueHashMap
          (getHashTblNbrFromKey (ascii "a"))).entries.isEmpty))
    (.ok (.memoryFull, false)) (by decide +kernel)
  exact not_evictsHomeFirst hobserved (hall Env.x86 t hreached)

end Memstashed.Dblru
