import Memstashed.Dblru.Sequential

/-!
# The entry an eviction takes

Of the two least recently used entries of a bucket, `removeLRUElement` takes the
earlier one that serves nobody any more, and where both are live the one with
the longer value.
-/

namespace Memstashed.Dblru

open Memstashed.Foundation

def Spent (s : Store) (now : Nat) (h : HashTblNum)
    (entry : TimestampToKeyStruct) : Prop :=
  ∀ it, (s.gKeyToValueHashMap h).lookup entry.key = some it → Dead s now it

def valueLength (s : Store) (h : HashTblNum) (key : KeyType) : Nat :=
  match (s.gKeyToValueHashMap h).lookup key with
  | none => 0
  | some it => it.1.value.length

/-- `victim` is to go, when `one` and `two` come first in the set. -/
def Chosen (s : Store) (now : Nat) (h : HashTblNum)
    (one two victim : TimestampToKeyStruct) : Prop :=
  (Spent s now h one → victim = one) ∧
    (¬ Spent s now h one → Spent s now h two → victim = two) ∧
    (¬ Spent s now h one → ¬ Spent s now h two →
      valueLength s h one.key < valueLength s h two.key → victim = two) ∧
    (¬ Spent s now h one → ¬ Spent s now h two →
      valueLength s h two.key ≤ valueLength s h one.key → victim = one)

/-- From `s` to `s'` the bucket `h` has lost the entry and its key, and
nothing else has changed in the sets and maps. -/
structure Loses (s s' : Store) (h : HashTblNum)
    (entry : TimestampToKeyStruct) : Prop where
  mem : entry ∈ (s.gTimestampToKeySet h).toList
  stamps : (s'.gTimestampToKeySet h).toList =
    (s.gTimestampToKeySet h).toList.erase entry
  keys : ∀ key, (s'.gKeyToValueHashMap h).lookup key =
    if key = entry.key then none else (s.gKeyToValueHashMap h).lookup key
  otherStamps : ∀ h', h' ≠ h →
    s'.gTimestampToKeySet h' = s.gTimestampToKeySet h'
  otherKeys : ∀ h', h' ≠ h →
    s'.gKeyToValueHashMap h' = s.gKeyToValueHashMap h'

section Bucket

variable {s : Store} {now : Nat} {h : HashTblNum}
  {one two : TimestampToKeyStruct}

theorem spent_of_absent
    (habsent : (s.gKeyToValueHashMap h).lookup one.key = none) :
    Spent s now h one := by
  intro it hit
  simp [habsent] at hit

theorem spent_iff_dead {it : MapEntry}
    (hit : (s.gKeyToValueHashMap h).lookup one.key = some it) :
    Spent s now h one ↔ Dead s now it := by
  simp [Spent, hit]

theorem valueLength_of_lookup {it : MapEntry} {key : KeyType}
    (hit : (s.gKeyToValueHashMap h).lookup key = some it) :
    valueLength s h key = it.1.value.length := by
  simp [valueLength, hit]

theorem Chosen.first (hspent : Spent s now h one) : Chosen s now h one two one := by
  simp [Chosen, hspent]

theorem Chosen.second (hone : ¬ Spent s now h one) (htwo : Spent s now h two) :
    Chosen s now h one two two := by
  simp [Chosen, hone, htwo]

theorem Chosen.longer (hone : ¬ Spent s now h one) (htwo : ¬ Spent s now h two) :
    Chosen s now h one two
      (if valueLength s h one.key < valueLength s h two.key then two
        else one) := by
  simp only [Chosen, hone, htwo, not_false_eq_true, true_implies,
    false_implies, true_and]
  constructor
  · intro hlt
    rw [if_pos hlt]
  · intro hle
    rw [if_neg (Nat.not_lt.mpr hle)]

private theorem toList_eraseStamp (hmem : one ∈ s.gTimestampToKeySet h) :
    ((s.gTimestampToKeySet h).erase one.timestamp).toList =
      (s.gTimestampToKeySet h).toList.erase one := by
  have hnodup : (s.gTimestampToKeySet h).toList.Nodup := by
    apply List.Pairwise.imp _ (s.gTimestampToKeySet h).sorted
    intro a b hlt heq
    exact absurd hlt (heq ▸ lt_irrefl _)
  rw [hnodup.erase_eq_filter]
  apply List.filter_congr
  intro entry hentry
  by_cases heq : entry = one
  · simp [heq]
  · have hstamp : entry.timestamp ≠ one.timestamp := by
      intro hsame
      exact heq (OrderedSet.eq_of_key_eq hentry hmem hsame)
    simp [heq, hstamp]

theorem evictOrphan_loses (hmem : one ∈ s.gTimestampToKeySet h)
    (habsent : (s.gKeyToValueHashMap h).lookup one.key = none) :
    Loses s (evictOrphan s h one) h one where
  mem := hmem
  stamps := by
    simp only [evictOrphan, Store.eraseStamp_gTimestampToKeySet,
      Store.subStoredSize_gTimestampToKeySet, Function.update_self]
    exact toList_eraseStamp hmem
  keys key := by
    change (s.gKeyToValueHashMap h).lookup key = _
    split
    · rename_i hkey
      rw [hkey, habsent]
    · rfl
  otherStamps h' hne := by
    simp [evictOrphan, Function.update_of_ne hne]
  otherKeys _ _ := rfl

theorem evictPair_loses (it : MapEntry) (hmem : one ∈ s.gTimestampToKeySet h) :
    Loses s (evictPair s h one it) h one where
  mem := hmem
  stamps := by
    simp only [evictPair, Store.eraseStamp_gTimestampToKeySet,
      Store.eraseKey_gTimestampToKeySet, Store.subStoredSize_gTimestampToKeySet,
      Function.update_self]
    exact toList_eraseStamp hmem
  keys key := by
    simp only [evictPair, Store.eraseStamp_gKeyToValueHashMap,
      Store.eraseKey_gKeyToValueHashMap, Store.subStoredSize_gKeyToValueHashMap,
      Function.update_self]
    split
    · rename_i hkey
      rw [hkey, AList.lookup_erase]
    · rename_i hkey
      rw [AList.lookup_erase_ne hkey]
  otherStamps h' hne := by
    simp [evictPair, Function.update_of_ne hne]
  otherKeys h' hne := by
    simp [evictPair, Function.update_of_ne hne]

theorem removeSection_loses {rest : List TimestampToKeyStruct}
    (hlist : (s.gTimestampToKeySet h).toList = one :: two :: rest) :
    ∃ victim s', removeSection now h s = (true, s') ∧
      Chosen s now h one two victim ∧ Loses s s' h victim := by
  have hone : one ∈ s.gTimestampToKeySet h := by
    simp [OrderedSet.mem_def, hlist]
  have htwo : two ∈ s.gTimestampToKeySet h := by
    simp [OrderedSet.mem_def, hlist]
  cases hvalue : (s.gKeyToValueHashMap h).lookup one.key with
  | none =>
      have hremove : removeSection now h s = (true, evictOrphan s h one) := by
        simp [removeSection, hlist, scan, hvalue]
      exact ⟨one, _, hremove, .first (spent_of_absent hvalue),
        evictOrphan_loses hone hvalue⟩
  | some valueOne =>
      by_cases hdead : Dead s now valueOne
      · have hremove : removeSection now h s =
            (true, evictPair s h one valueOne) := by
          simp [removeSection, hlist, scan, hvalue, hdead]
        exact ⟨one, _, hremove, .first ((spent_iff_dead hvalue).mpr hdead),
          evictPair_loses valueOne hone⟩
      · have hlive : ¬ Spent s now h one := by rwa [spent_iff_dead hvalue]
        cases hvalueTwo : (s.gKeyToValueHashMap h).lookup two.key with
        | none =>
            have hremove : removeSection now h s =
                (true, evictOrphan s h two) := by
              simp [removeSection, hlist, scan, hvalue, hdead, hvalueTwo]
            exact ⟨two, _, hremove, .second hlive (spent_of_absent hvalueTwo),
              evictOrphan_loses htwo hvalueTwo⟩
        | some valueTwo =>
            by_cases hdeadTwo : Dead s now valueTwo
            · have hremove : removeSection now h s =
                  (true, evictPair s h two valueTwo) := by
                simp [removeSection, hlist, scan, hvalue, hdead, hvalueTwo,
                  hdeadTwo]
              exact ⟨two, _, hremove,
                .second hlive ((spent_iff_dead hvalueTwo).mpr hdeadTwo),
                evictPair_loses valueTwo htwo⟩
            · have hliveTwo : ¬ Spent s now h two := by
                rwa [spent_iff_dead hvalueTwo]
              have hlonger := Chosen.longer hlive hliveTwo
              rw [valueLength_of_lookup hvalue,
                valueLength_of_lookup hvalueTwo] at hlonger
              have hremove : removeSection now h s =
                  if valueOne.1.value.length < valueTwo.1.value.length then
                    (true, evictPair s h two valueTwo)
                  else (true, evictPair s h one valueOne) := by
                simp [removeSection, hlist, scan, hvalue, hdead, hvalueTwo,
                  hdeadTwo]
              rw [hremove]
              split
              · rename_i hlt
                rw [if_pos hlt] at hlonger
                exact ⟨two, _, rfl, hlonger, evictPair_loses valueTwo htwo⟩
              · rename_i hge
                rw [if_neg hge] at hlonger
                exact ⟨one, _, rfl, hlonger, evictPair_loses valueOne hone⟩

end Bucket

theorem removeLRUElement_of_released {now : Nat} {h : HashTblNum} {s s' : Store}
    {locks : Locks} (hstamps : locks.gTimestampToKeyMutex h = false)
    (hvalues : locks.gKeyToValueMutex h = false)
    (hremove : removeSection now h s = (true, s')) :
    removeLRUElement now h ⟨s, locks⟩ = .ok ((), ⟨s', locks⟩) := by
  have hstampsBack : Function.update locks.gTimestampToKeyMutex h false =
      locks.gTimestampToKeyMutex := by
    rw [← hstamps, Function.update_eq_self]
  have hvaluesBack : Function.update locks.gKeyToValueMutex h false =
      locks.gKeyToValueMutex := by
    rw [← hvalues, Function.update_eq_self]
  simp [removeLRUElement, Effect.bind_apply, lockTimestampToKey,
    lockKeyToValue, unlockTimestampToKey, unlockKeyToValue, onStore, hremove,
    hstamps, hvalues, Function.update_idem, hstampsBack, hvaluesBack]

/-- On a bucket with two entries or more, whatever they are, `removeLRUElement`
takes out the one entry that is to go and returns with its mutexes released. -/
theorem removeLRUElement_loses_chosen (now : Nat) (h : HashTblNum) (s : Store)
    (locks : Locks) (one two : TimestampToKeyStruct)
    (rest : List TimestampToKeyStruct)
    (hstamps : locks.gTimestampToKeyMutex h = false)
    (hvalues : locks.gKeyToValueMutex h = false)
    (hlist : (s.gTimestampToKeySet h).toList = one :: two :: rest) :
    ∃ victim s', removeLRUElement now h ⟨s, locks⟩ = .ok ((), ⟨s', locks⟩) ∧
      Chosen s now h one two victim ∧ Loses s s' h victim := by
  have hsection : ∃ victim s', removeSection now h s = (true, s') ∧
      Chosen s now h one two victim ∧ Loses s s' h victim :=
    removeSection_loses hlist
  obtain ⟨victim, s', hremove, hchosen, hloses⟩ := hsection
  exact ⟨victim, s', removeLRUElement_of_released hstamps hvalues hremove,
    hchosen, hloses⟩

def orphanThenLive (h : HashTblNum) : Store :=
  ((Store.init.insertStamp h ⟨0, [98]⟩).insertStamp h ⟨1, [88]⟩).setEntry h
    [88] (⟨wordMax, [1, 2], [], []⟩, 1)

theorem removeLRUElement_loses_chosen_orphan :
    ∃ victim s', removeLRUElement 5 ⟨8, by decide⟩
        ⟨orphanThenLive ⟨8, by decide⟩, Locks.free⟩ =
          .ok ((), ⟨s', Locks.free⟩) ∧
      Chosen (orphanThenLive ⟨8, by decide⟩) 5 ⟨8, by decide⟩ ⟨0, [98]⟩
        ⟨1, [88]⟩ victim ∧
      Loses (orphanThenLive ⟨8, by decide⟩) s' ⟨8, by decide⟩ victim :=
  removeLRUElement_loses_chosen 5 ⟨8, by decide⟩
    (orphanThenLive ⟨8, by decide⟩) Locks.free ⟨0, [98]⟩ ⟨1, [88]⟩ [] rfl rfl
    rfl

end Memstashed.Dblru
