import Memstashed.Dblru.Flush
import Memstashed.Dblru.Refunds

/-!
# What clients are shown

The entries that a client asking at a given time is shown, and the calls that
leave them as they are although they store nothing.
-/

namespace Memstashed.Dblru

open Memstashed.Foundation

def Shows (s : Store) (now : Nat) (key : KeyType) (v : ValueStruct) : Prop :=
  ∃ it, s.entry key = some it ∧ ¬ Dead s now it ∧ it.1 = v

/-- What a client is shown: every command begins with a look at the flush. -/
def Shown (s : Store) (now : Nat) (key : KeyType) (v : ValueStruct) : Prop :=
  Shows (handleFlush now s) now key v

/-- Nothing live is left in either store that is not in the other. -/
def SameShows (now : Nat) (s s' : Store) : Prop :=
  ∀ key v, Shows s' now key v ↔ Shows s now key v

def NothingLive (s : Store) (now : Nat) : Prop :=
  ∀ h, ∀ entry ∈ (s.gTimestampToKeySet h).toList,
    ∀ it ∈ (s.gKeyToValueHashMap h).lookup entry.key, Dead s now it

instance (s : Store) (now : Nat) : Decidable (NothingLive s now) :=
  inferInstanceAs (Decidable (∀ _, ∀ entry ∈ _, ∀ it ∈ _, _))

/--
A call that shows every client the same as before, should it be refused.  The
check on the memory passes at once, or all that could be evicted is dead; or the
call will not be refused: it is unconditional or adds a key that is not there,
and the item fits beside what evictions cannot give back.
-/
def Spares (env : Env) (s : Store) : Op → Prop
  | .insert clock key flags casUniq value _ =>
      let token := insertToken env clock.now s
      insertFits env key flags token value s ∨ NothingLive s clock.now ∨
        (casUniq = [] ∧
          residual s + insertCharge key flags token value < env.gServMemLimit)
  | .add clock key flags _ value _ =>
      addFits env key value s ∨ NothingLive s clock.now ∨
        (¬ Visible s clock.now key ∧
          residual s + insertCharge key flags (addToken env clock.now) value <
            env.gServMemLimit)
  | .get now key =>
      s.gFlushAllTimestamp ≤ s.gTimestamp ∨ EntryIs s key fun it => Dead s now it
  | .delete _ _ _ => True
  | .setFlushAll _ _ => True
  | .handleFlushAll _ => True

instance (env : Env) (s : Store) (op : Op) : Decidable (Spares env s op) :=
  match op with
  | .insert .. => inferInstanceAs (Decidable (_ ∨ _))
  | .add .. => inferInstanceAs (Decidable (_ ∨ _))
  | .get .. => inferInstanceAs (Decidable (_ ∨ _))
  | .delete .. => inferInstanceAs (Decidable True)
  | .setFlushAll .. => inferInstanceAs (Decidable True)
  | .handleFlushAll .. => inferInstanceAs (Decidable True)

section Shows

variable {s s' s'' : Store} {now : Nat}

theorem SameShows.trans (h : SameShows now s s') (h' : SameShows now s' s'') :
    SameShows now s s'' :=
  fun key v => (h' key v).trans (h key v)

theorem sameShows_of_entries (hentry : ∀ key, s'.entry key = s.entry key)
    (hstamp : s'.gFlushAllTimestamp = s.gFlushAllTimestamp) :
    SameShows now s s' := by
  intro key v
  simp only [Shows, Dead, hentry, hstamp]

theorem sameShows_of_erased (key : KeyType)
    (hother : ∀ other, other ≠ key → s'.entry other = s.entry other)
    (hnone : s'.entry key = none)
    (hdead : ∀ it, s.entry key = some it → Dead s now it)
    (hstamp : s'.gFlushAllTimestamp = s.gFlushAllTimestamp) :
    SameShows now s s' := by
  intro other v
  by_cases hkey : other = key
  · subst hkey
    constructor
    · rintro ⟨it, hit, -⟩
      rw [hnone] at hit
      contradiction
    · rintro ⟨it, hit, hlive, -⟩
      exact absurd (hdead it hit) hlive
  · simp only [Shows, Dead, hother other hkey, hstamp]

theorem visible_iff_shows {key : KeyType} :
    Visible s now key ↔ ∃ v, Shows s now key v := by
  constructor
  · rintro ⟨it, hit, hlive⟩
    exact ⟨it.1, it, hit, hlive, rfl⟩
  · rintro ⟨v, it, hit, hlive, -⟩
    exact ⟨it, hit, hlive⟩

end Shows

/-! ## Evictions -/

section Evictions

variable {s s' : Store} {now : Nat}

theorem sameShows_evicts (h : Evicts s s') (hs : NothingLive s now) :
    SameShows now s s' ∧ NothingLive s' now := by
  obtain ⟨h, entry, hentry, ⟨hnone, rfl⟩ | ⟨it, hlookup, rfl⟩⟩ := h
  · constructor
    · exact sameShows_of_entries (fun _ => rfl) rfl
    · intro b e he
      by_cases hb : b = h
      · subst hb
        simp only [evictOrphan, Store.eraseStamp_gTimestampToKeySet,
          Function.update_self] at he
        exact hs b e (OrderedSet.mem_erase.mp he).1
      · simp only [evictOrphan, Store.eraseStamp_gTimestampToKeySet,
          Function.update_of_ne hb] at he
        exact hs b e he
  · constructor
    · by_cases hb : getHashTblNbrFromKey entry.key = h
      · subst hb
        refine sameShows_of_erased entry.key ?_ ?_ ?_ rfl
        · intro other hne
          exact entry_eraseKey_ne _ hne
        · simp [Store.entry, evictPair]
        · intro other hother
          have hsame : (s.gKeyToValueHashMap
              (getHashTblNbrFromKey entry.key)).lookup entry.key =
            some other := hother
          exact hs _ entry hentry other hsame
      · -- The value is in a bucket where nobody looks for its key.
        refine sameShows_of_entries (fun key => ?_) rfl
        by_cases hkey : getHashTblNbrFromKey key = h
        · have hne : key ≠ entry.key := by
            rintro rfl
            exact hb hkey
          simp [Store.entry, evictPair, hkey, hne]
        · simp [Store.entry, evictPair, hkey]
    · intro b e he other hother
      by_cases hb : b = h
      · subst hb
        simp only [evictPair, Store.eraseStamp_gTimestampToKeySet,
          Function.update_self] at he
        refine hs b e (OrderedSet.mem_erase.mp he).1 other ?_
        simp only [evictPair, Store.eraseStamp_gKeyToValueHashMap,
          Store.eraseKey_gKeyToValueHashMap, Function.update_self] at hother
        by_cases hkey : e.key = entry.key
        · rw [hkey, AList.lookup_erase] at hother
          contradiction
        · rwa [AList.lookup_erase_ne hkey] at hother
      · simp only [evictPair, Store.eraseStamp_gTimestampToKeySet,
          Function.update_of_ne hb] at he
        refine hs b e he other ?_
        simpa [evictPair, hb] using hother

theorem sameShows_evictsMany (h : EvictsMany s s') (hs : NothingLive s now) :
    SameShows now s s' ∧ NothingLive s' now := by
  induction h with
  | refl => exact ⟨fun _ _ => Iff.rfl, hs⟩
  | tail _ hstep ih =>
      obtain ⟨hsame, hnothing⟩ := ih
      obtain ⟨hsame', hnothing'⟩ := sameShows_evicts hstep hnothing
      exact ⟨hsame.trans hsame', hnothing'⟩

end Evictions

/-! ## Calls that are refused -/

def Op.MadeAt (now : Nat) : Op → Prop
  | .insert clock _ _ _ _ _ => clock.now = now
  | .add clock _ _ _ _ _ => clock.now = now
  | .get time _ => time = now
  | _ => True

section Refused

variable {env : Env} {s s' s₁ : Store} {now : Nat} {clock : Clock}
  {key flags casUniq value : Bytes} {expiry : Nat} {r : RetStatus}

theorem sameShows_insertDrawn : SameShows now s (insertDrawn env clock.now s) :=
  sameShows_of_entries (fun key => by simp [Store.entry]) (by simp)

theorem nothingLive_insertDrawn (h : NothingLive s now) :
    NothingLive (insertDrawn env clock.now s) now := by
  simpa [NothingLive, Dead] using h

theorem insertStep_success {token : Bytes} {timestamp : TimestampType} :
    (insertStep now key flags [] value expiry token timestamp s).1 =
      .success := by
  cases hlookup :
      (s.gKeyToValueHashMap (getHashTblNbrFromKey key)).lookup key with
  | none => rw [insertStep_created hlookup rfl]
  | some it => rw [insertStep_overwrite hlookup (by simp)]

theorem addStep_success {token : Bytes} {timestamp : TimestampType}
    (habsent : ¬ Visible s now key) :
    (addStep now key flags value expiry token timestamp s).1 = .success := by
  cases hlookup :
      (s.gKeyToValueHashMap (getHashTblNbrFromKey key)).lookup key with
  | none => rw [addStep_created hlookup]
  | some it =>
      by_cases hdead : Dead s now it
      · rw [addStep_revived hlookup hdead]
      · exact absurd ⟨it, hlookup, hdead⟩ habsent

theorem visible_of_evictsMany (h : EvictsMany s s') (hv : Visible s' now key) :
    Visible s now key := by
  obtain ⟨it, hit, hlive⟩ := hv
  have hshrinks := shrinks_evictsMany h
  rcases hshrinks.entry key with hsame | hnone
  · refine ⟨it, hsame.symm.trans hit, ?_⟩
    simpa [Dead, hshrinks.flushStamp] using hlive
  · have hsome : s'.entry key = some it := hit
    rw [hnone] at hsome
    contradiction

private theorem sameShows_insertLoop {room : Bool}
    (hloop : insertLoop env clock key flags value s =
      .ok (room, ⟨s₁, Locks.free⟩))
    (h : insertFits env key flags (insertToken env clock.now s) value s ∨
      NothingLive s now) : SameShows now s s₁ := by
  rcases h with hfits | hnothing
  · rw [insertLoop_of_fits hfits] at hloop
    cases hloop
    exact sameShows_insertDrawn
  · exact sameShows_insertDrawn.trans (sameShows_evictsMany
      (insertLoop_spec hloop).1 (nothingLive_insertDrawn hnothing)).1

private theorem sameShows_addLoop {room : Bool}
    (hloop : addLoop env clock key value s = .ok (room, ⟨s₁, Locks.free⟩))
    (h : addFits env key value s ∨ NothingLive s now) :
    SameShows now s s₁ := by
  rcases h with hfits | hnothing
  · rw [addLoop_of_fits hfits] at hloop
    cases hloop
    exact sameShows_of_entries (fun _ => rfl) rfl
  · exact (sameShows_evictsMany (s := (nextTimestamp s).2)
      (addLoop_spec hloop).1 hnothing).1

private theorem sameShows_insert
    (hstep : StoreStep env s (.insert clock key flags casUniq value expiry)
      r s') (hnow : clock.now = now) (hr : r ≠ .success)
    (hspares : Spares env s (.insert clock key flags casUniq value expiry)) :
    SameShows now s s' := by
  subst hnow
  rcases hspares with hfits | hnothing | ⟨rfl, hroom⟩
  · cases hstep with
    | insert _ _ room =>
        rw [insertStep_of_not_success hr]
        exact sameShows_insertLoop room (.inl hfits)
    | insertFull _ _ full => exact sameShows_insertLoop full (.inl hfits)
  · cases hstep with
    | insert _ _ room =>
        rw [insertStep_of_not_success hr]
        exact sameShows_insertLoop room (.inr hnothing)
    | insertFull _ _ full => exact sameShows_insertLoop full (.inr hnothing)
  · cases hstep with
    | insert _ _ room => exact absurd insertStep_success hr
    | insertFull _ _ full =>
        have hfull := insertLoop_full full
        omega

private theorem sameShows_add
    (hstep : StoreStep env s (.add clock key flags casUniq value expiry)
      r s') (hnow : clock.now = now) (hr : r ≠ .success)
    (hspares : Spares env s (.add clock key flags casUniq value expiry)) :
    SameShows now s s' := by
  subst hnow
  rcases hspares with hfits | hnothing | ⟨habsent, hroom⟩
  · cases hstep with
    | add _ _ _ room =>
        rw [addStep_of_not_success hr]
        exact sameShows_addLoop room (.inl hfits)
    | addFull _ _ _ full => exact sameShows_addLoop full (.inl hfits)
  · cases hstep with
    | add _ _ _ room =>
        rw [addStep_of_not_success hr]
        exact sameShows_addLoop room (.inr hnothing)
    | addFull _ _ _ full => exact sameShows_addLoop full (.inr hnothing)
  · cases hstep with
    | add _ _ _ room =>
        refine absurd (addStep_success ?_) hr
        intro hvisible
        exact habsent (visible_of_evictsMany (s := (nextTimestamp s).2)
          (addLoop_spec room).1 hvisible)
    | addFull _ _ _ full =>
        have hfull := addLoop_full full flags (addToken env clock.now)
        omega

private theorem sameShows_get (hspares : Spares env s (.get now key)) :
    SameShows now s (getStep now key s).2 := by
  cases hlookup :
      (s.gKeyToValueHashMap (getHashTblNbrFromKey key)).lookup key with
  | none =>
      rw [getStep_absent hlookup]
      exact sameShows_of_entries (fun _ => rfl) rfl
  | some it =>
      by_cases hdead : Dead s now it
      · rw [getStep_dead hlookup hdead]
        refine sameShows_of_erased key ?_ ?_ ?_ rfl
        · intro other hne
          exact entry_eraseKey_ne _ hne
        · exact entry_eraseKey_self _ _
        · intro other hother
          have hsame : some it = some other := hlookup.symm.trans hother
          cases hsame
          exact hdead
      · have horder : s.gFlushAllTimestamp ≤ s.gTimestamp :=
          hspares.resolve_right fun hall => hdead (hall it hlookup)
        rw [getStep_live hlookup hdead]
        intro other v
        by_cases hkey : other = key
        · subst hkey
          -- The entry moves to a timestamp that no flush has passed.
          have hmoved : ¬ Dead s now (it.1, s.gTimestamp) := by
            simp only [Dead, not_or, not_lt] at hdead ⊢
            exact ⟨hdead.1, horder⟩
          have hbefore : s.entry other = some it := hlookup
          have hafter := entry_setEntry_self (nextTimestamp s).2 other
            (it.1, s.gTimestamp)
          constructor
          · rintro ⟨it', hit, -, hv⟩
            cases hafter.symm.trans hit
            exact ⟨it, hbefore, hdead, hv⟩
          · rintro ⟨it', hit, -, hv⟩
            cases hbefore.symm.trans hit
            exact ⟨(it.1, s.gTimestamp), hafter, hmoved, hv⟩
        · have hsame : ((((nextTimestamp s).2.setEntry
              (getHashTblNbrFromKey key) key (it.1, s.gTimestamp)).eraseStamp
              (getHashTblNbrFromKey key) it.2).insertStamp
              (getHashTblNbrFromKey key) ⟨s.gTimestamp, key⟩).entry other =
              s.entry other :=
            entry_setEntry_ne (nextTimestamp s).2 _ hkey
          simp only [Shows, hsame]
          exact Iff.rfl

theorem deleteSection_of_not_success
    (hr : (deleteSection now key expiry s).1 ≠ .success) :
    (deleteSection now key expiry s).2 = s := by
  cases hlookup :
      (s.gKeyToValueHashMap (getHashTblNbrFromKey key)).lookup key with
  | none => simp only [deleteSection, hlookup]
  | some it =>
      by_cases hdead : Dead s now it
      · simp only [deleteSection, hlookup, hdead, if_true]
      · by_cases hzero : expiry = 0
        · simp [deleteSection, hlookup, hdead, hzero] at hr
        · simp [deleteSection, hlookup, hdead, hzero] at hr

theorem sameShows_step {op : Op}
    (hstep : StoreStep env s op r s') (hspares : Spares env s op)
    (hnow : op.MadeAt now) (hflush : op.flushes = false)
    (hcalm : (∃ time key, op = .get time key) ∨ r ≠ .success) :
    SameShows now s s' := by
  cases op with
  | insert clock key flags casUniq value expiry =>
      exact sameShows_insert hstep hnow
        (hcalm.resolve_left (by simp)) hspares
  | add clock key flags casUniq value expiry =>
      exact sameShows_add hstep hnow (hcalm.resolve_left (by simp)) hspares
  | get time key =>
      obtain rfl : time = now := hnow
      cases hstep
      exact sameShows_get hspares
  | delete time key expiry =>
      have hr := hcalm.resolve_left (by simp)
      cases hstep
      rw [deleteSection_of_not_success hr]
      exact fun _ _ => Iff.rfl
  | setFlushAll time expiry => contradiction
  | handleFlushAll time => contradiction

end Refused

end Memstashed.Dblru
