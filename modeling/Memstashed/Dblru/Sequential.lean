import Memstashed.Dblru.Operations
import Mathlib.Logic.Relation

/-!
# The operations run one at a time

When no mutex is held at the start, the locks drop out of an operation: what is
left is a function on the data.  This file computes that function for every
operation, says what the eviction loops can have done when they return, and
packages the operations as the steps of a sequential run.
-/

namespace Memstashed.Dblru

open Memstashed.Foundation

/-! ## One eviction -/

theorem scan_two (s : Store) (now : Nat) (h : HashTblNum)
    (entries : List TimestampToKeyStruct) :
    scan s now h none entries =
      match entries with
      | [] => .ended
      | a :: rest =>
          match (s.gKeyToValueHashMap h).lookup a.key with
          | none => .orphan a
          | some ita =>
              if Dead s now ita then .expired a ita
              else
                match rest with
                | [] => .ended
                | b :: _ =>
                    match (s.gKeyToValueHashMap h).lookup b.key with
                    | none => .orphan b
                    | some itb =>
                        if Dead s now itb then .expired b itb
                        else .pair a ita b itb := by
  cases entries with
  | nil => rfl
  | cons a rest =>
      simp only [scan]
      cases (s.gKeyToValueHashMap h).lookup a.key with
      | none => rfl
      | some ita =>
          by_cases hdead : Dead s now ita
          · simp [hdead]
          · simp only [hdead, if_false]
            cases rest with
            | nil => rfl
            | cons b rest => rfl

/-- What one eviction does when it removes something: it takes out an entry of
the timestamp set, and the value of its key if there is one. -/
def Evicts (s s' : Store) : Prop :=
  ∃ h, ∃ entry ∈ s.gTimestampToKeySet h,
    ((s.gKeyToValueHashMap h).lookup entry.key = none ∧
        s' = evictOrphan s h entry) ∨
      ∃ it, (s.gKeyToValueHashMap h).lookup entry.key = some it ∧
        s' = evictPair s h entry it

theorem removeSection_evicts {now : Nat} {h : HashTblNum} {s s' : Store}
    (hremove : removeSection now h s = (true, s')) : Evicts s s' := by
  have hmem : ∀ entry, entry ∈ (s.gTimestampToKeySet h).toList →
      entry ∈ s.gTimestampToKeySet h := fun _ hentry => hentry
  rw [removeSection, scan_two] at hremove
  cases hlist : (s.gTimestampToKeySet h).toList with
  | nil => simp [hlist] at hremove
  | cons a rest =>
      have ha : a ∈ s.gTimestampToKeySet h := hmem a (by simp [hlist])
      rw [hlist] at hremove
      cases hvalue : (s.gKeyToValueHashMap h).lookup a.key with
      | none =>
          simp only [hvalue, Prod.mk.injEq, true_and] at hremove
          exact ⟨h, a, ha, .inl ⟨hvalue, hremove.symm⟩⟩
      | some ita =>
          by_cases hdead : Dead s now ita
          · simp only [hvalue, hdead, if_true, Prod.mk.injEq,
              true_and] at hremove
            exact ⟨h, a, ha, .inr ⟨ita, hvalue, hremove.symm⟩⟩
          · cases rest with
            | nil => simp [hvalue, hdead] at hremove
            | cons b rest =>
                have hb : b ∈ s.gTimestampToKeySet h := hmem b (by simp [hlist])
                cases hvalueb : (s.gKeyToValueHashMap h).lookup b.key with
                | none =>
                    simp only [hvalue, hdead, if_false, hvalueb,
                      Prod.mk.injEq, true_and] at hremove
                    exact ⟨h, b, hb, .inl ⟨hvalueb, hremove.symm⟩⟩
                | some itb =>
                    by_cases hdeadb : Dead s now itb
                    · simp only [hvalue, hdead, if_false, hvalueb, hdeadb,
                        if_true, Prod.mk.injEq, true_and] at hremove
                      exact ⟨h, b, hb, .inr ⟨itb, hvalueb, hremove.symm⟩⟩
                    · simp only [hvalue, hdead, if_false, hvalueb,
                        hdeadb] at hremove
                      split at hremove
                      · exact ⟨h, b, hb, .inr ⟨itb, hvalueb,
                          (Prod.mk.inj hremove).2.symm⟩⟩
                      · exact ⟨h, a, ha, .inr ⟨ita, hvalue,
                          (Prod.mk.inj hremove).2.symm⟩⟩

/-- The bucket shapes on which `removeLRUElement` gives up with both mutexes
held: no entry at all, or one entry whose key is live. -/
def Stuck (s : Store) (now : Nat) (h : HashTblNum) : Prop :=
  (s.gTimestampToKeySet h).toList = [] ∨
    ∃ entry it, (s.gTimestampToKeySet h).toList = [entry] ∧
      (s.gKeyToValueHashMap h).lookup entry.key = some it ∧ ¬ Dead s now it

theorem removeSection_of_stuck {now : Nat} {h : HashTblNum} {s : Store}
    (hstuck : Stuck s now h) : removeSection now h s = (false, s) := by
  rw [removeSection, scan_two]
  rcases hstuck with hempty | ⟨entry, it, hlist, hvalue, hlive⟩
  · simp [hempty]
  · simp [hlist, hvalue, hlive]

theorem removeSection_of_not_stuck {now : Nat} {h : HashTblNum} {s : Store}
    (hfree : ¬ Stuck s now h) : (removeSection now h s).1 = true := by
  rw [removeSection, scan_two]
  cases hlist : (s.gTimestampToKeySet h).toList with
  | nil => exact absurd (.inl hlist) hfree
  | cons a rest =>
      cases hvalue : (s.gKeyToValueHashMap h).lookup a.key with
      | none => simp [hvalue]
      | some ita =>
          by_cases hdead : Dead s now ita
          · simp [hvalue, hdead]
          · cases rest with
            | nil => exact absurd (.inr ⟨a, ita, hlist, hvalue, hdead⟩) hfree
            | cons b rest =>
                simp only [hvalue, hdead, if_false]
                cases (s.gKeyToValueHashMap h).lookup b.key with
                | none => rfl
                | some itb =>
                    by_cases hdeadb : Dead s now itb
                    · simp [hdeadb]
                    · simp only [hdeadb, if_false]
                      split <;> rfl

theorem stuck_of_not_released {now : Nat} {h : HashTblNum} {s s' : Store}
    (hremove : removeSection now h s = (false, s')) :
    Stuck s now h ∧ s' = s := by
  by_cases hstuck : Stuck s now h
  · rw [removeSection_of_stuck hstuck] at hremove
    exact ⟨hstuck, (Prod.mk.inj hremove).2.symm⟩
  · have hreleased := removeSection_of_not_stuck hstuck
    simp [hremove] at hreleased

def Locks.heldAt (h : HashTblNum) : Locks :=
  ⟨Function.update (fun _ => false) h true,
    Function.update (fun _ => false) h true⟩

theorem removeLRUElement_free (now : Nat) (h : HashTblNum) (s : Store) :
    removeLRUElement now h ⟨s, Locks.free⟩ =
      if (removeSection now h s).1 then
        .ok ((), ⟨(removeSection now h s).2, Locks.free⟩)
      else .ok ((), ⟨(removeSection now h s).2, Locks.heldAt h⟩) := by
  cases hremove : removeSection now h s with
  | mk released s' =>
      cases released <;>
        simp [removeLRUElement, Effect.bind_apply, lockTimestampToKey,
          lockKeyToValue, unlockTimestampToKey, unlockKeyToValue, onStore,
          hremove, Locks.free, Locks.heldAt, Function.update_idem]

/-! ## The eviction loops -/

abbrev EvictsMany : Store → Store → Prop := Relation.ReflTransGen Evicts

theorem removeSection_evictsMany (now : Nat) (h : HashTblNum) (s : Store) :
    EvictsMany s (removeSection now h s).2 := by
  cases hremove : removeSection now h s with
  | mk released s' =>
      cases released with
      | true => exact .single (removeSection_evicts hremove)
      | false =>
          obtain ⟨-, rfl⟩ := stuck_of_not_released hremove
          exact .refl

inductive LoopAction where
  | done (room : Bool)
  | advance (h : HashTblNum)
  | evict (h : HashTblNum)
  deriving DecidableEq

def insertAction (fits : Store → Prop) [DecidablePred fits]
    (orig h : HashTblNum) (s : Store) : LoopAction :=
  if fits s then .done true
  else if (s.gTimestampToKeySet h).toList.isEmpty then
    if orig = nextHashTblNum h then .done false else .advance (nextHashTblNum h)
  else .evict h

def addAction (fits : Store → Prop) [DecidablePred fits]
    (orig h : HashTblNum) (s : Store) : LoopAction :=
  if fits s then .done true
  else if (s.gTimestampToKeySet h).toList.isEmpty then
    if orig = nextHashTblNum h then .done false else .evict (nextHashTblNum h)
  else .evict h

/--
A loop that takes its decisions by `action`.  An eviction that removes nothing
leaves the mutexes of its bucket held; the test on the memory limit then fails
as before, and the loop waits for a mutex its own thread holds.
-/
structure EvictionLoop (fits : Store → Prop)
    (action : HashTblNum → Store → LoopAction)
    (loop : Nat → (Nat → Nat) → HashTblNum → Db Bool) : Prop where
  spin : ∀ clock h t, loop 0 clock h t = .error .spin
  turn : ∀ fuel clock h s, loop (fuel + 1) clock h ⟨s, Locks.free⟩ =
    match action h s with
    | .done room => .ok (room, ⟨s, Locks.free⟩)
    | .advance h' => loop fuel clock h' ⟨s, Locks.free⟩
    | .evict h' =>
        loop fuel (fun i => clock (i + 1)) h'
          ⟨(removeSection (clock 0) h' s).2,
            if (removeSection (clock 0) h' s).1 then Locks.free
            else Locks.heldAt h'⟩
  held : ∀ fuel clock h s, ¬ fits s →
    loop (fuel + 1) clock h ⟨s, Locks.heldAt h⟩ = .error .deadlock
  done : ∀ h s room, action h s = .done room → (room = true ↔ fits s)
  full : ∀ h s h', action h s = .evict h' → ¬ fits s

/-- What an eviction loop that returns has done: it removed entries one by one,
released every mutex, and answers whether there is room now. -/
structure MadeRoom (fits : Store → Prop) (s : Store) (room : Bool)
    (t : State) : Prop where
  locks : t.locks = Locks.free
  evicts : EvictsMany s t.store
  room : room = true ↔ fits t.store

section Loops

variable {fits : Store → Prop}

theorem EvictionLoop.madeRoom {action : HashTblNum → Store → LoopAction}
    {loop : Nat → (Nat → Nat) → HashTblNum → Db Bool}
    (hloop : EvictionLoop fits action loop) {fuel : Nat} :
    ∀ {clock : Nat → Nat} {h : HashTblNum} {s : Store} {room : Bool}
      {t : State}, loop fuel clock h ⟨s, Locks.free⟩ = .ok (room, t) →
      MadeRoom fits s room t := by
  induction fuel with
  | zero =>
      intro clock h s room t hrun
      rw [hloop.spin] at hrun
      contradiction
  | succ fuel ih =>
      intro clock h s room t hrun
      rw [hloop.turn] at hrun
      cases haction : action h s with
      | done b =>
          simp only [haction, Except.ok.injEq, Prod.mk.injEq] at hrun
          obtain ⟨rfl, rfl⟩ := hrun
          exact ⟨rfl, .refl, hloop.done h s b haction⟩
      | advance h' =>
          rw [haction] at hrun
          exact ih hrun
      | evict h' =>
          simp only [haction] at hrun
          cases hremove : removeSection (clock 0) h' s with
          | mk released s' =>
              cases released with
              | true =>
                  rw [hremove] at hrun
                  have hmade := ih hrun
                  exact ⟨hmade.locks,
                    .head (removeSection_evicts hremove) hmade.evicts,
                    hmade.room⟩
              | false =>
                  obtain ⟨-, rfl⟩ := stuck_of_not_released hremove
                  rw [hremove] at hrun
                  cases fuel with
                  | zero =>
                      rw [hloop.spin] at hrun
                      contradiction
                  | succ fuel =>
                      simp only [Bool.false_eq_true, if_false,
                        hloop.held fuel _ _ _ (hloop.full h s' h' haction)]
                        at hrun
                      contradiction

variable [DecidablePred fits]

private theorem setIsEmpty_held {h : HashTblNum} {s : Store} :
    underTimestampToKey h (setIsEmpty h) ⟨s, Locks.heldAt h⟩ =
      .error .deadlock := by
  simp [underTimestampToKey, Effect.bind_apply, lockTimestampToKey,
    Locks.heldAt]

theorem insertMakeRoom_loop (orig : HashTblNum) :
    EvictionLoop fits (insertAction fits orig) (insertMakeRoom fits orig) where
  spin _ _ _ := rfl
  turn fuel clock h s := by
    simp only [insertMakeRoom, Effect.bind_apply, Effect.get_apply,
      insertAction]
    by_cases hfits : fits s
    · simp [hfits]
    · simp only [hfits, if_false, Effect.bind_apply, underTimestampToKey_free,
        setIsEmpty]
      cases (s.gTimestampToKeySet h).toList.isEmpty with
      | true => by_cases hlast : orig = nextHashTblNum h <;> simp [hlast]
      | false =>
          simp only [Bool.false_eq_true, if_false, Effect.bind_apply,
            removeLRUElement_free]
          cases (removeSection (clock 0) h s).1 <;> rfl
  held fuel clock h s hfull := by
    simp only [insertMakeRoom, Effect.bind_apply, Effect.get_apply, hfull,
      if_false, setIsEmpty_held]
  done h s room haction := by
    unfold insertAction at haction
    split at haction
    · cases haction
      simp [*]
    · split at haction
      · split at haction
        · cases haction
          simp [*]
        · contradiction
      · contradiction
  full h s h' haction := by
    intro hfits
    simp [insertAction, hfits] at haction

theorem addMakeRoom_loop (orig : HashTblNum) :
    EvictionLoop fits (addAction fits orig) (addMakeRoom fits orig) where
  spin _ _ _ := rfl
  turn fuel clock h s := by
    simp only [addMakeRoom, Effect.bind_apply, Effect.get_apply, addAction]
    by_cases hfits : fits s
    · simp [hfits]
    · simp only [hfits, if_false, Effect.bind_apply, underTimestampToKey_free,
        setIsEmpty]
      cases (s.gTimestampToKeySet h).toList.isEmpty with
      | true =>
          by_cases hlast : orig = nextHashTblNum h
          · simp [hlast]
          · simp only [if_true, hlast, if_false, Effect.bind_apply,
              removeLRUElement_free]
            cases (removeSection (clock 0) (nextHashTblNum h) s).1 <;> rfl
      | false =>
          simp only [Bool.false_eq_true, if_false, Effect.bind_apply,
            removeLRUElement_free]
          cases (removeSection (clock 0) h s).1 <;> rfl
  held fuel clock h s hfull := by
    simp only [addMakeRoom, Effect.bind_apply, Effect.get_apply, hfull,
      if_false, setIsEmpty_held]
  done h s room haction := by
    unfold addAction at haction
    split at haction
    · cases haction
      simp [*]
    · split at haction
      · split at haction
        · cases haction
          simp [*]
        · contradiction
      · contradiction
  full h s h' haction := by
    intro hfits
    simp [addAction, hfits] at haction

end Loops

/-! ## The operations on the data -/

def getStep (now : Nat) (key : KeyType) (s : Store) : Option Element × Store :=
  let h := getHashTblNbrFromKey key
  let drawn := (nextTimestamp s).2
  match getSection now key s.gTimestamp drawn with
  | (none, s') => (none, s')
  | (some (element, old), s') =>
      (some element, (s'.eraseStamp h old).insertStamp h ⟨s.gTimestamp, key⟩)

theorem dbGetElement_free (now : Nat) (key : KeyType) (s : Store) :
    dbGetElement now key ⟨s, Locks.free⟩ =
      .ok ((getStep now key s).1, ⟨(getStep now key s).2, Locks.free⟩) := by
  simp only [dbGetElement, Effect.bind_apply, onStore_apply,
    underKeyToValue_free]
  cases hsection : getSection now key (nextTimestamp s).1
      (nextTimestamp s).2 with
  | mk found s' =>
      cases found with
      | none =>
          simp only [nextTimestamp] at hsection
          simp [getStep, nextTimestamp, hsection]
      | some pair =>
          obtain ⟨element, old⟩ := pair
          simp only [nextTimestamp] at hsection
          simp [getStep, nextTimestamp, hsection, Effect.bind_apply]

theorem dbDeleteElement_free (now : Nat) (key : KeyType) (expiry : Nat)
    (s : Store) :
    dbDeleteElement now key expiry ⟨s, Locks.free⟩ =
      .ok ((deleteSection now key expiry s).1,
        ⟨(deleteSection now key expiry s).2, Locks.free⟩) := by
  simp [dbDeleteElement]

def insertDrawn (env : Env) (now : Nat) (s : Store) : Store :=
  (nextToken env now (nextTimestamp s).2).2

def insertToken (env : Env) (now : Nat) (s : Store) : Bytes :=
  (nextToken env now (nextTimestamp s).2).1

theorem insertDrawn_eq (env : Env) (now : Nat) (s : Store) :
    insertDrawn env now s =
      { s with
        gTimestamp := toWord (s.gTimestamp + 1)
        generator := (insertDrawn env now s).generator } := by
  unfold insertDrawn nextToken nextTimestamp
  cases s.generator with
  | none => rfl
  | some pair => rfl

@[simp] theorem insertDrawn_gKeyToValueHashMap (env : Env) (now : Nat)
    (s : Store) :
    (insertDrawn env now s).gKeyToValueHashMap = s.gKeyToValueHashMap := by
  rw [insertDrawn_eq]

@[simp] theorem insertDrawn_gTimestampToKeySet (env : Env) (now : Nat)
    (s : Store) :
    (insertDrawn env now s).gTimestampToKeySet = s.gTimestampToKeySet := by
  rw [insertDrawn_eq]

@[simp] theorem insertDrawn_gStoredSize (env : Env) (now : Nat) (s : Store) :
    (insertDrawn env now s).gStoredSize = s.gStoredSize := by
  rw [insertDrawn_eq]

@[simp] theorem insertDrawn_gTimestamp (env : Env) (now : Nat) (s : Store) :
    (insertDrawn env now s).gTimestamp = toWord (s.gTimestamp + 1) := by
  rw [insertDrawn_eq]

@[simp] theorem insertDrawn_gFlushAllTimestamp (env : Env) (now : Nat)
    (s : Store) :
    (insertDrawn env now s).gFlushAllTimestamp = s.gFlushAllTimestamp := by
  rw [insertDrawn_eq]

def insertLoop (env : Env) (clock : Clock) (key flags value : Bytes)
    (s : Store) : Except Fault (Bool × State) :=
  insertMakeRoom (insertFits env key flags (insertToken env clock.now s) value)
    (getHashTblNbrFromKey key) (evictionFuel (insertDrawn env clock.now s))
    clock.evictions (getHashTblNbrFromKey key)
    ⟨insertDrawn env clock.now s, Locks.free⟩

def addLoop (env : Env) (clock : Clock) (key value : Bytes) (s : Store) :
    Except Fault (Bool × State) :=
  addMakeRoom (addFits env key value) (getHashTblNbrFromKey key)
    (evictionFuel (nextTimestamp s).2) clock.evictions
    (getHashTblNbrFromKey key) ⟨(nextTimestamp s).2, Locks.free⟩

def insertStep (now : Nat) (key flags casUniq value : Bytes) (expiry : Nat)
    (token : Bytes) (timestamp : TimestampType) (s : Store) :
    RetStatus × Store :=
  let h := getHashTblNbrFromKey key
  match insertSection now key casUniq expiry
      ⟨newExpiry now expiry, value, flags, token⟩ timestamp s with
  | (.exist, s') => (.exist, s')
  | (.notExist, s') => (.notExist, s')
  | (.overwritten old sizeDiff, s') =>
      (.success, ((s'.eraseStamp h old).subStoredSize sizeDiff).insertStamp h
        ⟨timestamp, key⟩)
  | (.created, s') =>
      (.success, (s'.addStoredSize
        (insertCharge key flags token value)).insertStamp h ⟨timestamp, key⟩)

theorem insertTail_free (now : Nat) (key flags casUniq value : Bytes)
    (expiry : Nat) (token : Bytes) (timestamp : TimestampType) (s : Store) :
    insertTail now key flags casUniq value expiry token timestamp
        ⟨s, Locks.free⟩ =
      .ok ((insertStep now key flags casUniq value expiry token timestamp s).1,
        ⟨(insertStep now key flags casUniq value expiry token timestamp s).2,
          Locks.free⟩) := by
  simp only [insertTail, Effect.bind_apply, underKeyToValue_free, insertStep]
  generalize insertSection now key casUniq expiry _ timestamp s = result
  match result with
  | (.exist, s') => rfl
  | (.notExist, s') => rfl
  | (.overwritten old sizeDiff, s') =>
      simp only [Effect.bind_apply, Effect.pure_apply,
        underTimestampToKey_free, onStore_apply]
  | (.created, s') =>
      simp only [Effect.bind_apply, Effect.pure_apply,
        underTimestampToKey_free, onStore_apply]

theorem dbInsertElement_free (env : Env) (clock : Clock)
    (key flags casUniq value : Bytes) (expiry : Nat) (s : Store) :
    dbInsertElement env clock key flags casUniq value expiry ⟨s, Locks.free⟩ =
      match insertLoop env clock key flags value s with
      | .ok (true, t) =>
          .ok ((insertStep clock.now key flags casUniq value expiry
              (insertToken env clock.now s) s.gTimestamp t.store).1,
            ⟨(insertStep clock.now key flags casUniq value expiry
              (insertToken env clock.now s) s.gTimestamp t.store).2,
              Locks.free⟩)
      | .ok (false, t) => .ok (.memoryFull, t)
      | .error e => .error e := by
  have hturn : dbInsertElement env clock key flags casUniq value expiry
      ⟨s, Locks.free⟩ =
      (insertMakeRoom
          (insertFits env key flags (insertToken env clock.now s) value)
          (getHashTblNbrFromKey key)
          (evictionFuel (insertDrawn env clock.now s)) clock.evictions
          (getHashTblNbrFromKey key) >>= fun room =>
        if room then
          insertTail clock.now key flags casUniq value expiry
            (insertToken env clock.now s) s.gTimestamp
        else return .memoryFull)
        ⟨insertDrawn env clock.now s, Locks.free⟩ := rfl
  rw [hturn, Effect.bind_apply, ← insertLoop]
  generalize hroom : insertLoop env clock key flags value s = result
  match result, hroom with
  | .error e, _ => rfl
  | .ok (false, t), _ => rfl
  | .ok (true, ⟨s', locks⟩), hroom =>
      have hlocks : locks = Locks.free := ((insertMakeRoom_loop _).madeRoom hroom).locks
      subst hlocks
      exact insertTail_free ..

def addStep (now : Nat) (key flags value : Bytes) (expiry : Nat)
    (token : Bytes) (timestamp : TimestampType) (s : Store) :
    RetStatus × Store :=
  let h := getHashTblNbrFromKey key
  match addSection now key expiry ⟨newExpiry now expiry, value, flags, token⟩
      timestamp s with
  | (.exist, s') => (.exist, s')
  | (.revived old, s') =>
      (.success, (s'.eraseStamp h old).insertStamp h ⟨timestamp, key⟩)
  | (.created, s') =>
      (.success, (s'.addStoredSize
        (insertCharge key flags token value)).insertStamp h ⟨timestamp, key⟩)

theorem addTail_free (now : Nat) (key flags value : Bytes)
    (expiry : Nat) (token : Bytes) (timestamp : TimestampType) (s : Store) :
    addTail now key flags value expiry token timestamp ⟨s, Locks.free⟩ =
      .ok ((addStep now key flags value expiry token timestamp s).1,
        ⟨(addStep now key flags value expiry token timestamp s).2,
          Locks.free⟩) := by
  simp only [addTail, Effect.bind_apply, underKeyToValue_free, addStep]
  generalize addSection now key expiry _ timestamp s = result
  match result with
  | (.exist, s') => rfl
  | (.revived old, s') =>
      simp only [Effect.bind_apply, Effect.pure_apply,
        underTimestampToKey_free]
  | (.created, s') =>
      simp only [Effect.bind_apply, Effect.pure_apply,
        underTimestampToKey_free, onStore_apply]

theorem dbAddElement_free (env : Env) (clock : Clock)
    (key flags casUniq value : Bytes) (expiry : Nat) (s : Store) :
    dbAddElement env clock key flags casUniq value expiry ⟨s, Locks.free⟩ =
      match addLoop env clock key value s with
      | .ok (true, t) =>
          .ok ((addStep clock.now key flags value expiry
              (addToken env clock.now) s.gTimestamp t.store).1,
            ⟨(addStep clock.now key flags value expiry
              (addToken env clock.now) s.gTimestamp t.store).2, Locks.free⟩)
      | .ok (false, t) => .ok (.memoryFull, t)
      | .error e => .error e := by
  have hturn : dbAddElement env clock key flags casUniq value expiry
      ⟨s, Locks.free⟩ =
      (addMakeRoom (addFits env key value) (getHashTblNbrFromKey key)
          (evictionFuel (nextTimestamp s).2) clock.evictions
          (getHashTblNbrFromKey key) >>= fun room =>
        if room then
          addTail clock.now key flags value expiry (addToken env clock.now)
            s.gTimestamp
        else return .memoryFull)
        ⟨(nextTimestamp s).2, Locks.free⟩ := rfl
  rw [hturn, Effect.bind_apply, ← addLoop]
  generalize hroom : addLoop env clock key value s = result
  match result, hroom with
  | .error e, _ => rfl
  | .ok (false, t), _ => rfl
  | .ok (true, ⟨s', locks⟩), hroom =>
      have hlocks : locks = Locks.free := ((addMakeRoom_loop _).madeRoom hroom).locks
      subst hlocks
      exact addTail_free ..

/-! ## The branches of each operation -/

section Branches

variable {now : Nat} {key flags casUniq value : Bytes} {expiry : Nat}
  {token : Bytes} {timestamp : TimestampType} {s : Store} {it : MapEntry}

theorem eraseKey_setEntry_new {h : HashTblNum}
    (hnew : (s.gKeyToValueHashMap h).lookup key = none) :
    (s.setEntry h key it).eraseKey h key = s := by
  have hmap : ((s.gKeyToValueHashMap h).insert key it).erase key =
      s.gKeyToValueHashMap h := by
    have hmem : key ∉ s.gKeyToValueHashMap h := AList.lookup_eq_none.mp hnew
    apply AList.ext
    change List.kerase key ((s.gKeyToValueHashMap h).insert key it).entries = _
    rw [AList.entries_insert_of_notMem hmem]
    exact List.kerase_cons_eq rfl
  simp only [Store.eraseKey, Store.setEntry, Function.update_self,
    Function.update_idem, hmap, Function.update_eq_self]

theorem getStep_absent
    (hlookup : (s.gKeyToValueHashMap (getHashTblNbrFromKey key)).lookup key =
      none) :
    getStep now key s = (none, (nextTimestamp s).2) := by
  have hdrawn : ((nextTimestamp s).2.gKeyToValueHashMap
      (getHashTblNbrFromKey key)).lookup key = none := hlookup
  simp only [getStep, getSection, hdrawn]

theorem getStep_dead
    (hlookup : (s.gKeyToValueHashMap (getHashTblNbrFromKey key)).lookup key =
      some it) (hdead : Dead s now it) :
    getStep now key s =
      (none, (nextTimestamp s).2.eraseKey (getHashTblNbrFromKey key) key) := by
  have hdrawn : ((nextTimestamp s).2.gKeyToValueHashMap
      (getHashTblNbrFromKey key)).lookup key = some it := hlookup
  have hdead' : Dead (nextTimestamp s).2 now it := hdead
  simp only [getStep, getSection, hdrawn, hdead', if_true]

theorem getStep_live
    (hlookup : (s.gKeyToValueHashMap (getHashTblNbrFromKey key)).lookup key =
      some it) (hlive : ¬ Dead s now it) :
    getStep now key s =
      (some ⟨it.1.flags, it.1.casUniq, it.1.value, wordSub it.1.expiry now⟩,
        (((nextTimestamp s).2.setEntry (getHashTblNbrFromKey key) key
            (it.1, s.gTimestamp)).eraseStamp (getHashTblNbrFromKey key)
              it.2).insertStamp (getHashTblNbrFromKey key)
                ⟨s.gTimestamp, key⟩) := by
  have hdrawn : ((nextTimestamp s).2.gKeyToValueHashMap
      (getHashTblNbrFromKey key)).lookup key = some it := hlookup
  have hlive' : ¬ Dead (nextTimestamp s).2 now it := hlive
  simp only [getStep, getSection, hdrawn, hlive', if_false]

/-- The key has an entry that is neither expired nor flushed. -/
def Visible (s : Store) (now : Nat) (key : KeyType) : Prop :=
  ∃ it ∈ (s.gKeyToValueHashMap (getHashTblNbrFromKey key)).lookup key,
    ¬ Dead s now it

instance (s : Store) (now : Nat) (key : KeyType) :
    Decidable (Visible s now key) :=
  inferInstanceAs (Decidable (∃ it ∈ _, _))

theorem getStep_isSome : (getStep now key s).1.isSome ↔ Visible s now key := by
  cases hlookup :
      (s.gKeyToValueHashMap (getHashTblNbrFromKey key)).lookup key with
  | none => simp [getStep_absent hlookup, Visible, hlookup]
  | some it =>
      by_cases hdead : Dead s now it
      · simp [getStep_dead hlookup hdead, Visible, hlookup, hdead]
      · simp [getStep_live hlookup hdead, Visible, hlookup, hdead]

theorem getStep_keeps {P : Store → Prop} (hsame : P (nextTimestamp s).2)
    (herase : ∀ it,
      (s.gKeyToValueHashMap (getHashTblNbrFromKey key)).lookup key = some it →
      Dead s now it →
        P ((nextTimestamp s).2.eraseKey (getHashTblNbrFromKey key) key))
    (hmove : ∀ it,
      (s.gKeyToValueHashMap (getHashTblNbrFromKey key)).lookup key = some it →
      ¬ Dead s now it →
        P ((((nextTimestamp s).2.setEntry (getHashTblNbrFromKey key) key
          (it.1, s.gTimestamp)).eraseStamp (getHashTblNbrFromKey key)
            it.2).insertStamp (getHashTblNbrFromKey key)
              ⟨s.gTimestamp, key⟩)) :
    P (getStep now key s).2 := by
  cases hlookup :
      (s.gKeyToValueHashMap (getHashTblNbrFromKey key)).lookup key with
  | none =>
      rw [getStep_absent hlookup]
      exact hsame
  | some it =>
      by_cases hdead : Dead s now it
      · rw [getStep_dead hlookup hdead]
        exact herase it hlookup hdead
      · rw [getStep_live hlookup hdead]
        exact hmove it hlookup hdead

theorem deleteSection_keeps {P : Store → Prop} (hsame : P s)
    (herase : ∀ it,
      (s.gKeyToValueHashMap (getHashTblNbrFromKey key)).lookup key = some it →
      ¬ Dead s now it → expiry = 0 →
        P (s.eraseKey (getHashTblNbrFromKey key) key))
    (hdelay : ∀ it,
      (s.gKeyToValueHashMap (getHashTblNbrFromKey key)).lookup key = some it →
      expiry ≠ 0 → P (s.setEntry (getHashTblNbrFromKey key) key
        ({ it.1 with expiry := toWord (now + expiry) }, it.2))) :
    P (deleteSection now key expiry s).2 := by
  cases hlookup :
      (s.gKeyToValueHashMap (getHashTblNbrFromKey key)).lookup key with
  | none =>
      simp only [deleteSection, hlookup]
      exact hsame
  | some it =>
      by_cases hdead : Dead s now it
      · simp only [deleteSection, hlookup, hdead, if_true]
        exact hsame
      · by_cases hzero : expiry = 0
        · have hgone := herase it hlookup hdead hzero
          simp only [deleteSection, hlookup, hdead, hzero, if_false, if_true]
          exact hgone
        · have hkept := hdelay it hlookup hzero
          simp only [deleteSection, hlookup, hdead, hzero, if_false]
          exact hkept

theorem insertStep_refused
    (hlookup : (s.gKeyToValueHashMap (getHashTblNbrFromKey key)).lookup key =
      some it) (hcas : casUniq ≠ [] ∧ it.1.casUniq ≠ casUniq) :
    insertStep now key flags casUniq value expiry token timestamp s =
      (.exist, s) := by
  simp only [insertStep, insertSection, hlookup, hcas, ne_eq,
    not_false_eq_true, and_self, if_true]

theorem insertStep_overwrite
    (hlookup : (s.gKeyToValueHashMap (getHashTblNbrFromKey key)).lookup key =
      some it) (hcas : ¬ (casUniq ≠ [] ∧ it.1.casUniq ≠ casUniq)) :
    insertStep now key flags casUniq value expiry token timestamp s =
      (.success, (((s.setEntry (getHashTblNbrFromKey key) key
          (⟨toWord (now + expiry), value, flags, token⟩, it.2)).eraseStamp
            (getHashTblNbrFromKey key) it.2).subStoredSize
              (overwriteDiff it flags token value)).insertStamp
                (getHashTblNbrFromKey key) ⟨timestamp, key⟩) := by
  simp only [insertStep, insertSection, hlookup, hcas, if_false]

theorem insertStep_notExist
    (hlookup : (s.gKeyToValueHashMap (getHashTblNbrFromKey key)).lookup key =
      none) (hcas : casUniq ≠ []) :
    insertStep now key flags casUniq value expiry token timestamp s =
      (.notExist, s) := by
  simp only [insertStep, insertSection, hlookup, hcas, ne_eq,
    not_false_eq_true, if_true, eraseKey_setEntry_new hlookup]

theorem insertStep_created
    (hlookup : (s.gKeyToValueHashMap (getHashTblNbrFromKey key)).lookup key =
      none) (hcas : casUniq = []) :
    insertStep now key flags casUniq value expiry token timestamp s =
      (.success, ((s.setEntry (getHashTblNbrFromKey key) key
          (⟨newExpiry now expiry, value, flags, token⟩, timestamp)).addStoredSize
            (insertCharge key flags token value)).insertStamp
              (getHashTblNbrFromKey key) ⟨timestamp, key⟩) := by
  simp only [insertStep, insertSection, hlookup, hcas, ne_eq,
    not_true_eq_false, if_false]

theorem insertStep_plain :
    (insertStep now key flags [] value expiry token timestamp s).1 =
      .success := by
  cases hlookup :
      (s.gKeyToValueHashMap (getHashTblNbrFromKey key)).lookup key with
  | none => rw [insertStep_created hlookup rfl]
  | some it => rw [insertStep_overwrite hlookup (by simp)]

theorem addStep_exist
    (hlookup : (s.gKeyToValueHashMap (getHashTblNbrFromKey key)).lookup key =
      some it) (hlive : ¬ Dead s now it) :
    addStep now key flags value expiry token timestamp s = (.exist, s) := by
  simp only [addStep, addSection, hlookup, hlive, if_false]

theorem addStep_revived
    (hlookup : (s.gKeyToValueHashMap (getHashTblNbrFromKey key)).lookup key =
      some it) (hdead : Dead s now it) :
    addStep now key flags value expiry token timestamp s =
      (.success, ((s.setEntry (getHashTblNbrFromKey key) key
          (⟨toWord (now + expiry), value, flags, token⟩, it.2)).eraseStamp
            (getHashTblNbrFromKey key) it.2).insertStamp
              (getHashTblNbrFromKey key) ⟨timestamp, key⟩) := by
  simp only [addStep, addSection, hlookup, hdead, if_true]

theorem addStep_created
    (hlookup : (s.gKeyToValueHashMap (getHashTblNbrFromKey key)).lookup key =
      none) :
    addStep now key flags value expiry token timestamp s =
      (.success, ((s.setEntry (getHashTblNbrFromKey key) key
          (⟨newExpiry now expiry, value, flags, token⟩, timestamp)).addStoredSize
            (insertCharge key flags token value)).insertStamp
              (getHashTblNbrFromKey key) ⟨timestamp, key⟩) := by
  simp only [addStep, addSection, hlookup]

end Branches

/-! ## Steps of a sequential run -/

inductive Op where
  | insert (clock : Clock) (key flags casUniq value : Bytes) (expiry : Nat)
  | add (clock : Clock) (key flags casUniq value : Bytes) (expiry : Nat)
  | get (now : Nat) (key : KeyType)
  | delete (now : Nat) (key : KeyType) (expiry : Nat)
  | setFlushAll (now expiry : Nat)
  | handleFlushAll (now : Nat)

@[reducible] def Op.Answer : Op → Type
  | .insert _ _ _ _ _ _ => RetStatus
  | .add _ _ _ _ _ _ => RetStatus
  | .get _ _ => Option Element
  | .delete _ _ _ => RetStatus
  | .setFlushAll _ _ => Unit
  | .handleFlushAll _ => Unit

def Op.exec (env : Env) : (op : Op) → Db op.Answer
  | .insert clock key flags casUniq value expiry =>
      dbInsertElement env clock key flags casUniq value expiry
  | .add clock key flags casUniq value expiry =>
      dbAddElement env clock key flags casUniq value expiry
  | .get now key => dbGetElement now key
  | .delete now key expiry => dbDeleteElement now key expiry
  | .setFlushAll now expiry => dbSetFlushAll now expiry
  | .handleFlushAll now => dbHandleFlushAll now

def Op.status : (op : Op) → op.Answer → RetStatus
  | .insert _ _ _ _ _ _, r => r
  | .add _ _ _ _ _ _, r => r
  | .get _ _, found => if found.isSome then .success else .notExist
  | .delete _ _ _, r => r
  | .setFlushAll _ _, _ => .success
  | .handleFlushAll _, _ => .success

def Op.run (env : Env) (op : Op) : Db RetStatus := do
  let answer ← op.exec env
  return op.status answer

theorem insertLoop_spec {env : Env} {clock : Clock} {key flags value : Bytes}
    {s s₁ : Store} {room : Bool}
    (h : insertLoop env clock key flags value s =
      .ok (room, ⟨s₁, Locks.free⟩)) :
    EvictsMany (insertDrawn env clock.now s) s₁ ∧
      (room = true ↔
        insertFits env key flags (insertToken env clock.now s) value s₁) :=
  ⟨((insertMakeRoom_loop _).madeRoom h).evicts,
    ((insertMakeRoom_loop _).madeRoom h).room⟩

theorem addLoop_spec {env : Env} {clock : Clock} {key value : Bytes}
    {s s₁ : Store} {room : Bool}
    (h : addLoop env clock key value s = .ok (room, ⟨s₁, Locks.free⟩)) :
    EvictsMany (nextTimestamp s).2 s₁ ∧
      (room = true ↔ addFits env key value s₁) :=
  ⟨((addMakeRoom_loop _).madeRoom h).evicts,
    ((addMakeRoom_loop _).madeRoom h).room⟩

theorem insertLoop_of_fits {env : Env} {clock : Clock}
    {key flags value : Bytes} {s : Store}
    (h : insertFits env key flags (insertToken env clock.now s) value s) :
    insertLoop env clock key flags value s =
      .ok (true, ⟨insertDrawn env clock.now s, Locks.free⟩) := by
  have hdrawn : insertFits env key flags (insertToken env clock.now s) value
      (insertDrawn env clock.now s) := by
    simpa [insertFits] using h
  rw [insertLoop, evictionFuel, (insertMakeRoom_loop _).turn, insertAction,
    if_pos hdrawn]

theorem dbInsertElement_of_fits {env : Env} {clock : Clock}
    {key flags casUniq value : Bytes} {expiry : Nat} {s : Store}
    (h : insertFits env key flags (insertToken env clock.now s) value s) :
    dbInsertElement env clock key flags casUniq value expiry ⟨s, Locks.free⟩ =
      .ok ((insertStep clock.now key flags casUniq value expiry
          (insertToken env clock.now s) s.gTimestamp
          (insertDrawn env clock.now s)).1,
        ⟨(insertStep clock.now key flags casUniq value expiry
          (insertToken env clock.now s) s.gTimestamp
          (insertDrawn env clock.now s)).2, Locks.free⟩) := by
  rw [dbInsertElement_free, insertLoop_of_fits h]

theorem addLoop_of_fits {env : Env} {clock : Clock} {key value : Bytes}
    {s : Store} (h : addFits env key value s) :
    addLoop env clock key value s =
      .ok (true, ⟨(nextTimestamp s).2, Locks.free⟩) := by
  have hdrawn : addFits env key value (nextTimestamp s).2 := h
  rw [addLoop, evictionFuel, (addMakeRoom_loop _).turn, addAction,
    if_pos hdrawn]

/-- Everything a completed operation can do to the data. -/
inductive StoreStep (env : Env) (s : Store) : Op → RetStatus → Store → Prop
  | insert {clock : Clock} {key flags value : Bytes} {s₁ : Store}
      (casUniq : Bytes) (expiry : Nat)
      (room : insertLoop env clock key flags value s =
        .ok (true, ⟨s₁, Locks.free⟩)) :
      StoreStep env s (.insert clock key flags casUniq value expiry)
        (insertStep clock.now key flags casUniq value expiry
          (insertToken env clock.now s) s.gTimestamp s₁).1
        (insertStep clock.now key flags casUniq value expiry
          (insertToken env clock.now s) s.gTimestamp s₁).2
  | insertFull {clock : Clock} {key flags value : Bytes} {s' : Store}
      (casUniq : Bytes) (expiry : Nat)
      (full : insertLoop env clock key flags value s =
        .ok (false, ⟨s', Locks.free⟩)) :
      StoreStep env s (.insert clock key flags casUniq value expiry)
        .memoryFull s'
  | add {clock : Clock} {key value : Bytes} {s₁ : Store}
      (flags casUniq : Bytes) (expiry : Nat)
      (room : addLoop env clock key value s = .ok (true, ⟨s₁, Locks.free⟩)) :
      StoreStep env s (.add clock key flags casUniq value expiry)
        (addStep clock.now key flags value expiry
          (addToken env clock.now) s.gTimestamp s₁).1
        (addStep clock.now key flags value expiry
          (addToken env clock.now) s.gTimestamp s₁).2
  | addFull {clock : Clock} {key value : Bytes} {s' : Store}
      (flags casUniq : Bytes) (expiry : Nat)
      (full : addLoop env clock key value s = .ok (false, ⟨s', Locks.free⟩)) :
      StoreStep env s (.add clock key flags casUniq value expiry)
        .memoryFull s'
  | get (now : Nat) (key : KeyType) :
      StoreStep env s (.get now key)
        (if (getStep now key s).1.isSome then .success else .notExist)
        (getStep now key s).2
  | delete (now : Nat) (key : KeyType) (expiry : Nat) :
      StoreStep env s (.delete now key expiry)
        (deleteSection now key expiry s).1 (deleteSection now key expiry s).2
  | setFlushAll (now expiry : Nat) :
      StoreStep env s (.setFlushAll now expiry) .success
        { s with
          gIsFlushAllSet := true
          gFlushAllTime := toWord (now + expiry) }
  | handleFlushAll (now : Nat) :
      StoreStep env s (.handleFlushAll now) .success (handleFlush now s)

theorem dbInsertElement_cases {env : Env} {clock : Clock}
    {key flags casUniq value : Bytes} {expiry : Nat} {s : Store}
    {r : RetStatus} {t : State}
    (hrun : dbInsertElement env clock key flags casUniq value expiry
      ⟨s, Locks.free⟩ = .ok (r, t)) :
    t.locks = Locks.free ∧
      StoreStep env s (.insert clock key flags casUniq value expiry) r
        t.store := by
  rw [dbInsertElement_free] at hrun
  split at hrun
  · rename_i t₁ hroom
    obtain ⟨s₁, locks⟩ := t₁
    obtain rfl : locks = Locks.free := ((insertMakeRoom_loop _).madeRoom hroom).locks
    cases hrun
    exact ⟨rfl, .insert casUniq expiry hroom⟩
  · rename_i t₁ hroom
    obtain ⟨s₁, locks⟩ := t₁
    obtain rfl : locks = Locks.free := ((insertMakeRoom_loop _).madeRoom hroom).locks
    cases hrun
    exact ⟨rfl, .insertFull casUniq expiry hroom⟩
  · contradiction

theorem dbAddElement_cases {env : Env} {clock : Clock}
    {key flags casUniq value : Bytes} {expiry : Nat} {s : Store}
    {r : RetStatus} {t : State}
    (hrun : dbAddElement env clock key flags casUniq value expiry
      ⟨s, Locks.free⟩ = .ok (r, t)) :
    t.locks = Locks.free ∧
      StoreStep env s (.add clock key flags casUniq value expiry) r
        t.store := by
  rw [dbAddElement_free] at hrun
  split at hrun
  · rename_i t₁ hroom
    obtain ⟨s₁, locks⟩ := t₁
    obtain rfl : locks = Locks.free := ((addMakeRoom_loop _).madeRoom hroom).locks
    cases hrun
    exact ⟨rfl, .add flags casUniq expiry hroom⟩
  · rename_i t₁ hroom
    obtain ⟨s₁, locks⟩ := t₁
    obtain rfl : locks = Locks.free := ((addMakeRoom_loop _).madeRoom hroom).locks
    cases hrun
    exact ⟨rfl, .addFull flags casUniq expiry hroom⟩
  · contradiction

theorem Op.exec_cases {env : Env} {op : Op} {s : Store} {a : op.Answer}
    {t : State} (hexec : op.exec env ⟨s, Locks.free⟩ = .ok (a, t)) :
    t.locks = Locks.free ∧ StoreStep env s op (op.status a) t.store := by
  cases op with
  | insert clock key flags casUniq value expiry =>
      exact dbInsertElement_cases hexec
  | add clock key flags casUniq value expiry => exact dbAddElement_cases hexec
  | get now key =>
      rw [Op.exec, dbGetElement_free] at hexec
      cases hexec
      exact ⟨rfl, .get now key⟩
  | delete now key expiry =>
      rw [Op.exec, dbDeleteElement_free] at hexec
      cases hexec
      exact ⟨rfl, .delete now key expiry⟩
  | setFlushAll now expiry =>
      cases hexec
      exact ⟨rfl, .setFlushAll now expiry⟩
  | handleFlushAll now =>
      cases hexec
      exact ⟨rfl, .handleFlushAll now⟩

theorem Op.run_cases {env : Env} {op : Op} {s : Store} {r : RetStatus}
    {t : State} (hrun : op.run env ⟨s, Locks.free⟩ = .ok (r, t)) :
    t.locks = Locks.free ∧ StoreStep env s op r t.store := by
  obtain ⟨a, t', hexec, hreturn⟩ := Effect.bind_eq_ok.mp hrun
  cases hreturn
  exact Op.exec_cases hexec

/-- Data invariants of sequential runs: what the empty store has and every
completed operation keeps holds after every operation, and no mutex is held. -/
theorem reached_invariant {env : Env} {ok : State → Op → Prop}
    {P : Store → Prop} (hinit : P Store.init)
    (hstep : ∀ s op r s', P s → ok ⟨s, Locks.free⟩ op →
      StoreStep env s op r s' → P s')
    {t : State} (h : Reached (Op.run env) ok State.init t) :
    t.locks = Locks.free ∧ P t.store := by
  refine Reached.invariant (P := fun t => t.locks = Locks.free ∧ P t.store)
    ⟨rfl, hinit⟩ ?_ h
  rintro ⟨s, locks⟩ op r t' ⟨hlocks, hP⟩ hok hrun
  simp only at hlocks hP
  subst hlocks
  obtain ⟨hfree, hstore⟩ := Op.run_cases hrun
  exact ⟨hfree, hstep s op r t'.store hP hok hstore⟩

end Memstashed.Dblru
