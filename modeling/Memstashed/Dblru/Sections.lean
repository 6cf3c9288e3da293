import Memstashed.Dblru.Operations
import Memstashed.Foundation.Prog

/-!
# The functions of `dblru.cpp`, one section at a time

When several threads are at work, a function is the sequence of its steps: the
sections under a mutex, and single accesses to the atomic variables.  Other
threads may come in between any two of them.
-/

namespace Memstashed.Dblru

open Memstashed.Foundation

inductive Section where
  | nextTimestamp
  | nextToken (now : Nat)
  | storedSize
  | setIsEmpty (h : HashTblNum)
  | removeLRUElement (now : Nat) (h : HashTblNum)
  | getSection (now : Nat) (key : KeyType) (timestamp : TimestampType)
  | deleteSection (now : Nat) (key : KeyType) (expiry : Nat)
  | insertSection (now : Nat) (key casUniq : Bytes) (expiry : Nat)
      (valueStr : ValueStruct) (timestamp : TimestampType)
  | addSection (now : Nat) (key : Bytes) (expiry : Nat)
      (valueStr : ValueStruct) (timestamp : TimestampType)
  | eraseStamp (entry : TimestampToKeyStruct)
  | insertStamp (entry : TimestampToKeyStruct)
  | restamp (old : TimestampType) (entry : TimestampToKeyStruct)
  | addStoredSize (n : Nat)
  | subStoredSize (n : Nat)
  | isFlushAllSet
  | setIsFlushAllSet (value : Bool)
  | flushAllTime
  | setFlushAllTime (time : Nat)
  | bumpTimestamp
  | setFlushAllTimestamp (timestamp : TimestampType)

namespace Section

abbrev Answer : Section → Type
  | nextTimestamp => TimestampType
  | nextToken _ => Bytes
  | storedSize => Nat
  | setIsEmpty _ => Bool
  | getSection .. => Option (Element × TimestampType)
  | deleteSection .. => RetStatus
  | insertSection .. => InsertOutcome
  | addSection .. => AddOutcome
  | isFlushAllSet => Bool
  | flushAllTime => Nat
  | bumpTimestamp => TimestampType
  | _ => Unit

def exec (env : Env) : (i : Section) → Db i.Answer
  | nextTimestamp => onStore Dblru.nextTimestamp
  | nextToken now => onStore (Dblru.nextToken env now)
  | storedSize => onStore fun s => (s.gStoredSize, s)
  | setIsEmpty h => underTimestampToKey h (Dblru.setIsEmpty h)
  | removeLRUElement now h => Dblru.removeLRUElement now h
  | getSection now key timestamp =>
      underKeyToValue (getHashTblNbrFromKey key)
        (Dblru.getSection now key timestamp)
  | deleteSection now key expiry =>
      underKeyToValue (getHashTblNbrFromKey key)
        (Dblru.deleteSection now key expiry)
  | insertSection now key casUniq expiry valueStr timestamp =>
      underKeyToValue (getHashTblNbrFromKey key)
        (Dblru.insertSection now key casUniq expiry valueStr timestamp)
  | addSection now key expiry valueStr timestamp =>
      underKeyToValue (getHashTblNbrFromKey key)
        (Dblru.addSection now key expiry valueStr timestamp)
  | eraseStamp entry =>
      underTimestampToKey (getHashTblNbrFromKey entry.key) fun s =>
        ((), s.eraseStamp (getHashTblNbrFromKey entry.key) entry.timestamp)
  | insertStamp entry =>
      underTimestampToKey (getHashTblNbrFromKey entry.key) fun s =>
        ((), s.insertStamp (getHashTblNbrFromKey entry.key) entry)
  | restamp old entry =>
      underTimestampToKey (getHashTblNbrFromKey entry.key) fun s =>
        ((), (s.eraseStamp (getHashTblNbrFromKey entry.key) old).insertStamp
          (getHashTblNbrFromKey entry.key) entry)
  | addStoredSize n => onStore fun s => ((), s.addStoredSize n)
  | subStoredSize n => onStore fun s => ((), s.subStoredSize n)
  | isFlushAllSet => onStore fun s => (s.gIsFlushAllSet, s)
  | setIsFlushAllSet value =>
      onStore fun s => ((), { s with gIsFlushAllSet := value })
  | flushAllTime => onStore fun s => (s.gFlushAllTime, s)
  | setFlushAllTime time =>
      onStore fun s => ((), { s with gFlushAllTime := time })
  | bumpTimestamp => onStore fun s =>
      (toWord (s.gTimestamp + 1), { s with
        gTimestamp := toWord (s.gTimestamp + 1) })
  | setFlushAllTimestamp timestamp =>
      onStore fun s => ((), { s with gFlushAllTimestamp := timestamp })

end Section

abbrev Sections (α : Type) := Prog Section Section.Answer Fault α

namespace Sections

def step (i : Section) : Sections i.Answer := Prog.call i .done

/-! ## The eviction loops -/

/-- The eviction loop of `dbInsertElement`, cut off after a number of turns;
`fits` is its test on `gStoredSize`. -/
def insertMakeRoom (fits : Nat → Prop) [DecidablePred fits]
    (orig : HashTblNum) : Nat → (Nat → Nat) → HashTblNum → Sections Bool
  | 0, _, _ => .fail .spin
  | fuel + 1, clock, h => do
      let size ← step .storedSize
      if fits size then return true
      else if ← step (.setIsEmpty h) then
        if orig = nextHashTblNum h then return false
        else insertMakeRoom fits orig fuel clock (nextHashTblNum h)
      else do
        step (.removeLRUElement (clock 0) h)
        insertMakeRoom fits orig fuel (fun i => clock (i + 1)) h

def addMakeRoom (fits : Nat → Prop) [DecidablePred fits]
    (orig : HashTblNum) : Nat → (Nat → Nat) → HashTblNum → Sections Bool
  | 0, _, _ => .fail .spin
  | fuel + 1, clock, h => do
      let size ← step .storedSize
      if fits size then return true
      else if ← step (.setIsEmpty h) then
        if orig = nextHashTblNum h then return false
        else do
          step (.removeLRUElement (clock 0) (nextHashTblNum h))
          addMakeRoom fits orig fuel (fun i => clock (i + 1)) (nextHashTblNum h)
      else do
        step (.removeLRUElement (clock 0) h)
        addMakeRoom fits orig fuel (fun i => clock (i + 1)) h

def sizeFitsInsert (env : Env) (key flags casUniq value : Bytes) (size : Nat) :
    Prop :=
  toWord (size + 2 * key.length + 2 * sizeofTimestamp + flags.length +
    casUniq.length + sizeofTimestamp + value.length) < env.gServMemLimit

instance (env : Env) (key flags casUniq value : Bytes) :
    DecidablePred (sizeFitsInsert env key flags casUniq value) := fun _ =>
  inferInstanceAs (Decidable (_ < _))

def sizeFitsAdd (env : Env) (key value : Bytes) (size : Nat) : Prop :=
  toWord (size + 2 * key.length + 2 * sizeofTimestamp + sizeofTimestamp +
    value.length) < env.gServMemLimit

instance (env : Env) (key value : Bytes) :
    DecidablePred (sizeFitsAdd env key value) := fun _ =>
  inferInstanceAs (Decidable (_ < _))

/-! ## Storing -/

def insertTail (now : Nat) (key flags casUniq value : Bytes) (expiry : Nat)
    (token : Bytes) (timestamp : TimestampType) : Sections RetStatus := do
  match ← step (.insertSection now key casUniq expiry
      ⟨newExpiry now expiry, value, flags, token⟩ timestamp) with
  | .exist => return .exist
  | .notExist => return .notExist
  | .overwritten old sizeDiff => do
      step (.eraseStamp ⟨old, key⟩)
      step (.subStoredSize sizeDiff)
      step (.insertStamp ⟨timestamp, key⟩)
      return .success
  | .created => do
      step (.addStoredSize (insertCharge key flags token value))
      step (.insertStamp ⟨timestamp, key⟩)
      return .success

def dbInsertElement (env : Env) (fuel : Nat) (clock : Clock)
    (key flags casUniq value : Bytes) (expiry : Nat) : Sections RetStatus := do
  let h := getHashTblNbrFromKey key
  let timestamp ← step .nextTimestamp
  let token ← step (.nextToken clock.now)
  if ← insertMakeRoom (sizeFitsInsert env key flags token value) h fuel
      clock.evictions h then
    insertTail clock.now key flags casUniq value expiry token timestamp
  else return .memoryFull

def addTail (now : Nat) (key flags value : Bytes) (expiry : Nat)
    (token : Bytes) (timestamp : TimestampType) : Sections RetStatus := do
  match ← step (.addSection now key expiry
      ⟨newExpiry now expiry, value, flags, token⟩ timestamp) with
  | .exist => return .exist
  | .revived old => do
      step (.restamp old ⟨timestamp, key⟩)
      return .success
  | .created => do
      step (.addStoredSize (insertCharge key flags token value))
      step (.insertStamp ⟨timestamp, key⟩)
      return .success

def dbAddElement (env : Env) (fuel : Nat) (clock : Clock)
    (key flags _casUniq value : Bytes) (expiry : Nat) : Sections RetStatus := do
  let h := getHashTblNbrFromKey key
  let timestamp ← step .nextTimestamp
  if ← addMakeRoom (sizeFitsAdd env key value) h fuel clock.evictions h then
    addTail clock.now key flags value expiry (addToken env clock.now) timestamp
  else return .memoryFull

/-! ## Reading, deleting, flushing -/

def dbGetElement (now : Nat) (key : KeyType) : Sections (Option Element) := do
  let timestamp ← step .nextTimestamp
  match ← step (.getSection now key timestamp) with
  | none => return none
  | some (element, old) => do
      step (.restamp old ⟨timestamp, key⟩)
      return some element

def dbDeleteElement (now : Nat) (key : KeyType) (expiry : Nat) :
    Sections RetStatus :=
  step (.deleteSection now key expiry)

def dbSetFlushAll (now expiry : Nat) : Sections Unit := do
  step (.setIsFlushAllSet true)
  step (.setFlushAllTime (toWord (now + expiry)))

def dbHandleFlushAll (now : Nat) : Sections Unit := do
  if ← step .isFlushAllSet then
    let time ← step .flushAllTime
    if time ≤ now then
      let tempTimestamp ← step .bumpTimestamp
      step (.setFlushAllTimestamp tempTimestamp)
      step (.setIsFlushAllSet false)
    else return ()
  else return ()

/-! ## Without other threads -/

section Alone

variable {env : Env}

theorem run_step (i : Section) :
    (step i).run (Section.exec env) = Section.exec env i := by
  funext t
  unfold step
  rw [Prog.run_call]
  cases Section.exec env i t with
  | ok result => rfl
  | error e => rfl

theorem run_insertMakeRoom (fits : Nat → Prop) [DecidablePred fits]
    (orig : HashTblNum) (fuel : Nat) (clock : Nat → Nat) (h : HashTblNum) :
    (insertMakeRoom fits orig fuel clock h).run (Section.exec env) =
      Dblru.insertMakeRoom (fun s => fits s.gStoredSize) orig fuel clock h := by
  induction fuel generalizing clock h with
  | zero => rfl
  | succ fuel ih =>
      funext t
      have hsize : Section.exec env .storedSize t =
          .ok (t.store.gStoredSize, t) := rfl
      have hget : (get : Db State) t = .ok (t, t) := rfl
      rw [insertMakeRoom, Dblru.insertMakeRoom, Prog.run_bind, run_step,
        Effect.bind_of_ok hsize, Effect.bind_of_ok hget]
      split
      · rfl
      · rw [Prog.run_bind, run_step]
        refine congrFun (congrArg _ (funext fun isEmpty => ?_)) t
        cases isEmpty with
        | true =>
            simp only [if_true]
            split
            · rfl
            · exact ih clock (nextHashTblNum h)
        | false =>
            simp only [Bool.false_eq_true, if_false]
            rw [Prog.run_bind, run_step]
            refine congrArg _ (funext fun _ => ?_)
            exact ih (fun i => clock (i + 1)) h

theorem run_addMakeRoom (fits : Nat → Prop) [DecidablePred fits]
    (orig : HashTblNum) (fuel : Nat) (clock : Nat → Nat) (h : HashTblNum) :
    (addMakeRoom fits orig fuel clock h).run (Section.exec env) =
      Dblru.addMakeRoom (fun s => fits s.gStoredSize) orig fuel clock h := by
  induction fuel generalizing clock h with
  | zero => rfl
  | succ fuel ih =>
      funext t
      have hsize : Section.exec env .storedSize t =
          .ok (t.store.gStoredSize, t) := rfl
      have hget : (get : Db State) t = .ok (t, t) := rfl
      rw [addMakeRoom, Dblru.addMakeRoom, Prog.run_bind, run_step,
        Effect.bind_of_ok hsize, Effect.bind_of_ok hget]
      split
      · rfl
      · rw [Prog.run_bind, run_step]
        refine congrFun (congrArg _ (funext fun isEmpty => ?_)) t
        cases isEmpty with
        | true =>
            simp only [if_true]
            split
            · rfl
            · rw [Prog.run_bind, run_step]
              refine congrArg _ (funext fun _ => ?_)
              exact ih (fun i => clock (i + 1)) (nextHashTblNum h)
        | false =>
            simp only [Bool.false_eq_true, if_false]
            rw [Prog.run_bind, run_step]
            refine congrArg _ (funext fun _ => ?_)
            exact ih (fun i => clock (i + 1)) h

theorem run_insertTail (now : Nat) (key flags casUniq value : Bytes)
    (expiry : Nat) (token : Bytes) (timestamp : TimestampType) :
    (insertTail now key flags casUniq value expiry token timestamp).run
        (Section.exec env) =
      Dblru.insertTail now key flags casUniq value expiry token timestamp := by
  unfold insertTail Dblru.insertTail
  rw [Prog.run_bind, run_step]
  refine congrArg _ (funext fun outcome => ?_)
  cases outcome with
  | exist => rfl
  | notExist => rfl
  | overwritten old sizeDiff =>
      rw [Prog.run_bind, run_step]
      refine congrArg _ (funext fun _ => ?_)
      rw [Prog.run_bind, run_step]
      refine congrArg _ (funext fun _ => ?_)
      rw [Prog.run_bind, run_step]
      rfl
  | created =>
      rw [Prog.run_bind, run_step]
      refine congrArg _ (funext fun _ => ?_)
      rw [Prog.run_bind, run_step]
      rfl

theorem run_addTail (now : Nat) (key flags value : Bytes) (expiry : Nat)
    (token : Bytes) (timestamp : TimestampType) :
    (addTail now key flags value expiry token timestamp).run
        (Section.exec env) =
      Dblru.addTail now key flags value expiry token timestamp := by
  unfold addTail Dblru.addTail
  rw [Prog.run_bind, run_step]
  refine congrArg _ (funext fun outcome => ?_)
  cases outcome with
  | exist => rfl
  | revived old =>
      rw [Prog.run_bind, run_step]
      rfl
  | created =>
      rw [Prog.run_bind, run_step]
      refine congrArg _ (funext fun _ => ?_)
      rw [Prog.run_bind, run_step]
      rfl

theorem run_dbInsertElement (clock : Clock) (key flags casUniq value : Bytes)
    (expiry : Nat) (t : State) :
    (dbInsertElement env (evictionFuel t.store) clock key flags casUniq value
        expiry).run (Section.exec env) t =
      Dblru.dbInsertElement env clock key flags casUniq value expiry t := by
  have hfuel : evictionFuel (nextToken env clock.now
      (nextTimestamp t.store).2).2 = evictionFuel t.store := by
    unfold nextToken
    cases (nextTimestamp t.store).2.generator <;> rfl
  let s₁ := (nextTimestamp t.store).2
  let s₂ := (nextToken env clock.now s₁).2
  have hdrawn : Section.exec env .nextTimestamp t =
      .ok (t.store.gTimestamp, ⟨s₁, t.locks⟩) := rfl
  have htoken : Section.exec env (.nextToken clock.now) ⟨s₁, t.locks⟩ =
      .ok ((nextToken env clock.now s₁).1, ⟨s₂, t.locks⟩) := rfl
  have hdrawn' : onStore nextTimestamp t =
      .ok (t.store.gTimestamp, ⟨s₁, t.locks⟩) := rfl
  have htoken' : onStore (nextToken env clock.now) ⟨s₁, t.locks⟩ =
      .ok ((nextToken env clock.now s₁).1, ⟨s₂, t.locks⟩) := rfl
  have hget : (get : Db State) ⟨s₂, t.locks⟩ =
      .ok (⟨s₂, t.locks⟩, ⟨s₂, t.locks⟩) := rfl
  unfold dbInsertElement Dblru.dbInsertElement
  rw [Prog.run_bind, run_step, Effect.bind_of_ok hdrawn, Prog.run_bind,
    run_step, Effect.bind_of_ok htoken, Prog.run_bind, run_insertMakeRoom,
    Effect.bind_of_ok hdrawn', Effect.bind_of_ok htoken',
    Effect.bind_of_ok hget, hfuel]
  refine congrFun (congrArg _ (funext fun room => ?_)) _
  cases room with
  | true => exact run_insertTail ..
  | false => rfl

theorem run_dbAddElement (clock : Clock) (key flags casUniq value : Bytes)
    (expiry : Nat) (t : State) :
    (dbAddElement env (evictionFuel t.store) clock key flags casUniq value
        expiry).run (Section.exec env) t =
      Dblru.dbAddElement env clock key flags casUniq value expiry t := by
  let s₁ := (nextTimestamp t.store).2
  have hdrawn : Section.exec env .nextTimestamp t =
      .ok (t.store.gTimestamp, ⟨s₁, t.locks⟩) := rfl
  have hdrawn' : onStore nextTimestamp t =
      .ok (t.store.gTimestamp, ⟨s₁, t.locks⟩) := rfl
  have hget : (get : Db State) ⟨s₁, t.locks⟩ =
      .ok (⟨s₁, t.locks⟩, ⟨s₁, t.locks⟩) := rfl
  have hfuel : evictionFuel s₁ = evictionFuel t.store := rfl
  unfold dbAddElement Dblru.dbAddElement
  rw [Prog.run_bind, run_step, Effect.bind_of_ok hdrawn, Prog.run_bind,
    run_addMakeRoom, Effect.bind_of_ok hdrawn', Effect.bind_of_ok hget, hfuel]
  refine congrFun (congrArg _ (funext fun room => ?_)) _
  cases room with
  | true => exact run_addTail ..
  | false => rfl

theorem run_dbGetElement (now : Nat) (key : KeyType) :
    (dbGetElement now key).run (Section.exec env) =
      Dblru.dbGetElement now key := by
  unfold dbGetElement Dblru.dbGetElement
  rw [Prog.run_bind, run_step]
  refine congrArg _ (funext fun timestamp => ?_)
  rw [Prog.run_bind, run_step]
  refine congrArg _ (funext fun found => ?_)
  cases found with
  | none => rfl
  | some result =>
      rw [Prog.run_bind, run_step]
      rfl

theorem run_dbDeleteElement (now : Nat) (key : KeyType) (expiry : Nat) :
    (dbDeleteElement now key expiry).run (Section.exec env) =
      Dblru.dbDeleteElement now key expiry :=
  run_step _

theorem run_dbSetFlushAll (now expiry : Nat) :
    (dbSetFlushAll now expiry).run (Section.exec env) =
      Dblru.dbSetFlushAll now expiry := rfl

theorem run_dbHandleFlushAll (now : Nat) :
    (dbHandleFlushAll now).run (Section.exec env) =
      Dblru.dbHandleFlushAll now := by
  funext t
  have hset : Section.exec env .isFlushAllSet t =
      .ok (t.store.gIsFlushAllSet, t) := rfl
  have htime : Section.exec env .flushAllTime t =
      .ok (t.store.gFlushAllTime, t) := rfl
  have hhandle : Dblru.dbHandleFlushAll now t =
      .ok ((), ⟨handleFlush now t.store, t.locks⟩) := rfl
  unfold dbHandleFlushAll
  rw [hhandle, handleFlush, Prog.run_bind, run_step, Effect.bind_of_ok hset]
  cases hflag : t.store.gIsFlushAllSet with
  | false => simp
  | true =>
      simp only [if_true, true_and]
      rw [Prog.run_bind, run_step, Effect.bind_of_ok htime]
      split
      · rfl
      · rfl

end Alone

end Sections

end Memstashed.Dblru
