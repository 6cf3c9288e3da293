import Memstashed.Dblru.Frame
import Memstashed.Dblru.Protocol
import Memstashed.Foundation.Linearize

/-!
# The store as a cache

What the store is for, without buckets, mutexes, timestamp sets and the size
counter: a map from keys to entries, some of which have been flushed.  A call is
one step on the map, and the cache may lose entries at any time.  With any
number of threads at work, the calls of `dblru.cpp` amount to such steps, one for
each call.
-/

namespace Memstashed.Dblru

open Memstashed.Foundation

/-- The entries by key, each with the time it was last used, and the time of the
last flush. -/
@[ext] structure Cache where
  entry : KeyType → Option MapEntry
  flushed : TimestampType

namespace Cache

variable {c : Cache}

def Dead (c : Cache) (now : Nat) (it : MapEntry) : Prop :=
  it.1.expiry < now ∨ it.2 < c.flushed

def put (c : Cache) (key : KeyType) (it : MapEntry) : Cache :=
  { c with entry := Function.update c.entry key (some it) }

def drop (c : Cache) (key : KeyType) : Cache :=
  { c with entry := Function.update c.entry key none }

def flush (c : Cache) (stamp : TimestampType) : Cache :=
  { c with flushed := stamp }

def Loses (c c' : Cache) : Prop := ∃ key, c' = c.drop key

def read (now : Nat) (it : ValueStruct) : Element :=
  ⟨it.flags, it.casUniq, it.value, wordSub it.expiry now⟩

/-- What a call may do with the cache and what it returns.  The token of a store
and the times at which entries count as used are left open. -/
inductive Does (env : Env) (c : Cache) : DbCall → Returned → Cache → Prop
  | hit {now : Nat} {key : KeyType} {it : MapEntry} {stamp : TimestampType} :
      c.entry key = some it → ¬ c.Dead now it →
      Does env c (.get now key) (.element (some (read now it.1)))
        (c.put key (it.1, stamp))
  | stale {now : Nat} {key : KeyType} {it : MapEntry} :
      c.entry key = some it → c.Dead now it →
      Does env c (.get now key) (.element none) (c.drop key)
  | missing {now : Nat} {key : KeyType} : c.entry key = none →
      Does env c (.get now key) (.element none) c
  | create {fuel expiry : Nat} {clock : Clock} {key flags value token : Bytes}
      {stamp : TimestampType} : c.entry key = none →
      Does env c (.insert fuel clock key flags [] value expiry)
        (.status .success)
        (c.put key (⟨newExpiry clock.now expiry, value, flags, token⟩, stamp))
  | overwrite {fuel expiry : Nat} {clock : Clock}
      {key flags casUniq value token : Bytes} {it : MapEntry} :
      c.entry key = some it → (casUniq = [] ∨ it.1.casUniq = casUniq) →
      Does env c (.insert fuel clock key flags casUniq value expiry)
        (.status .success)
        (c.put key
          (⟨toWord (clock.now + expiry), value, flags, token⟩, it.2))
  | changed {fuel expiry : Nat} {clock : Clock}
      {key flags casUniq value : Bytes} {it : MapEntry} :
      c.entry key = some it → casUniq ≠ [] → it.1.casUniq ≠ casUniq →
      Does env c (.insert fuel clock key flags casUniq value expiry)
        (.status .exist) c
  | absent {fuel expiry : Nat} {clock : Clock}
      {key flags casUniq value : Bytes} :
      c.entry key = none → casUniq ≠ [] →
      Does env c (.insert fuel clock key flags casUniq value expiry)
        (.status .notExist) c
  | noRoom {fuel expiry : Nat} {clock : Clock}
      {key flags casUniq value : Bytes} :
      Does env c (.insert fuel clock key flags casUniq value expiry)
        (.status .memoryFull) c
  | add {fuel expiry : Nat} {clock : Clock} {key flags casUniq value : Bytes}
      {stamp : TimestampType} : c.entry key = none →
      Does env c (.add fuel clock key flags casUniq value expiry)
        (.status .success)
        (c.put key (⟨newExpiry clock.now expiry, value, flags,
          addToken env clock.now⟩, stamp))
  | revive {fuel expiry : Nat} {clock : Clock} {key flags casUniq value : Bytes}
      {it : MapEntry} : c.entry key = some it → c.Dead clock.now it →
      Does env c (.add fuel clock key flags casUniq value expiry)
        (.status .success)
        (c.put key (⟨toWord (clock.now + expiry), value, flags,
          addToken env clock.now⟩, it.2))
  | taken {fuel expiry : Nat} {clock : Clock} {key flags casUniq value : Bytes}
      {it : MapEntry} : c.entry key = some it → ¬ c.Dead clock.now it →
      Does env c (.add fuel clock key flags casUniq value expiry)
        (.status .exist) c
  | noRoomToAdd {fuel expiry : Nat} {clock : Clock}
      {key flags casUniq value : Bytes} :
      Does env c (.add fuel clock key flags casUniq value expiry)
        (.status .memoryFull) c
  | delete {now : Nat} {key : KeyType} {it : MapEntry} :
      c.entry key = some it → ¬ c.Dead now it →
      Does env c (.delete now key 0) (.status .success) (c.drop key)
  | delay {now expiry : Nat} {key : KeyType} {it : MapEntry} :
      c.entry key = some it → ¬ c.Dead now it → expiry ≠ 0 →
      Does env c (.delete now key expiry) (.status .success)
        (c.put key ({ it.1 with expiry := toWord (now + expiry) }, it.2))
  | notFound {now expiry : Nat} {key : KeyType} :
      (∀ it, c.entry key = some it → c.Dead now it) →
      Does env c (.delete now key expiry) (.status .notExist) c
  | flush {now : Nat} {stamp : TimestampType} :
      Does env c (.handleFlushAll now) .nothing (c.flush stamp)
  | unchanged {call : DbCall} : call.key = none → Does env c call .nothing c

end Cache

def Store.cache (s : Store) : Cache := ⟨s.entry, s.gFlushAllTimestamp⟩

/-! ## What a section does to the cache -/

section Sections

variable {env : Env} {s s' : Store} {key : KeyType}

theorem cache_setEntry (s : Store) (key : KeyType) (it : MapEntry) :
    (s.setEntry (getHashTblNbrFromKey key) key it).cache =
      s.cache.put key it := by
  refine Cache.ext (funext fun other => ?_) rfl
  change (s.setEntry _ key it).entry other =
    Function.update s.entry key (some it) other
  by_cases hother : other = key
  · subst hother
    rw [entry_setEntry_self, Function.update_self]
  · rw [entry_setEntry_ne s it hother, Function.update_of_ne hother]

theorem cache_eraseKey (s : Store) (key : KeyType) :
    (s.eraseKey (getHashTblNbrFromKey key) key).cache = s.cache.drop key := by
  refine Cache.ext (funext fun other => ?_) rfl
  change (s.eraseKey _ key).entry other = Function.update s.entry key none other
  by_cases hother : other = key
  · subst hother
    rw [entry_eraseKey_self, Function.update_self]
  · rw [entry_eraseKey_ne s hother, Function.update_of_ne hother]

theorem cache_eraseKey_elsewhere (s : Store) {h : HashTblNum}
    (hbucket : h ≠ getHashTblNbrFromKey key) :
    (s.eraseKey h key).cache = s.cache := by
  refine Cache.ext (funext fun other => ?_) rfl
  change (s.eraseKey h key).entry other = s.entry other
  unfold Store.entry
  rw [Store.eraseKey_gKeyToValueHashMap]
  by_cases hother : getHashTblNbrFromKey other = h
  · rw [hother, Function.update_self]
    refine AList.lookup_erase_ne ?_
    rintro rfl
    exact hbucket hother.symm
  · rw [Function.update_of_ne hother]

theorem cache_evicts (h : Evicts s s') :
    s'.cache = s.cache ∨ s.cache.Loses s'.cache := by
  obtain ⟨h, entry, -, ⟨-, rfl⟩ | ⟨it, -, rfl⟩⟩ := h
  · exact .inl rfl
  · by_cases hbucket : h = getHashTblNbrFromKey entry.key
    · subst hbucket
      exact .inr ⟨entry.key, cache_eraseKey _ entry.key⟩
    · exact .inl (cache_eraseKey_elsewhere _ hbucket)

theorem cache_removeSection (now : Nat) (h : HashTblNum) (s : Store) :
    (removeSection now h s).2.cache = s.cache ∨
      s.cache.Loses (removeSection now h s).2.cache := by
  cases hreleased : (removeSection now h s).1 with
  | true => exact cache_evicts (removeSection_evicts (Prod.ext hreleased rfl))
  | false =>
      have hstuck := stuck_of_not_released (Prod.ext hreleased rfl)
      rw [removeSection_of_stuck hstuck.1]
      exact .inl rfl

def Section.Hidden : Section → Prop
  | .getSection .. => False
  | .deleteSection .. => False
  | .insertSection .. => False
  | .addSection .. => False
  | .setFlushAllTimestamp _ => False
  | _ => True

theorem cache_hidden {i : Section} {r : i.Answer} (hi : i.Hidden)
    (happly : i.apply env s = (r, s')) :
    s'.cache = s.cache ∨ s.cache.Loses s'.cache := by
  cases i with
  | removeLRUElement now h =>
      cases happly
      exact cache_removeSection now h s
  | nextToken now =>
      obtain ⟨generator, rfl⟩ := nextToken_cases happly
      exact .inl rfl
  | getSection now key timestamp => exact absurd hi not_false
  | deleteSection now key expiry => exact absurd hi not_false
  | insertSection now key casUniq expiry valueStr timestamp =>
      exact absurd hi not_false
  | addSection now key expiry valueStr timestamp => exact absurd hi not_false
  | setFlushAllTimestamp stamp => exact absurd hi not_false
  | _ =>
      cases happly
      exact .inl rfl

end Sections

/-! ## Where a call shows -/

def InsertOutcome.status : InsertOutcome → RetStatus
  | exist => .exist
  | notExist => .notExist
  | overwritten _ _ => .success
  | created => .success

def AddOutcome.status : AddOutcome → RetStatus
  | exist => .exist
  | revived _ => .success
  | created => .success

/-- The section at which a call shows, and what it is going to return. -/
inductive DbCall.Takes (env : Env) :
    DbCall → (i : Section) → i.Answer → Returned → Prop
  | get {now : Nat} {key : KeyType} {timestamp : TimestampType}
      (found : Option (Element × TimestampType)) :
      Takes env (.get now key) (.getSection now key timestamp) found
        (.element (found.map Prod.fst))
  | delete {now expiry : Nat} {key : KeyType} (ret : RetStatus) :
      Takes env (.delete now key expiry) (.deleteSection now key expiry) ret
        (.status ret)
  | insert {fuel expiry : Nat} {clock : Clock}
      {key flags casUniq value token : Bytes} {timestamp : TimestampType}
      (outcome : InsertOutcome) :
      Takes env (.insert fuel clock key flags casUniq value expiry)
        (.insertSection clock.now key casUniq expiry
          ⟨newExpiry clock.now expiry, value, flags, token⟩ timestamp)
        outcome (.status outcome.status)
  | add {fuel expiry : Nat} {clock : Clock} {key flags casUniq value : Bytes}
      {timestamp : TimestampType} (outcome : AddOutcome) :
      Takes env (.add fuel clock key flags casUniq value expiry)
        (.addSection clock.now key expiry
          ⟨newExpiry clock.now expiry, value, flags, addToken env clock.now⟩
          timestamp)
        outcome (.status outcome.status)
  | flush {now : Nat} {stamp : TimestampType} :
      Takes env (.handleFlushAll now) (.setFlushAllTimestamp stamp) ()
        .nothing

def DbCall.Free : DbCall → Returned → Prop
  | insert .., ret => ret = .status .memoryFull
  | add .., ret => ret = .status .memoryFull
  | get .., _ => False
  | delete .., _ => False
  | _, ret => ret = .nothing

section Calls

variable {env : Env} {s s' : Store}

theorem does_delete {now expiry : Nat} {key : KeyType} {ret : RetStatus}
    (happly : deleteSection now key expiry s = (ret, s')) :
    Cache.Does env s.cache (.delete now key expiry) (.status ret) s'.cache := by
  cases hentry : s.entry key with
  | none =>
      have hlookup : (s.gKeyToValueHashMap (getHashTblNbrFromKey key)).lookup
        key = none := hentry
      simp only [deleteSection, hlookup] at happly
      cases happly
      exact .notFound fun it hit => absurd (hentry.symm.trans hit) (by simp)
  | some it =>
      have hlookup : (s.gKeyToValueHashMap (getHashTblNbrFromKey key)).lookup
        key = some it := hentry
      by_cases hdead : Dead s now it
      · simp only [deleteSection, hlookup, hdead, if_true] at happly
        cases happly
        refine .notFound fun other hother => ?_
        obtain rfl := Option.some.inj (hentry.symm.trans hother)
        exact hdead
      · by_cases hexpiry : expiry = 0
        · subst hexpiry
          simp only [deleteSection, hlookup, hdead, if_true, if_false] at happly
          cases happly
          rw [cache_eraseKey]
          exact .delete hentry hdead
        · simp only [deleteSection, hlookup, hdead, hexpiry,
            if_false] at happly
          cases happly
          rw [cache_setEntry]
          exact .delay hentry hdead hexpiry

theorem does_of_takes {call : DbCall} {i : Section} {r : i.Answer}
    {ret : Returned} (htakes : call.Takes env i r ret)
    (happly : i.apply env s = (r, s')) :
    Cache.Does env s.cache call ret s'.cache := by
  cases htakes with
  | get found =>
      rcases getSection_cases happly with
        ⟨hnone, rfl, rfl⟩ | ⟨it, hentry, hdead, rfl, rfl⟩ |
          ⟨it, hentry, hlive, rfl, rfl⟩
      · exact .missing hnone
      · rw [cache_eraseKey]
        exact .stale hentry hdead
      · rw [cache_setEntry]
        exact .hit hentry hlive
  | delete ret => exact does_delete happly
  | insert outcome =>
      rcases insertSection_cases happly with
        ⟨it, hentry, hcas, hne, rfl, rfl⟩ | ⟨it, diff, hentry, hcas, rfl, rfl⟩ |
          ⟨hnone, hcas, rfl, rfl⟩ | ⟨hnone, rfl, rfl, rfl⟩
      · exact .changed hentry hcas hne
      · rw [cache_setEntry]
        exact .overwrite hentry hcas
      · exact .absent hnone hcas
      · rw [cache_setEntry]
        exact .create hnone
  | add outcome =>
      rcases addSection_cases happly with
        ⟨it, hentry, hlive, rfl, rfl⟩ | ⟨it, hentry, hdead, rfl, rfl⟩ |
          ⟨hnone, rfl, rfl⟩
      · exact .taken hentry hlive
      · rw [cache_setEntry]
        exact .revive hentry hdead
      · rw [cache_setEntry]
        exact .add hnone
  | flush =>
      cases happly
      exact .flush

theorem does_of_free {call : DbCall} {ret : Returned} (h : call.Free ret)
    (c : Cache) : Cache.Does env c call ret c := by
  cases call with
  | insert fuel clock key flags casUniq value expiry =>
      obtain rfl := h
      exact .noRoom
  | add fuel clock key flags casUniq value expiry =>
      obtain rfl := h
      exact .noRoomToAdd
  | get now key => exact absurd h not_false
  | delete now key expiry => exact absurd h not_false
  | removeLRUElement now b =>
      obtain rfl := h
      exact .unchanged rfl
  | setFlushAll now expiry =>
      obtain rfl := h
      exact .unchanged rfl
  | handleFlushAll now =>
      obtain rfl := h
      exact .unchanged rfl

abbrev ShowsAs (env : Env) (call : DbCall) (shown : Option Returned)
    (p : Sections Returned) : Prop :=
  Prog.Shows Section.Hidden (call.Takes env) call.Free shown p

theorem LoopStep.hidden {i : Section} (h : LoopStep i) : i.Hidden := by
  cases i with
  | storedSize => trivial
  | setIsEmpty h => trivial
  | removeLRUElement now h => trivial
  | _ => exact absurd h not_false

theorem shows_insertTail {fuel : Nat} {clock : Clock}
    {key flags casUniq value token : Bytes} {expiry : Nat}
    {timestamp : TimestampType} :
    ShowsAs env (.insert fuel clock key flags casUniq value expiry) none
      (Sections.insertTail clock.now key flags casUniq value expiry token
        timestamp >>= fun ret => Prog.done (.status ret)) := by
  refine .before (fun outcome => some (.status outcome.status)) (by simp)
    (fun outcome ret hret => ?_) fun outcome => ?_
  · cases hret
    exact .insert outcome
  · cases outcome with
    | exist => exact .done _
    | notExist => exact .done _
    | overwritten old sizeDiff =>
        exact .hidden trivial fun _ => .hidden trivial fun _ =>
          .hidden trivial fun _ => .done _
    | created =>
        exact .hidden trivial fun _ => .hidden trivial fun _ => .done _

theorem shows_addTail {fuel : Nat} {clock : Clock}
    {key flags casUniq value : Bytes} {expiry : Nat}
    {timestamp : TimestampType} :
    ShowsAs env (.add fuel clock key flags casUniq value expiry) none
      (Sections.addTail clock.now key flags value expiry
        (addToken env clock.now) timestamp >>=
          fun ret => Prog.done (.status ret)) := by
  refine .before (fun outcome => some (.status outcome.status)) (by simp)
    (fun outcome ret hret => ?_) fun outcome => ?_
  · cases hret
    exact .add outcome
  · cases outcome with
    | exist => exact .done _
    | revived old => exact .hidden trivial fun _ => .done _
    | created =>
        exact .hidden trivial fun _ => .hidden trivial fun _ => .done _

theorem shows_get (now : Nat) (key : KeyType) :
    ShowsAs env (.get now key) none (DbCall.program env (.get now key)) := by
  refine .hidden trivial fun timestamp => ?_
  refine .before (fun found => some (.element (found.map Prod.fst))) (by simp)
    (fun found ret hret => ?_) fun found => ?_
  · cases hret
    exact .get found
  · cases found with
    | none => exact .done _
    | some found => exact .hidden trivial fun _ => .done _

theorem shows_delete (now : Nat) (key : KeyType) (expiry : Nat) :
    ShowsAs env (.delete now key expiry) none
      (DbCall.program env (.delete now key expiry)) := by
  refine .before (fun ret => some (.status ret)) (by simp)
    (fun status ret hret => ?_) fun status => .done _
  cases hret
  exact .delete status

theorem shows_handleFlushAll (now : Nat) :
    ShowsAs env (.handleFlushAll now) none
      (DbCall.program env (.handleFlushAll now)) := by
  refine .hidden trivial fun set => ?_
  cases set with
  | false => exact .free rfl
  | true =>
      refine .hidden trivial fun time => ?_
      dsimp only [Prog.bind]
      by_cases htime : time ≤ now
      · rw [if_pos htime]
        refine .hidden trivial fun stamp => ?_
        refine .before (fun _ => some .nothing) (by simp) (fun _ ret hret => ?_)
          fun _ => .hidden trivial fun _ => .done _
        cases hret
        exact .flush
      · rw [if_neg htime]
        exact .free rfl

theorem shows_program (call : DbCall) :
    ShowsAs env call none (call.program env) := by
  cases call with
  | insert fuel clock key flags casUniq value expiry =>
      refine .hidden trivial fun timestamp => .hidden trivial fun token => ?_
      change ShowsAs env _ none (Sections.insertMakeRoom _ _ _ _ _ >>= _ >>= _)
      rw [Prog.bind_assoc]
      refine .hidden_bind
        ((calls_insertMakeRoom ..).mono fun _ => LoopStep.hidden) fun room => ?_
      cases room with
      | true => exact shows_insertTail
      | false => exact .free rfl
  | add fuel clock key flags casUniq value expiry =>
      refine .hidden trivial fun timestamp => ?_
      change ShowsAs env _ none (Sections.addMakeRoom _ _ _ _ _ >>= _ >>= _)
      rw [Prog.bind_assoc]
      refine .hidden_bind ((calls_addMakeRoom ..).mono fun _ => LoopStep.hidden)
        fun room => ?_
      cases room with
      | true => exact shows_addTail
      | false => exact .free rfl
  | get now key => exact shows_get now key
  | delete now key expiry => exact shows_delete now key expiry
  | removeLRUElement now h => exact .hidden trivial fun _ => .free rfl
  | setFlushAll now expiry =>
      exact .hidden trivial fun _ => .hidden trivial fun _ => .free rfl
  | handleFlushAll now => exact shows_handleFlushAll now

end Calls

/-! ## Threads at work -/

abbrev ServedAsCache {κ : Type} (env : Env) (calls : κ → DbCall)
    (turns : List κ) (pool : κ → Sections Returned) (c c' : Cache)
    (order : List (κ × Returned)) : Prop :=
  Prog.Linearized Cache.Loses
    (fun k ret before after => Cache.Does env before (calls k) ret after) turns
    pool c c' order

section Threads

variable {κ : Type} [DecidableEq κ] {env : Env} {calls : κ → DbCall}
  {t₀ t : State} {history : Turns κ} {pool : κ → Sections Returned}

theorem Interleaves.servedAsCache
    (h : Interleaves env calls t₀ history pool t) :
    ∃ order, ServedAsCache env calls (history.map Prog.Event.client) pool
      t₀.store.cache t.store.cache order := by
  refine Prog.Concurrent.linearized (fun t => t.store.cache)
    (fun k => shows_program (calls k)) (fun k ret => ?_)
    (fun i t r t' hi hexec => cache_hidden hi (Section.apply_of_exec hexec))
    (fun k i t r t' ret htakes hexec =>
      does_of_takes htakes (Section.apply_of_exec hexec))
    (fun k ret c hfree => does_of_free hfree c) h
  cases calls k <;> exact fun hdone => nomatch hdone

end Threads

end Memstashed.Dblru
