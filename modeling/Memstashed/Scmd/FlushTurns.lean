import Memstashed.Dblru.Stamps
import Memstashed.Scmd.Clients

/-!
# `flush_all` among the commands of other clients

The flag is raised before the time is set, a stamp is drawn before it is
published, and the flag is lowered last of all.  Between any two of these the
other clients are at work.  As long as none of them gets into a gap where it
does harm, a flush hides nothing before its time, and everything that was stored
before it afterwards.
-/

namespace Memstashed.Scmd

open Memstashed.Foundation
open Memstashed.Dblru

abbrev Together {κ : Type} [DecidableEq κ] (env : Env) (fuel : Nat)
    (requests : κ → Request) (history : Turns κ) (pool : κ → Sections Response)
    (t : State) : Prop :=
  Prog.Concurrent (Section.exec env) (fun _ _ _ _ => True)
    (fun k => (requests k).sections env fuel) State.init history pool t

/-! ## What the turns tell -/

section Turns

variable {κ : Type} [DecidableEq κ] (requests : κ → Request)

def stageOf (k : κ) : Turns κ → Stage
  | [] => .start (requests k)
  | e :: past =>
      if e.client = k then (stageOf k past).learn e.call e.answer
      else stageOf k past

abbrev phaseOf (past : Turns κ) (k : κ) : FlushPhase :=
  (stageOf requests k past).phase

def receivedAt (k : κ) : Turns κ → Option TimestampType
  | [] => none
  | e :: past =>
      (receivedAt k past).or
        (if e.client = k then some e.before.store.gTimestamp else none)

def ReceivedBefore (f : κ) (past : Turns κ) (stamp : TimestampType) : Prop :=
  ∃ received ∈ receivedAt f past, received < stamp

def AcceptedBefore (f k : κ) : Turns κ → Prop
  | [] => False
  | e :: past => AcceptedBefore f k past ∨
      e.client = f ∧ e.call.flushTime?.isSome = true ∧ receivedAt k past = none

/-- The key has been stored since the command of `f` was received. -/
def StoredSince (f : κ) (key : KeyType) : Turns κ → Prop
  | [] => False
  | e :: past => StoredSince f key past ∨
      (receivedAt f past).isSome = true ∧
        ∃ valueStr, e.call.stored e.answer = some (key, valueStr)

/-- Client `f` has set the time of its flush, and the flag has not been lowered
between this and the look that `k` took at it. -/
def WaitsFor (f k : κ) : Turns κ → Prop
  | [] => False
  | e :: past => e.client = f ∧ e.call.flushTime?.isSome = true ∨
      WaitsFor f k past ∧ (e.call.flushSet? = some false →
        (receivedAt k past).isSome = true)

/-- The stamp was published for a flush that was waiting, and whose second had
come when the publisher looked at the clock. -/
def PublishedInTime (history : Turns κ) (stamp : TimestampType) : Prop :=
  ∃ later past k before f time,
    history = later ++ ⟨k, .setFlushAllTimestamp stamp, before, ()⟩ :: past ∧
    (requests f).flushTime? = some time ∧ WaitsFor f k past ∧
    time ≤ (requests k).times.flush

/-- What is expected of `flush_all` in a run that has led to the store `s`. -/
structure FlushExact (history : Turns κ) (s : Store) : Prop where
  /-- What is hidden was hidden for a flush whose second had come. -/
  early : ∀ key it, s.entry key = some it → it.2 < s.gFlushAllTimestamp →
    PublishedInTime requests history s.gFlushAllTimestamp
  /-- A command that is received after the flush was accepted, and in its second
  or later, finds only what was stored after the flush was received. -/
  complete : ∀ later past k now key timestamp before found f time,
    history = later ++
      ⟨k, .getSection now key timestamp, before, some found⟩ :: past →
    (requests f).flushTime? = some time → AcceptedBefore f k past →
    time ≤ (requests k).times.flush → StoredSince f key past

/-! ## Gaps -/

/--
The turn of client `k` with the call `i` is none of those that do harm.  The
counter does not wrap, nor does the time of a flush; nobody looks at the flag
while a `flush_all` has raised it and not yet set the time; none raises it in
this gap, or in order to put off a flush that is waiting; it is not lowered
after a stamp that is older than a `flush_all` that raised it; stamps are
published in the order they were drawn; and no read lifts an entry over a stamp
that has been drawn and not been published.
-/
@[mk_iff] structure Harmless (past : Turns κ) (k : κ) (s : Store) (i : Section)
    (r : i.Answer) : Prop where
  counter : s.gTimestamp + 1 < wordSize
  time : i.flushTime?.isSome = true →
    ∀ time ∈ (requests k).flushTime?, time < wordSize
  look : i.looks = true → ∀ j, phaseOf requests past j ≠ .raised
  raise : i.flushSet? = some true →
    (∀ j, phaseOf requests past j ≠ .raised) ∧
      (s.gIsFlushAllSet = true →
        ∀ time ∈ (requests k).flushTime?, time ≤ s.gFlushAllTime)
  lower : i.flushSet? = some false →
    ∀ stamp ∈ (phaseOf requests past k).published?, ∀ j,
      phaseOf requests past j = .raised ∨
        phaseOf requests past j = .accepted → ReceivedBefore j past stamp
  publish : ∀ stamp ∈ i.flushStamp?, s.gFlushAllTimestamp ≤ stamp
  lift : ∀ hit ∈ i.hit? r, ∀ it ∈ s.entry hit.1, ∀ j,
    ∀ stamp ∈ (phaseOf requests past j).bumped?, it.2 < stamp → hit.2 < stamp

def AllHarmless : Turns κ → Prop
  | [] => True
  | e :: past => AllHarmless past ∧
      Harmless requests past e.client e.before.store e.call e.answer

instance (f : κ) (past : Turns κ) (stamp : TimestampType) :
    Decidable (ReceivedBefore f past stamp) :=
  inferInstanceAs (Decidable (∃ received ∈ receivedAt f past, received < stamp))

instance [Fintype κ] (past : Turns κ) (k : κ) (s : Store) (i : Section)
    (r : i.Answer) : Decidable (Harmless requests past k s i r) :=
  decidable_of_iff _ (harmless_iff requests past k s i r).symm

instance AllHarmless.decidable [Fintype κ] :
    (history : Turns κ) → Decidable (AllHarmless requests history)
  | [] => isTrue trivial
  | e :: past =>
      have := AllHarmless.decidable past
      inferInstanceAs (Decidable (_ ∧ Harmless requests past e.client _ _ _))

end Turns

/-! ## One turn -/

section Turn

variable {κ : Type} [DecidableEq κ] {requests : κ → Request}
  {past : Turns κ} {k : κ} {i : Section} {before : State} {r : i.Answer}

@[simp] theorem stageOf_request (j : κ) (past : Turns κ) :
    (stageOf requests j past).request = requests j := by
  induction past with
  | nil => rfl
  | cons e past ih =>
      simp only [stageOf]
      split
      · rw [Stage.learn_request, ih]
      · exact ih

theorem stageOf_self : stageOf requests k (⟨k, i, before, r⟩ :: past) =
    (stageOf requests k past).learn i r := if_pos rfl

theorem stageOf_ne {j : κ} (hj : j ≠ k) :
    stageOf requests j (⟨k, i, before, r⟩ :: past) = stageOf requests j past :=
  if_neg fun heq => hj heq.symm

theorem receivedAt_ne {j : κ} (hj : j ≠ k) :
    receivedAt j (⟨k, i, before, r⟩ :: past) = receivedAt j past := by
  have hother : ¬ k = j := fun heq => hj heq.symm
  simp [receivedAt, hother]

theorem receivedAt_of_received {j : κ}
    (h : (receivedAt j past).isSome = true) :
    receivedAt j (⟨k, i, before, r⟩ :: past) = receivedAt j past := by
  obtain ⟨received, hreceived⟩ := Option.isSome_iff_exists.mp h
  simp [receivedAt, hreceived]

theorem receivedAt_first (h : receivedAt k past = none) :
    receivedAt k (⟨k, i, before, r⟩ :: past) =
      some before.store.gTimestamp := by
  simp [receivedAt, h]

theorem receivedAt_self :
    (receivedAt k (⟨k, i, before, r⟩ :: past)).isSome = true := by
  cases hbefore : receivedAt k past with
  | none => rw [receivedAt_first hbefore, Option.isSome_some]
  | some received => rw [receivedAt_of_received (by simp [hbefore]), hbefore,
      Option.isSome_some]

/-- The turns a command can take: those of `dbHandleFlushAll`, those of
`dbSetFlushAll`, and others, which leave the flush alone. -/
inductive FlushTurn (time? : Option Nat) (clock : Nat) (s : Store) :
    FlushPhase → (i : Section) → i.Answer → FlushPhase → Store → Prop
  | see (set : s.gIsFlushAllSet = true) :
      FlushTurn time? clock s .unlooked .isFlushAllSet true .seen s
  | pass (unset : s.gIsFlushAllSet = false) :
      FlushTurn time? clock s .unlooked .isFlushAllSet false .handled s
  | come (due : s.gFlushAllTime ≤ clock) :
      FlushTurn time? clock s .seen .flushAllTime s.gFlushAllTime .due s
  | wait (later : clock < s.gFlushAllTime) :
      FlushTurn time? clock s .seen .flushAllTime s.gFlushAllTime .handled s
  | bump : FlushTurn time? clock s .due .bumpTimestamp
      (toWord (s.gTimestamp + 1)) (.bumped (toWord (s.gTimestamp + 1)))
      { s with gTimestamp := toWord (s.gTimestamp + 1) }
  | publish (stamp : TimestampType) : FlushTurn time? clock s (.bumped stamp)
      (.setFlushAllTimestamp stamp) () (.published stamp)
      { s with gFlushAllTimestamp := stamp }
  | lower (stamp : TimestampType) : FlushTurn time? clock s (.published stamp)
      (.setIsFlushAllSet false) () .handled { s with gIsFlushAllSet := false }
  | raise {time : Nat} (asked : time? = some time) :
      FlushTurn time? clock s .handled (.setIsFlushAllSet true) () .raised
        { s with gIsFlushAllSet := true }
  | accept {time : Nat} (asked : time? = some time) :
      FlushTurn time? clock s .raised (.setFlushAllTime (toWord time)) ()
        .accepted { s with gFlushAllTime := toWord time }
  | other {i : Section} {r : i.Answer} {s' : Store}
      (stamp : i.flushStamp? = none) (time : i.flushTime? = none)
      (set : i.flushSet? = none) :
      FlushTurn time? clock s .handled i r .handled s'

theorem flushTurn_of_allows {env : Env} {g : Stage} {s s' : Store}
    (hallows : g.Allows i) (happly : i.apply env s = (r, s')) :
    FlushTurn g.request.flushTime? g.request.times.flush s g.phase i r
      (g.learn i r).phase s' := by
  obtain ⟨request, phase, drawn⟩ := g
  cases i with
  | isFlushAllSet =>
      obtain rfl : phase = .unlooked := hallows
      cases happly
      cases hset : s.gIsFlushAllSet with
      | false => exact .pass hset
      | true => exact .see hset
  | flushAllTime =>
      obtain rfl : phase = .seen := hallows
      cases happly
      simp only [Stage.learn]
      split
      · exact .come ‹_›
      · exact .wait (not_le.mp ‹_›)
  | bumpTimestamp =>
      obtain rfl : phase = .due := hallows
      cases happly
      exact .bump
  | setFlushAllTimestamp stamp =>
      obtain rfl : phase = .bumped stamp := hallows
      cases happly
      exact .publish stamp
  | setIsFlushAllSet value =>
      cases value with
      | false =>
          obtain ⟨stamp, rfl⟩ : ∃ stamp, phase = .published stamp := hallows
          cases happly
          exact .lower stamp
      | true =>
          obtain ⟨hphase, hasked⟩ := hallows
          obtain rfl : phase = .handled := hphase
          obtain ⟨time, hasked⟩ := Option.isSome_iff_exists.mp hasked
          cases happly
          exact .raise hasked
  | setFlushAllTime time =>
      obtain ⟨hphase, time, hasked, rfl⟩ := hallows
      obtain rfl : phase = .raised := hphase
      cases happly
      exact .accept hasked
  | getSection now key timestamp =>
      obtain rfl : phase = .handled := hallows.1
      exact .other rfl rfl rfl
  | insertSection now key casUniq expiry valueStr timestamp =>
      obtain rfl : phase = .handled := hallows.1
      exact .other rfl rfl rfl
  | addSection now key expiry valueStr timestamp =>
      obtain rfl : phase = .handled := hallows.1
      exact .other rfl rfl rfl
  | _ =>
      obtain rfl : phase = .handled := hallows
      exact .other rfl rfl rfl

theorem allows_stamp {g : Stage} {timestamp : TimestampType}
    (hallows : g.Allows i) (hstamp : i.stamp? = some timestamp) :
    g.drawn = some timestamp := by
  cases i with
  | getSection now key stamp =>
      cases hstamp
      exact hallows.2
  | insertSection now key casUniq expiry valueStr stamp =>
      cases hstamp
      exact hallows.2
  | addSection now key expiry valueStr stamp =>
      cases hstamp
      exact hallows.2
  | _ => contradiction

theorem learn_drawn {env : Env} {g : Stage} {s s' : Store}
    {timestamp : TimestampType} (happly : i.apply env s = (r, s'))
    (hdrawn : (g.learn i r).drawn = some timestamp) :
    g.drawn = some timestamp ∨
      i.draws = true ∧ timestamp = s.gTimestamp := by
  cases i with
  | nextTimestamp =>
      cases happly
      cases hdrawn
      exact .inr ⟨rfl, rfl⟩
  | _ => exact .inl hdrawn

structure Counted (requests : κ → Request) (past : Turns κ) (s : Store) :
    Prop where
  stamped : Stamped s
  received : ∀ j received, receivedAt j past = some received →
    received ≤ s.gTimestamp
  unlooked : ∀ j, receivedAt j past = none ↔
    phaseOf requests past j = .unlooked
  drawn : ∀ j timestamp, (stageOf requests j past).drawn = some timestamp →
    timestamp < s.gTimestamp
  bumped : ∀ j stamp, phaseOf requests past j = .bumped stamp →
    stamp ≤ s.gTimestamp
  published : ∀ j stamp, phaseOf requests past j = .published stamp →
    stamp ≤ s.gFlushAllTimestamp

structure Taken (env : Env) (requests : κ → Request) (past : Turns κ) (k : κ)
    (i : Section) (before : State) (r : i.Answer) (s' : Store) : Prop where
  allows : (stageOf requests k past).Allows i
  applies : i.apply env before.store = (r, s')
  harmless : Harmless requests past k before.store i r

variable {env : Env} {s' : Store}

theorem Taken.turn (h : Taken env requests past k i before r s') :
    FlushTurn (requests k).flushTime? (requests k).times.flush before.store
      (phaseOf requests past k) i r
      (phaseOf requests (⟨k, i, before, r⟩ :: past) k) s' := by
  have hturn := flushTurn_of_allows h.allows h.applies
  rw [stageOf_request] at hturn
  rwa [phaseOf, phaseOf, stageOf_self]

theorem Taken.timestamp (h : Taken env requests past k i before r s') :
    before.store.gTimestamp ≤ s'.gTimestamp ∧
      (i.draws = true → s'.gTimestamp = before.store.gTimestamp + 1) := by
  have hcounter := (atomics_of_apply h.applies).timestamp
  rw [toWord_of_lt h.harmless.counter] at hcounter
  split at hcounter
  · exact ⟨by omega, fun _ => hcounter⟩
  · exact ⟨by omega, fun hdraws => absurd hdraws ‹_›⟩

theorem Taken.flushStamp (h : Taken env requests past k i before r s') :
    before.store.gFlushAllTimestamp ≤ s'.gFlushAllTimestamp := by
  rw [(atomics_of_apply h.applies).flushStamp]
  cases hstamp : i.flushStamp? with
  | none => exact le_rfl
  | some stamp => exact h.harmless.publish stamp hstamp

theorem Counted.step (h : Counted requests past before.store)
    (ht : Taken env requests past k i before r s') :
    Counted requests (⟨k, i, before, r⟩ :: past) s' := by
  obtain ⟨hcounter, hdraws⟩ := ht.timestamp
  have hturn := ht.turn
  generalize hphase : phaseOf requests past k = p at hturn
  generalize hphase' : phaseOf requests (⟨k, i, before, r⟩ :: past) k = p'
    at hturn
  refine ⟨⟨?_, ?_⟩, ?_, ?_, ?_, ?_, ?_⟩
  · have hflushed := h.stamped.flushed
    have hstamp := (atomics_of_apply ht.applies).flushStamp
    cases hturn with
    | publish stamp => exact h.bumped k stamp hphase
    | other hnone => 
      rw [hstamp, hnone]
      exact hflushed.trans hcounter
    | _ => exact hflushed.trans hcounter
  · intro key it hentry
    rcases stamp_of_apply ht.applies hentry with ⟨old, hold, hsame⟩ | ⟨hstamp, -⟩
    · rw [hsame]
      exact (h.stamped.entries key old hold).trans_le hcounter
    · exact (h.drawn k it.2 (allows_stamp ht.allows hstamp)).trans_le hcounter
  · intro j received hreceived
    refine le_trans ?_ hcounter
    by_cases hj : j = k
    · subst hj
      cases hbefore : receivedAt j past with
      | none =>
          rw [receivedAt_first hbefore] at hreceived
          cases hreceived
          exact le_rfl
      | some n =>
          rw [receivedAt_of_received (by simp [hbefore])] at hreceived
          exact h.received j received hreceived
    · rw [receivedAt_ne hj] at hreceived
      exact h.received j received hreceived
  · intro j
    by_cases hj : j = k
    · subst hj
      refine iff_of_false ?_ ?_
      · exact Option.isSome_iff_ne_none.mp receivedAt_self
      · rw [hphase']
        cases hturn <;> simp
    · rw [receivedAt_ne hj, phaseOf, stageOf_ne hj]
      exact h.unlooked j
  · intro j timestamp hdrawn
    by_cases hj : j = k
    · subst hj
      rw [stageOf_self] at hdrawn
      rcases learn_drawn ht.applies hdrawn with hold | ⟨hnext, rfl⟩
      · exact (h.drawn j timestamp hold).trans_le hcounter
      · rw [hdraws hnext]
        exact Nat.lt_succ_self _
    · rw [stageOf_ne hj] at hdrawn
      exact (h.drawn j timestamp hdrawn).trans_le hcounter
  · intro j stamp hbumped
    by_cases hj : j = k
    · subst hj
      rw [hphase'] at hbumped
      subst hbumped
      cases hturn
      exact le_rfl
    · rw [phaseOf, stageOf_ne hj] at hbumped
      exact (h.bumped j stamp hbumped).trans hcounter
  · intro j stamp hpublished
    by_cases hj : j = k
    · subst hj
      rw [hphase'] at hpublished
      subst hpublished
      cases hturn
      exact le_rfl
    · rw [phaseOf, stageOf_ne hj] at hpublished
      exact (h.published j stamp hpublished).trans ht.flushStamp

theorem phaseOf_ne {j : κ} (hj : j ≠ k) :
    phaseOf requests (⟨k, i, before, r⟩ :: past) j =
      phaseOf requests past j := by
  rw [phaseOf, stageOf_ne hj]

end Turn

end Memstashed.Scmd
