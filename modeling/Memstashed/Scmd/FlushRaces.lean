import Memstashed.Scmd.FlushTurns

/-!
# `flush_all` in every run without harm

A handler that goes on with a flush does so for one whose second has come, and a
command that comes after the flush finds it carried out.  Both follow from what
each turn keeps.
-/

namespace Memstashed.Scmd

open Memstashed.Foundation
open Memstashed.Dblru

/-! ## Not too early -/

section Early

variable {κ : Type} [DecidableEq κ] {requests : κ → Request}
  {past : Turns κ} {k : κ} {i : Section} {before : State} {r : i.Answer}
  {env : Env} {s s' : Store}

def TimeOfWaiting (requests : κ → Request) (past : Turns κ) (s : Store)
    (j : κ) : Prop :=
  ∃ f, WaitsFor f j past ∧ (requests f).flushTime? = some s.gFlushAllTime

structure ActsInTime (requests : κ → Request) (past : Turns κ) (s : Store) :
    Prop where
  unlooked : s.gIsFlushAllSet = true → ∀ j, receivedAt j past = none →
    TimeOfWaiting requests past s j ∨ ∃ f, phaseOf requests past f = .raised
  seen : ∀ j, phaseOf requests past j = .seen →
    TimeOfWaiting requests past s j
  due : ∀ j, (phaseOf requests past j = .due ∨
      ∃ stamp, phaseOf requests past j = .bumped stamp) →
    ∃ f time, WaitsFor f j past ∧ (requests f).flushTime? = some time ∧
      time ≤ (requests j).times.flush
  published : s.gFlushAllTimestamp ≠ 0 →
    PublishedInTime requests past s.gFlushAllTimestamp

theorem WaitsFor.later {f j : κ} (h : WaitsFor f j past)
    (hlower : i.flushSet? = some false → (receivedAt j past).isSome = true) :
    WaitsFor f j (⟨k, i, before, r⟩ :: past) :=
  .inr ⟨h, hlower⟩

theorem PublishedInTime.later {stamp : TimestampType}
    (h : PublishedInTime requests past stamp) :
    PublishedInTime requests (⟨k, i, before, r⟩ :: past) stamp := by
  obtain ⟨later, earlier, j, t, f, time, rfl, hrest⟩ := h
  exact ⟨_ :: later, earlier, j, t, f, time, rfl, hrest⟩

theorem Counted.isReceived {j : κ} (h : Counted requests past s)
    (hlooked : phaseOf requests past j ≠ .unlooked) :
    (receivedAt j past).isSome = true := by
  rw [Option.isSome_iff_ne_none]
  exact fun hnone => hlooked ((h.unlooked j).mp hnone)

theorem Taken.flushTime (ht : Taken env requests past k i before r s')
    (hset : i.flushTime?.isSome = true) :
    phaseOf requests past k = .raised ∧
      (requests k).flushTime? = some s'.gFlushAllTime := by
  have hturn := ht.turn
  have htime := ht.harmless.time hset
  generalize phaseOf requests past k = p at hturn ⊢
  generalize phaseOf requests (⟨k, i, before, r⟩ :: past) k = p' at hturn
  cases hturn with
  | @accept time hasked =>
      refine ⟨rfl, ?_⟩
      change (requests k).flushTime? = some (toWord time)
      rw [toWord_of_lt (htime time hasked), hasked]
  | other hstamp hnone =>
      rw [hnone] at hset
      contradiction
  | _ => contradiction

theorem Taken.accepts (ht : Taken env requests past k i before r s')
    (hraised : phaseOf requests past k = .raised) :
    i.flushTime?.isSome = true := by
  have hturn := ht.turn
  rw [hraised] at hturn
  generalize phaseOf requests (⟨k, i, before, r⟩ :: past) k = p' at hturn
  cases hturn
  rfl

theorem Taken.raises (ht : Taken env requests past k i before r s')
    (hset : i.flushSet? = some true) :
    phaseOf requests (⟨k, i, before, r⟩ :: past) k = .raised := by
  have hturn := ht.turn
  generalize phaseOf requests past k = p at hturn
  generalize phaseOf requests (⟨k, i, before, r⟩ :: past) k = p' at hturn ⊢
  cases hturn with
  | raise asked => rfl
  | other hstamp htime hnone =>
      rw [hnone] at hset
      contradiction
  | _ => contradiction

theorem TimeOfWaiting.step {j : κ}
    (h : TimeOfWaiting requests past before.store j)
    (ht : Taken env requests past k i before r s')
    (hlower : i.flushSet? = some false → (receivedAt j past).isSome = true) :
    TimeOfWaiting requests (⟨k, i, before, r⟩ :: past) s' j := by
  obtain ⟨f, hwaits, htime⟩ := h
  cases hset : i.flushTime? with
  | none =>
      have hkept := (atomics_of_apply ht.applies).flushTime
      rw [hset] at hkept
      exact ⟨f, hwaits.later hlower, hkept ▸ htime⟩
  | some time =>
      have hsome : i.flushTime?.isSome = true := by rw [hset]; rfl
      exact ⟨k, .inl ⟨rfl, hsome⟩, (ht.flushTime hsome).2⟩

theorem ActsInTime.step (h : ActsInTime requests past before.store)
    (hc : Counted requests past before.store)
    (ht : Taken env requests past k i before r s') :
    ActsInTime requests (⟨k, i, before, r⟩ :: past) s' := by
  have hturn := ht.turn
  have hatomics := atomics_of_apply ht.applies
  generalize hphase : phaseOf requests past k = p at hturn
  generalize hphase' : phaseOf requests (⟨k, i, before, r⟩ :: past) k = p'
    at hturn
  refine ⟨fun hset j hj => ?_, fun j hj => ?_, fun j hj => ?_, fun hne => ?_⟩
  · have hjk : j ≠ k := by
      rintro rfl
      exact absurd hj (Option.isSome_iff_ne_none.mp receivedAt_self)
    rw [receivedAt_ne hjk] at hj
    rw [hatomics.flushSet] at hset
    cases hflag : i.flushSet? with
    | some value =>
        rw [hflag] at hset
        cases hset
        exact .inr ⟨k, ht.raises hflag⟩
    | none =>
        rw [hflag] at hset
        rcases h.unlooked hset j hj with hwaits | ⟨f, hraised⟩
        · exact .inl (hwaits.step ht fun hlower =>
            absurd (hflag.symm.trans hlower) nofun)
        · by_cases hf : f = k
          · subst hf
            have haccepts := ht.accepts hraised
            exact .inl ⟨f, .inl ⟨rfl, haccepts⟩, (ht.flushTime haccepts).2⟩
          · exact .inr ⟨f, (phaseOf_ne hf).trans hraised⟩
  · by_cases hjk : j = k
    · subst hjk
      rw [hphase'] at hj
      subst hj
      cases hturn with
      | see hset =>
          have hunlooked := (hc.unlooked j).mpr hphase
          rcases h.unlooked hset j hunlooked with hwaits | ⟨f, hraised⟩
          · exact hwaits.step ht nofun
          · exact absurd hraised (ht.harmless.look rfl f)
    · rw [phaseOf_ne hjk] at hj
      refine (h.seen j hj).step ht fun _ => hc.isReceived ?_
      rw [hj]
      exact nofun
  · by_cases hjk : j = k
    · subst hjk
      rw [hphase'] at hj
      rcases hj with rfl | ⟨stamp, rfl⟩
      · cases hturn with
        | come hdue =>
            obtain ⟨f, hwaits, htime⟩ := h.seen j hphase
            exact ⟨f, _, hwaits.later nofun, htime, hdue⟩
      · cases hturn
        obtain ⟨f, time, hwaits, htime, hcome⟩ := h.due j (.inl hphase)
        exact ⟨f, time, hwaits.later nofun, htime, hcome⟩
    · rw [phaseOf_ne hjk] at hj
      obtain ⟨f, time, hwaits, htime, hcome⟩ := h.due j hj
      refine ⟨f, time, hwaits.later fun _ => hc.isReceived ?_, htime, hcome⟩
      rcases hj with hj | ⟨stamp, hj⟩
      · rw [hj]
        exact nofun
      · rw [hj]
        exact nofun
  · cases hturn with
    | publish stamp =>
        obtain ⟨f, time, hwaits, htime, hcome⟩ := h.due k (.inr ⟨stamp, hphase⟩)
        exact ⟨[], past, k, before, f, time, rfl, htime, hwaits, hcome⟩
    | other hstamp =>
        have hsame := hatomics.flushStamp
        rw [hstamp] at hsame
        rw [hsame] at hne ⊢
        exact (h.published hne).later
    | _ => exact (h.published hne).later

end Early

/-! ## Not too late -/

section Complete

variable {κ : Type} [DecidableEq κ] {requests : κ → Request}
  {past : Turns κ} {k : κ} {i : Section} {before : State} {r : i.Answer}
  {env : Env} {s s' : Store}

/-- A flush that was asked for is waiting, unless a stamp that is newer than the
command has been published. -/
structure Armed (requests : κ → Request) (past : Turns κ) (s : Store) :
    Prop where
  raised : ∀ f, phaseOf requests past f = .raised ∨
      phaseOf requests past f = .accepted →
    ReceivedBefore f past s.gFlushAllTimestamp ∨ s.gIsFlushAllSet = true
  accepted : ∀ f time, phaseOf requests past f = .accepted →
    (requests f).flushTime? = some time →
    ReceivedBefore f past s.gFlushAllTimestamp ∨ s.gFlushAllTime ≤ time
  alone : ∀ j f, phaseOf requests past j = .raised →
    phaseOf requests past f = .raised → j = f
  raising : ∀ j f time time', phaseOf requests past j = .raised →
    (requests j).flushTime? = some time →
    phaseOf requests past f = .accepted →
    (requests f).flushTime? = some time' →
    ReceivedBefore f past s.gFlushAllTimestamp ∨ time ≤ time'

/-- What has not been stored since a command was received is older than the
stamps that are newer than the command. -/
structure Outdated (requests : κ → Request) (past : Turns κ) (s : Store) :
    Prop where
  published : ∀ f key it, ReceivedBefore f past s.gFlushAllTimestamp →
    ¬ StoredSince f key past → s.entry key = some it →
    it.2 < s.gFlushAllTimestamp
  bumped : ∀ f key it j stamp, ReceivedBefore f past stamp →
    ¬ StoredSince f key past → s.entry key = some it →
    phaseOf requests past j = .bumped stamp → it.2 < stamp

def FlushPhase.IsPast : FlushPhase → Prop
  | .published _ => True
  | .handled => True
  | .raised => True
  | .accepted => True
  | _ => False

/-- A command that comes after a flush was accepted finds it carried out, or does
that. -/
structure CarriesOut (requests : κ → Request) (past : Turns κ) (s : Store) :
    Prop where
  accepted : ∀ f j, AcceptedBefore f j past →
    phaseOf requests past f = .accepted
  bumped : ∀ f j stamp, AcceptedBefore f j past →
    phaseOf requests past j = .bumped stamp → ReceivedBefore f past stamp
  past : ∀ f j time, AcceptedBefore f j past →
    (requests f).flushTime? = some time → time ≤ (requests j).times.flush →
    (phaseOf requests past j).IsPast →
    ReceivedBefore f past s.gFlushAllTimestamp

theorem ReceivedBefore.later {f : κ} {stamp stamp' : TimestampType}
    (h : ReceivedBefore f past stamp) (hle : stamp ≤ stamp') :
    ReceivedBefore f (⟨k, i, before, r⟩ :: past) stamp' := by
  obtain ⟨received, hreceived, hlt⟩ := h
  refine ⟨received, ?_, hlt.trans_le hle⟩
  rwa [receivedAt_of_received (Option.isSome_of_mem hreceived)]

theorem ReceivedBefore.earlier {f : κ} {stamp : TimestampType}
    (h : ReceivedBefore f (⟨k, i, before, r⟩ :: past) stamp)
    (hdrawn : stamp ≤ before.store.gTimestamp) :
    ReceivedBefore f past stamp := by
  obtain ⟨received, hreceived, hlt⟩ := h
  refine ⟨received, ?_, hlt⟩
  by_cases hf : f = k
  · subst hf
    cases hbefore : receivedAt f past with
    | none =>
        rw [receivedAt_first hbefore] at hreceived
        cases hreceived
        exact absurd hlt (not_lt.mpr hdrawn)
    | some n =>
        rwa [receivedAt_of_received (by rw [hbefore]; rfl), hbefore]
          at hreceived
  · rwa [receivedAt_ne hf] at hreceived

theorem Armed.step (h : Armed requests past before.store)
    (hc : Counted requests past before.store)
    (ht : Taken env requests past k i before r s') :
    Armed requests (⟨k, i, before, r⟩ :: past) s' := by
  have hturn := ht.turn
  have hatomics := atomics_of_apply ht.applies
  have hmono := ht.flushStamp
  generalize hphase : phaseOf requests past k = p at hturn
  generalize hphase' : phaseOf requests (⟨k, i, before, r⟩ :: past) k = p'
    at hturn
  refine ⟨fun f hf => ?_, fun f time hf htime => ?_, fun j f hj hf => ?_,
    fun j f time time' hj htime hf htime' => ?_⟩
  · by_cases hfk : f = k
    · subst hfk
      rw [hphase'] at hf
      rcases hf with rfl | rfl
      · cases hturn
        exact .inr rfl
      · cases hturn
        exact (h.raised f (.inl hphase)).imp_left fun hpast => hpast.later hmono
    · rw [phaseOf_ne hfk] at hf
      rcases h.raised f hf with hpast | hset
      · exact .inl (hpast.later hmono)
      · cases hturn with
        | lower stamp =>
            have hnewer := ht.harmless.lower rfl stamp (by rw [hphase]; rfl) f hf
            exact .inl (hnewer.later (hc.published k stamp hphase))
        | other _ _ hnone =>
            rw [hatomics.flushSet, hnone]
            exact .inr hset
        | raise => exact .inr rfl
        | _ => exact .inr hset
  · by_cases hfk : f = k
    · subst hfk
      rw [hphase'] at hf
      subst hf
      cases hturn with
      | accept hasked =>
          have hset := (ht.flushTime rfl).2
          rw [htime] at hset
          cases hset
          exact .inr le_rfl
    · rw [phaseOf_ne hfk] at hf
      cases hset : i.flushTime? with
      | none =>
          rw [hatomics.flushTime, hset]
          exact (h.accepted f time hf htime).imp_left fun hpast =>
            hpast.later hmono
      | some x =>
          obtain ⟨hraised, hasked⟩ := ht.flushTime (by rw [hset]; rfl)
          exact (h.raising k f _ time hraised hasked hf htime).imp_left
            fun hpast => hpast.later hmono
  · by_cases hjk : j = k
    · by_cases hfk : f = k
      · rw [hjk, hfk]
      · subst hjk
        rw [hphase'] at hj
        subst hj
        rw [phaseOf_ne hfk] at hf
        cases hturn
        exact absurd hf ((ht.harmless.raise rfl).1 f)
    · rw [phaseOf_ne hjk] at hj
      by_cases hfk : f = k
      · subst hfk
        rw [hphase'] at hf
        subst hf
        cases hturn
        exact absurd hj ((ht.harmless.raise rfl).1 j)
      · rw [phaseOf_ne hfk] at hf
        exact h.alone j f hj hf
  · by_cases hjk : j = k
    · subst hjk
      have hfj : f ≠ j := by
        rintro rfl
        rw [hj] at hf
        contradiction
      rw [hphase'] at hj
      subst hj
      rw [phaseOf_ne hfj] at hf
      cases hturn
      cases hset : before.store.gIsFlushAllSet with
      | true =>
          have hsooner := (ht.harmless.raise rfl).2 hset time htime
          rcases h.accepted f time' hf htime' with hpast | hwaits
          · exact .inl (hpast.later hmono)
          · exact .inr (hsooner.trans hwaits)
      | false =>
          rcases h.raised f (.inr hf) with hpast | hwaits
          · exact .inl (hpast.later hmono)
          · rw [hset] at hwaits
            contradiction
    · rw [phaseOf_ne hjk] at hj
      by_cases hfk : f = k
      · subst hfk
        rw [hphase'] at hf
        subst hf
        cases hturn
        exact absurd (h.alone j f hj hphase) hjk
      · rw [phaseOf_ne hfk] at hf
        exact (h.raising j f time time' hj htime hf htime').imp_left
          fun hpast => hpast.later hmono

theorem reads_of_stamps {f : κ} {key : KeyType}
    {timestamp stamp : TimestampType} (hpast : ReceivedBefore f past stamp)
    (hnot : ¬ StoredSince f key (⟨k, i, before, r⟩ :: past))
    (hstamps : i.Stamps before.store key timestamp r) :
    i.hit? r = some (key, timestamp) ∧
      ∃ it, before.store.entry key = some it ∧
        before.store.gFlushAllTimestamp ≤ it.2 := by
  obtain ⟨received, hreceived, -⟩ := hpast
  refine hstamps.resolve_left fun hstored => hnot (.inr ⟨?_, hstored⟩)
  rw [hreceived]
  rfl

theorem Outdated.step (h : Outdated requests past before.store)
    (hc : Counted requests past before.store)
    (ht : Taken env requests past k i before r s') :
    Outdated requests (⟨k, i, before, r⟩ :: past) s' := by
  have hturn := ht.turn
  have hflushed := hc.stamped.flushed
  generalize hphase : phaseOf requests past k = p at hturn
  generalize hphase' : phaseOf requests (⟨k, i, before, r⟩ :: past) k = p'
    at hturn
  refine ⟨fun f key it hnew hnot hentry => ?_,
    fun f key it j stamp hnew hnot hentry hj => ?_⟩
  · have hnot' : ¬ StoredSince f key past := fun hs => hnot (.inl hs)
    cases hturn with
    | publish stamp =>
        have hpast := hnew.earlier (hc.bumped k stamp hphase)
        exact h.bumped f key it k stamp hpast hnot' hentry hphase
    | other hstamp =>
        have hsame := (atomics_of_apply ht.applies).flushStamp
        rw [hstamp] at hsame
        rw [hsame] at hnew ⊢
        have hpast := hnew.earlier hflushed
        rcases stamp_of_apply ht.applies hentry with
          ⟨old, hold, hkept⟩ | ⟨-, hstamps⟩
        · rw [hkept]
          exact h.published f key old hpast hnot' hold
        · obtain ⟨-, old, hold, hlive⟩ := reads_of_stamps hpast hnot hstamps
          have hdead := h.published f key old hpast hnot' hold
          exact absurd hdead (not_lt.mpr hlive)
    | _ => exact h.published f key it (hnew.earlier hflushed) hnot' hentry
  · have hnot' : ¬ StoredSince f key past := fun hs => hnot (.inl hs)
    by_cases hjk : j = k
    · subst hjk
      rw [hphase'] at hj
      subst hj
      cases hturn
      have holder := hc.stamped.entries key it hentry
      rw [toWord_of_lt ht.harmless.counter]
      exact holder.trans (Nat.lt_succ_self _)
    · rw [phaseOf_ne hjk] at hj
      have hpast := hnew.earlier (hc.bumped j stamp hj)
      rcases stamp_of_apply ht.applies hentry with
        ⟨old, hold, hkept⟩ | ⟨-, hstamps⟩
      · rw [hkept]
        exact h.bumped f key old j stamp hpast hnot' hold hj
      · obtain ⟨hhit, old, hold, -⟩ := reads_of_stamps hpast hnot hstamps
        have holder := h.bumped f key old j stamp hpast hnot' hold hj
        exact ht.harmless.lift _ hhit old hold j stamp (by rw [hj]; rfl) holder

theorem AcceptedBefore.earlier {f j : κ}
    (h : AcceptedBefore f j (⟨k, i, before, r⟩ :: past))
    (hreceived : (receivedAt j past).isSome = true) :
    AcceptedBefore f j past := by
  refine h.resolve_right ?_
  rintro ⟨-, -, hnone⟩
  rw [hnone] at hreceived
  contradiction

theorem CarriesOut.step (h : CarriesOut requests past before.store)
    (ha : Armed requests past before.store)
    (hc : Counted requests past before.store)
    (ht : Taken env requests past k i before r s') :
    CarriesOut requests (⟨k, i, before, r⟩ :: past) s' := by
  have hturn := ht.turn
  have hmono := ht.flushStamp
  generalize hphase : phaseOf requests past k = p at hturn
  generalize hphase' : phaseOf requests (⟨k, i, before, r⟩ :: past) k = p'
    at hturn
  refine ⟨fun f j hbefore => ?_, fun f j stamp hbefore hj => ?_,
    fun f j time hbefore htime hcome hj => ?_⟩
  · rcases hbefore with hpast | ⟨rfl, hset, -⟩
    · have haccepted := h.accepted f j hpast
      by_cases hf : f = k
      · subst hf
        rw [haccepted] at hphase
        subst hphase
        cases hturn
      · rw [phaseOf_ne hf]
        exact haccepted
    · have hraised := (ht.flushTime hset).1
      rw [hphase] at hraised
      subst hraised
      cases hturn
      exact hphase'
  · by_cases hjk : j = k
    · subst hjk
      rw [hphase'] at hj
      subst hj
      cases hturn
      have hpast := hbefore.earlier (hc.isReceived (by rw [hphase]; exact nofun))
      have haccepted := h.accepted f j hpast
      obtain ⟨received, hreceived⟩ := Option.isSome_iff_exists.mp
        (hc.isReceived (j := f) (by rw [haccepted]; exact nofun))
      have hcounted := hc.received f received hreceived
      rw [toWord_of_lt ht.harmless.counter]
      exact ReceivedBefore.later
        ⟨received, hreceived, Nat.lt_succ_of_le hcounted⟩ le_rfl
    · rw [phaseOf_ne hjk] at hj
      have hpast := hbefore.earlier (hc.isReceived (by rw [hj]; exact nofun))
      exact (h.bumped f j stamp hpast hj).later le_rfl
  · by_cases hjk : j = k
    · subst hjk
      rw [hphase'] at hj
      have hearlier (hlooked : p ≠ .unlooked) : AcceptedBefore f j past :=
        hbefore.earlier (hc.isReceived (hphase ▸ hlooked))
      cases hturn with
      | see => exact absurd hj not_false
      | come => exact absurd hj not_false
      | bump => exact absurd hj not_false
      | pass hunset =>
          have hpast : AcceptedBefore f j past :=
            hbefore.resolve_right fun hnow => absurd hnow.2.1 nofun
          rcases ha.raised f (.inr (h.accepted f j hpast)) with hnewer | hset
          · exact hnewer.later hmono
          · rw [hunset] at hset
            contradiction
      | wait hlater =>
          have hpast := hearlier nofun
          rcases ha.accepted f time (h.accepted f j hpast) htime with
            hnewer | hsooner
          · exact hnewer.later hmono
          · exact absurd (hsooner.trans hcome) (not_le.mpr hlater)
      | publish stamp =>
          exact (h.bumped f j stamp (hearlier nofun) hphase).later le_rfl
      | _ =>
          refine (h.past f j time (hearlier nofun) htime hcome ?_).later hmono
          rw [hphase]
          trivial
    · rw [phaseOf_ne hjk] at hj
      have hlooked : phaseOf requests past j ≠ .unlooked := by
        intro hunlooked
        rw [hunlooked] at hj
        exact hj
      have hpast := hbefore.earlier (hc.isReceived hlooked)
      exact (h.past f j time hpast htime hcome hj).later hmono

end Complete

/-! ## Whole runs -/

section Runs

variable {κ : Type} [DecidableEq κ] {requests : κ → Request}
  {history past : Turns κ} {k : κ} {i : Section} {before : State} {r : i.Answer}
  {env : Env} {fuel : Nat} {pool : κ → Sections Response} {s s' : Store}
  {t : State}

structure FlushKept (requests : κ → Request) (past : Turns κ) (s : Store) :
    Prop where
  counted : Counted requests past s
  acts : ActsInTime requests past s
  armed : Armed requests past s
  outdated : Outdated requests past s
  carries : CarriesOut requests past s

theorem flushKept_start : FlushKept requests [] Store.init where
  counted := ⟨stamped_init, nofun, fun _ => iff_of_true rfl rfl, nofun, nofun,
    nofun⟩
  acts := ⟨nofun, nofun, fun _ hj => hj.elim nofun nofun,
    fun hne => absurd rfl hne⟩
  armed := ⟨fun _ hf => hf.elim nofun nofun, nofun, nofun, nofun⟩
  outdated := by
    refine ⟨fun f key it hpast => ?_, fun f key it j stamp hpast => ?_⟩
    · obtain ⟨_, hreceived, -⟩ := hpast
      cases hreceived
    · obtain ⟨_, hreceived, -⟩ := hpast
      cases hreceived
  carries := ⟨fun _ _ h => h.elim, fun _ _ _ h => h.elim,
    fun _ _ _ h => h.elim⟩

theorem FlushKept.step (h : FlushKept requests past before.store)
    (ht : Taken env requests past k i before r s') :
    FlushKept requests (⟨k, i, before, r⟩ :: past) s' :=
  ⟨h.counted.step ht, h.acts.step h.counted ht, h.armed.step h.counted ht,
    h.outdated.step h.counted ht, h.carries.step h.armed h.counted ht⟩

theorem stageOf_update :
    Function.update (fun j => stageOf requests j past) k
        ((stageOf requests k past).learn i r) =
      fun j => stageOf requests j (⟨k, i, before, r⟩ :: past) := by
  funext j
  by_cases hj : j = k
  · subst hj
    rw [Function.update_self, stageOf_self]
  · rw [Function.update_of_ne hj, stageOf_ne hj]

theorem flushKept_of_together
    (h : Together env fuel requests history pool t)
    (hok : AllHarmless requests history) :
    FlushKept requests history t.store ∧
      ∀ k, Prog.Obeys Stage.Allows Stage.learn (fun _ _ => True)
        (stageOf requests k history) (pool k) := by
  obtain ⟨g, ⟨rfl, hkept⟩, hpool⟩ := Prog.Concurrent.invariant
    (fun history g t => g = (fun k => stageOf requests k history) ∧
      (AllHarmless requests history → FlushKept requests history t.store))
    (fun k => obeys_sections env fuel (requests k))
    ⟨rfl, fun _ => flushKept_start⟩
    (fun history g pool before k i r t' hinv _ hallows _ hexec => by
      obtain ⟨rfl, hkept⟩ := hinv
      exact ⟨stageOf_update, fun hall => (hkept hall.1).step
        ⟨hallows, Section.apply_of_exec hexec, hall.2⟩⟩) h
  exact ⟨hkept hok, hpool⟩

theorem AllHarmless.upTo {later : Turns κ}
    {e : Prog.Event Section Section.Answer State κ}
    (h : AllHarmless requests (later ++ e :: past)) :
    AllHarmless requests past := by
  induction later with
  | nil => exact h.1
  | cons first later ih => exact ih h.1

/--
In a run in which no turn falls into a gap where it does harm, a flush hides
nothing before its second, and what was stored before it was received is missed
by every command that comes after it was accepted, from its second on.
-/
theorem flush_exact (env : Env) (fuel : Nat) (requests : κ → Request)
    (h : Together env fuel requests history pool t)
    (hok : AllHarmless requests history) :
    FlushExact requests history t.store := by
  obtain ⟨hkept, -⟩ := flushKept_of_together h hok
  refine ⟨fun key it _ hhidden => hkept.acts.published ?_, ?_⟩
  · exact Nat.ne_zero_of_lt hhidden
  rintro later past k now key timestamp before found f time rfl htime hbefore
    hcome
  obtain ⟨pool', next, s', hpast, hnext, hexec⟩ := h.upTo
  obtain ⟨hthen, hobeys⟩ := flushKept_of_together hpast hok.upTo
  have hcall := hobeys k
  rw [hnext] at hcall
  cases hcall with
  | call hallows _ =>
      have hphase : phaseOf requests past k = .handled := hallows.1
      have hnewer := hthen.carries.past f k time hbefore htime hcome
        (by rw [hphase]; trivial)
      by_contra hnot
      have happly : getSection now key timestamp before.store =
          (some found, s'.store) := Section.apply_of_exec hexec
      rcases getSection_cases happly with
        ⟨-, hmiss, -⟩ | ⟨it, -, -, hmiss, -⟩ | ⟨it, hentry, hlive, -, -⟩
      · contradiction
      · contradiction
      · exact hlive (.inr (hthen.outdated.published f key it hnewer hnot hentry))

end Runs

/-! ## Three clients -/

section Clients

def setFlushGet (delay : Bytes) : Fin 3 → Request
  | 0 => ⟨.const 1000, ascii "set k 0 60 1\r\n5\r\n"⟩
  | 1 => ⟨.const 1000, ascii "flush_all" ++ delay ++ crlf⟩
  | 2 => ⟨.const 1000, ascii "get k\r\n"⟩

/-- One after another. -/
theorem flush_exact_setFlushGet :
    ∃ history pool t, Together Env.x86 1 (setFlushGet []) history pool t ∧
      AllHarmless (setFlushGet []) history ∧
      pool 2 = .done ⟨0, ascii "END\r\n"⟩ ∧
      FlushExact (setFlushGet []) history t.store := by
  obtain ⟨history, pool, t, h, hharmless, hmissed⟩ := Prog.exists_concurrent_of_turns
    (Section.exec Env.x86) (fun _ _ _ _ => True)
    (fun k => (setFlushGet [] k).sections Env.x86 1) State.init
    [0, 0, 0, 0, 0, 0, 0, 1, 1, 1, 2, 2, 2, 2, 2, 2, 2]
    (fun history pool _ => AllHarmless (setFlushGet []) history ∧
      (pool 2).result? = some ⟨0, ascii "END\r\n"⟩)
    (by decide +kernel)
  exact ⟨history, pool, t, h, hharmless, Prog.eq_done_of_result? hmissed,
    flush_exact Env.x86 1 (setFlushGet []) h hharmless⟩

theorem WaitsFor.accepted {κ : Type} [DecidableEq κ] {past : Turns κ} {f k : κ}
    (h : WaitsFor f k past) :
    ∃ e ∈ past, e.call.flushTime?.isSome = true := by
  induction past with
  | nil => exact h.elim
  | cons e past ih =>
      rcases h with ⟨-, hset⟩ | ⟨hwaits, -⟩
      · exact ⟨e, List.mem_cons_self, hset⟩
      · obtain ⟨e', he', hset⟩ := ih hwaits
        exact ⟨e', List.mem_cons_of_mem _ he', hset⟩

/-- The get comes while the flag is raised and the time is not set. -/
theorem flush_hides_before_time :
    ¬ ∀ (env : Env) (fuel : Nat) (requests : Fin 3 → Request)
        (history : Turns (Fin 3)) (pool : Fin 3 → Sections Response) (t : State),
      Together env fuel requests history pool t →
      FlushExact requests history t.store := by
  intro hall
  obtain ⟨history, pool, t, h, hunset, hhidden⟩ :=
    Prog.exists_concurrent_of_turns
      (Section.exec Env.x86) (fun _ _ _ _ => True)
      (fun k => (setFlushGet (ascii " 100") k).sections Env.x86 1)
      State.init [0, 0, 0, 0, 0, 0, 0, 1, 1, 2, 2, 2, 2]
      (fun history _ t => (∀ e ∈ history, e.call.flushTime? = none) ∧
        ∃ it ∈ t.store.entry (ascii "k"), it.2 < t.store.gFlushAllTimestamp)
      (by decide +kernel)
  obtain ⟨it, hentry, hlt⟩ := hhidden
  have hexact := hall Env.x86 1 (setFlushGet (ascii " 100")) history pool t h
  obtain ⟨later, past, k, before, f, time, rfl, -, hwaits, -⟩ :=
    hexact.early (ascii "k") it hentry hlt
  obtain ⟨e, he, hset⟩ := hwaits.accepted
  have hnone := hunset e (List.mem_append_right _ (List.mem_cons_of_mem _ he))
  rw [hnone] at hset
  contradiction

end Clients

end Memstashed.Scmd
