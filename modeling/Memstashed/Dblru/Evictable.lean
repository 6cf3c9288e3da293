import Memstashed.Dblru.Frame
import Memstashed.Dblru.Protocol

/-!
# Every key stays evictable

The map and the timestamp set of a bucket are changed under different mutexes.
A timestamp belongs to the key it was drawn for; a key of the map has an entry
in its set, or a call that is about to put one there.
-/

namespace Memstashed.Dblru

open Memstashed.Foundation

/-! ## The timestamp sets -/

section Sets

variable {s s' : Store} {h h' : HashTblNum} {x entry : TimestampToKeyStruct}
  {timestamp : TimestampType}

theorem mem_eraseStamp :
    x ∈ (s.eraseStamp h timestamp).gTimestampToKeySet h' ↔
      x ∈ s.gTimestampToKeySet h' ∧ (h' = h → x.timestamp ≠ timestamp) := by
  by_cases heq : h' = h
  · subst heq
    simp
  · simp [heq]

theorem mem_insertStamp :
    x ∈ (s.insertStamp h entry).gTimestampToKeySet h' ↔
      x ∈ s.gTimestampToKeySet h' ∨ (h' = h ∧ x = entry ∧
        ∀ y ∈ s.gTimestampToKeySet h, y.timestamp ≠ entry.timestamp) := by
  by_cases heq : h' = h
  · subst heq
    simp
  · simp [heq]

theorem mem_evicts (hevicts : Evicts s s') :
    ∃ entry, (∀ h x, x ∈ s'.gTimestampToKeySet h →
        x ∈ s.gTimestampToKeySet h) ∧
      (∀ h x, x ∈ s.gTimestampToKeySet h →
        x ∈ s'.gTimestampToKeySet h ∨ x = entry ∧
          (s'.gKeyToValueHashMap h).lookup entry.key = none) := by
  obtain ⟨h, entry, hentry, ⟨hlookup, rfl⟩ | ⟨it, hlookup, rfl⟩⟩ := hevicts
  · refine ⟨entry, fun h' x hx => (mem_eraseStamp.mp hx).1, fun h' x hx => ?_⟩
    by_cases hsame : h' = h ∧ x.timestamp = entry.timestamp
    · obtain ⟨rfl, htimestamp⟩ := hsame
      exact .inr ⟨OrderedSet.eq_of_key_eq hx hentry htimestamp, hlookup⟩
    · exact .inl (mem_eraseStamp.mpr ⟨hx, fun heq htimestamp =>
        hsame ⟨heq, htimestamp⟩⟩)
  · refine ⟨entry, fun h' x hx => (mem_eraseStamp.mp hx).1, fun h' x hx => ?_⟩
    by_cases hsame : h' = h ∧ x.timestamp = entry.timestamp
    · obtain ⟨rfl, htimestamp⟩ := hsame
      refine .inr ⟨OrderedSet.eq_of_key_eq hx hentry htimestamp, ?_⟩
      simp [evictPair]
    · exact .inl (mem_eraseStamp.mpr ⟨hx, fun heq htimestamp =>
        hsame ⟨heq, htimestamp⟩⟩)

end Sets

/-! ## The maps -/

/-- No key is in the map of another bucket than its own. -/
def Store.AtHome (s : Store) : Prop :=
  ∀ b key it, (s.gKeyToValueHashMap b).lookup key = some it →
    b = getHashTblNbrFromKey key

section Home

variable {env : Env} {s s' : Store}

theorem Store.AtHome.mono (h : s.AtHome)
    (hmap : ∀ b key it, (s'.gKeyToValueHashMap b).lookup key = some it →
      ∃ it', (s.gKeyToValueHashMap b).lookup key = some it') : s'.AtHome := by
  intro b key it hlookup
  obtain ⟨it', hlookup'⟩ := hmap b key it hlookup
  exact h b key it' hlookup'

theorem Store.AtHome.setEntry (h : s.AtHome) (key : KeyType) (it : MapEntry) :
    (s.setEntry (getHashTblNbrFromKey key) key it).AtHome := by
  intro b other it' hlookup
  by_cases hb : b = getHashTblNbrFromKey key
  · subst hb
    rw [Store.setEntry_gKeyToValueHashMap, Function.update_self] at hlookup
    by_cases hsame : other = key
    · rw [hsame]
    · rw [AList.lookup_insert_ne hsame] at hlookup
      exact h _ other it' hlookup
  · rw [Store.setEntry_gKeyToValueHashMap, Function.update_of_ne hb] at hlookup
    exact h b other it' hlookup

theorem Store.AtHome.eraseKey (h : s.AtHome) (b : HashTblNum)
    (key : KeyType) : (s.eraseKey b key).AtHome := by
  refine h.mono fun b' other it hlookup => ?_
  by_cases hb : b' = b
  · subst hb
    rw [Store.eraseKey_gKeyToValueHashMap, Function.update_self] at hlookup
    by_cases hsame : other = key
    · subst hsame
      simp at hlookup
    · rw [AList.lookup_erase_ne hsame] at hlookup
      exact ⟨it, hlookup⟩
  · rw [Store.eraseKey_gKeyToValueHashMap, Function.update_of_ne hb] at hlookup
    exact ⟨it, hlookup⟩

theorem Store.AtHome.evicts (h : s.AtHome) (hevicts : Evicts s s') :
    s'.AtHome := by
  obtain ⟨b, entry, -, ⟨-, rfl⟩ | ⟨it, -, rfl⟩⟩ := hevicts
  · exact h
  · exact h.eraseKey b entry.key

theorem atHome_step {i : Section} {r : i.Answer} (h : s.AtHome)
    (happly : i.apply env s = (r, s')) : s'.AtHome := by
  cases i with
  | getSection now key timestamp =>
      rcases getSection_cases happly with
        ⟨-, -, rfl⟩ | ⟨it, -, -, -, rfl⟩ | ⟨it, -, -, -, rfl⟩
      · exact h
      · exact h.eraseKey _ key
      · exact h.setEntry key _
  | deleteSection now key expiry =>
      rcases deleteSection_cases happly with
        ⟨-, rfl⟩ | ⟨it, -, -, -, rfl⟩ | ⟨it, -, -, -, rfl⟩
      · exact h
      · exact h.eraseKey _ key
      · exact h.setEntry key _
  | insertSection now key casUniq expiry valueStr timestamp =>
      rcases insertSection_cases happly with ⟨it, -, -, -, -, rfl⟩ |
        ⟨it, diff, -, -, -, rfl⟩ | ⟨-, -, -, rfl⟩ | ⟨-, -, -, rfl⟩
      · exact h
      · exact h.setEntry key _
      · exact h
      · exact h.setEntry key _
  | addSection now key expiry valueStr timestamp =>
      rcases addSection_cases happly with
        ⟨it, -, -, -, rfl⟩ | ⟨it, -, -, -, rfl⟩ | ⟨-, -, rfl⟩
      · exact h
      · exact h.setEntry key _
      · exact h.setEntry key _
  | removeLRUElement now b =>
      cases hremove : removeSection now b s with
      | mk released s₁ =>
          cases happly
          rw [hremove]
          cases released with
          | true => exact h.evicts (removeSection_evicts hremove)
          | false =>
              obtain ⟨-, rfl⟩ := stuck_of_not_released hremove
              exact h
  | nextToken now =>
      obtain ⟨generator, rfl⟩ := nextToken_cases happly
      exact h
  | _ =>
      cases happly
      exact h

theorem atHome_of_interleaves {κ : Type} [DecidableEq κ] {calls : κ → DbCall}
    {history : Turns κ} {pool : κ → Sections Returned} {t : State}
    (h : Interleaves env calls State.init history pool t) : t.store.AtHome := by
  have hinit : State.init.store.AtHome := by
    intro b key it hlookup
    simp [State.init, Store.init] at hlookup
  obtain ⟨-, -, hhome, -⟩ := h.invariant (fun _ _ s => s.AtHome) hinit
    fun _ _ _ _ _ _ _ _ hs _ happly => atHome_step hs happly
  exact hhome

end Home

/-! ## The invariant -/

section Owned

variable {κ : Type} [DecidableEq κ] {env : Env} {calls : κ → DbCall}
  {owner : TimestampType → Option KeyType} {g : κ → Progress} {k : κ}
  {s s' : Store} {t t₀ : State} {history : Turns κ}
  {pool : κ → Sections Returned}

def Evictable (calls : κ → DbCall) (g : κ → Progress) (s : Store)
    (key : KeyType) : Prop :=
  (∃ x ∈ s.gTimestampToKeySet (getHashTblNbrFromKey key), x.key = key) ∨
    ∃ k, (calls k).key = some key ∧ (g k).phase.Pending

/-- `owner` tells for which key a timestamp was drawn. -/
structure Owned (calls : κ → DbCall)
    (owner : TimestampType → Option KeyType) (g : κ → Progress) (s : Store) :
    Prop where
  inSet : ∀ h, ∀ x ∈ s.gTimestampToKeySet h, x.timestamp < s.gTimestamp ∧
    owner x.timestamp = some x.key ∧ h = getHashTblNbrFromKey x.key
  inMap : ∀ key it, s.entry key = some it →
    it.2 < s.gTimestamp ∧ owner it.2 = some key
  held : ∀ k timestamp, (g k).phase.held = some timestamp →
    timestamp < s.gTimestamp ∧ owner timestamp = (calls k).key ∧
      ∀ h, ∀ x ∈ s.gTimestampToKeySet h, x.timestamp ≠ timestamp
  once : ∀ j k timestamp, (g j).phase.held = some timestamp →
    (g k).phase.held = some timestamp → j = k
  old : ∀ k timestamp, (g k).phase.old = some timestamp →
    timestamp < s.gTimestamp ∧ owner timestamp = (calls k).key
  covered : ∀ key, (s.entry key).isSome = true → Evictable calls g s key

/-- A section that draws no timestamp: an entry that is new to a set has the
timestamp its call has held so far, and so has an entry of the map that is
new. -/
theorem Owned.change (h : Owned calls owner g s) {p : Progress}
    (htimestamp : s'.gTimestamp = s.gTimestamp)
    (hset : ∀ h, ∀ x ∈ s'.gTimestampToKeySet h, x ∈ s.gTimestampToKeySet h ∨
      (g k).phase.held = some x.timestamp ∧ p.phase.held = none ∧
        (calls k).key = some x.key ∧ h = getHashTblNbrFromKey x.key)
    (hmap : ∀ key it, s'.entry key = some it →
      (∃ it', s.entry key = some it' ∧ it'.2 = it.2) ∨
        (g k).phase.held = some it.2 ∧ (calls k).key = some key)
    (hheld : p.phase.held = none ∨ p.phase.held = (g k).phase.held)
    (hold : ∀ timestamp, p.phase.old = some timestamp →
      (g k).phase.old = some timestamp ∨ ∃ key it, s.entry key = some it ∧
        it.2 = timestamp ∧ (calls k).key = some key)
    (hcovered : ∀ key, (s'.entry key).isSome = true →
      Evictable calls (Function.update g k p) s' key) :
    Owned calls owner (Function.update g k p) s' := by
  have hheld' : ∀ j timestamp,
      (Function.update g k p j).phase.held = some timestamp →
      (g j).phase.held = some timestamp := by
    intro j timestamp hj
    by_cases hjk : j = k
    · subst hjk
      rw [Function.update_self] at hj
      rcases hheld with hnone | hsame
      · rw [hnone] at hj
        contradiction
      · exact hsame.symm.trans hj
    · rw [Function.update_of_ne hjk] at hj
      exact hj
  refine ⟨fun b x hx => ?_, fun key it hit => ?_, fun j timestamp hj => ?_,
    fun i j timestamp hi hj => h.once i j timestamp (hheld' i timestamp hi)
      (hheld' j timestamp hj), fun j timestamp hj => ?_, hcovered⟩
  · rw [htimestamp]
    rcases hset b x hx with hmem | ⟨hkheld, -, hkey, hhome⟩
    · exact h.inSet b x hmem
    · obtain ⟨hlt, howner, -⟩ := h.held k _ hkheld
      exact ⟨hlt, howner.trans hkey, hhome⟩
  · rw [htimestamp]
    rcases hmap key it hit with ⟨it', hit', hsame⟩ | ⟨hkheld, hkey⟩
    · rw [← hsame]
      exact h.inMap key it' hit'
    · obtain ⟨hlt, howner, -⟩ := h.held k _ hkheld
      exact ⟨hlt, howner.trans hkey⟩
  · rw [htimestamp]
    obtain ⟨hlt, howner, hfresh⟩ := h.held j timestamp (hheld' j timestamp hj)
    refine ⟨hlt, howner, fun b x hx heq => ?_⟩
    rcases hset b x hx with hmem | ⟨hkheld, hnone, -, -⟩
    · exact hfresh b x hmem heq
    · rw [heq] at hkheld
      obtain rfl := h.once j k timestamp (hheld' j timestamp hj) hkheld
      rw [Function.update_self, hnone] at hj
      contradiction
  · rw [htimestamp]
    by_cases hjk : j = k
    · subst hjk
      rw [Function.update_self] at hj
      rcases hold timestamp hj with hsame | ⟨key, it, hit, rfl, hkey⟩
      · exact h.old j timestamp hsame
      · rw [hkey]
        exact h.inMap key it hit
    · rw [Function.update_of_ne hjk] at hj
      exact h.old j timestamp hj

omit [DecidableEq κ] in
theorem Owned.bump (h : Owned calls owner g s)
    (htimestamp : s'.gTimestamp = s.gTimestamp + 1)
    (hset : s'.gTimestampToKeySet = s.gTimestampToKeySet)
    (hmap : s'.gKeyToValueHashMap = s.gKeyToValueHashMap) :
    Owned calls owner g s' := by
  have hentry : ∀ key, s'.entry key = s.entry key := fun key => by
    rw [Store.entry, Store.entry, hmap]
  have hmono : ∀ n, n < s.gTimestamp → n < s'.gTimestamp := fun n hn =>
    htimestamp ▸ Nat.lt_succ_of_lt hn
  refine ⟨fun b x hx => ?_, fun key it hit => ?_, fun j timestamp hj => ?_,
    h.once, fun j timestamp hj => ?_, fun key hkey => ?_⟩
  · rw [hset] at hx
    obtain ⟨hlt, hrest⟩ := h.inSet b x hx
    exact ⟨hmono _ hlt, hrest⟩
  · rw [hentry] at hit
    obtain ⟨hlt, hrest⟩ := h.inMap key it hit
    exact ⟨hmono _ hlt, hrest⟩
  · obtain ⟨hlt, hrest⟩ := h.held j timestamp hj
    exact ⟨hmono _ hlt, by rwa [hset]⟩
  · obtain ⟨hlt, hrest⟩ := h.old j timestamp hj
    exact ⟨hmono _ hlt, hrest⟩
  · rw [hentry] at hkey
    rw [Evictable, hset]
    exact h.covered key hkey

theorem Owned.draw (h : Owned calls owner g s) {p : Progress}
    (hphase : (g k).phase = .started) (hdrawn : p.phase = .drawn s.gTimestamp)
    (htimestamp : s'.gTimestamp = s.gTimestamp + 1)
    (hset : s'.gTimestampToKeySet = s.gTimestampToKeySet)
    (hmap : s'.gKeyToValueHashMap = s.gKeyToValueHashMap) :
    Owned calls (Function.update owner s.gTimestamp (calls k).key)
      (Function.update g k p) s' := by
  have howner : ∀ n, n < s.gTimestamp →
      Function.update owner s.gTimestamp (calls k).key n = owner n := fun n hn =>
    Function.update_of_ne (Nat.ne_of_lt hn) _ _
  have hmono : ∀ n, n < s.gTimestamp → n < s'.gTimestamp := fun n hn =>
    htimestamp ▸ Nat.lt_succ_of_lt hn
  have hentry : ∀ key, s'.entry key = s.entry key := fun key => by
    rw [Store.entry, Store.entry, hmap]
  -- the timestamp held after the draw
  have hheld : ∀ j n, (Function.update g k p j).phase.held = some n →
      (g j).phase.held = some n ∨ j = k ∧ n = s.gTimestamp := by
    intro j n hj
    by_cases hjk : j = k
    · subst hjk
      rw [Function.update_self, hdrawn] at hj
      cases hj
      exact .inr ⟨rfl, rfl⟩
    · rw [Function.update_of_ne hjk] at hj
      exact .inl hj
  refine ⟨fun b x hx => ?_, fun key it hit => ?_, fun j n hj => ?_,
    fun i j n hi hj => ?_, fun j n hj => ?_, fun key hkey => ?_⟩
  · rw [hset] at hx
    obtain ⟨hlt, hx'⟩ := h.inSet b x hx
    rw [howner _ hlt]
    exact ⟨hmono _ hlt, hx'⟩
  · rw [hentry] at hit
    obtain ⟨hlt, hkey⟩ := h.inMap key it hit
    rw [howner _ hlt]
    exact ⟨hmono _ hlt, hkey⟩
  · rw [hset]
    rcases hheld j n hj with hold | ⟨rfl, rfl⟩
    · obtain ⟨hlt, hkey⟩ := h.held j n hold
      rw [howner _ hlt]
      exact ⟨hmono _ hlt, hkey⟩
    · refine ⟨htimestamp ▸ Nat.lt_succ_self _, Function.update_self .., ?_⟩
      exact fun b x hx => Nat.ne_of_lt (h.inSet b x hx).1
  · rcases hheld i n hi with hi' | ⟨rfl, rfl⟩
    · rcases hheld j n hj with hj' | ⟨rfl, rfl⟩
      · exact h.once i j n hi' hj'
      · exact absurd (h.held i _ hi').1 (Nat.lt_irrefl _)
    · rcases hheld j _ hj with hj' | ⟨rfl, -⟩
      · exact absurd (h.held j _ hj').1 (Nat.lt_irrefl _)
      · rfl
  · by_cases hjk : j = k
    · subst hjk
      rw [Function.update_self, hdrawn] at hj
      contradiction
    · rw [Function.update_of_ne hjk] at hj
      obtain ⟨hlt, hkey⟩ := h.old j n hj
      rw [howner _ hlt]
      exact ⟨hmono _ hlt, hkey⟩
  · rw [hentry] at hkey
    rcases h.covered key hkey with hmem | ⟨j, hj, hpending⟩
    · rw [← hset] at hmem
      exact .inl hmem
    · have hjk : j ≠ k := by
        rintro rfl
        rw [hphase] at hpending
        exact hpending
      exact .inr ⟨j, hj, by rwa [Function.update_of_ne hjk]⟩

theorem Evictable.mono {key : KeyType} {p : Progress}
    (h : Evictable calls g s key)
    (hset : ∀ h, ∀ x ∈ s.gTimestampToKeySet h, x.key = key →
      x ∈ s'.gTimestampToKeySet h)
    (hpending : (g k).phase.Pending → p.phase.Pending) :
    Evictable calls (Function.update g k p) s' key := by
  rcases h with ⟨x, hx, hkey⟩ | ⟨j, hj, hj'⟩
  · exact .inl ⟨x, hset _ x hx hkey, hkey⟩
  · refine .inr ⟨j, hj, ?_⟩
    by_cases hjk : j = k
    · subst hjk
      rw [Function.update_self]
      exact hpending hj'
    · rwa [Function.update_of_ne hjk]

theorem Owned.setEntry (h : Owned calls owner g s) {p : Progress}
    {key : KeyType} {it : MapEntry} (hkey : (calls k).key = some key)
    (hentry : (∃ it', s.entry key = some it' ∧ it'.2 = it.2) ∨
      (g k).phase.held = some it.2)
    (hheld : p.phase.held = (g k).phase.held)
    (hold : ∀ timestamp, p.phase.old = some timestamp →
      (g k).phase.old = some timestamp ∨
        ∃ it', s.entry key = some it' ∧ it'.2 = timestamp)
    (hpending : (s.entry key).isSome = true ∧ p.phase = (g k).phase ∨
      p.phase.Pending ∧ ¬ (g k).phase.Pending) :
    Owned calls owner (Function.update g k p)
      (s.setEntry (getHashTblNbrFromKey key) key it) := by
  refine h.change rfl (fun b x hx => .inl hx) (fun other it' hit' => ?_)
    (.inr hheld) (fun timestamp htimestamp => ?_) fun other hother => ?_
  · by_cases hsame : other = key
    · subst hsame
      rw [entry_setEntry_self] at hit'
      cases hit'
      exact hentry.imp id fun hheld => ⟨hheld, hkey⟩
    · rw [entry_setEntry_ne s it hsame] at hit'
      exact .inl ⟨it', hit', rfl⟩
  · exact (hold timestamp htimestamp).imp id fun ⟨it', hit', heq⟩ =>
      ⟨key, it', hit', heq, hkey⟩
  · rcases hpending with ⟨hpresent, hphase⟩ | ⟨hpending, hidle⟩
    · refine Evictable.mono (h.covered other ?_) (fun b x hx _ => hx)
        fun hbefore => hphase ▸ hbefore
      by_cases hsame : other = key
      · exact hsame ▸ hpresent
      · rwa [entry_setEntry_ne s it hsame] at hother
    · by_cases hsame : other = key
      · subst hsame
        exact .inr ⟨k, hkey, by rwa [Function.update_self]⟩
      · rw [entry_setEntry_ne s it hsame] at hother
        exact Evictable.mono (h.covered other hother) (fun b x hx _ => hx)
          fun hbefore => absurd hbefore hidle

theorem Owned.shrink (h : Owned calls owner g s) {p : Progress}
    (htimestamp : s'.gTimestamp = s.gTimestamp)
    (hset : s'.gTimestampToKeySet = s.gTimestampToKeySet)
    (hmap : ∀ key, s'.entry key = s.entry key ∨ s'.entry key = none)
    (hphase : p.phase = (g k).phase ∨
      p.phase = .finished ∧ ¬ (g k).phase.Pending) :
    Owned calls owner (Function.update g k p) s' := by
  refine h.change htimestamp (fun b x hx => .inl (hset ▸ hx))
    (fun key it hit => ?_) ?_ (fun timestamp hold => ?_) fun key hkey => ?_
  · rcases hmap key with hsame | hnone
    · exact .inl ⟨it, hsame ▸ hit, rfl⟩
    · rw [hnone] at hit
      contradiction
  · rcases hphase with hsame | ⟨hfinished, -⟩
    · exact .inr (by rw [hsame])
    · exact .inl (by rw [hfinished]; rfl)
  · rcases hphase with hsame | ⟨hfinished, -⟩
    · exact .inl (hsame ▸ hold)
    · rw [hfinished] at hold
      contradiction
  · rcases hmap key with hsame | hnone
    · rw [hsame] at hkey
      refine (h.covered key hkey).mono (fun b x hx _ => hset ▸ hx)
        fun hbefore => ?_
      rcases hphase with hsame | ⟨-, hidle⟩
      · exact hsame ▸ hbefore
      · exact absurd hbefore hidle
    · simp [hnone] at hkey

theorem Owned.evict (h : Owned calls owner g s) (k : κ)
    (hevicts : Evicts s s') :
    Owned calls owner (Function.update g k (g k)) s' := by
  have hshrinks := shrinks_evicts hevicts
  obtain ⟨entry, hsub, hrest⟩ := mem_evicts hevicts
  refine h.change hshrinks.timestamp (fun b x hx => .inl (hsub b x hx))
    (fun key it hit => ?_) (.inr rfl) (fun _ hold => .inl hold)
    fun key hkey => ?_
  · rcases hshrinks.entry key with hsame | hnone
    · exact .inl ⟨it, hsame ▸ hit, rfl⟩
    · rw [hnone] at hit
      contradiction
  · rcases hshrinks.entry key with hsame | hnone
    · have hbefore : (s.entry key).isSome = true := hsame ▸ hkey
      refine (h.covered key hbefore).mono (fun b x hx hx' => ?_) id
      rcases hrest b x hx with hmem | ⟨rfl, hgone⟩
      · exact hmem
      · -- the key of the entry taken out is not in the map any more
        obtain ⟨-, -, hhome⟩ := h.inSet b x hx
        rw [hhome, hx'] at hgone
        rw [Store.entry, hgone] at hkey
        contradiction
    · simp [hnone] at hkey

theorem Owned.eraseStamp (h : Owned calls owner g s) {p : Progress}
    {key : KeyType} {old : TimestampType} (hkey : (calls k).key = some key)
    (hold : (g k).phase.old = some old)
    (hheld : p.phase.held = (g k).phase.held) (hold' : p.phase.old = none)
    (hpending : p.phase.Pending) :
    Owned calls owner (Function.update g k p)
      (s.eraseStamp (getHashTblNbrFromKey key) old) := by
  refine h.change rfl (fun b x hx => .inl (mem_eraseStamp.mp hx).1)
    (fun other it hit => .inl ⟨it, hit, rfl⟩) (.inr hheld)
    (fun timestamp heq => by rw [hold'] at heq; contradiction)
    fun other hother => ?_
  by_cases hsame : other = key
  · subst hsame
    exact .inr ⟨k, hkey, by rwa [Function.update_self]⟩
  · refine (h.covered other hother).mono (fun b x hx hx' => ?_) fun _ => hpending
    refine mem_eraseStamp.mpr ⟨hx, fun _ heq => hsame ?_⟩
    have howner := (h.inSet b x hx).2.1
    rw [heq, (h.old k old hold).2, hkey, hx'] at howner
    exact (Option.some.inj howner).symm

theorem Owned.insertStamp (h : Owned calls owner g s) {p : Progress}
    {entry : TimestampToKeyStruct} (hkey : (calls k).key = some entry.key)
    (hheld : (g k).phase.held = some entry.timestamp)
    (hphase : p.phase = .finished) :
    Owned calls owner (Function.update g k p)
      (s.insertStamp (getHashTblNbrFromKey entry.key) entry) := by
  have hnone : p.phase.held = none := by rw [hphase]; rfl
  refine h.change rfl (fun b x hx => ?_)
    (fun other it hit => .inl ⟨it, hit, rfl⟩) (.inl hnone)
    (fun timestamp heq => by rw [hphase] at heq; contradiction)
    fun other hother => ?_
  · rcases mem_insertStamp.mp hx with hmem | ⟨hb, rfl, -⟩
    · exact .inl hmem
    · exact .inr ⟨hheld, hnone, hkey, hb⟩
  · by_cases hsame : other = entry.key
    · subst hsame
      refine .inl ⟨entry, mem_insertStamp.mpr (.inr ⟨rfl, rfl, ?_⟩), rfl⟩
      exact (h.held k _ hheld).2.2 _
    · rcases h.covered other hother with ⟨x, hx, hx'⟩ | ⟨j, hj, hpending⟩
      · exact .inl ⟨x, mem_insertStamp.mpr (.inl hx), hx'⟩
      · have hjk : j ≠ k := by
          rintro rfl
          exact hsame (Option.some.inj (hj.symm.trans hkey))
        exact .inr ⟨j, hj, by rwa [Function.update_of_ne hjk]⟩

/-! ## Every section -/

section Sections

variable {now expiry : Nat} {key casUniq : Bytes} {valueStr : ValueStruct}
  {timestamp : TimestampType}

theorem owned_get {r : Option (Element × TimestampType)}
    (h : Owned calls owner g s) (hkey : (calls k).key = some key)
    (hphase : (g k).phase = .drawn timestamp)
    (hget : getSection now key timestamp s = (r, s')) :
    Owned calls owner (Function.update g k
      ((g k).learn (.getSection now key timestamp) r)) s' := by
  have hidle : ¬ (g k).phase.Pending := by rw [hphase]; exact not_false
  have hheld : (g k).phase.held = some timestamp := by rw [hphase]; rfl
  rcases getSection_cases hget with
    ⟨-, rfl, rfl⟩ | ⟨it, -, -, rfl, rfl⟩ | ⟨it, hentry, -, rfl, rfl⟩
  · exact h.shrink rfl rfl (fun _ => .inl rfl) (.inr ⟨rfl, hidle⟩)
  · refine h.shrink rfl rfl (fun other => ?_) (.inr ⟨rfl, hidle⟩)
    by_cases hsame : other = key
    · exact .inr (hsame ▸ entry_eraseKey_self ..)
    · exact .inl (entry_eraseKey_ne s hsame)
  · refine h.setEntry hkey (.inr hheld) hheld.symm (fun old hold => ?_)
      (.inr ⟨trivial, hidle⟩)
    cases hold
    exact .inr ⟨it, hentry, rfl⟩

theorem owned_delete {r : RetStatus} (h : Owned calls owner g s)
    (hkey : (calls k).key = some key)
    (hdelete : deleteSection now key expiry s = (r, s')) :
    Owned calls owner (Function.update g k
      ((g k).learn (.deleteSection now key expiry) r)) s' := by
  rcases deleteSection_cases hdelete with
    ⟨rfl, rfl⟩ | ⟨it, hentry, -, rfl, rfl⟩ | ⟨it, hentry, -, rfl, rfl⟩
  · exact h.shrink rfl rfl (fun _ => .inl rfl) (.inl rfl)
  · refine h.shrink rfl rfl (fun other => ?_) (.inl rfl)
    by_cases hsame : other = key
    · exact .inr (hsame ▸ entry_eraseKey_self ..)
    · exact .inl (entry_eraseKey_ne s hsame)
  · exact h.setEntry hkey (.inl ⟨it, hentry, rfl⟩) rfl (fun _ hold => .inl hold)
      (.inl ⟨by simp [hentry], rfl⟩)

theorem owned_insert {r : InsertOutcome} (h : Owned calls owner g s)
    (hkey : (calls k).key = some key)
    (hphase : (g k).phase = .drawn timestamp)
    (hinsert : insertSection now key casUniq expiry valueStr timestamp s =
      (r, s')) :
    Owned calls owner (Function.update g k ((g k).learn
      (.insertSection now key casUniq expiry valueStr timestamp) r)) s' := by
  have hidle : ¬ (g k).phase.Pending := by rw [hphase]; exact not_false
  have hheld : (g k).phase.held = some timestamp := by rw [hphase]; rfl
  rcases insertSection_cases hinsert with
    ⟨it, -, -, -, rfl, rfl⟩ | ⟨it, diff, hentry, -, rfl, rfl⟩ |
      ⟨-, -, rfl, rfl⟩ | ⟨-, -, rfl, rfl⟩
  · exact h.shrink rfl rfl (fun _ => .inl rfl) (.inr ⟨rfl, hidle⟩)
  · refine h.setEntry hkey (.inl ⟨it, hentry, rfl⟩) hheld.symm
      (fun old hold => ?_) (.inr ⟨trivial, hidle⟩)
    cases hold
    exact .inr ⟨it, hentry, rfl⟩
  · exact h.shrink rfl rfl (fun _ => .inl rfl) (.inr ⟨rfl, hidle⟩)
  · exact h.setEntry hkey (.inr hheld) hheld.symm
      (fun old hold => by contradiction) (.inr ⟨trivial, hidle⟩)

theorem owned_add {r : AddOutcome} (h : Owned calls owner g s)
    (hkey : (calls k).key = some key)
    (hphase : (g k).phase = .drawn timestamp)
    (hadd : addSection now key expiry valueStr timestamp s = (r, s')) :
    Owned calls owner (Function.update g k ((g k).learn
      (.addSection now key expiry valueStr timestamp) r)) s' := by
  have hidle : ¬ (g k).phase.Pending := by rw [hphase]; exact not_false
  have hheld : (g k).phase.held = some timestamp := by rw [hphase]; rfl
  rcases addSection_cases hadd with
    ⟨it, -, -, rfl, rfl⟩ | ⟨it, hentry, -, rfl, rfl⟩ | ⟨-, rfl, rfl⟩
  · exact h.shrink rfl rfl (fun _ => .inl rfl) (.inr ⟨rfl, hidle⟩)
  · refine h.setEntry hkey (.inl ⟨it, hentry, rfl⟩) hheld.symm
      (fun old hold => ?_) (.inr ⟨trivial, hidle⟩)
    cases hold
    exact .inr ⟨it, hentry, rfl⟩
  · exact h.setEntry hkey (.inr hheld) hheld.symm
      (fun old hold => by contradiction) (.inr ⟨trivial, hidle⟩)

theorem owned_restamp {old : TimestampType} {entry : TimestampToKeyStruct}
    (h : Owned calls owner g s) (hkey : (calls k).key = some entry.key)
    (hphase : (g k).phase = .restamping old entry.timestamp) {p : Progress}
    (hfinished : p.phase = .finished) :
    Owned calls owner (Function.update g k p)
      ((s.eraseStamp (getHashTblNbrFromKey entry.key) old).insertStamp
        (getHashTblNbrFromKey entry.key) entry) := by
  let mid : Progress := { g k with phase := .inserting entry.timestamp }
  have herased : Owned calls owner (Function.update g k mid)
      (s.eraseStamp (getHashTblNbrFromKey entry.key) old) :=
    h.eraseStamp hkey (by rw [hphase]; rfl) (by rw [hphase]; rfl) rfl trivial
  have hinserted := herased.insertStamp hkey
    (by rw [Function.update_self]; rfl) hfinished
  rwa [Function.update_idem] at hinserted

end Sections

theorem owned_step {i : Section} {r : i.Answer}
    (h : Owned calls owner g s) (hcall : (g k).call = calls k)
    (hallows : (g k).Allows i)
    (hwrap : i.draws = true → s.gTimestamp + 1 < wordSize)
    (happly : i.apply env s = (r, s')) :
    ∃ owner', Owned calls owner'
      (Function.update g k ((g k).learn i r)) s' := by
  have hkey : ∀ call, (g k).call = call → (calls k).key = call.key := by
    intro call heq
    rw [← hcall, heq]
  cases i with
  | nextTimestamp =>
      have hnext := toWord_of_lt (hwrap rfl)
      cases happly
      exact ⟨_, h.draw hallows rfl hnext rfl rfl⟩
  | bumpTimestamp =>
      have hnext := toWord_of_lt (hwrap rfl)
      cases happly
      refine ⟨owner, ?_⟩
      change Owned calls owner (Function.update g k (g k)) _
      rw [Function.update_eq_self]
      exact h.bump hnext rfl rfl
  | getSection now key timestamp =>
      exact ⟨owner, owned_get h (hkey _ hallows.1) hallows.2 happly⟩
  | deleteSection now key expiry =>
      exact ⟨owner, owned_delete h (hkey _ hallows) happly⟩
  | insertSection now key casUniq expiry valueStr timestamp =>
      obtain ⟨⟨fuel, clock, expiry', heq⟩, -, hphase⟩ := hallows
      exact ⟨owner, owned_insert h (hkey _ heq) hphase happly⟩
  | addSection now key expiry valueStr timestamp =>
      obtain ⟨⟨fuel, clock, casUniq, expiry', heq⟩, hphase⟩ := hallows
      exact ⟨owner, owned_add h (hkey _ heq) hphase happly⟩
  | eraseStamp entry =>
      obtain ⟨⟨timestamp, hphase⟩, heq⟩ := hallows
      cases happly
      refine ⟨owner, h.eraseStamp (hcall ▸ heq) (by rw [hphase]; rfl) ?_ ?_ ?_⟩
      · simp [Progress.learn, hphase, Phase.erased, Phase.held]
      · simp [Progress.learn, hphase, Phase.erased, Phase.old]
      · simp [Progress.learn, hphase, Phase.erased, Phase.Pending]
  | insertStamp entry =>
      cases happly
      exact ⟨owner, h.insertStamp (hcall ▸ hallows.2)
        (by rw [hallows.1]; rfl) rfl⟩
  | restamp old entry =>
      cases happly
      exact ⟨owner, owned_restamp h (hcall ▸ hallows.2) hallows.1 rfl⟩
  | removeLRUElement now b =>
      refine ⟨owner, ?_⟩
      cases hremove : removeSection now b s with
      | mk released s₁ =>
          cases happly
          rw [hremove]
          cases released with
          | true => exact h.evict k (removeSection_evicts hremove)
          | false =>
              obtain ⟨-, rfl⟩ := stuck_of_not_released hremove
              exact h.shrink rfl rfl (fun _ => .inl rfl) (.inl rfl)
  | nextToken now =>
      obtain ⟨generator, rfl⟩ := nextToken_cases happly
      exact ⟨owner, h.shrink rfl rfl (fun _ => .inl rfl) (.inl rfl)⟩
  | _ =>
      cases happly
      exact ⟨owner, h.shrink rfl rfl (fun _ => .inl rfl) (.inl rfl)⟩

/-! ## Runs -/

def Section.erasedStamp : Section → Option TimestampToKeyStruct
  | .eraseStamp entry => some entry
  | .restamp old entry => some ⟨old, entry.key⟩
  | _ => none

def Section.insertedStamp : Section → Option TimestampToKeyStruct
  | .insertStamp entry => some entry
  | .restamp _ entry => some entry
  | _ => none

/-- A turn of an operation on a key takes out entries of that key only, and what
it puts in is new to the set and in it afterwards. -/
structure KeepsApart (env : Env) (calls : κ → DbCall)
    (e : Prog.Event Section Section.Answer State κ) : Prop where
  erases : ∀ entry, e.call.erasedStamp = some entry →
    (calls e.client).key = some entry.key ∧
    ∀ x ∈ e.before.store.gTimestampToKeySet (getHashTblNbrFromKey entry.key),
      x.timestamp = entry.timestamp → x.key = entry.key
  inserts : ∀ entry, e.call.insertedStamp = some entry →
    (calls e.client).key = some entry.key ∧
    (∀ x ∈ e.before.store.gTimestampToKeySet (getHashTblNbrFromKey entry.key),
      x.timestamp ≠ entry.timestamp) ∧
    entry ∈ (e.call.apply env e.before.store).2.gTimestampToKeySet
      (getHashTblNbrFromKey entry.key)

omit [DecidableEq κ] in
theorem keepsApart_turn {i : Section} {before : State} {r : i.Answer}
    (h : Owned calls owner g before.store) (hcall : (g k).call = calls k)
    (hallows : (g k).Allows i) : KeepsApart env calls ⟨k, i, before, r⟩ := by
  have hown : ∀ key old, (g k).phase.old = some old →
      (calls k).key = some key → ∀ b, ∀ x ∈ before.store.gTimestampToKeySet b,
        x.timestamp = old → x.key = key := by
    intro key old hold hkey b x hx heq
    have howner := (h.inSet b x hx).2.1
    rw [heq, (h.old k old hold).2, hkey] at howner
    exact (Option.some.inj howner).symm
  constructor
  · intro entry hentry
    cases i with
    | eraseStamp entry' =>
        cases hentry
        obtain ⟨⟨timestamp, hphase⟩, heq⟩ := hallows
        have hkey : (calls k).key = some entry.key := hcall ▸ heq
        exact ⟨hkey, hown entry.key entry.timestamp (by rw [hphase]; rfl) hkey _⟩
    | restamp old entry' =>
        cases hentry
        have hkey : (calls k).key = some entry'.key := hcall ▸ hallows.2
        exact ⟨hkey, hown entry'.key old (by rw [hallows.1]; rfl) hkey _⟩
    | _ => cases hentry
  · intro entry hentry
    cases i with
    | insertStamp entry' =>
        cases hentry
        have hfresh := (h.held k entry.timestamp (by rw [hallows.1]; rfl)).2.2
        exact ⟨hcall ▸ hallows.2, hfresh _,
          mem_insertStamp.mpr (.inr ⟨rfl, rfl, hfresh _⟩)⟩
    | restamp old entry' =>
        cases hentry
        have hfresh := (h.held k entry.timestamp (by rw [hallows.1]; rfl)).2.2
        refine ⟨hcall ▸ hallows.2, hfresh _,
          mem_insertStamp.mpr (.inr ⟨rfl, rfl, fun x hx => ?_⟩)⟩
        exact hfresh _ x (mem_eraseStamp.mp hx).1
    | _ => cases hentry

def drawCount (history : Turns κ) : Nat :=
  history.countP fun e => e.call.draws

/-- With fewer timestamps drawn than the counter can count, timestamps are
unique, calls touch only the entries of their own key, and every key of a map is
found from the set of the same bucket when no call is under way. -/
theorem keys_stay_evictable
    (h : Interleaves env calls State.init history pool t)
    (hdraws : drawCount history < wordSize) :
    (∀ b b' x y, x ∈ t.store.gTimestampToKeySet b →
      y ∈ t.store.gTimestampToKeySet b' → x.timestamp = y.timestamp →
      b = b' ∧ x = y) ∧
    (∀ e ∈ history, KeepsApart env calls e) ∧
    ((∀ e ∈ history, ∃ ret, pool e.client = .done ret) →
      ∀ b key it, (t.store.gKeyToValueHashMap b).lookup key = some it →
        ∃ x ∈ t.store.gTimestampToKeySet b, x.key = key) := by
  obtain ⟨g, htracks, hinv, hends⟩ := h.invariant
    (fun history g s => drawCount history < wordSize →
      s.gTimestamp = drawCount history ∧ (∃ owner, Owned calls owner g s) ∧
      ∀ e ∈ history, KeepsApart env calls e)
    (fun _ => ⟨rfl, ⟨fun _ => none, by
      constructor <;>
        simp [State.init, Store.init, Progress.start, Phase.held, Phase.old,
          Store.entry]⟩, by simp⟩)
    fun history g before s' j i r htracks hinv hallows happly hdraws' => by
      have hcount : drawCount (⟨j, i, before, r⟩ :: history : Turns κ) =
          drawCount history + if i.draws = true then 1 else 0 :=
        List.countP_cons ..
      obtain ⟨htimestamp, ⟨owner, howned⟩, hapart⟩ := hinv (by omega)
      have hwrap : i.draws = true →
          before.store.gTimestamp + 1 < wordSize := by
        intro hdraw
        rw [htimestamp]
        rw [hcount, if_pos hdraw] at hdraws'
        exact hdraws'
      refine ⟨?_, owned_step howned (htracks.call j) hallows hwrap happly, ?_⟩
      · rw [(atomics_of_apply happly).timestamp, hcount]
        by_cases hdraw : i.draws = true
        · rw [if_pos hdraw, if_pos hdraw, toWord_of_lt (hwrap hdraw), htimestamp]
        · rw [if_neg hdraw, if_neg hdraw, htimestamp]
          rfl
      · rintro e (_ | ⟨_, he⟩)
        · exact keepsApart_turn howned (htracks.call j) hallows
        · exact hapart e he
  obtain ⟨-, ⟨owner, howned⟩, hapart⟩ := hinv hdraws
  refine ⟨fun b b' x y hx hy heq => ?_, hapart, ?_⟩
  · obtain ⟨-, hxowner, hxhome⟩ := howned.inSet b x hx
    obtain ⟨-, hyowner, hyhome⟩ := howned.inSet b' y hy
    rw [heq, hyowner] at hxowner
    have hkey : y.key = x.key := Option.some.inj hxowner
    have hbucket : b = b' := by rw [hxhome, hyhome, hkey]
    subst hbucket
    exact ⟨rfl, OrderedSet.eq_of_key_eq hx hy heq⟩
  · intro hidle b key it hlookup
    obtain rfl := atHome_of_interleaves h b key it hlookup
    have hentry : t.store.entry key = some it := hlookup
    refine (howned.covered key (by simp [hentry])).resolve_right ?_
    rintro ⟨k, -, hpending⟩
    by_cases hturn : ∃ e ∈ history, e.client = k
    · obtain ⟨e, he, rfl⟩ := hturn
      obtain ⟨ret, hret⟩ := hidle e he
      exact (hends _ ret hret).1 hpending
    · rw [htracks.idle k fun e he heq => hturn ⟨e, he, heq⟩] at hpending
      exact hpending

end Owned

section Witness

def setSetGet : Fin 3 → DbCall
  | 0 => .insert 1 (.const 1000) (ascii "k") (ascii "0") [] (ascii "5") 60
  | 1 => .insert 1 (.const 1000) (ascii "k") (ascii "0") [] (ascii "6") 60
  | 2 => .get 1000 (ascii "k")

/-- The get comes while the second set has written the map and not the set. -/
theorem keys_stay_evictable_setSetGet :
    ∃ history pool t, Interleaves Env.x86 setSetGet State.init history pool t ∧
      (t.store.entry (ascii "k")).isSome = true ∧
      (∀ e ∈ history, ∃ ret, pool e.client = .done ret) ∧
      (∀ b b' x y, x ∈ t.store.gTimestampToKeySet b →
        y ∈ t.store.gTimestampToKeySet b' → x.timestamp = y.timestamp →
        b = b' ∧ x = y) ∧
      (∀ e ∈ history, KeepsApart Env.x86 setSetGet e) ∧
      ∃ x ∈ t.store.gTimestampToKeySet (getHashTblNbrFromKey (ascii "k")),
        x.key = ascii "k" := by
  obtain ⟨history, pool, t, h, hdraws, hpresent, hresult⟩ :=
    Prog.exists_concurrent_of_turns
      (Section.exec Env.x86) (fun _ _ _ _ => True)
      (fun k => (setSetGet k).program Env.x86) State.init
      [0, 0, 0, 0, 0, 0, 1, 1, 1, 1, 2, 2, 2, 1, 1, 1]
      (fun history pool t => drawCount history < wordSize ∧
        (t.store.entry (ascii "k")).isSome = true ∧
        ∀ k, (pool k).isDone = true)
      (by decide +kernel)
  have hdone : ∀ e ∈ history, ∃ ret, pool e.client = .done ret := fun e _ =>
    Prog.isDone_iff.mp (hresult e.client)
  obtain ⟨hdistinct, hapart, hcovered⟩ := keys_stay_evictable h hdraws
  obtain ⟨it, hentry⟩ := Option.isSome_iff_exists.mp hpresent
  exact ⟨history, pool, t, h, hpresent, hdone, hdistinct, hapart,
    hcovered hdone _ (ascii "k") it hentry⟩

end Witness

end Memstashed.Dblru
