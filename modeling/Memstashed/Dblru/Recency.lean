import Memstashed.Dblru.Limit
import Memstashed.Dblru.Flush

/-!
# Recency

Eviction reads the order of last use off the timestamp sets.  It is the true
order as long as every key in the map has exactly one entry in its set, put there
by its last access.  An overwrite leaves the old timestamp in the map, so that
the access after it does not find the entry it should take out; a key that is
stored again after a delete or an expired read meets the entry left over from
before.
-/

namespace Memstashed.Dblru

open Memstashed.Foundation

/-! ## The accesses of a run -/

/-- What a call adds to the log of successful accesses, the newest first: the
key, and the timestamp drawn for it. -/
def accesses : (op : Op) → State → op.Answer → List TimestampToKeyStruct
  | .insert _ key _ _ _ _, t, r =>
      if r = .success then [⟨t.store.gTimestamp, key⟩] else []
  | .add _ key _ _ _ _, t, r =>
      if r = .success then [⟨t.store.gTimestamp, key⟩] else []
  | .get _ key, t, found =>
      if found.isSome then [⟨t.store.gTimestamp, key⟩] else []
  | _, _, _ => []

/-- How many accesses had been made when the key was accessed last, that one
included. -/
def lastAccess (key : KeyType) : List TimestampToKeyStruct → Nat
  | [] => 0
  | e :: log => if e.key = key then log.length + 1 else lastAccess key log

theorem lastAccess_le (key : KeyType) (log : List TimestampToKeyStruct) :
    lastAccess key log ≤ log.length := by
  induction log with
  | nil => exact le_rfl
  | cons e log ih =>
      rw [lastAccess, List.length_cons]
      split
      · exact le_rfl
      · omega

def accessOf (key : KeyType) (log : List TimestampToKeyStruct) :
    Option TimestampToKeyStruct :=
  log.find? fun e => decide (e.key = key)

theorem accessOf_cons (key : KeyType) (e : TimestampToKeyStruct)
    (log : List TimestampToKeyStruct) :
    accessOf key (e :: log) =
      if e.key = key then some e else accessOf key log := by
  by_cases h : e.key = key
  · simp [accessOf, h]
  · simp [accessOf, h]

theorem lastAccess_lt {log : List TimestampToKeyStruct}
    (hordered : log.Pairwise fun a b => b.timestamp < a.timestamp)
    {a b : KeyType} {e f : TimestampToKeyStruct}
    (ha : accessOf a log = some e) (hb : accessOf b log = some f)
    (hlt : e.timestamp < f.timestamp) :
    lastAccess a log < lastAccess b log := by
  induction log with
  | nil => simp [accessOf] at ha
  | cons x log ih =>
      obtain ⟨hx, hrest⟩ := List.pairwise_cons.mp hordered
      rw [accessOf_cons] at ha hb
      by_cases hbx : x.key = b
      · rw [if_pos hbx] at hb
        have hne : x.key ≠ a := by
          intro hax
          rw [if_pos hax] at ha
          cases ha
          cases hb
          exact absurd hlt (lt_irrefl _)
        have hbound := lastAccess_le a log
        rw [lastAccess, if_neg hne, lastAccess, if_pos hbx]
        omega
      · rw [if_neg hbx] at hb
        by_cases hax : x.key = a
        · -- then the other access is further down, and not later
          rw [if_pos hax] at ha
          cases ha
          have hlater := hx f (List.mem_of_find?_eq_some hb)
          exact absurd hlt (not_lt_of_gt hlater)
        · rw [if_neg hax] at ha
          rw [lastAccess, if_neg hax, lastAccess, if_neg hbx]
          exact ih hrest ha hb

/-! ## Sets that show the true order -/

/-- The sets and the log agree; `n` is above every timestamp drawn so far. -/
structure Recency (n : Nat) (log : List TimestampToKeyStruct) (s : Store) :
    Prop where
  home : ∀ h, ∀ e ∈ s.gTimestampToKeySet h, getHashTblNbrFromKey e.key = h
  below : ∀ h, ∀ e ∈ s.gTimestampToKeySet h, e.timestamp < n
  logged : ∀ e ∈ log, e.timestamp < n
  ordered : log.Pairwise fun a b => b.timestamp < a.timestamp
  stamped : ∀ key it, s.entry key = some it →
    ∃ e, accessOf key log = some e ∧
      ∀ f, f ∈ s.gTimestampToKeySet (getHashTblNbrFromKey key) ∧ f.key = key ↔
        f = e

/-! ## Evictions -/

def LiveIn (s : Store) (now : Nat) (h : HashTblNum) (key : KeyType)
    (it : MapEntry) : Prop :=
  getHashTblNbrFromKey key = h ∧ s.entry key = some it ∧ ¬ Dead s now it

/-- If `removeLRUElement` takes a live key out of a bucket with another live key,
it is one of the two that were accessed least recently, and the one with the
longer value. -/
def TakesOldest (log : List TimestampToKeyStruct) (now : Nat) (h : HashTblNum)
    (s : Store) : Prop :=
  ∀ key it, LiveIn s now h key it →
    (∃ other itOther, LiveIn s now h other itOther ∧ other ≠ key) →
    (removeSection now h s).2.entry key = none →
    ∃ other itOther, LiveIn s now h other itOther ∧ other ≠ key ∧
      itOther.1.value.length ≤ it.1.value.length ∧
      ∀ third itThird, LiveIn s now h third itThird →
        third = key ∨ third = other ∨
          (lastAccess key log < lastAccess third log ∧
            lastAccess other log < lastAccess third log)

section Evictions

variable {n : Nat} {log : List TimestampToKeyStruct} {s s' : Store} {now : Nat}
  {h : HashTblNum}

theorem entry_evictOrphan (entry : TimestampToKeyStruct) (key : KeyType) :
    (evictOrphan s h entry).entry key = s.entry key := rfl

theorem entry_evictPair {entry : TimestampToKeyStruct} {it : MapEntry}
    (hhome : getHashTblNbrFromKey entry.key = h) {key : KeyType} :
    (evictPair s h entry it).entry key =
      if key = entry.key then none else s.entry key := by
  subst hhome
  split
  · rename_i hkey
    subst hkey
    exact entry_eraseKey_self
      (s.subStoredSize (evictionRefund entry it)) entry.key
  · rename_i hkey
    exact entry_eraseKey_ne (s.subStoredSize (evictionRefund entry it)) hkey

theorem Recency.later (hr : Recency n log s) {a b : TimestampToKeyStruct}
    {rest : List TimestampToKeyStruct}
    (hlist : (s.gTimestampToKeySet h).toList = a :: b :: rest)
    {ita itb : MapEntry} (ha : s.entry a.key = some ita)
    (hb : s.entry b.key = some itb) {key : KeyType} {it : MapEntry}
    (hkey : getHashTblNbrFromKey key = h) (hentry : s.entry key = some it) :
    key = a.key ∨ key = b.key ∨
      (lastAccess a.key log < lastAccess key log ∧
        lastAccess b.key log < lastAccess key log) := by
  have hmem : ∀ e ∈ a :: b :: rest, e ∈ s.gTimestampToKeySet h := by
    intro e he
    rw [OrderedSet.mem_def, hlist]
    exact he
  have hsorted := (s.gTimestampToKeySet h).sorted
  rw [hlist] at hsorted
  obtain ⟨hfirst, htail⟩ := List.pairwise_cons.mp hsorted
  obtain ⟨hsecond, -⟩ := List.pairwise_cons.mp htail
  obtain ⟨e, haccess, hunique⟩ := hr.stamped key it hentry
  obtain ⟨ea, haccessA, huniqueA⟩ := hr.stamped a.key ita ha
  obtain ⟨eb, haccessB, huniqueB⟩ := hr.stamped b.key itb hb
  rw [hkey] at hunique
  rw [hr.home h a (hmem a (by simp))] at huniqueA
  rw [hr.home h b (hmem b (by simp))] at huniqueB
  obtain rfl : a = ea := (huniqueA a).mp ⟨hmem a (by simp), rfl⟩
  obtain rfl : b = eb := (huniqueB b).mp ⟨hmem b (by simp), rfl⟩
  obtain ⟨hin, hsame⟩ := (hunique e).mpr rfl
  rw [OrderedSet.mem_def, hlist] at hin
  rcases List.mem_cons.mp hin with rfl | hin
  · exact .inl hsame.symm
  · rcases List.mem_cons.mp hin with rfl | hin
    · exact .inr (.inl hsame.symm)
    · have hab := hfirst b (by simp)
      have hbe := hsecond e hin
      exact .inr (.inr ⟨lastAccess_lt hr.ordered haccessA haccess
        (hab.trans hbe), lastAccess_lt hr.ordered haccessB haccess hbe⟩)

theorem Recency.twoKeys (hr : Recency n log s) {a b : TimestampToKeyStruct}
    {rest : List TimestampToKeyStruct}
    (hlist : (s.gTimestampToKeySet h).toList = a :: b :: rest)
    {ita : MapEntry} (ha : s.entry a.key = some ita) : a.key ≠ b.key := by
  intro hsame
  have hmem : ∀ e ∈ a :: b :: rest, e ∈ s.gTimestampToKeySet h := by
    intro e he
    rw [OrderedSet.mem_def, hlist]
    exact he
  have hsorted := (s.gTimestampToKeySet h).sorted
  rw [hlist] at hsorted
  have hlt := (List.pairwise_cons.mp hsorted).1 b (by simp)
  obtain ⟨e, -, hunique⟩ := hr.stamped a.key ita ha
  rw [hr.home h a (hmem a (by simp))] at hunique
  have hfirst := (hunique a).mp ⟨hmem a (by simp), rfl⟩
  have hsecond := (hunique b).mp ⟨hmem b (by simp), hsame.symm⟩
  rw [hfirst, hsecond] at hlt
  exact absurd hlt (lt_irrefl _)

theorem evicted_key (hr : Recency n log s) {entry : TimestampToKeyStruct}
    {old : MapEntry} (hentry : entry ∈ s.gTimestampToKeySet h) {key : KeyType}
    {it : MapEntry} (hkey : s.entry key = some it)
    (hnone : (evictPair s h entry old).entry key = none) : key = entry.key := by
  by_contra hne
  rw [entry_evictPair (hr.home h entry hentry), if_neg hne, hkey] at hnone
  contradiction

theorem Recency.takesOldest (hr : Recency n log s) (now : Nat)
    (h : HashTblNum) : TakesOldest log now h s := by
  rintro key it ⟨hhome, hentry, hlive⟩ - hnone
  have hlookup : ∀ e ∈ s.gTimestampToKeySet h, ∀ found,
      (s.gKeyToValueHashMap h).lookup e.key = found →
        s.entry e.key = found := by
    intro e he found hfound
    rw [Store.entry, hr.home h e he]
    exact hfound
  rw [removeSection, scan_two] at hnone
  cases hlist : (s.gTimestampToKeySet h).toList with
  | nil =>
      rw [hlist] at hnone
      simp [hentry] at hnone
  | cons a rest =>
      have ha : a ∈ s.gTimestampToKeySet h := by
        rw [OrderedSet.mem_def, hlist]
        exact List.mem_cons_self
      rw [hlist] at hnone
      cases hvalue : (s.gKeyToValueHashMap h).lookup a.key with
      | none =>
          simp [hvalue, entry_evictOrphan, hentry] at hnone
      | some ita =>
          have hita := hlookup a ha _ hvalue
          by_cases hdead : Dead s now ita
          · simp only [hvalue, hdead, if_true] at hnone
            obtain rfl := evicted_key hr ha hentry hnone
            rw [hita] at hentry
            cases hentry
            exact absurd hdead hlive
          · cases rest with
            | nil => simp [hvalue, hdead, hentry] at hnone
            | cons b rest =>
                have hb : b ∈ s.gTimestampToKeySet h := by
                  rw [OrderedSet.mem_def, hlist]
                  simp
                cases hvalueb : (s.gKeyToValueHashMap h).lookup b.key with
                | none =>
                    simp [hvalue, hdead, hvalueb, entry_evictOrphan,
                      hentry] at hnone
                | some itb =>
                    have hitb := hlookup b hb _ hvalueb
                    by_cases hdeadb : Dead s now itb
                    · simp only [hvalue, hdead, if_false, hvalueb, hdeadb,
                        if_true] at hnone
                      obtain rfl := evicted_key hr hb hentry hnone
                      rw [hitb] at hentry
                      cases hentry
                      exact absurd hdeadb hlive
                    · -- both of the first two entries lead to live values
                      simp only [hvalue, hdead, if_false, hvalueb,
                        hdeadb] at hnone
                      have hlater := fun third itThird
                          (hthird : LiveIn s now h third itThird) =>
                        hr.later hlist hita hitb hthird.1 hthird.2.1
                      have hne : a.key ≠ b.key := hr.twoKeys hlist hita
                      have hliveA : LiveIn s now h a.key ita :=
                        ⟨hr.home h a ha, hita, hdead⟩
                      have hliveB : LiveIn s now h b.key itb :=
                        ⟨hr.home h b hb, hitb, hdeadb⟩
                      split at hnone
                      · rename_i hlonger
                        obtain rfl := evicted_key hr hb hentry hnone
                        rw [hitb] at hentry
                        cases hentry
                        refine ⟨a.key, ita, hliveA, hne, hlonger.le, ?_⟩
                        intro third itThird hthird
                        rcases hlater third itThird hthird with
                          heq | heq | ⟨hlt, hlt'⟩
                        · exact .inr (.inl heq)
                        · exact .inl heq
                        · exact .inr (.inr ⟨hlt', hlt⟩)
                      · rename_i hshorter
                        obtain rfl := evicted_key hr ha hentry hnone
                        rw [hita] at hentry
                        cases hentry
                        exact ⟨b.key, itb, hliveB, hne.symm,
                          not_lt.mp hshorter, hlater⟩

theorem mem_of_evicts (h : Evicts s s') {b : HashTblNum}
    {e : TimestampToKeyStruct} (he : e ∈ s'.gTimestampToKeySet b) :
    e ∈ s.gTimestampToKeySet b := by
  obtain ⟨h, entry, -, ⟨-, rfl⟩ | ⟨it, -, rfl⟩⟩ := h
  · by_cases hb : b = h
    · subst hb
      simp only [evictOrphan, Store.eraseStamp_gTimestampToKeySet,
        Function.update_self] at he
      exact (OrderedSet.mem_erase.mp he).1
    · simpa [evictOrphan, hb] using he
  · by_cases hb : b = h
    · subst hb
      simp only [evictPair, Store.eraseStamp_gTimestampToKeySet,
        Function.update_self] at he
      exact (OrderedSet.mem_erase.mp he).1
    · simpa [evictPair, hb] using he

theorem mem_of_evictsMany (h : EvictsMany s s') {b : HashTblNum}
    {e : TimestampToKeyStruct} (he : e ∈ s'.gTimestampToKeySet b) :
    e ∈ s.gTimestampToKeySet b := by
  induction h with
  | refl => exact he
  | tail _ hstep ih => exact ih (mem_of_evicts hstep he)

theorem recency_evicts (h : Evicts s s') (hr : Recency n log s) :
    Recency n log s' := by
  refine ⟨fun b e he => hr.home b e (mem_of_evicts h he),
    fun b e he => hr.below b e (mem_of_evicts h he), hr.logged, hr.ordered, ?_⟩
  intro key it hentry
  have hbefore : s.entry key = some it := by
    rcases (shrinks_evicts h).entry key with hsame | hnone
    · rw [← hsame, hentry]
    · rw [hnone] at hentry
      contradiction
  obtain ⟨e, haccess, hunique⟩ := hr.stamped key it hbefore
  refine ⟨e, haccess, fun f => ?_⟩
  rw [← hunique f]
  constructor
  · rintro ⟨hf, hkey⟩
    exact ⟨mem_of_evicts h hf, hkey⟩
  · rintro ⟨hf, hkey⟩
    subst hkey
    exact ⟨indexed_evicts h hentry hf, rfl⟩

theorem recency_evictsMany (h : EvictsMany s s') (hr : Recency n log s) :
    Recency n log s' := by
  induction h with
  | refl => exact hr
  | tail _ hstep ih => exact recency_evicts hstep ih

theorem unstamped_of_evicted (h : EvictsMany s s') (hr : Recency n log s)
    {key : KeyType} {it : MapEntry} (hbefore : s.entry key = some it)
    (hafter : s'.entry key = none) :
    ∀ e ∈ s'.gTimestampToKeySet (getHashTblNbrFromKey key), e.key ≠ key := by
  induction h with
  | refl =>
      rw [hbefore] at hafter
      contradiction
  | @tail u s' hmany hstep ih =>
      have hru := recency_evictsMany hmany hr
      intro e he hkey
      have hsub : e ∈ u.gTimestampToKeySet (getHashTblNbrFromKey key) :=
        mem_of_evicts hstep he
      cases hu : u.entry key with
      | none => exact ih hu e hsub hkey
      | some itu =>
          -- This eviction takes the key out, and with it its only entry.
          obtain ⟨h, entry, hin, ⟨-, rfl⟩ | ⟨old, -, rfl⟩⟩ := hstep
          · rw [entry_evictOrphan, hu] at hafter
            contradiction
          · obtain rfl := evicted_key hru hin hu hafter
            have hhome := hru.home h entry hin
            obtain ⟨f, -, hunique⟩ := hru.stamped entry.key itu hu
            rw [hhome] at hunique hsub he
            have hsame : e = entry := ((hunique e).mp ⟨hsub, hkey⟩).trans
              ((hunique entry).mp ⟨hin, rfl⟩).symm
            simp only [evictPair, Store.eraseStamp_gTimestampToKeySet,
              Function.update_self] at he
            exact (OrderedSet.mem_erase.mp he).2 (by rw [hsame])

end Evictions

/-! ## Accesses -/

section Accesses

variable {n : Nat} {log : List TimestampToKeyStruct} {s s' : Store}
  {key : KeyType}

theorem Recency.mono {m : Nat} (hr : Recency n log s) (h : n ≤ m) :
    Recency m log s :=
  ⟨hr.home, fun b e he => (hr.below b e he).trans_le h,
    fun e he => (hr.logged e he).trans_le h, hr.ordered, hr.stamped⟩

theorem Recency.congr (hr : Recency n log s)
    (hsets : s'.gTimestampToKeySet = s.gTimestampToKeySet)
    (hmaps : s'.gKeyToValueHashMap = s.gKeyToValueHashMap) :
    Recency n log s' := by
  obtain ⟨hhome, hbelow, hlogged, hordered, hstamped⟩ := hr
  refine ⟨hsets ▸ hhome, hsets ▸ hbelow, hlogged, hordered, ?_⟩
  intro key it hentry
  rw [hsets]
  exact hstamped key it (by simpa [Store.entry, hmaps] using hentry)

theorem Recency.of_entries (hr : Recency n log s)
    (hsets : s'.gTimestampToKeySet = s.gTimestampToKeySet)
    (hentries : ∀ key it, s'.entry key = some it → ∃ it', s.entry key = some it') :
    Recency n log s' := by
  obtain ⟨hhome, hbelow, hlogged, hordered, hstamped⟩ := hr
  refine ⟨hsets ▸ hhome, hsets ▸ hbelow, hlogged, hordered, ?_⟩
  intro key it hentry
  obtain ⟨it', hentry'⟩ := hentries key it hentry
  rw [hsets]
  exact hstamped key it' hentry'

theorem Recency.access (hr : Recency n log s)
    (hother : ∀ other, other ≠ key → s'.entry other = s.entry other)
    (hset : ∀ f, f ∈ s'.gTimestampToKeySet (getHashTblNbrFromKey key) ↔
      f = ⟨n, key⟩ ∨
        (f ∈ s.gTimestampToKeySet (getHashTblNbrFromKey key) ∧ f.key ≠ key))
    (hsets : ∀ h, h ≠ getHashTblNbrFromKey key →
      s'.gTimestampToKeySet h = s.gTimestampToKeySet h) :
    Recency (n + 1) (⟨n, key⟩ :: log) s' := by
  have hmem : ∀ h, ∀ f ∈ s'.gTimestampToKeySet h,
      f ∈ s.gTimestampToKeySet h ∨
        (h = getHashTblNbrFromKey key ∧ f = ⟨n, key⟩) := by
    intro h f hf
    by_cases hh : h = getHashTblNbrFromKey key
    · subst hh
      rcases (hset f).mp hf with rfl | ⟨hf, -⟩
      · exact .inr ⟨rfl, rfl⟩
      · exact .inl hf
    · rw [hsets h hh] at hf
      exact .inl hf
  refine ⟨?_, ?_, ?_, ?_, ?_⟩
  · intro h f hf
    rcases hmem h f hf with hf | ⟨rfl, rfl⟩
    · exact hr.home h f hf
    · rfl
  · intro h f hf
    rcases hmem h f hf with hf | ⟨rfl, rfl⟩
    · exact Nat.lt_succ_of_lt (hr.below h f hf)
    · exact Nat.lt_succ_self n
  · intro e he
    rcases List.mem_cons.mp he with rfl | he
    · exact Nat.lt_succ_self n
    · exact Nat.lt_succ_of_lt (hr.logged e he)
  · exact List.pairwise_cons.mpr ⟨hr.logged, hr.ordered⟩
  · intro other it hentry
    by_cases hkey : other = key
    · subst hkey
      refine ⟨⟨n, other⟩, ?_, fun f => ?_⟩
      · rw [accessOf_cons, if_pos rfl]
      · rw [hset f]
        constructor
        · rintro ⟨rfl | ⟨-, hne⟩, hsame⟩
          · rfl
          · exact absurd hsame hne
        · rintro rfl
          exact ⟨.inl rfl, rfl⟩
    · rw [hother other hkey] at hentry
      obtain ⟨e, haccess, hunique⟩ := hr.stamped other it hentry
      refine ⟨e, ?_, fun f => ?_⟩
      · rw [accessOf_cons, if_neg (fun h => hkey h.symm), haccess]
      · rw [← hunique f]
        by_cases hh : getHashTblNbrFromKey other = getHashTblNbrFromKey key
        · rw [hh, hset f]
          constructor
          · rintro ⟨rfl | ⟨hf, -⟩, hsame⟩
            · exact absurd hsame.symm hkey
            · exact ⟨hf, hsame⟩
          · rintro ⟨hf, rfl⟩
            exact ⟨.inr ⟨hf, hkey⟩, rfl⟩
        · rw [hsets _ hh]

theorem Recency.mem_restamp (hr : Recency n log s) {it : MapEntry}
    (hentry : s.entry key = some it) (hindexed : Indexed s key it)
    (f : TimestampToKeyStruct) :
    f ∈ ((s.gTimestampToKeySet (getHashTblNbrFromKey key)).erase it.2).insert
        ⟨n, key⟩ ↔
      f = ⟨n, key⟩ ∨
        (f ∈ s.gTimestampToKeySet (getHashTblNbrFromKey key) ∧
          f.key ≠ key) := by
  obtain ⟨e, -, hunique⟩ := hr.stamped key it hentry
  have hin : ⟨it.2, key⟩ ∈ s.gTimestampToKeySet (getHashTblNbrFromKey key) :=
    hindexed
  have hwhere : ∀ g ∈ s.gTimestampToKeySet (getHashTblNbrFromKey key),
      g.timestamp ≠ it.2 ↔ g.key ≠ key := by
    intro g hg
    rw [not_iff_not]
    constructor
    · intro hstamp
      rw [OrderedSet.eq_of_key_eq hg hin hstamp]
    · intro hkey
      have hsame := ((hunique g).mp ⟨hg, hkey⟩).trans
        ((hunique ⟨it.2, key⟩).mp ⟨hin, rfl⟩).symm
      rw [hsame]
  have hfresh : ∀ g ∈ (s.gTimestampToKeySet
      (getHashTblNbrFromKey key)).erase it.2, g.timestamp ≠ n :=
    fun g hg => ne_of_lt (hr.below _ g (OrderedSet.mem_erase.mp hg).1)
  rw [OrderedSet.mem_insert, OrderedSet.mem_erase]
  constructor
  · rintro (⟨hf, hstamp⟩ | ⟨rfl, -⟩)
    · exact .inr ⟨hf, (hwhere f hf).mp hstamp⟩
    · exact .inl rfl
  · rintro (rfl | ⟨hf, hkey⟩)
    · exact .inr ⟨rfl, hfresh⟩
    · exact .inl ⟨hf, (hwhere f hf).mpr hkey⟩

theorem Recency.mem_create (hr : Recency n log s)
    (hnew : ∀ e ∈ s.gTimestampToKeySet (getHashTblNbrFromKey key),
      e.key ≠ key) (f : TimestampToKeyStruct) :
    f ∈ (s.gTimestampToKeySet (getHashTblNbrFromKey key)).insert ⟨n, key⟩ ↔
      f = ⟨n, key⟩ ∨
        (f ∈ s.gTimestampToKeySet (getHashTblNbrFromKey key) ∧
          f.key ≠ key) := by
  rw [OrderedSet.mem_insert]
  constructor
  · rintro (hf | ⟨rfl, -⟩)
    · exact .inr ⟨hf, hnew f hf⟩
    · exact .inl rfl
  · rintro (rfl | ⟨hf, -⟩)
    · exact .inr ⟨rfl, fun g hg => ne_of_lt (hr.below _ g hg)⟩
    · exact .inl hf

end Accesses

/-! ## The steps that keep the order -/

def Unstamped (s : Store) (key : KeyType) : Prop :=
  ∀ e ∈ (s.gTimestampToKeySet (getHashTblNbrFromKey key)).toList, e.key ≠ key

instance (s : Store) (key : KeyType) : Decidable (Unstamped s key) :=
  inferInstanceAs (Decidable (∀ e ∈ _, _))

/--
A step after which the sets show the true order of accesses.  The timestamp
counter does not wrap; an entry that is overwritten or read is found in the set
under the timestamp in the map, so that the old entry of the set is taken out;
and a key that is new to the map has nothing left over in the set.
-/
def KeepsRecency (s : Store) : Op → Prop
  | .insert _ key _ casUniq _ _ =>
      s.gTimestamp + 1 < wordSize ∧
        (EntryIs s key fun it =>
          (casUniq ≠ [] ∧ it.1.casUniq ≠ casUniq) ∨ Indexed s key it) ∧
        ((s.entry key).isSome = true ∨ casUniq ≠ [] ∨ Unstamped s key)
  | .add clock key _ _ _ _ =>
      s.gTimestamp + 1 < wordSize ∧
        (EntryIs s key fun it => ¬ Dead s clock.now it ∨ Indexed s key it) ∧
        ((s.entry key).isSome = true ∨ Unstamped s key)
  | .get now key =>
      s.gTimestamp + 1 < wordSize ∧
        EntryIs s key fun it => Dead s now it ∨ Indexed s key it
  | .delete _ _ _ => True
  | .setFlushAll _ _ => True
  | .handleFlushAll _ => s.gTimestamp + 1 < wordSize

instance (s : Store) (op : Op) : Decidable (KeepsRecency s op) :=
  match op with
  | .insert .. => inferInstanceAs (Decidable (_ ∧ _))
  | .add .. => inferInstanceAs (Decidable (_ ∧ _))
  | .get .. => inferInstanceAs (Decidable (_ ∧ _))
  | .delete .. => inferInstanceAs (Decidable True)
  | .setFlushAll .. => inferInstanceAs (Decidable True)
  | .handleFlushAll .. => inferInstanceAs (Decidable (_ < _))

section Steps

variable {env : Env} {n : Nat} {log : List TimestampToKeyStruct}
  {s₀ s s' : Store} {key flags casUniq value token : Bytes}
  {now expiry : Nat}

theorem unstamped_of_created (h : EvictsMany s₀ s) (hr : Recency n log s₀)
    (hnew : (s₀.entry key).isSome = true ∨ Unstamped s₀ key)
    (hnone : s.entry key = none) :
    ∀ e ∈ s.gTimestampToKeySet (getHashTblNbrFromKey key), e.key ≠ key := by
  rcases hnew with hsome | hunstamped
  · obtain ⟨it, hit⟩ := Option.isSome_iff_exists.mp hsome
    exact unstamped_of_evicted h hr hit hnone
  · intro e he
    exact hunstamped e (mem_of_evictsMany h he)

theorem recency_created (hr : Recency n log s) (it : MapEntry) (charge : Nat)
    (hnew : ∀ e ∈ s.gTimestampToKeySet (getHashTblNbrFromKey key),
      e.key ≠ key) :
    Recency (n + 1) (⟨n, key⟩ :: log)
      (((s.setEntry (getHashTblNbrFromKey key) key it).addStoredSize
        charge).insertStamp (getHashTblNbrFromKey key) ⟨n, key⟩) := by
  refine hr.access (fun other hne => entry_setEntry_ne s it hne) ?_ ?_
  · intro f
    simpa using hr.mem_create hnew f
  · intro h hne
    simp [hne]

theorem recency_moved (hr : Recency n log s) {old : MapEntry}
    (hentry : s.entry key = some old) (hindexed : Indexed s key old)
    (it : MapEntry) (hmaps : s'.gKeyToValueHashMap =
      (s.setEntry (getHashTblNbrFromKey key) key it).gKeyToValueHashMap)
    (hsets : s'.gTimestampToKeySet =
      ((s.eraseStamp (getHashTblNbrFromKey key) old.2).insertStamp
        (getHashTblNbrFromKey key) ⟨n, key⟩).gTimestampToKeySet) :
    Recency (n + 1) (⟨n, key⟩ :: log) s' := by
  refine hr.access ?_ ?_ ?_
  · intro other hne
    rw [Store.entry, hmaps]
    exact entry_setEntry_ne s it hne
  · intro f
    rw [hsets]
    simpa using hr.mem_restamp hentry hindexed f
  · intro h hne
    rw [hsets]
    simp [hne]

theorem recency_insertStep (h : EvictsMany s₀ s) (hr : Recency n log s₀)
    (hentry : EntryIs s₀ key fun it =>
      (casUniq ≠ [] ∧ it.1.casUniq ≠ casUniq) ∨ Indexed s₀ key it)
    (hnew : (s₀.entry key).isSome = true ∨ casUniq ≠ [] ∨ Unstamped s₀ key) :
    Recency (n + 1)
      ((if (insertStep now key flags casUniq value expiry token n s).1 =
          .success then [⟨n, key⟩] else []) ++ log)
      (insertStep now key flags casUniq value expiry token n s).2 := by
  have hrs := recency_evictsMany h hr
  cases hlookup :
      (s.gKeyToValueHashMap (getHashTblNbrFromKey key)).lookup key with
  | none =>
      by_cases hcas : casUniq = []
      · rw [insertStep_created hlookup hcas]
        refine recency_created hrs _ _ (unstamped_of_created h hr ?_ hlookup)
        rcases hnew with hsome | hne | hunstamped
        · exact .inl hsome
        · exact absurd hcas hne
        · exact .inr hunstamped
      · rw [insertStep_notExist hlookup hcas]
        exact hrs.mono (Nat.le_succ n)
  | some it =>
      by_cases hcas : casUniq ≠ [] ∧ it.1.casUniq ≠ casUniq
      · rw [insertStep_refused hlookup hcas]
        exact hrs.mono (Nat.le_succ n)
      · rw [insertStep_overwrite hlookup hcas]
        have hbefore : Indexed s₀ key it :=
          (entryIs_evictsMany h hentry it hlookup).resolve_left hcas
        exact recency_moved hrs hlookup
          (indexed_evictsMany h hlookup hbefore) _ rfl rfl

theorem recency_addStep (h : EvictsMany s₀ s) (hr : Recency n log s₀)
    (hentry : EntryIs s₀ key fun it => ¬ Dead s₀ now it ∨ Indexed s₀ key it)
    (hnew : (s₀.entry key).isSome = true ∨ Unstamped s₀ key) :
    Recency (n + 1)
      ((if (addStep now key flags value expiry token n s).1 = .success then
          [⟨n, key⟩] else []) ++ log)
      (addStep now key flags value expiry token n s).2 := by
  have hrs := recency_evictsMany h hr
  cases hlookup :
      (s.gKeyToValueHashMap (getHashTblNbrFromKey key)).lookup key with
  | none =>
      rw [addStep_created hlookup]
      exact recency_created hrs _ _ (unstamped_of_created h hr hnew hlookup)
  | some it =>
      by_cases hdead : Dead s now it
      · rw [addStep_revived hlookup hdead]
        have hdead' : Dead s₀ now it := by
          simpa [Dead, (shrinks_evictsMany h).flushStamp] using hdead
        have hbefore : Indexed s₀ key it :=
          (entryIs_evictsMany h hentry it hlookup).resolve_left
            (not_not_intro hdead')
        exact recency_moved hrs hlookup
          (indexed_evictsMany h hlookup hbefore) _ rfl rfl
      · rw [addStep_exist hlookup hdead]
        exact hrs.mono (Nat.le_succ n)

theorem recency_getStep (hr : Recency s.gTimestamp log s)
    (hentry : EntryIs s key fun it => Dead s now it ∨ Indexed s key it) :
    Recency (s.gTimestamp + 1)
      ((if (getStep now key s).1.isSome then [⟨s.gTimestamp, key⟩] else []) ++
        log) (getStep now key s).2 := by
  cases hlookup :
      (s.gKeyToValueHashMap (getHashTblNbrFromKey key)).lookup key with
  | none =>
      rw [getStep_absent hlookup]
      have hdrawn : Recency s.gTimestamp log (nextTimestamp s).2 :=
        hr.congr rfl rfl
      exact hdrawn.mono (Nat.le_succ _)
  | some it =>
      by_cases hdead : Dead s now it
      · rw [getStep_dead hlookup hdead]
        have herased : Recency s.gTimestamp log ((nextTimestamp s).2.eraseKey
            (getHashTblNbrFromKey key) key) := by
          refine hr.of_entries rfl ?_
          intro other itOther hother
          by_cases hkey : other = key
          · exact ⟨it, hkey ▸ hlookup⟩
          · exact ⟨itOther,
              (entry_eraseKey_ne (nextTimestamp s).2 hkey).symm.trans hother⟩
        exact herased.mono (Nat.le_succ _)
      · rw [getStep_live hlookup hdead]
        exact recency_moved hr hlookup
          ((hentry it hlookup).resolve_left hdead) _ rfl rfl

theorem recency_delete (hr : Recency n log s) :
    Recency n log (deleteSection now key expiry s).2 := by
  apply deleteSection_keeps
  · exact hr
  · intro it hlookup _ _
    refine hr.of_entries rfl ?_
    intro other itOther hother
    by_cases hkey : other = key
    · exact ⟨it, hkey ▸ hlookup⟩
    · exact ⟨itOther, (entry_eraseKey_ne s hkey).symm.trans hother⟩
  · intro it hlookup _
    refine hr.of_entries rfl ?_
    intro other itOther hother
    by_cases hkey : other = key
    · exact ⟨it, hkey ▸ hlookup⟩
    · exact ⟨itOther, (entry_setEntry_ne s _ hkey).symm.trans hother⟩

theorem recency_step {op : Op} {a : op.Answer} {t : State}
    (hexec : op.exec env ⟨s, Locks.free⟩ = .ok (a, t))
    (hkeeps : KeepsRecency s op) (hr : Recency s.gTimestamp log s) :
    Recency t.store.gTimestamp (accesses op ⟨s, Locks.free⟩ a ++ log)
      t.store := by
  have hstep := (Op.exec_cases hexec).2
  have hdraws : op.draws = true → s.gTimestamp + 1 < wordSize →
      t.store.gTimestamp = s.gTimestamp + 1 := by
    intro hdraws hwrap
    have hflush : op.flushes = false := by
      cases op with
      | setFlushAll time expiry => contradiction
      | handleFlushAll time => contradiction
      | _ => rfl
    rw [(hstep.counts hflush).timestamp, hdraws, if_pos rfl,
      toWord_of_lt hwrap]
  cases op with
  | insert clock key flags casUniq value expiry =>
      obtain ⟨hwrap, hentry, hnew⟩ := hkeeps
      rw [hdraws rfl hwrap]
      have hdrawn : Recency s.gTimestamp log (insertDrawn env clock.now s) :=
        hr.congr (insertDrawn_gTimestampToKeySet ..)
          (insertDrawn_gKeyToValueHashMap ..)
      have hentry' : EntryIs (insertDrawn env clock.now s) key fun it =>
          (casUniq ≠ [] ∧ it.1.casUniq ≠ casUniq) ∨
            Indexed (insertDrawn env clock.now s) key it := by
        simpa [EntryIs, Indexed] using hentry
      have hnew' : ((insertDrawn env clock.now s).entry key).isSome = true ∨
          casUniq ≠ [] ∨ Unstamped (insertDrawn env clock.now s) key := by
        simpa [Store.entry, Unstamped] using hnew
      rw [Op.exec, dbInsertElement_free] at hexec
      cases hloop : insertLoop env clock key flags value s with
      | error e => simp [hloop] at hexec
      | ok result =>
          obtain ⟨room, ⟨s₁, locks⟩⟩ := result
          obtain rfl : locks = Locks.free :=
            ((insertMakeRoom_loop _).madeRoom hloop).locks
          have hevicts := (insertLoop_spec hloop).1
          rw [hloop] at hexec
          cases room with
          | true =>
              cases hexec
              exact recency_insertStep hevicts hdrawn hentry' hnew'
          | false =>
              cases hexec
              exact (recency_evictsMany hevicts hdrawn).mono (Nat.le_succ _)
  | add clock key flags casUniq value expiry =>
      obtain ⟨hwrap, hentry, hnew⟩ := hkeeps
      rw [hdraws rfl hwrap]
      have hdrawn : Recency s.gTimestamp log (nextTimestamp s).2 :=
        hr.congr rfl rfl
      rw [Op.exec, dbAddElement_free] at hexec
      cases hloop : addLoop env clock key value s with
      | error e => simp [hloop] at hexec
      | ok result =>
          obtain ⟨room, ⟨s₁, locks⟩⟩ := result
          obtain rfl : locks = Locks.free :=
            ((addMakeRoom_loop _).madeRoom hloop).locks
          have hevicts := (addLoop_spec hloop).1
          rw [hloop] at hexec
          cases room with
          | true =>
              cases hexec
              exact recency_addStep hevicts hdrawn hentry hnew
          | false =>
              cases hexec
              exact (recency_evictsMany hevicts hdrawn).mono (Nat.le_succ _)
  | get now key =>
      obtain ⟨hwrap, hentry⟩ := hkeeps
      rw [hdraws rfl hwrap]
      rw [Op.exec, dbGetElement_free] at hexec
      cases hexec
      exact recency_getStep hr hentry
  | delete now key expiry =>
      have hsame := (hstep.counts rfl).timestamp
      rw [Op.exec, dbDeleteElement_free] at hexec
      cases hexec
      rw [hsame]
      exact recency_delete hr
  | setFlushAll now expiry =>
      cases hexec
      exact hr.congr rfl rfl
  | handleFlushAll now =>
      cases hexec
      change Recency (handleFlush now s).gTimestamp log (handleFlush now s)
      rcases handleFlush_cases now s with ⟨-, -, heq⟩ | ⟨-, heq⟩
      · rw [heq, toWord_of_lt hkeeps]
        refine Recency.mono (n := s.gTimestamp) ?_ (Nat.le_succ _)
        exact hr.congr rfl rfl
      · rw [heq]
        exact hr

end Steps

theorem recency_init : Recency Store.init.gTimestamp [] Store.init := by
  refine ⟨?_, ?_, by simp, .nil, ?_⟩
  · intro h e he
    simp [Store.init] at he
  · intro h e he
    simp [Store.init] at he
  · intro key it hentry
    simp [Store.entry, Store.init] at hentry

/-! ## The calls of `removeLRUElement` -/

inductive Removes (action : HashTblNum → Store → LoopAction) (now : Nat)
    (b : HashTblNum) (u : Store) : (Nat → Nat) → HashTblNum → Store → Prop
  | here {clock : Nat → Nat} {h : HashTblNum} :
      action h u = .evict b → clock 0 = now → Removes action now b u clock h u
  | advance {clock : Nat → Nat} {h h' : HashTblNum} {s : Store} :
      action h s = .advance h' → Removes action now b u clock h' s →
      Removes action now b u clock h s
  | evict {clock : Nat → Nat} {h h' : HashTblNum} {s : Store} :
      action h s = .evict h' →
      Removes action now b u (fun i => clock (i + 1)) h'
        (removeSection (clock 0) h' s).2 →
      Removes action now b u clock h s

def Op.Removes (env : Env) (s : Store) (now : Nat) (b : HashTblNum)
    (u : Store) : Op → Prop
  | .insert clock key flags _ value _ =>
      Dblru.Removes
        (insertAction
          (insertFits env key flags (insertToken env clock.now s) value)
          (getHashTblNbrFromKey key)) now b u clock.evictions
        (getHashTblNbrFromKey key) (insertDrawn env clock.now s)
  | .add clock key _ _ value _ =>
      Dblru.Removes (addAction (addFits env key value) (getHashTblNbrFromKey key))
        now b u clock.evictions (getHashTblNbrFromKey key) (nextTimestamp s).2
  | _ => False

theorem Removes.evictsMany {action : HashTblNum → Store → LoopAction}
    {now : Nat} {b : HashTblNum} {u : Store} {clock : Nat → Nat}
    {h : HashTblNum} {s : Store} (hremoves : Removes action now b u clock h s) :
    EvictsMany s u := by
  induction hremoves with
  | here haction htime => exact .refl
  | advance haction _ ih => exact ih
  | evict haction _ ih => exact (removeSection_evictsMany ..).trans ih

/-- Every eviction made for a call takes one of the two oldest keys. -/
def EvictsOldest (env : Env) (log : List TimestampToKeyStruct) (s : Store)
    (op : Op) : Prop :=
  ∀ now b u, op.Removes env s now b u → TakesOldest log now b u

theorem Recency.evictsOldest {env : Env} {log : List TimestampToKeyStruct}
    {s : Store} (hr : Recency s.gTimestamp log s) (op : Op) :
    EvictsOldest env log s op := by
  intro now b u hremoves
  cases op with
  | insert clock key flags casUniq value expiry =>
      have hdrawn : Recency s.gTimestamp log (insertDrawn env clock.now s) :=
        hr.congr (insertDrawn_gTimestampToKeySet ..)
          (insertDrawn_gKeyToValueHashMap ..)
      exact (recency_evictsMany hremoves.evictsMany hdrawn).takesOldest now b
  | add clock key flags casUniq value expiry =>
      have hdrawn : Recency s.gTimestamp log (nextTimestamp s).2 :=
        hr.congr rfl rfl
      exact (recency_evictsMany hremoves.evictsMany hdrawn).takesOldest now b
  | _ => exact absurd hremoves not_false

end Memstashed.Dblru
