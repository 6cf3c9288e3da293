import Memstashed.Dblru.Flush
import Memstashed.Dblru.Tokens

/-!
# One key as its users see it

What matters of the store to the commands on one key when nothing has to be
evicted: the value of the entry, whether it is flushed, the state of the static
generator and the size counter.  Timestamps are gone, so that a read of a live
key changes nothing.
-/

namespace Memstashed.Dblru

open Memstashed.Foundation

structure KeyView where
  entry : Option (ValueStruct × Bool)
  generator : Option (Nat × Nat)
  gStoredSize : Nat
  deriving DecidableEq

def Store.view (s : Store) (key : KeyType) : KeyView :=
  ⟨(s.entry key).map fun it => (it.1, decide (it.2 < s.gFlushAllTimestamp)),
    s.generator, s.gStoredSize⟩

namespace KeyView

def dead (now : Nat) (it : ValueStruct × Bool) : Bool :=
  decide (it.1.expiry < now) || it.2

def elementOf (now : Nat) (it : ValueStruct) : Element :=
  ⟨it.flags, it.casUniq, it.value, wordSub it.expiry now⟩

def get (now : Nat) (v : KeyView) : Option Element × KeyView :=
  match v.entry with
  | none => (none, v)
  | some it =>
      if dead now it then (none, { v with entry := none })
      else (some (elementOf now it.1), v)

def delete (now : Nat) (v : KeyView) : RetStatus × KeyView :=
  match v.entry with
  | none => (.notExist, v)
  | some it =>
      if dead now it then (.notExist, v)
      else (.success, { v with entry := none })

def drawn (now : Nat) (v : KeyView) : Nat × Nat := v.generator.getD (now, 0)

def advance (now : Nat) (v : KeyView) : KeyView :=
  { v with generator := some ((v.drawn now).1, (v.drawn now).2 + 1) }

def token (env : Env) (now : Nat) (v : KeyView) : Bytes :=
  (Mark.draw (v.drawn now).1 (v.drawn now).2).token env

def fits (env : Env) (now : Nat) (key flags value : Bytes) (v : KeyView) :
    Prop :=
  toWord (v.gStoredSize + 2 * key.length + 2 * sizeofTimestamp + flags.length +
    (v.token env now).length + sizeofTimestamp + value.length) <
      env.gServMemLimit

instance (env : Env) (now : Nat) (key flags value : Bytes) (v : KeyView) :
    Decidable (fits env now key flags value v) :=
  inferInstanceAs (Decidable (_ < _))

def insert (env : Env) (now : Nat) (key flags casUniq value : Bytes)
    (expiry : Nat) (v : KeyView) : RetStatus × KeyView :=
  let token := v.token env now
  let v := v.advance now
  match v.entry with
  | some it =>
      if casUniq ≠ [] ∧ it.1.casUniq ≠ casUniq then (.exist, v)
      else (.success, { v with
        entry := some (⟨toWord (now + expiry), value, flags, token⟩, it.2)
        gStoredSize := wordSub v.gStoredSize
          (overwriteDiff (it.1, 0) flags token value) })
  | none =>
      if casUniq ≠ [] then (.notExist, v)
      else (.success, { v with
        entry := some (⟨newExpiry now expiry, value, flags, token⟩, false)
        gStoredSize :=
          toWord (v.gStoredSize + insertCharge key flags token value) })

/-- The calls on the key.  Others, and stores without room, are not part of the
model. -/
def exec (env : Env) : (op : Op) → Effect KeyView Fault op.Answer
  | .get now _ => fun v => .ok (v.get now)
  | .delete now _ _ => fun v => .ok (v.delete now)
  | .insert clock key flags casUniq value expiry => fun v =>
      if fits env clock.now key flags value v then
        .ok (v.insert env clock.now key flags casUniq value expiry)
      else .error .deadlock
  | _ => fun _ => .error .deadlock

end KeyView

/-! ## The store refines it -/

inductive OnKey (key : KeyType) : Op → Prop
  | get (now : Nat) : OnKey key (.get now key)
  | delete (now : Nat) : OnKey key (.delete now key 0)
  | insert (clock : Clock) (flags casUniq value : Bytes) (expiry : Nat) :
      OnKey key (.insert clock key flags casUniq value expiry)

/-- The counter has not wrapped below the flush stamp and will not wrap during
the next `n` calls. -/
structure InOrder (n : Nat) (s : Store) : Prop where
  flushed : s.gFlushAllTimestamp ≤ s.gTimestamp
  wrap : s.gTimestamp + n < wordSize

section Refinement

variable {env : Env} {key : KeyType} {s : Store} {n : Nat}

theorem InOrder.step (h : InOrder (n + 1) s) {op : Op} {r : RetStatus}
    {s' : Store} (hstep : StoreStep env s op r s') : InOrder n s' := by
  have hwrap := h.wrap
  have hflushed := h.flushed
  have hnext : s.gTimestamp + 1 < wordSize := by omega
  have hmono := hstep.timestamp hnext
  refine ⟨?_, by omega⟩
  rcases hstep.flushStamp hnext with hsame | ⟨hnew, htimestamp, -⟩
  · omega
  · omega

theorem view_absent (h : s.entry key = none) :
    s.view key = ⟨none, s.generator, s.gStoredSize⟩ := by
  simp [Store.view, h]

theorem view_present {it : ValueStruct} {stamp : TimestampType}
    (h : s.entry key = some (it, stamp)) :
    s.view key =
      ⟨some (it, decide (stamp < s.gFlushAllTimestamp)), s.generator,
        s.gStoredSize⟩ := by
  simp [Store.view, h]

theorem dead_iff {it : MapEntry} {now : Nat} :
    KeyView.dead now (it.1, decide (it.2 < s.gFlushAllTimestamp)) = true ↔
      Dead s now it := by
  simp [KeyView.dead, Dead]

theorem live_iff {it : MapEntry} {now : Nat} :
    KeyView.dead now (it.1, decide (it.2 < s.gFlushAllTimestamp)) = false ↔
      ¬ Dead s now it := by
  rw [← Bool.not_eq_true, dead_iff]

theorem view_get (now : Nat)
    (hstamp : s.gFlushAllTimestamp ≤ s.gTimestamp) :
    (s.view key).get now =
      ((getStep now key s).1, (getStep now key s).2.view key) := by
  cases hlookup :
      (s.gKeyToValueHashMap (getHashTblNbrFromKey key)).lookup key with
  | none =>
      have hnone : s.entry key = none := hlookup
      have hafter : (nextTimestamp s).2.view key = _ := view_absent hlookup
      rw [getStep_absent hlookup, view_absent hnone, hafter]
      rfl
  | some it =>
      have hsome : s.entry key = some it := hlookup
      by_cases hdead : Dead s now it
      · rw [getStep_dead hlookup hdead, view_present hsome,
          view_absent (entry_eraseKey_self _ key)]
        simp only [KeyView.get, dead_iff.mpr hdead, if_true]
        rfl
      · have hkept : decide (it.2 < s.gFlushAllTimestamp) = false := by
          rw [decide_eq_false_iff_not]
          exact fun hflushed => hdead (.inr hflushed)
        have hnew : decide (s.gTimestamp < s.gFlushAllTimestamp) = false := by
          rw [decide_eq_false_iff_not]
          exact not_lt.mpr hstamp
        have hlive := live_iff.mpr hdead
        rw [hkept] at hlive
        have hafter : (getStep now key s).2.view key =
            ⟨some (it.1, false), s.generator, s.gStoredSize⟩ := by
          rw [getStep_live hlookup hdead, ← hnew]
          exact view_present (entry_setEntry_self (nextTimestamp s).2 key _)
        rw [hafter, view_present hsome, hkept, getStep_live hlookup hdead]
        simp only [KeyView.get, hlive, Bool.false_eq_true, if_false]
        rfl

theorem view_delete (now : Nat) :
    (s.view key).delete now =
      ((deleteSection now key 0 s).1,
        (deleteSection now key 0 s).2.view key) := by
  cases hlookup :
      (s.gKeyToValueHashMap (getHashTblNbrFromKey key)).lookup key with
  | none =>
      have hnone : s.entry key = none := hlookup
      simp only [deleteSection, hlookup, view_absent hnone]
      rfl
  | some it =>
      have hsome : s.entry key = some it := hlookup
      by_cases hdead : Dead s now it
      · simp only [deleteSection, hlookup, hdead, if_true,
          view_present hsome, KeyView.delete, dead_iff.mpr hdead]
      · simp only [deleteSection, hlookup, hdead, if_false, if_true,
          view_present hsome, KeyView.delete, live_iff.mpr hdead,
          Bool.false_eq_true,
          view_absent (entry_eraseKey_self s key)]
        rfl

theorem view_token (key : KeyType) (now : Nat) :
    (s.view key).token env now = insertToken env now s := by
  rw [insertToken_eq]
  rfl

theorem view_fits (now : Nat) (flags value : Bytes) :
    (s.view key).fits env now key flags value ↔
      insertFits env key flags (insertToken env now s) value s := by
  rw [← view_token key]
  rfl

theorem view_insert (now : Nat) (flags casUniq value : Bytes) (expiry : Nat)
    (hstamp : s.gFlushAllTimestamp ≤ s.gTimestamp) :
    (s.view key).insert env now key flags casUniq value expiry =
      ((insertStep now key flags casUniq value expiry (insertToken env now s)
          s.gTimestamp (insertDrawn env now s)).1,
        (insertStep now key flags casUniq value expiry (insertToken env now s)
          s.gTimestamp (insertDrawn env now s)).2.view key) := by
  have hview : (s.view key).advance now = (insertDrawn env now s).view key := by
    simp only [Store.view, Store.entry, insertDrawn_gKeyToValueHashMap,
      insertDrawn_gStoredSize, insertDrawn_gFlushAllTimestamp,
      insertDrawn_generator]
    rfl
  unfold KeyView.insert
  rw [view_token, hview]
  cases hlookup : ((insertDrawn env now s).gKeyToValueHashMap
      (getHashTblNbrFromKey key)).lookup key with
  | none =>
      have hnone : (insertDrawn env now s).entry key = none := hlookup
      rw [view_absent hnone]
      by_cases hcas : casUniq = []
      · have hnew : decide (s.gTimestamp <
            (insertDrawn env now s).gFlushAllTimestamp) = false := by
          rw [decide_eq_false_iff_not, insertDrawn_gFlushAllTimestamp]
          exact not_lt.mpr hstamp
        rw [insertStep_created hlookup hcas]
        simp only [hcas, ne_eq, not_true_eq_false, if_false, ← hnew]
        refine Prod.ext rfl (Eq.symm (view_present ?_))
        exact entry_setEntry_self (insertDrawn env now s) key _
      · rw [insertStep_notExist hlookup hcas, view_absent hnone]
        simp only [hcas, ne_eq, not_false_eq_true, if_true]
  | some it =>
      have hsome : (insertDrawn env now s).entry key = some it := hlookup
      rw [view_present hsome]
      by_cases hcas : casUniq ≠ [] ∧ it.1.casUniq ≠ casUniq
      · rw [insertStep_refused hlookup hcas, view_present hsome]
        simp only [if_pos hcas]
      · rw [insertStep_overwrite hlookup hcas]
        simp only [if_neg hcas]
        refine Prod.ext rfl (Eq.symm (view_present ?_))
        exact entry_setEntry_self (insertDrawn env now s) key _

theorem exec_of_view {op : Op} (hop : OnKey key op)
    (hstamp : s.gFlushAllTimestamp ≤ s.gTimestamp) {a : op.Answer}
    {v : KeyView} (h : KeyView.exec env op (s.view key) = .ok (a, v)) :
    ∃ s', op.exec env ⟨s, Locks.free⟩ = .ok (a, ⟨s', Locks.free⟩) ∧
      s'.view key = v := by
  cases hop with
  | get now =>
      simp only [KeyView.exec, view_get now hstamp, Except.ok.injEq,
        Prod.mk.injEq] at h
      obtain ⟨rfl, rfl⟩ := h
      exact ⟨_, dbGetElement_free now key s, rfl⟩
  | delete now =>
      simp only [KeyView.exec, view_delete, Except.ok.injEq,
        Prod.mk.injEq] at h
      obtain ⟨rfl, rfl⟩ := h
      exact ⟨_, dbDeleteElement_free now key 0 s, rfl⟩
  | insert clock flags casUniq value expiry =>
      simp only [KeyView.exec] at h
      split at h
      · rename_i hfits
        simp only [view_insert clock.now flags casUniq value expiry hstamp,
          Except.ok.injEq, Prod.mk.injEq] at h
        obtain ⟨rfl, rfl⟩ := h
        have hexec := dbInsertElement_free env clock key flags casUniq value
          expiry s
        rw [insertLoop_of_fits ((view_fits clock.now flags value).mp hfits)]
          at hexec
        exact ⟨_, hexec, rfl⟩
      · contradiction

def HasRoom (env : Env) (s : Store) : Op → Prop
  | .insert clock key flags _ value _ =>
      insertFits env key flags (insertToken env clock.now s) value s
  | _ => True

instance (env : Env) (s : Store) : (op : Op) → Decidable (HasRoom env s op)
  | .insert clock key flags _ value _ => inferInstanceAs (Decidable
      (insertFits env key flags (insertToken env clock.now s) value s))
  | .add _ _ _ _ _ _ => isTrue trivial
  | .get _ _ => isTrue trivial
  | .delete _ _ _ => isTrue trivial
  | .setFlushAll _ _ => isTrue trivial
  | .handleFlushAll _ => isTrue trivial

theorem view_of_exec {op : Op} (hop : OnKey key op)
    (hstamp : s.gFlushAllTimestamp ≤ s.gTimestamp) (hroom : HasRoom env s op)
    {a : op.Answer} {t : State}
    (h : op.exec env ⟨s, Locks.free⟩ = .ok (a, t)) :
    KeyView.exec env op (s.view key) = .ok (a, t.store.view key) := by
  have htotal : ∃ b v, KeyView.exec env op (s.view key) = .ok (b, v) := by
    cases hop with
    | get now => exact ⟨_, _, rfl⟩
    | delete now => exact ⟨_, _, rfl⟩
    | insert clock flags casUniq value expiry =>
        refine ⟨_, _, if_pos ?_⟩
        exact (view_fits clock.now flags value).mpr hroom
  obtain ⟨b, v, hview⟩ := htotal
  obtain ⟨s', hexec, rfl⟩ := exec_of_view hop hstamp hview
  rw [hexec] at h
  cases h
  exact hview

end Refinement

end Memstashed.Dblru
