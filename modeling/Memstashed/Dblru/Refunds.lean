import Memstashed.Dblru.Eviction
import Memstashed.Dblru.Writes

/-!
# What evictions give back

A call that reports a full memory has emptied every timestamp set before.  The
counter then is exactly what remains of it when everything stored is given back:
four bytes for each value that was ever evicted, and the whole charge of every
value that was deleted or found dead by a read.
-/

namespace Memstashed.Dblru

open Memstashed.Foundation

/-! ## What evictions can give back -/

def HasStamp (s : Store) (h : HashTblNum) (key : KeyType) : Prop :=
  ∃ entry ∈ (s.gTimestampToKeySet h).toList, entry.key = key

instance (s : Store) (h : HashTblNum) (key : KeyType) :
    Decidable (HasStamp s h key) :=
  inferInstanceAs (Decidable (∃ entry ∈ _, _))

def valueRefund (s : Store) (h : HashTblNum) (key : KeyType)
    (it : MapEntry) : Nat :=
  if HasStamp s h key then
    key.length + sizeofTimestamp + it.1.casUniq.length + it.1.flags.length +
      it.1.value.length
  else 0

def bucketRefund (s : Store) (h : HashTblNum) : Nat :=
  (s.gTimestampToKeySet h).weight stampCharge +
    mapWeight (valueRefund s h) (s.gKeyToValueHashMap h)

/-- What evictions would take off the counter if they went on to the end. -/
def refundable (s : Store) : Nat := ∑ h, bucketRefund s h

/-- What would be left of the counter then. -/
def residual (s : Store) : Nat := wordSub s.gStoredSize (refundable s)

section Refunds

variable {s s' : Store} {h : HashTblNum} {entry : TimestampToKeyStruct}
  {it : MapEntry}

variable (s s') in
theorem refundable_bucket (h : HashTblNum)
    (hother : ∀ h', h' ≠ h → bucketRefund s' h' = bucketRefund s h') :
    refundable s' + bucketRefund s h = refundable s + bucketRefund s' h := by
  have hrest : ∑ h' ∈ Finset.univ.erase h, bucketRefund s' h' =
      ∑ h' ∈ Finset.univ.erase h, bucketRefund s h' :=
    Finset.sum_congr rfl fun h' hh' => hother h' (Finset.ne_of_mem_erase hh')
  unfold refundable
  rw [← Finset.add_sum_erase _ _ (Finset.mem_univ h),
    ← Finset.add_sum_erase _ _ (Finset.mem_univ h), hrest]
  omega

theorem bucketRefund_congr
    (hset : s'.gTimestampToKeySet h = s.gTimestampToKeySet h)
    (hmap : s'.gKeyToValueHashMap h = s.gKeyToValueHashMap h) :
    bucketRefund s' h = bucketRefund s h := by
  have hvalue : valueRefund s' h = valueRefund s h := by
    funext key it
    have hiff : HasStamp s' h key ↔ HasStamp s h key := by
      unfold HasStamp
      rw [hset]
    simp only [valueRefund, hiff]
  simp only [bucketRefund, hset, hmap, hvalue]

theorem valueRefund_erase
    (hset : s'.gTimestampToKeySet h =
      (s.gTimestampToKeySet h).erase entry.timestamp)
    (hentry : entry ∈ s.gTimestampToKeySet h) {key : KeyType}
    (hne : key ≠ entry.key) : valueRefund s' h key it = valueRefund s h key it := by
  have hiff : HasStamp s' h key ↔ HasStamp s h key := by
    unfold HasStamp
    rw [hset]
    constructor
    · rintro ⟨e, he, hkey⟩
      exact ⟨e, (OrderedSet.mem_erase.mp he).1, hkey⟩
    · rintro ⟨e, he, hkey⟩
      refine ⟨e, OrderedSet.mem_erase.mpr ⟨he, ?_⟩, hkey⟩
      intro hstamp
      exact hne (hkey ▸ congrArg TimestampToKeyStruct.key
        (OrderedSet.eq_of_key_eq he hentry hstamp))
  simp only [valueRefund, hiff]

theorem refundable_evicts (h : Evicts s s') :
    ∃ refund, refundable s' + refund = refundable s ∧
      s'.gStoredSize = wordSub s.gStoredSize refund := by
  obtain ⟨h, entry, hentry, ⟨hnone, rfl⟩ | ⟨it, hlookup, rfl⟩⟩ := h
  · refine ⟨stampCharge entry, ?_, rfl⟩
    have hbucket := refundable_bucket s (evictOrphan s h entry) h
      fun h' hne => bucketRefund_congr (by simp [evictOrphan, hne])
        (by simp [evictOrphan])
    have hset : (evictOrphan s h entry).gTimestampToKeySet h =
        (s.gTimestampToKeySet h).erase entry.timestamp := by simp [evictOrphan]
    have hweight := OrderedSet.weight_erase stampCharge hentry
    have hvalues : mapWeight (valueRefund (evictOrphan s h entry) h)
        (s.gKeyToValueHashMap h) =
          mapWeight (valueRefund s h) (s.gKeyToValueHashMap h) := by
      apply mapWeight_congr
      intro key it hkey
      refine valueRefund_erase hset hentry ?_
      rintro rfl
      rw [hnone] at hkey
      contradiction
    have hmap : (evictOrphan s h entry).gKeyToValueHashMap h =
        s.gKeyToValueHashMap h := rfl
    simp only [bucketRefund, hset, hmap, hvalues] at hbucket
    omega
  · refine ⟨evictionRefund entry it, ?_, rfl⟩
    have hbucket := refundable_bucket s (evictPair s h entry it) h
      fun h' hne => bucketRefund_congr (by simp [evictPair, hne])
        (by simp [evictPair, hne])
    have hset : (evictPair s h entry it).gTimestampToKeySet h =
        (s.gTimestampToKeySet h).erase entry.timestamp := by simp [evictPair]
    have hmap : (evictPair s h entry it).gKeyToValueHashMap h =
        (s.gKeyToValueHashMap h).erase entry.key := by simp [evictPair]
    have hweight := OrderedSet.weight_erase stampCharge hentry
    have herase := mapWeight_erase (valueRefund s h) hlookup
    have hvalues : mapWeight (valueRefund (evictPair s h entry it) h)
        ((s.gKeyToValueHashMap h).erase entry.key) =
          mapWeight (valueRefund s h)
            ((s.gKeyToValueHashMap h).erase entry.key) := by
      apply mapWeight_congr
      intro key it hkey
      refine valueRefund_erase hset hentry ?_
      rintro rfl
      rw [AList.lookup_erase] at hkey
      contradiction
    have hstamp : HasStamp s h entry.key := ⟨entry, hentry, rfl⟩
    have hrefund : stampCharge entry + valueRefund s h entry.key it =
        evictionRefund entry it := by
      simp only [stampCharge, valueRefund, hstamp, if_true, evictionRefund]
      omega
    simp only [bucketRefund, hset, hmap, hvalues] at hbucket
    omega

theorem refundable_evictsMany (h : EvictsMany s s') :
    toWord (s'.gStoredSize + refundable s) =
      toWord (s.gStoredSize + refundable s') := by
  induction h with
  | refl => rfl
  | tail _ hstep ih =>
      obtain ⟨refund, hless, hsize⟩ := refundable_evicts hstep
      rw [hsize]
      unfold toWord wordSub at *
      omega

theorem refundable_of_empty (hempty : AllSetsEmpty s) : refundable s = 0 := by
  apply Finset.sum_eq_zero
  intro h _
  have hvalues : mapWeight (valueRefund s h) (s.gKeyToValueHashMap h) =
      mapWeight (fun _ _ => 0) (s.gKeyToValueHashMap h) := by
    apply mapWeight_congr
    intro key it _
    simp [valueRefund, HasStamp, hempty h]
  rw [bucketRefund, hvalues]
  simp [OrderedSet.weight, hempty h, mapWeight]

end Refunds

/-! ## Refused for want of memory -/

/-- The decisions of a loop visit the buckets in turn and leave each of them
empty. -/
structure Sweeps (orig : HashTblNum)
    (action : HashTblNum → Store → LoopAction) : Prop where
  last : ∀ h s, action h s = .done false →
    bucketsLeft orig h = 0 ∧ (s.gTimestampToKeySet h).toList = []
  advance : ∀ h s h', action h s = .advance h' →
    bucketsLeft orig h' + 1 = bucketsLeft orig h ∧
      (s.gTimestampToKeySet h).toList = []
  evict : ∀ h s h', action h s = .evict h' → h' = h ∨
    bucketsLeft orig h' + 1 = bucketsLeft orig h ∧
      (s.gTimestampToKeySet h).toList = []

def SweptBefore (orig h : HashTblNum) (s : Store) : Prop :=
  ∀ b, bucketsLeft orig h < bucketsLeft orig b →
    (s.gTimestampToKeySet b).toList = []

theorem bucketsLeft_injective :
    ∀ orig a b : HashTblNum, bucketsLeft orig a = bucketsLeft orig b → a = b := by
  decide

theorem bucketsLeft_of_last :
    ∀ orig h : HashTblNum, orig = nextHashTblNum h → bucketsLeft orig h = 0 := by
  decide

theorem bucketsLeft_self : ∀ orig b : HashTblNum,
    ¬ bucketsLeft orig orig < bucketsLeft orig b := by
  decide

theorem SweptBefore.advance {orig h h' : HashTblNum} {s : Store}
    (hswept : SweptBefore orig h s)
    (hless : bucketsLeft orig h' + 1 = bucketsLeft orig h)
    (hempty : (s.gTimestampToKeySet h).toList = []) :
    SweptBefore orig h' s := by
  intro b hb
  by_cases hsame : b = h
  · rw [hsame]
    exact hempty
  · apply hswept
    have hne : bucketsLeft orig h ≠ bucketsLeft orig b :=
      fun heq => hsame (bucketsLeft_injective orig h b heq).symm
    omega

theorem empty_evicts {s s' : Store} (h : Evicts s s') {b : HashTblNum}
    (hempty : (s.gTimestampToKeySet b).toList = []) :
    (s'.gTimestampToKeySet b).toList = [] := by
  obtain ⟨h, entry, -, ⟨-, rfl⟩ | ⟨it, -, rfl⟩⟩ := h
  · by_cases hb : b = h
    · subst hb
      simp [evictOrphan, OrderedSet.erase, hempty]
    · simpa [evictOrphan, hb] using hempty
  · by_cases hb : b = h
    · subst hb
      simp [evictPair, OrderedSet.erase, hempty]
    · simpa [evictPair, hb] using hempty

theorem empty_evictsMany {s s' : Store} (h : EvictsMany s s') {b : HashTblNum}
    (hempty : (s.gTimestampToKeySet b).toList = []) :
    (s'.gTimestampToKeySet b).toList = [] := by
  induction h with
  | refl => exact hempty
  | tail _ hstep ih => exact empty_evicts hstep ih

theorem SweptBefore.evict {action : HashTblNum → Store → LoopAction}
    {orig h h' : HashTblNum} {s : Store} (hswept : SweptBefore orig h s)
    (hsweeps : Sweeps orig action) (haction : action h s = .evict h') :
    SweptBefore orig h' s := by
  rcases hsweeps.evict h s h' haction with rfl | ⟨hless, hempty⟩
  · exact hswept
  · exact hswept.advance hless hempty

theorem SweptBefore.removed {orig h : HashTblNum} {s : Store}
    (hswept : SweptBefore orig h s) (now : Nat) (b : HashTblNum) :
    SweptBefore orig h (removeSection now b s).2 := by
  intro b' hb'
  exact empty_evictsMany (removeSection_evictsMany now b s) (hswept b' hb')

theorem SweptBefore.all {orig h : HashTblNum} {s : Store}
    (hswept : SweptBefore orig h s) (hzero : bucketsLeft orig h = 0)
    (hempty : (s.gTimestampToKeySet h).toList = []) : AllSetsEmpty s := by
  intro b
  by_cases hsame : b = h
  · rw [hsame]
    exact hempty
  · apply hswept
    have hne : bucketsLeft orig h ≠ bucketsLeft orig b :=
      fun heq => hsame (bucketsLeft_injective orig h b heq).symm
    omega

theorem EvictionLoop.full_empty {fits : Store → Prop}
    {action : HashTblNum → Store → LoopAction}
    {loop : Nat → (Nat → Nat) → HashTblNum → Db Bool} {orig : HashTblNum}
    (hloop : EvictionLoop fits action loop) (hsweeps : Sweeps orig action)
    {fuel : Nat} :
    ∀ {clock : Nat → Nat} {h : HashTblNum} {s : Store} {t : State},
      SweptBefore orig h s →
      loop fuel clock h ⟨s, Locks.free⟩ = .ok (false, t) →
      AllSetsEmpty t.store := by
  induction fuel with
  | zero =>
      intro clock h s t _ hrun
      rw [hloop.spin] at hrun
      contradiction
  | succ fuel ih =>
      intro clock h s t hswept hrun
      rw [hloop.turn] at hrun
      cases haction : action h s with
      | done room =>
          simp only [haction, Except.ok.injEq, Prod.mk.injEq] at hrun
          obtain ⟨rfl, rfl⟩ := hrun
          obtain ⟨hzero, hempty⟩ := hsweeps.last h s haction
          exact hswept.all hzero hempty
      | advance h' =>
          rw [haction] at hrun
          obtain ⟨hless, hempty⟩ := hsweeps.advance h s h' haction
          exact ih (hswept.advance hless hempty) hrun
      | evict h' =>
          simp only [haction] at hrun
          have hswept' : SweptBefore orig h' (removeSection (clock 0) h' s).2 :=
            (hswept.evict hsweeps haction).removed (clock 0) h'
          cases hremove : removeSection (clock 0) h' s with
          | mk released s' =>
              rw [hremove] at hswept'
              cases released with
              | true =>
                  rw [hremove] at hrun
                  exact ih hswept' hrun
              | false =>
                  -- Nothing was removed, so the loop waits for itself.
                  obtain ⟨-, rfl⟩ := stuck_of_not_released hremove
                  rw [hremove] at hrun
                  cases fuel with
                  | zero =>
                      rw [hloop.spin] at hrun
                      contradiction
                  | succ fuel =>
                      simp only [Bool.false_eq_true, if_false,
                        hloop.held fuel _ _ _ (hloop.full h s' h' haction)]
                        at hrun
                      contradiction

section Full

variable {fits : Store → Prop} [DecidablePred fits]

theorem insertAction_sweeps (orig : HashTblNum) :
    Sweeps orig (insertAction fits orig) where
  last h s haction := by
    unfold insertAction at haction
    split at haction
    · cases haction
    · split at haction
      · rename_i hempty
        split at haction
        · rename_i hlast
          exact ⟨bucketsLeft_of_last orig h hlast, by simpa using hempty⟩
        · contradiction
      · contradiction
  advance h s h' haction := by
    refine ⟨(insertAction_progresses orig).advance h s h' haction, ?_⟩
    unfold insertAction at haction
    split at haction
    · contradiction
    · split at haction
      · rename_i hempty
        simpa using hempty
      · contradiction
  evict h s h' haction := by
    unfold insertAction at haction
    split at haction
    · contradiction
    · split at haction
      · split at haction
        · contradiction
        · contradiction
      · cases haction
        exact .inl rfl

theorem addAction_sweeps (orig : HashTblNum) :
    Sweeps orig (addAction fits orig) where
  last h s haction := by
    unfold addAction at haction
    split at haction
    · cases haction
    · split at haction
      · rename_i hempty
        split at haction
        · rename_i hlast
          exact ⟨bucketsLeft_of_last orig h hlast, by simpa using hempty⟩
        · contradiction
      · contradiction
  advance h s h' haction := by
    unfold addAction at haction
    split at haction
    · contradiction
    · split at haction
      · split at haction
        · contradiction
        · contradiction
      · contradiction
  evict h s h' haction := by
    unfold addAction at haction
    split at haction
    · contradiction
    · split at haction
      · rename_i hempty
        split at haction
        · contradiction
        · rename_i hlast
          cases haction
          exact .inr ⟨bucketsLeft_nextHashTblNum orig h hlast,
            by simpa using hempty⟩
      · cases haction
        exact .inl rfl

end Full

theorem storedSize_of_emptied {s s₁ : Store} (h : EvictsMany s s₁)
    (hempty : AllSetsEmpty s₁) (n : Nat) :
    toWord (s₁.gStoredSize + n) = toWord (residual s + n) := by
  have hsame := refundable_evictsMany h
  rw [refundable_of_empty hempty] at hsame
  unfold residual toWord wordSub at *
  omega

def Op.charge (env : Env) (s : Store) : Op → Nat
  | .insert clock key flags _ value _ =>
      insertCharge key flags (insertToken env clock.now s) value
  | .add clock key flags _ value _ =>
      insertCharge key flags (addToken env clock.now) value
  | _ => 0

/-- The item to be stored, if there is one, would fit if everything stored were
given back; or it is too large for the empty cache. -/
def FitsEmptied (env : Env) (s : Store) (op : Op) : Prop :=
  op.write?.isNone = true ∨
    residual s + op.charge env s < env.gServMemLimit ∨
    env.gServMemLimit ≤ op.charge env s

instance (env : Env) (s : Store) (op : Op) :
    Decidable (FitsEmptied env s op) :=
  inferInstanceAs (Decidable (_ ∨ _))

section MemoryFull

variable {env : Env} {s s' : Store} {op : Op} {r : RetStatus}

theorem residual_congr
    (hset : s'.gTimestampToKeySet = s.gTimestampToKeySet)
    (hmap : s'.gKeyToValueHashMap = s.gKeyToValueHashMap)
    (hsize : s'.gStoredSize = s.gStoredSize) : residual s' = residual s := by
  have hrefund : refundable s' = refundable s := by
    unfold refundable
    apply Finset.sum_congr rfl
    intro h _
    exact bucketRefund_congr (congrFun hset h) (congrFun hmap h)
  rw [residual, residual, hrefund, hsize]

theorem toWord_le (n : Nat) : toWord n ≤ n := Nat.mod_le _ _

theorem insertLoop_full {clock : Clock} {key flags value : Bytes}
    (h : insertLoop env clock key flags value s =
      .ok (false, ⟨s', Locks.free⟩)) :
    env.gServMemLimit ≤ residual s +
      insertCharge key flags (insertToken env clock.now s) value := by
  obtain ⟨hevicts, hroom⟩ := insertLoop_spec h
  have hempty : AllSetsEmpty s' :=
    (insertMakeRoom_loop _).full_empty (insertAction_sweeps _)
      (fun b hb => absurd hb (bucketsLeft_self _ b)) h
  have hfull : ¬ insertFits env key flags (insertToken env clock.now s) value
      s' := by
    intro hfits
    exact absurd (hroom.mpr hfits) (by simp)
  have hsame : residual (insertDrawn env clock.now s) = residual s :=
    residual_congr (insertDrawn_gTimestampToKeySet ..)
      (insertDrawn_gKeyToValueHashMap ..) (insertDrawn_gStoredSize ..)
  have hemptied := storedSize_of_emptied hevicts hempty
    (insertCharge key flags (insertToken env clock.now s) value)
  have hle := toWord_le (residual s +
    insertCharge key flags (insertToken env clock.now s) value)
  rw [hsame] at hemptied
  unfold insertFits at hfull
  rw [show s'.gStoredSize + 2 * key.length + 2 * sizeofTimestamp +
      flags.length + (insertToken env clock.now s).length + sizeofTimestamp +
      value.length = s'.gStoredSize + insertCharge key flags
        (insertToken env clock.now s) value by unfold insertCharge; omega,
    hemptied] at hfull
  omega

theorem addLoop_full {clock : Clock} {key value : Bytes}
    (h : addLoop env clock key value s = .ok (false, ⟨s', Locks.free⟩))
    (flags token : Bytes) :
    env.gServMemLimit ≤ residual s + insertCharge key flags token value := by
  obtain ⟨hevicts, hroom⟩ := addLoop_spec h
  have hempty : AllSetsEmpty s' :=
    (addMakeRoom_loop _).full_empty (addAction_sweeps _)
      (fun b hb => absurd hb (bucketsLeft_self _ b)) h
  have hfull : ¬ addFits env key value s' := by
    intro hfits
    exact absurd (hroom.mpr hfits) (by simp)
  have hsame : residual (nextTimestamp s).2 = residual s :=
    residual_congr rfl rfl rfl
  have hemptied := storedSize_of_emptied hevicts hempty
    (2 * key.length + 2 * sizeofTimestamp + sizeofTimestamp + value.length)
  have hle := toWord_le (residual s + (2 * key.length + 2 * sizeofTimestamp +
    sizeofTimestamp + value.length))
  rw [hsame] at hemptied
  unfold addFits at hfull
  rw [show s'.gStoredSize + 2 * key.length + 2 * sizeofTimestamp +
      sizeofTimestamp + value.length = s'.gStoredSize + (2 * key.length +
        2 * sizeofTimestamp + sizeofTimestamp + value.length) by omega,
    hemptied] at hfull
  unfold insertCharge
  omega

theorem insertStep_ne_memoryFull (now : Nat) (key flags casUniq value : Bytes)
    (expiry : Nat) (token : Bytes) (timestamp : TimestampType) (s : Store) :
    (insertStep now key flags casUniq value expiry token timestamp s).1 ≠
      .memoryFull := by
  unfold insertStep
  split <;> simp

theorem addStep_ne_memoryFull (now : Nat) (key flags value : Bytes)
    (expiry : Nat) (token : Bytes) (timestamp : TimestampType) (s : Store) :
    (addStep now key flags value expiry token timestamp s).1 ≠
      .memoryFull := by
  unfold addStep
  split <;> simp

theorem StoreStep.memoryFull (hstep : StoreStep env s op r s')
    (hr : r = .memoryFull) :
    op.write?.isSome = true ∧
      env.gServMemLimit ≤ residual s + op.charge env s := by
  cases hstep with
  | insert casUniq expiry room =>
      exact absurd hr (insertStep_ne_memoryFull _ _ _ _ _ _ _ _ _)
  | insertFull casUniq expiry full => exact ⟨rfl, insertLoop_full full⟩
  | add flags casUniq expiry room =>
      exact absurd hr (addStep_ne_memoryFull _ _ _ _ _ _ _ _)
  | addFull flags casUniq expiry full => exact ⟨rfl, addLoop_full full _ _⟩
  | get now key => split at hr <;> contradiction
  | delete now key expiry =>
      cases hlookup :
          (s.gKeyToValueHashMap (getHashTblNbrFromKey key)).lookup key with
      | none => simp [deleteSection, hlookup] at hr
      | some it =>
          simp only [deleteSection, hlookup] at hr
          split at hr
          · contradiction
          · split at hr <;> contradiction
  | setFlushAll now expiry => contradiction
  | handleFlushAll now => contradiction

end MemoryFull

end Memstashed.Dblru
