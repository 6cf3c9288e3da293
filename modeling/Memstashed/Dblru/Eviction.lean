import Memstashed.Dblru.Accounting

/-!
# Termination of the eviction loops

A turn of an eviction loop that goes on either moves to the following bucket or
removes an entry from a timestamp set, so the loops end.  They end in a return
with every mutex released exactly when `removeLRUElement` is never called on a
bucket that is empty or whose only entry is live.
-/

namespace Memstashed.Dblru

open Memstashed.Foundation

/-! ## The measure -/

def stampCount (s : Store) : Nat :=
  ∑ h, (s.gTimestampToKeySet h).toList.length

def bucketsLeft (orig h : HashTblNum) : Nat :=
  (orig.val + (dbMaxHashTables - 1) - h.val) % dbMaxHashTables

theorem bucketsLeft_lt (orig h : HashTblNum) :
    bucketsLeft orig h < dbMaxHashTables :=
  Nat.mod_lt _ (by decide)

theorem bucketsLeft_nextHashTblNum :
    ∀ orig h : HashTblNum, orig ≠ nextHashTblNum h →
      bucketsLeft orig (nextHashTblNum h) + 1 = bucketsLeft orig h := by
  decide

private theorem stampCount_eraseStamp {s s' : Store} {h : HashTblNum}
    {entry : TimestampToKeyStruct} (hmem : entry ∈ s.gTimestampToKeySet h)
    (hset : s'.gTimestampToKeySet = Function.update s.gTimestampToKeySet h
      ((s.gTimestampToKeySet h).erase entry.timestamp)) :
    stampCount s' + 1 = stampCount s := by
  have hbucket := OrderedSet.weight_erase (fun _ => 1) hmem
  simp only [OrderedSet.weight, List.map_const', List.sum_replicate,
    smul_eq_mul, mul_one] at hbucket
  have hrest : ∑ h' ∈ Finset.univ.erase h,
        (s'.gTimestampToKeySet h').toList.length =
      ∑ h' ∈ Finset.univ.erase h,
        (s.gTimestampToKeySet h').toList.length := by
    apply Finset.sum_congr rfl
    intro h' hh'
    rw [hset, Function.update_of_ne (Finset.ne_of_mem_erase hh')]
  unfold stampCount
  rw [← Finset.add_sum_erase _ _ (Finset.mem_univ h),
    ← Finset.add_sum_erase _ _ (Finset.mem_univ h), hrest, hset,
    Function.update_self]
  omega

theorem stampCount_evicts {s s' : Store} (h : Evicts s s') :
    stampCount s' + 1 = stampCount s := by
  obtain ⟨h, entry, hentry, ⟨-, rfl⟩ | ⟨it, -, rfl⟩⟩ := h
  · exact stampCount_eraseStamp hentry rfl
  · exact stampCount_eraseStamp hentry rfl

theorem stampCount_removeSection {s : Store} {now : Nat} {h : HashTblNum}
    (hfree : ¬ Stuck s now h) :
    stampCount (removeSection now h s).2 + 1 = stampCount s := by
  have hremove : removeSection now h s = (true, (removeSection now h s).2) :=
    Prod.ext (removeSection_of_not_stuck hfree) rfl
  exact stampCount_evicts (removeSection_evicts hremove)

/-! ## Where a loop gets stuck -/

/-- Some turn of the loop calls `removeLRUElement` on a bucket from which
nothing can be removed. -/
inductive MeetsStuck (action : HashTblNum → Store → LoopAction) :
    (Nat → Nat) → HashTblNum → Store → Prop
  | here {clock : Nat → Nat} {h h' : HashTblNum} {s : Store} :
      action h s = .evict h' → Stuck s (clock 0) h' →
      MeetsStuck action clock h s
  | advance {clock : Nat → Nat} {h h' : HashTblNum} {s : Store} :
      action h s = .advance h' → MeetsStuck action clock h' s →
      MeetsStuck action clock h s
  | evict {clock : Nat → Nat} {h h' : HashTblNum} {s : Store} :
      action h s = .evict h' →
      MeetsStuck action (fun i => clock (i + 1)) h'
        (removeSection (clock 0) h' s).2 →
      MeetsStuck action clock h s

structure Progresses (orig : HashTblNum)
    (action : HashTblNum → Store → LoopAction) : Prop where
  advance : ∀ h s h', action h s = .advance h' →
    bucketsLeft orig h' + 1 = bucketsLeft orig h
  evict : ∀ h s h', action h s = .evict h' →
    bucketsLeft orig h' ≤ bucketsLeft orig h ∧
      0 < stampCount s + bucketsLeft orig h

private theorem stampCount_pos {s : Store} {h : HashTblNum}
    (hmem : (s.gTimestampToKeySet h).toList.isEmpty = false) :
    0 < stampCount s := by
  have hsplit : stampCount s = _ :=
    (Finset.add_sum_erase _ _ (Finset.mem_univ h)).symm
  have hpos : 0 < (s.gTimestampToKeySet h).toList.length := by
    cases hlist : (s.gTimestampToKeySet h).toList with
    | nil => simp [hlist] at hmem
    | cons entry rest => simp
  omega

variable {fits : Store → Prop} [DecidablePred fits]

theorem insertAction_progresses (orig : HashTblNum) :
    Progresses orig (insertAction fits orig) where
  advance h s h' haction := by
    unfold insertAction at haction
    split at haction
    · contradiction
    · split at haction
      · split at haction
        · contradiction
        · rename_i hlast
          cases haction
          exact bucketsLeft_nextHashTblNum orig h hlast
      · contradiction
  evict h s h' haction := by
    unfold insertAction at haction
    split at haction
    · contradiction
    · split at haction
      · split at haction
        · contradiction
        · contradiction
      · rename_i hmem
        cases haction
        have hpos := stampCount_pos (by simpa using hmem)
        omega

theorem addAction_progresses (orig : HashTblNum) :
    Progresses orig (addAction fits orig) where
  advance h s h' haction := by
    unfold addAction at haction
    split at haction
    · contradiction
    · split at haction
      · split at haction
        · contradiction
        · contradiction
      · contradiction
  evict h s h' haction := by
    unfold addAction at haction
    split at haction
    · contradiction
    · split at haction
      · split at haction
        · contradiction
        · rename_i hlast
          cases haction
          have hnext := bucketsLeft_nextHashTblNum orig h hlast
          omega
      · rename_i hmem
        cases haction
        have hpos := stampCount_pos (by simpa using hmem)
        omega

omit [DecidablePred fits] in
theorem EvictionLoop.outcome {action : HashTblNum → Store → LoopAction}
    {loop : Nat → (Nat → Nat) → HashTblNum → Db Bool} {orig : HashTblNum}
    (hloop : EvictionLoop fits action loop) (hprogress : Progresses orig action)
    {fuel : Nat} :
    ∀ {clock : Nat → Nat} {h : HashTblNum} {s : Store},
      stampCount s + bucketsLeft orig h < fuel →
      (MeetsStuck action clock h s ∧
        loop fuel clock h ⟨s, Locks.free⟩ = .error .deadlock) ∨
      (¬ MeetsStuck action clock h s ∧
        ∃ room t, loop fuel clock h ⟨s, Locks.free⟩ = .ok (room, t)) := by
  induction fuel with
  | zero =>
      intro clock h s henough
      omega
  | succ fuel ih =>
      intro clock h s henough
      rw [hloop.turn]
      cases haction : action h s with
      | done room =>
          right
          constructor
          · intro hstuck
            cases hstuck <;> simp_all
          · exact ⟨room, _, rfl⟩
      | advance h' =>
          have hless := hprogress.advance h s h' haction
          have hiff : MeetsStuck action clock h s ↔
              MeetsStuck action clock h' s := by
            constructor
            · intro hstuck
              cases hstuck <;> simp_all
            · exact .advance haction
          rw [hiff]
          exact ih (by omega)
      | evict h' =>
          obtain ⟨hless, hpos⟩ := hprogress.evict h s h' haction
          by_cases hstuck : Stuck s (clock 0) h'
          · left
            refine ⟨.here haction hstuck, ?_⟩
            obtain ⟨fuel, rfl⟩ : ∃ n, fuel = n + 1 :=
              Nat.exists_eq_succ_of_ne_zero (by omega)
            simp only [removeSection_of_stuck hstuck, Bool.false_eq_true,
              if_false]
            exact hloop.held _ _ _ _ (hloop.full h s h' haction)
          · have hcount := stampCount_removeSection hstuck
            have hiff : MeetsStuck action clock h s ↔
                MeetsStuck action (fun i => clock (i + 1)) h'
                  (removeSection (clock 0) h' s).2 := by
              constructor
              · intro hmeets
                cases hmeets <;> simp_all
              · exact .evict haction
            rw [hiff]
            simp only [removeSection_of_not_stuck hstuck, if_true]
            exact ih (by omega)

theorem evictionFuel_enough (s : Store) (orig h : HashTblNum) :
    stampCount s + bucketsLeft orig h < evictionFuel s := by
  have hleft := bucketsLeft_lt orig h
  unfold evictionFuel
  unfold stampCount
  omega

/-! ## The two operations -/

/-- The eviction loop of this `dbInsertElement` calls `removeLRUElement` on a
bucket with a single entry that is live. -/
def InsertMeetsStuck (env : Env) (clock : Clock) (key flags value : Bytes)
    (s : Store) : Prop :=
  MeetsStuck
    (insertAction (insertFits env key flags (insertToken env clock.now s) value)
      (getHashTblNbrFromKey key))
    clock.evictions (getHashTblNbrFromKey key) (insertDrawn env clock.now s)

/-- The eviction loop of this `dbAddElement` calls `removeLRUElement` on a
bucket that is empty or has a single entry that is live. -/
def AddMeetsStuck (env : Env) (clock : Clock) (key value : Bytes)
    (s : Store) : Prop :=
  MeetsStuck (addAction (addFits env key value) (getHashTblNbrFromKey key))
    clock.evictions (getHashTblNbrFromKey key) (nextTimestamp s).2

theorem insertLoop_outcome (env : Env) (clock : Clock)
    (key flags value : Bytes) (s : Store) :
    (InsertMeetsStuck env clock key flags value s ∧
        insertLoop env clock key flags value s = .error .deadlock) ∨
      (¬ InsertMeetsStuck env clock key flags value s ∧
        ∃ room s', insertLoop env clock key flags value s =
          .ok (room, ⟨s', Locks.free⟩)) := by
  have hloop : EvictionLoop
      (insertFits env key flags (insertToken env clock.now s) value) _ _ :=
    insertMakeRoom_loop (getHashTblNbrFromKey key)
  rcases hloop.outcome (insertAction_progresses _)
    (evictionFuel_enough (insertDrawn env clock.now s) _ _) with
    ⟨hstuck, hrun⟩ | ⟨hfree, room, ⟨s', locks⟩, hrun⟩
  · exact .inl ⟨hstuck, hrun⟩
  · obtain rfl : locks = Locks.free :=
      (hloop.madeRoom hrun).locks
    exact .inr ⟨hfree, room, s', hrun⟩

theorem addLoop_outcome (env : Env) (clock : Clock) (key value : Bytes)
    (s : Store) :
    (AddMeetsStuck env clock key value s ∧
        addLoop env clock key value s = .error .deadlock) ∨
      (¬ AddMeetsStuck env clock key value s ∧
        ∃ room s', addLoop env clock key value s =
          .ok (room, ⟨s', Locks.free⟩)) := by
  have hloop : EvictionLoop (addFits env key value) _ _ :=
    addMakeRoom_loop (getHashTblNbrFromKey key)
  rcases hloop.outcome (addAction_progresses _)
    (evictionFuel_enough (nextTimestamp s).2 _ _) with
    ⟨hstuck, hrun⟩ | ⟨hfree, room, ⟨s', locks⟩, hrun⟩
  · exact .inl ⟨hstuck, hrun⟩
  · obtain rfl : locks = Locks.free :=
      (hloop.madeRoom hrun).locks
    exact .inr ⟨hfree, room, s', hrun⟩

theorem dbInsertElement_released_iff (env : Env) (clock : Clock)
    (key flags casUniq value : Bytes) (expiry : Nat) (s : Store) :
    (∃ r t, dbInsertElement env clock key flags casUniq value expiry
        ⟨s, Locks.free⟩ = .ok (r, t) ∧ t.locks = Locks.free) ↔
      ¬ InsertMeetsStuck env clock key flags value s := by
  rw [dbInsertElement_free]
  rcases insertLoop_outcome env clock key flags value s with
    ⟨hstuck, hrun⟩ | ⟨hfree, room, s', hrun⟩
  · simp [hrun, hstuck]
  · cases room <;> simp [hrun, hfree]

theorem dbAddElement_released_iff (env : Env) (clock : Clock)
    (key flags casUniq value : Bytes) (expiry : Nat) (s : Store) :
    (∃ r t, dbAddElement env clock key flags casUniq value expiry
        ⟨s, Locks.free⟩ = .ok (r, t) ∧ t.locks = Locks.free) ↔
      ¬ AddMeetsStuck env clock key value s := by
  rw [dbAddElement_free]
  rcases addLoop_outcome env clock key value s with
    ⟨hstuck, hrun⟩ | ⟨hfree, room, s', hrun⟩
  · simp [hrun, hstuck]
  · cases room <;> simp [hrun, hfree]

theorem Op.exec_error {env : Env} {op : Op} {t : State} {e : Fault}
    (hfree : t.locks = Locks.free) (hexec : op.exec env t = .error e) :
    e = .deadlock := by
  obtain ⟨s, locks⟩ := t
  subst hfree
  cases op with
  | insert clock key flags casUniq value expiry =>
      rw [Op.exec, dbInsertElement_free] at hexec
      rcases insertLoop_outcome env clock key flags value s with
        ⟨-, hloop⟩ | ⟨-, room, s', hloop⟩
      · rw [hloop] at hexec
        cases hexec
        rfl
      · rw [hloop] at hexec
        cases room <;> cases hexec
  | add clock key flags casUniq value expiry =>
      rw [Op.exec, dbAddElement_free] at hexec
      rcases addLoop_outcome env clock key value s with
        ⟨-, hloop⟩ | ⟨-, room, s', hloop⟩
      · rw [hloop] at hexec
        cases hexec
        rfl
      · rw [hloop] at hexec
        cases room <;> cases hexec
  | get now key =>
      rw [Op.exec, dbGetElement_free] at hexec
      contradiction
  | delete now key expiry =>
      rw [Op.exec, dbDeleteElement_free] at hexec
      contradiction
  | setFlushAll now expiry => contradiction
  | handleFlushAll now => contradiction

theorem Op.exec_free {env : Env} {op : Op} {t t' : State} {a : op.Answer}
    (hfree : t.locks = Locks.free) (hexec : op.exec env t = .ok (a, t')) :
    t'.locks = Locks.free := by
  obtain ⟨s, locks⟩ := t
  subst hfree
  exact (Op.exec_cases hexec).1

private theorem reached_free {env : Env} {t : State}
    (h : Reached (Op.run env) (fun _ _ => True) State.init t) :
    t.locks = Locks.free :=
  (reached_invariant (P := fun _ => True) trivial
    (fun _ _ _ _ _ _ _ => trivial) h).1

/--
In every state of every run, the two operations end with every mutex released
exactly when their loops never call `removeLRUElement` on a bucket from which
nothing can be removed; on every other bucket it removes one entry.
-/
theorem eviction_releases_iff (env : Env) (t : State)
    (h : Reached (Op.run env) (fun _ _ => True) State.init t) (clock : Clock)
    (key flags casUniq value : Bytes) (expiry : Nat) :
    ((∃ r t', dbInsertElement env clock key flags casUniq value expiry t =
          .ok (r, t') ∧ t'.locks = Locks.free) ↔
        ¬ InsertMeetsStuck env clock key flags value t.store) ∧
      ((∃ r t', dbAddElement env clock key flags casUniq value expiry t =
          .ok (r, t') ∧ t'.locks = Locks.free) ↔
        ¬ AddMeetsStuck env clock key value t.store) ∧
      ∀ s now h, ¬ Stuck s now h →
        stampCount (removeSection now h s).2 + 1 = stampCount s := by
  have hlocks := reached_free h
  obtain ⟨s, locks⟩ := t
  subst hlocks
  refine ⟨?_, ?_, ?_⟩
  · exact dbInsertElement_released_iff ..
  · exact dbAddElement_released_iff ..
  · intro s now h
    exact stampCount_removeSection

private theorem released_of_status {env : Env} {t : State} {clock : Clock}
    {key flags casUniq value : Bytes} {expiry : Nat} {r : RetStatus}
    (hfree : t.locks = Locks.free)
    (h : (dbInsertElement env clock key flags casUniq value expiry t).map
      Prod.fst = .ok r) :
    ∃ r t', dbInsertElement env clock key flags casUniq value expiry t =
      .ok (r, t') ∧ t'.locks = Locks.free := by
  obtain ⟨s, locks⟩ := t
  subst hfree
  cases hrun : dbInsertElement env clock key flags casUniq value expiry
      ⟨s, Locks.free⟩ with
  | error e =>
      rw [hrun] at h
      contradiction
  | ok result =>
      exact ⟨result.1, result.2, rfl, (dbInsertElement_cases hrun).1⟩

/-- With two live keys in the bucket, a third one is stored after one of them
has been evicted. -/
theorem eviction_releases_thirdKey :
    ∃ t, Reached (Op.run Env.x86) (fun _ _ => True) State.init t ∧
      ¬ InsertMeetsStuck Env.x86 (.const 1000) (ascii "u") (ascii "0")
        (List.replicate 3000 65) t.store := by
  obtain ⟨t, hreached, hobserved⟩ := exists_reached_of_replay (Op.run Env.x86)
    (fun _ _ => True) State.init
    [.insert (.const 1000) (ascii "a") (ascii "0") []
        (List.replicate 3000 65) 0,
      .insert (.const 1000) (ascii "k") (ascii "0") []
        (List.replicate 3000 65) 0]
    (fun t => (dbInsertElement Env.x86 (.const 1000) (ascii "u")
      (ascii "0") [] (List.replicate 3000 65) 0 t).map Prod.fst)
    (.ok .success) (by decide +kernel)
  refine ⟨t, hreached, (eviction_releases_iff Env.x86 t hreached (.const 1000)
    (ascii "u") (ascii "0") [] (List.replicate 3000 65) 0).1.mp ?_⟩
  exact released_of_status (reached_free hreached) hobserved

/-- With one live key in the store, a value that does not fit beside it makes
the server wait for itself. -/
theorem eviction_deadlocks_on_single_key :
    ¬ ∀ (env : Env) (t : State),
      Reached (Op.run env) (fun _ _ => True) State.init t →
        ∀ (clock : Clock) (key flags casUniq value : Bytes) (expiry : Nat),
          ∃ r t', dbInsertElement env clock key flags casUniq value expiry t =
            .ok (r, t') ∧ t'.locks = Locks.free := by
  intro hall
  obtain ⟨t, hreached, hobserved⟩ := exists_reached_of_replay (Op.run Env.x86)
    (fun _ _ => True) State.init
    [.insert (.const 1000) (ascii "k") (ascii "0") []
      (List.replicate 3500 65) 0]
    (fun t => (dbInsertElement Env.x86 (.const 1000) (ascii "j")
      (ascii "0") [] (List.replicate 3500 65) 0 t).map Prod.fst)
    (.error .deadlock) (by decide +kernel)
  obtain ⟨r, t', hrun, -⟩ := hall Env.x86 t hreached (.const 1000) (ascii "j")
    (ascii "0") [] (List.replicate 3500 65) 0
  rw [hrun] at hobserved
  contradiction

end Memstashed.Dblru
