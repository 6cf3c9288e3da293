import Memstashed.Dblru.Accesses
import Memstashed.Dblru.Protocol
import Memstashed.Foundation.LockOrder

/-!
# Which threads wait for ever

The functions of `dblru.cpp` take the mutex of a timestamp set before that of
the map, and never a second one of either kind, so that no threads wait for each
other.  The early return of `removeLRUElement` is another matter: both mutexes
of the bucket stay held, and the bucket is lost for every call that comes later.
-/

namespace Memstashed.Dblru

open Memstashed.Foundation

def Mutex.rank : Mutex → Nat
  | timestampToKey _ => 0
  | keyToValue _ => 1

def Access.leaks : (j : Access) → j.Answer → List Mutex
  | stampAt h _, none => [.keyToValue h, .timestampToKey h]
  | _, _ => []

/-- The section is entered without a mutex, and left with those it leaks. -/
abbrev Ranked {α : Type} (g : Ledger Mutex) (p : Accesses α) : Prop :=
  Orderly Mutex.rank Access.leaks g p

section Sections

variable {α β : Type} {g : Ledger Mutex}

theorem ranked_step {j : Access} {next : j.Answer → Accesses α}
    (hleaks : ∀ r, j.leaks r = []) (hnext : ∀ r, Ranked g (next r)) :
    Ranked g (.call (.access j) next) := by
  refine .call (fun r => .inl (hleaks r)) fun r => ?_
  rw [Ledger.learn, hleaks r]
  exact hnext r

theorem ranked_isDead {now : Nat} {it : MapEntry} {rest : Bool → Accesses α}
    (hrest : ∀ dead, Ranked g (rest dead)) :
    Ranked g (Accesses.isDead now it >>= rest) := by
  unfold Accesses.isDead
  split
  · exact hrest true
  · exact ranked_step (fun _ => rfl) fun _ => hrest _

theorem ranked_lock {m : Mutex} {next : Unit → Accesses α}
    (howned : ∀ m' ∈ g.owned, m'.rank < m.rank)
    (hnext : Ranked ⟨m :: g.owned, g.leaked⟩ (next ())) :
    Ranked g (.call (.lock m) next) :=
  .call howned fun _ => hnext

theorem ranked_unlock {m : Mutex} {owned leaked : List Mutex}
    {next : Unit → Accesses α} (hnext : Ranked ⟨owned, leaked⟩ (next ())) :
    Ranked ⟨m :: owned, leaked⟩ (.call (.unlock m) next) :=
  .call ⟨owned, rfl⟩ fun _ => hnext

theorem ranked_done {leaked : List Mutex} (a : α) :
    Ranked ⟨[], leaked⟩ (.done a) :=
  .done rfl

variable {leaked : List Mutex} {h : HashTblNum}

theorem ranked_evictOrphan (entry : TimestampToKeyStruct) :
    Ranked ⟨[.keyToValue h, .timestampToKey h], leaked⟩
      (Accesses.evictOrphan h entry) :=
  ranked_step (fun _ => rfl) fun _ => ranked_step (fun _ => rfl) fun _ =>
    ranked_unlock (ranked_unlock (ranked_done _))

theorem ranked_evictPair (entry : TimestampToKeyStruct) (it : MapEntry) :
    Ranked ⟨[.keyToValue h, .timestampToKey h], leaked⟩
      (Accesses.evictPair h entry it) :=
  ranked_step (fun _ => rfl) fun _ => ranked_step (fun _ => rfl) fun _ =>
    ranked_step (fun _ => rfl) fun _ =>
      ranked_unlock (ranked_unlock (ranked_done _))

theorem ranked_scanTurn {now n : Nat}
    {alive : TimestampToKeyStruct → Accesses Unit}
    (halive : ∀ entry, Ranked ⟨[.keyToValue h, .timestampToKey h], leaked⟩
      (alive entry)) :
    Ranked ⟨[.keyToValue h, .timestampToKey h], leaked⟩
      (Accesses.scanTurn now h n alive) := by
  refine .call (fun entry => ?_) fun entry => ?_
  · cases entry with
    | none => exact .inr rfl
    | some entry => exact .inl rfl
  · cases entry with
    | none => exact .done rfl
    | some entry =>
        refine ranked_step (fun _ => rfl) fun it => ?_
        cases it with
        | none => exact ranked_evictOrphan entry
        | some it =>
            refine ranked_isDead fun dead => ?_
            cases dead with
            | true => exact ranked_evictPair entry it
            | false => exact halive entry

theorem ranked_removeLRUElement (now : Nat) (h : HashTblNum) :
    Ranked ⟨[], leaked⟩ (Accesses.removeLRUElement now h) := by
  refine ranked_lock (by simp) (ranked_lock (by simp [Mutex.rank]) ?_)
  refine ranked_scanTurn fun one => ranked_scanTurn fun two => ?_
  refine ranked_step (fun _ => rfl) fun valueOne => ?_
  refine ranked_step (fun _ => rfl) fun valueTwo => ?_
  change Ranked _ (if valueOne.1.value.length < valueTwo.1.value.length then _
    else _)
  split
  · exact ranked_evictPair two valueTwo
  · exact ranked_evictPair one valueOne

theorem ranked_getSection (now : Nat) (key : KeyType)
    (timestamp : TimestampType) :
    Ranked ⟨[], leaked⟩ (Accesses.getSection now key timestamp) := by
  refine ranked_lock (by simp) (ranked_step (fun _ => rfl) fun it => ?_)
  cases it with
  | none => exact ranked_unlock (ranked_done _)
  | some it =>
      refine ranked_isDead fun dead => ?_
      cases dead with
      | true =>
          exact ranked_step (fun _ => rfl) fun _ =>
            ranked_unlock (ranked_done _)
      | false =>
          exact ranked_step (fun _ => rfl) fun _ =>
            ranked_unlock (ranked_done _)

theorem ranked_deleteSection (now : Nat) (key : KeyType) (expiry : Nat) :
    Ranked ⟨[], leaked⟩ (Accesses.deleteSection now key expiry) := by
  refine ranked_lock (by simp) (ranked_step (fun _ => rfl) fun it => ?_)
  cases it with
  | none => exact ranked_unlock (ranked_done _)
  | some it =>
      refine ranked_isDead fun dead => ?_
      cases dead with
      | true => exact ranked_unlock (ranked_done _)
      | false =>
          change Ranked _ (if expiry = 0 then _ else _)
          split
          · exact ranked_step (fun _ => rfl) fun _ =>
              ranked_unlock (ranked_done _)
          · exact ranked_step (fun _ => rfl) fun _ =>
              ranked_unlock (ranked_done _)

theorem ranked_overwrite {expiry : Nat} {key : KeyType}
    {valueStr : ValueStruct} (a : α) :
    Ranked ⟨[.keyToValue h], leaked⟩
      (Accesses.overwrite h key expiry valueStr >>= fun _ => .done a) :=
  ranked_step (fun _ => rfl) fun _ => ranked_step (fun _ => rfl) fun _ =>
    ranked_step (fun _ => rfl) fun _ => ranked_step (fun _ => rfl) fun _ =>
      ranked_unlock (ranked_done _)

theorem ranked_insertSection (now : Nat) (key casUniq : Bytes) (expiry : Nat)
    (valueStr : ValueStruct) (timestamp : TimestampType) :
    Ranked ⟨[], leaked⟩
      (Accesses.insertSection now key casUniq expiry valueStr timestamp) := by
  refine ranked_lock (by simp) (ranked_step (fun _ => rfl) fun it => ?_)
  cases it with
  | none =>
      change Ranked _ (if casUniq ≠ [] then _ else _)
      split
      · exact ranked_step (fun _ => rfl) fun _ =>
          ranked_unlock (ranked_done _)
      · exact ranked_unlock (ranked_done _)
  | some it =>
      change Ranked _
        (if casUniq ≠ [] ∧ it.1.casUniq ≠ casUniq then _ else _)
      split
      · exact ranked_unlock (ranked_done _)
      · exact ranked_overwrite _

theorem ranked_addSection (now : Nat) (key : Bytes) (expiry : Nat)
    (valueStr : ValueStruct) (timestamp : TimestampType) :
    Ranked ⟨[], leaked⟩
      (Accesses.addSection now key expiry valueStr timestamp) := by
  refine ranked_lock (by simp) (ranked_step (fun _ => rfl) fun it => ?_)
  cases it with
  | none => exact ranked_unlock (ranked_done _)
  | some it =>
      refine ranked_isDead fun dead => ?_
      cases dead with
      | true => exact ranked_overwrite _
      | false => exact ranked_unlock (ranked_done _)

theorem ranked_ofSection (i : Section) :
    Ranked ⟨[], leaked⟩ (Accesses.ofSection i) := by
  cases i with
  | setIsEmpty h =>
      exact ranked_lock (by simp) (ranked_step (fun _ => rfl) fun _ =>
        ranked_unlock (ranked_done _))
  | removeLRUElement now h => exact ranked_removeLRUElement now h
  | getSection now key timestamp => exact ranked_getSection now key timestamp
  | deleteSection now key expiry => exact ranked_deleteSection now key expiry
  | insertSection now key casUniq expiry valueStr timestamp =>
      exact ranked_insertSection now key casUniq expiry valueStr timestamp
  | addSection now key expiry valueStr timestamp =>
      exact ranked_addSection now key expiry valueStr timestamp
  | eraseStamp entry =>
      exact ranked_lock (by simp) (ranked_step (fun _ => rfl) fun _ =>
        ranked_unlock (ranked_done _))
  | insertStamp entry =>
      exact ranked_lock (by simp) (ranked_step (fun _ => rfl) fun _ =>
        ranked_unlock (ranked_done _))
  | restamp old entry =>
      exact ranked_lock (by simp) (ranked_step (fun _ => rfl) fun _ =>
        ranked_step (fun _ => rfl) fun _ => ranked_unlock (ranked_done _))
  | _ => exact ranked_step (fun _ => rfl) fun _ => ranked_done _

theorem ranked_accesses (env : Env) (call : DbCall) :
    Ranked .empty (call.accesses env) := by
  refine Prog.Calls.refine_obeys (P := fun _ => True) ?_
    (fun i _ g hg => ?_) rfl
  · generalize call.program env = p
    induction p with
    | done a => exact .done a
    | fail e => exact .fail e
    | call i next ih => exact .call trivial ih
  · obtain ⟨owned, leaked⟩ := g
    obtain rfl : owned = [] := hg
    exact ranked_ofSection i

end Sections

/-! ## Threads that are stuck -/

section Stuck

variable {κ : Type} [DecidableEq κ] {env : Env} {ok : AdmitsAccess Returned κ}
  {calls : κ → DbCall} {s₀ : Store} {history : AccessTurns κ}
  {pool : κ → Accesses Returned} {s : Locked Mutex Store}

def cutsShort (b : HashTblNum) :
    (c : Guarded Mutex Access) → c.Answer Access.Answer → Bool
  | .access (.stampAt h _), none => h == b
  | _, _ => false

abbrev CutShort (b : HashTblNum) (history : AccessTurns κ) : Prop :=
  ∃ e ∈ history, cutsShort b e.call e.answer = true

theorem cutsShort_of_leaks {c : Guarded Mutex Access}
    {r : c.Answer Access.Answer} {m : Mutex}
    (hm : m ∈ Guarded.leaksOf Access.leaks c r) :
    ∃ b, cutsShort b c r = true ∧
      (m = .keyToValue b ∨ m = .timestampToKey b) := by
  cases c with
  | lock m' => contradiction
  | unlock m' => contradiction
  | access j =>
      cases j with
      | stampAt b n =>
          cases r with
          | none =>
              refine ⟨b, beq_self_eq_true b, ?_⟩
              simpa [Guarded.leaksOf, Access.leaks] using hm
          | some entry => contradiction
      | _ => contradiction

theorem leaks_of_cutsShort {b : HashTblNum} {c : Guarded Mutex Access}
    {r : c.Answer Access.Answer} (h : cutsShort b c r = true) :
    Guarded.leaksOf Access.leaks c r = [.keyToValue b, .timestampToKey b] := by
  cases c with
  | lock m' => contradiction
  | unlock m' => contradiction
  | access j =>
      cases j with
      | stampAt b' n =>
          cases r with
          | none =>
              obtain rfl : b' = b := beq_iff_eq.mp h
              rfl
          | some entry => contradiction
      | _ => contradiction

/-- If calls are at work and none of them can go on, one of them waits for a
mutex of a bucket from which an eviction has returned early. -/
theorem stuck_only_after_early_return
    (h : InterleavesAccesses env ok calls ⟨s₀, Locks.free.held⟩ history pool s)
    (hstuck : ∀ k c next, pool k = .call c next →
      ∃ e, Access.exec env c s = .error e)
    (hwork : ∃ k c next, pool k = .call c next) :
    ∃ b k next, CutShort b history ∧
      (pool k = .call (.lock (.keyToValue b)) next ∨
        pool k = .call (.lock (.timestampToKey b)) next) := by
  obtain ⟨k, c, next, hk⟩ := hwork
  have hbound : ∀ m : Mutex, m.rank ≤ 1 := fun m => by
    cases m <;> simp [Mutex.rank]
  obtain ⟨j, m, next', hj, e, he, hm⟩ := Orderly.stuck hbound
    (fun k => ranked_accesses env (calls k))
    (fun m => by cases m <;> rfl) h hstuck hk
  obtain ⟨b, hcut, rfl | rfl⟩ := cutsShort_of_leaks hm
  · exact ⟨b, j, next', ⟨e, he, hcut⟩, .inl hj⟩
  · exact ⟨b, j, next', ⟨e, he, hcut⟩, .inr hj⟩

omit [DecidableEq κ] in
theorem needs_keyToValue (env : Env) {call : DbCall} {key : KeyType}
    (hkey : call.key = some key) :
    Needs (.keyToValue (getHashTblNbrFromKey key))
      (fun ret => ret = .status .memoryFull) (call.accesses env) := by
  cases call with
  | get now key' =>
      obtain rfl : key' = key := Option.some.inj hkey
      exact .call fun _ => .lock
  | delete now key' expiry =>
      obtain rfl : key' = key := Option.some.inj hkey
      exact .lock
  | insert fuel clock key' flags casUniq value expiry =>
      obtain rfl : key' = key := Option.some.inj hkey
      refine .call fun timestamp => .call fun token => ?_
      change Needs _ _
        ((Sections.insertMakeRoom _ _ _ _ _ >>= _ >>= _).refine _)
      rw [Prog.bind_assoc, Prog.refine_bind]
      refine Needs.bind _ fun room => ?_
      cases room with
      | true => exact .lock
      | false => exact .done rfl
  | add fuel clock key' flags casUniq value expiry =>
      obtain rfl : key' = key := Option.some.inj hkey
      refine .call fun timestamp => ?_
      change Needs _ _ ((Sections.addMakeRoom _ _ _ _ _ >>= _ >>= _).refine _)
      rw [Prog.bind_assoc, Prog.refine_bind]
      refine Needs.bind _ fun room => ?_
      cases room with
      | true => exact .lock
      | false => exact .done rfl
  | removeLRUElement now h => contradiction
  | setFlushAll now expiry => contradiction
  | handleFlushAll now => contradiction

/-- Once an eviction from a bucket has returned early, both mutexes of the
bucket are held for good, and no call about a key of the bucket that begins
later returns anything but `MEMORY_FULL`. -/
theorem bucket_lost {later earlier : AccessTurns κ} {b : HashTblNum}
    (h : InterleavesAccesses env ok calls ⟨s₀, Locks.free.held⟩
      (later ++ earlier) pool s) (hcut : CutShort b earlier) :
    s.held (.timestampToKey b) = true ∧ s.held (.keyToValue b) = true ∧
      ∀ k key ret, k ∉ earlier.map Prog.Event.client →
        (calls k).key = some key → getHashTblNbrFromKey key = b →
        pool k = .done ret → ret = .status .memoryFull := by
  have hfree : ∀ m, Locks.free.held m = false := fun m => by cases m <;> rfl
  obtain ⟨e, he, hcut⟩ := hcut
  have hleaks := leaks_of_cutsShort hcut
  have hmem : ∀ m ∈ [Mutex.keyToValue b, .timestampToKey b],
      s.held m = true := fun m hm =>
    Orderly.held_of_leaked (fun k => ranked_accesses env (calls k)) hfree h
      (List.mem_append_right later he) (hleaks ▸ hm)
  refine ⟨hmem _ (by simp), hmem _ (by simp),
    fun k key ret hbegun hkey hbucket hdone => ?_⟩
  obtain ⟨between, before, rfl⟩ := List.append_of_mem he
  rw [← List.append_assoc] at h
  rw [List.map_append, List.mem_append, not_or] at hbegun
  have hneeds := Orderly.shutOut (fun k => ranked_accesses env (calls k)) hfree
    (m := .keyToValue b) (by simp [hleaks])
    (hbucket ▸ needs_keyToValue env hkey) hbegun.2 h
  rw [hdone] at hneeds
  cases hneeds with
  | done hret => exact hret

end Stuck

section Witness

def evictAndGet : Bool → DbCall
  | false => .removeLRUElement 1000 (getHashTblNbrFromKey (ascii "k"))
  | true => .get 1000 (ascii "k")

theorem exists_evictAndGet :
    ∃ history pool s, InterleavesAccesses Env.x86 (fun _ _ _ _ => True)
        evictAndGet ⟨Store.init, Locks.free.held⟩ history pool s ∧
      ((∀ k, (pool k).isStuck (Access.exec Env.x86) s = true) ∧
        (pool true).isCall = true ∧
        CutShort (getHashTblNbrFromKey (ascii "k")) (history.drop 1) ∧
        true ∉ (history.drop 1).map Prog.Event.client) :=
  Prog.exists_concurrent_of_turns (Access.exec Env.x86) (fun _ _ _ _ => True)
    (fun k => (evictAndGet k).accesses Env.x86) ⟨Store.init, Locks.free.held⟩
    [false, false, false, true]
    (fun history pool s =>
      (∀ k, (pool k).isStuck (Access.exec Env.x86) s = true) ∧
        (pool true).isCall = true ∧
        CutShort (getHashTblNbrFromKey (ascii "k")) (history.drop 1) ∧
        true ∉ (history.drop 1).map Prog.Event.client)
    (by decide +kernel)

theorem stuck_evictAndGet :
    ∃ (history : AccessTurns Bool) (pool : Bool → Accesses Returned),
      ∃ b k next, CutShort b history ∧
        (pool k = .call (.lock (.keyToValue b)) next ∨
          pool k = .call (.lock (.timestampToKey b)) next) := by
  obtain ⟨history, pool, s, h, hstuck, hcall, -, -⟩ := exists_evictAndGet
  obtain ⟨c, next, hnext⟩ := Prog.isCall_iff.mp hcall
  exact ⟨history, pool, stuck_only_after_early_return h
    (fun k _ _ hk => Prog.error_of_isStuck (hstuck k) hk)
    ⟨true, c, next, hnext⟩⟩

theorem bucket_lost_evictAndGet :
    ∃ (pool : Bool → Accesses Returned) (s : Locked Mutex Store),
      s.held (.keyToValue (getHashTblNbrFromKey (ascii "k"))) = true ∧
        ∀ ret, pool true = .done ret → ret = .status .memoryFull := by
  obtain ⟨history, pool, s, h, -, -, hcut, hbegun⟩ := exists_evictAndGet
  rw [← List.take_append_drop 1 history] at h
  obtain ⟨-, hheld, hlost⟩ := bucket_lost h hcut
  exact ⟨pool, s, hheld,
    fun ret hdone => hlost true (ascii "k") ret hbegun rfl rfl hdone⟩

end Witness

end Memstashed.Dblru
