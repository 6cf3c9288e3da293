import Memstashed.Ssock.Selecting
import Memstashed.Ssock.Wakeups
import Mathlib.Algebra.Order.BigOperators.Group.Finset

/-!
# The pool of threads

The two mutexes of the queue keep the threads apart: one thread at a time looks
at the list, nobody takes a descriptor from it while `socketMain` adds one, and
a thread that goes to take a descriptor finds one.  `numberActiveThreads` counts
the threads that serve a connection.
-/

namespace Memstashed.Ssock

open Memstashed.Foundation
open Memstashed.Dblru
open Memstashed.Scmd

def WorkerPc.atList : WorkerPc → Bool
  | .checking => true
  | .checked => true
  | .found => true
  | .popping => true
  | .popped _ => true
  | _ => false

def WorkerPc.active : WorkerPc → Bool
  | .handling _ => true
  | .finished => true
  | _ => false

def WorkerPc.expects : WorkerPc → Bool
  | .found => true
  | .popping => true
  | _ => false

namespace Server

variable {n : Nat}

def activeThreads (s : Server n) : Nat :=
  (Finset.univ.filter fun w => (s.worker w).active = true).card

end Server

/-- What the mutexes and the counter are worth. -/
structure PoolSound {n : Nat} (s : Server n) : Prop where
  counted : s.numberActiveThreads = s.activeThreads
  notifyHeld : s.threadNotifyMutex = true ↔ ∃ w, (s.worker w).atList = true
  alone : ∀ w w', (s.worker w).atList = true → (s.worker w').atList = true →
    w = w'
  listHeld : s.sockDescMutex = true ↔
    s.pc = .pushing ∨ ∃ w, s.worker w = .popping
  apart : s.pc = .pushing → ∀ w, s.worker w ≠ .popping
  expected : ∀ w, (s.worker w).expects = true → s.sockDescServiceList ≠ []

section Steps

variable {n listenSd : Nat} {s s' : Server n}

theorem activeThreads_update {w : Fin n} {pc : WorkerPc}
    (hworker : s'.worker = Function.update s.worker w pc) :
    s'.activeThreads + (s.worker w).active.toNat =
      s.activeThreads + pc.active.toNat := by
  have hothers : ((Finset.univ.erase w).filter fun w' =>
      (s'.worker w').active = true) =
      (Finset.univ.erase w).filter fun w' => (s.worker w').active = true := by
    refine Finset.filter_congr fun w' hw' => ?_
    rw [hworker, Function.update_of_ne (Finset.ne_of_mem_erase hw')]
  have hsplit : ∀ t : Server n, t.activeThreads =
      (t.worker w).active.toNat + ((Finset.univ.erase w).filter fun w' =>
        (t.worker w').active = true).card := by
    intro t
    rw [Server.activeThreads, ← Finset.insert_erase (Finset.mem_univ w),
      Finset.filter_insert, Finset.erase_insert_eq_erase, Finset.erase_idem]
    cases hactive : (t.worker w).active with
    | true =>
        rw [if_pos rfl, Finset.card_insert_of_notMem (by simp)]
        simp [Nat.add_comm]
    | false => simp
  rw [hsplit s', hsplit s, hothers, hworker, Function.update_self]
  omega

theorem poolSound_init : PoolSound (Server.init n listenSd) where
  counted := by simp [Server.init, Server.activeThreads, WorkerPc.active]
  notifyHeld := by simp [Server.init, WorkerPc.atList]
  alone := by simp [Server.init, WorkerPc.atList]
  listHeld := by simp [Server.init]
  apart := by simp [Server.init]
  expected := by simp [Server.init, WorkerPc.expects]

theorem PoolSound.main (h : PoolSound s) (hworker : s'.worker = s.worker)
    (hcount : s'.numberActiveThreads = s.numberActiveThreads)
    (hnotify : s'.threadNotifyMutex = s.threadNotifyMutex)
    (hlist : s'.sockDescMutex = s.sockDescMutex)
    (hqueue : s'.sockDescServiceList = s.sockDescServiceList)
    (hpc : s.pc ≠ .pushing) (hpc' : s'.pc ≠ .pushing) : PoolSound s' where
  counted := by
    rw [hcount, h.counted, Server.activeThreads, Server.activeThreads, hworker]
  notifyHeld := by rw [hnotify, hworker, h.notifyHeld]
  alone := by
    rw [hworker]
    exact h.alone
  listHeld := by
    rw [hlist, hworker, h.listHeld]
    simp [hpc, hpc']
  apart hpushing := absurd hpushing hpc'
  expected := by
    rw [hworker, hqueue]
    exact h.expected

theorem atList_of_popping {w : Fin n} (hw : s.worker w = .popping) :
    (s.worker w).atList = true := by
  rw [hw]
  rfl

theorem PoolSound.thread (h : PoolSound s) {w : Fin n} {pc : WorkerPc}
    (hworker : s'.worker = Function.update s.worker w pc)
    (hmain : s'.pc = .pushing ↔ s.pc = .pushing)
    (hcount : s'.numberActiveThreads + (s.worker w).active.toNat =
      s.numberActiveThreads + pc.active.toNat)
    (hnotify : s'.threadNotifyMutex = true ↔ pc.atList = true ∨
      (s.threadNotifyMutex = true ∧ (s.worker w).atList = false))
    (hnotifyFree : pc.atList = true →
      (s.worker w).atList = true ∨ s.threadNotifyMutex = false)
    (hlist : s'.sockDescMutex = true ↔ pc = .popping ∨
      (s.sockDescMutex = true ∧ s.worker w ≠ .popping))
    (hlistFree : pc = .popping →
      s.worker w = .popping ∨ s.sockDescMutex = false)
    (hexpected : ∀ w', (s'.worker w').expects = true →
      s'.sockDescServiceList ≠ []) :
    PoolSound s' := by
  have hself : s'.worker w = pc := by rw [hworker, Function.update_self]
  have hother : ∀ w', w' ≠ w → s'.worker w' = s.worker w' := fun w' hw' => by
    rw [hworker, Function.update_of_ne hw']
  refine ⟨?_, ?_, ?_, ?_, ?_, hexpected⟩
  · have hsum := activeThreads_update hworker
    have hcounted := h.counted
    omega
  · rw [hnotify]
    constructor
    · rintro (hpc | ⟨hheld, hw⟩)
      · exact ⟨w, hself ▸ hpc⟩
      · obtain ⟨w', hw'⟩ := h.notifyHeld.mp hheld
        have hne : w' ≠ w := by
          rintro rfl
          rw [hw] at hw'
          contradiction
        exact ⟨w', hother w' hne ▸ hw'⟩
    · rintro ⟨w', hw'⟩
      by_cases hne : w' = w
      · subst hne
        exact .inl (hself ▸ hw')
      · rw [hother w' hne] at hw'
        refine .inr ⟨h.notifyHeld.mpr ⟨w', hw'⟩, ?_⟩
        exact Bool.eq_false_iff.mpr fun hw => hne (h.alone w' w hw' hw)
  · -- whoever else is at the list has had the mutex all along
    have halone : ∀ w', w' ≠ w → pc.atList = true →
        (s.worker w').atList = false := by
      intro w' hne hpc
      refine Bool.eq_false_iff.mpr fun hw' => ?_
      rcases hnotifyFree hpc with hw | hfree
      · exact hne (h.alone w' w hw' hw)
      · rw [h.notifyHeld.mpr ⟨w', hw'⟩] at hfree
        contradiction
    intro w₁ w₂ h₁ h₂
    by_cases hne₁ : w₁ = w <;> by_cases hne₂ : w₂ = w
    · rw [hne₁, hne₂]
    · rw [hne₁, hself] at h₁
      rw [hother w₂ hne₂, halone w₂ hne₂ h₁] at h₂
      contradiction
    · rw [hne₂, hself] at h₂
      rw [hother w₁ hne₁, halone w₁ hne₁ h₂] at h₁
      contradiction
    · rw [hother w₁ hne₁] at h₁
      rw [hother w₂ hne₂] at h₂
      exact h.alone w₁ w₂ h₁ h₂
  · rw [hlist, hmain]
    constructor
    · rintro (rfl | ⟨hheld, hw⟩)
      · exact .inr ⟨w, hself⟩
      · rcases h.listHeld.mp hheld with hpushing | ⟨w', hw'⟩
        · exact .inl hpushing
        · have hne : w' ≠ w := by
            rintro rfl
            exact hw hw'
          exact .inr ⟨w', (hother w' hne).trans hw'⟩
    · rintro (hpushing | ⟨w', hw'⟩)
      · exact .inr ⟨h.listHeld.mpr (.inl hpushing), h.apart hpushing w⟩
      · by_cases hne : w' = w
        · subst hne
          exact .inl (hself.symm.trans hw')
        · rw [hother w' hne] at hw'
          refine .inr ⟨h.listHeld.mpr (.inr ⟨w', hw'⟩), fun hw => hne ?_⟩
          exact h.alone w' w (atList_of_popping hw') (atList_of_popping hw)
  · intro hpushing w' hw'
    rw [hmain] at hpushing
    by_cases hne : w' = w
    · subst hne
      rw [hself] at hw'
      rcases hlistFree hw' with hw | hfree
      · exact h.apart hpushing w' hw
      · rw [h.listHeld.mpr (.inl hpushing)] at hfree
        contradiction
    · rw [hother w' hne] at hw'
      exact h.apart hpushing w' hw'

theorem PoolSound.expected_of (h : PoolSound s) {w : Fin n} {pc : WorkerPc}
    (hworker : s'.worker = Function.update s.worker w pc)
    (hqueue : s'.sockDescServiceList = s.sockDescServiceList)
    (hpc : pc.expects = true → s.sockDescServiceList ≠ []) (w' : Fin n)
    (hw' : (s'.worker w').expects = true) : s'.sockDescServiceList ≠ [] := by
  rw [hqueue]
  by_cases hne : w' = w
  · subst hne
    rw [hworker, Function.update_self] at hw'
    exact hpc hw'
  · rw [hworker, Function.update_of_ne hne] at hw'
    exact h.expected w' hw'

theorem atList_of_expects {pc : WorkerPc} (h : pc.expects = true) :
    pc.atList = true := by
  cases pc <;> first | rfl | contradiction

theorem poolSound_lockList (h : PoolSound s) (hfree : s.sockDescMutex = false) :
    PoolSound { s with pc := .pushing, sockDescMutex := true } where
  counted := h.counted
  notifyHeld := h.notifyHeld
  alone := h.alone
  listHeld := by simp
  apart _ w hw := by
    rw [h.listHeld.mpr (.inr ⟨w, hw⟩)] at hfree
    contradiction
  expected := h.expected

theorem poolSound_push (h : PoolSound s) (hpc : s.pc = .pushing) :
    PoolSound { s with
      pc := .clearing
      sockDescServiceList := s.sockDescServiceList ++ [s.i]
      sockDescMutex := false } where
  counted := h.counted
  notifyHeld := h.notifyHeld
  alone := h.alone
  listHeld := by simp [h.apart hpc]
  apart hpushing := by contradiction
  expected := by simp

theorem poolSound_pop (h : PoolSound s) {w : Fin n} (hw : s.worker w = .popping)
    (c : Conn) : PoolSound (Server.popStep w c s) := by
  have hmain : s.pc ≠ .pushing := fun hpushing => h.apart hpushing w hw
  unfold Server.popStep
  cases hlist : s.sockDescServiceList with
  | nil => exact absurd hlist (h.expected w (by rw [hw]; rfl))
  | cons sockFd rest =>
      refine h.thread rfl (by simp [Server.goto]) ?_ ?_ ?_ ?_ ?_ ?_
      · simp [Server.goto, hw, WorkerPc.active]
      · simp only [Server.goto, hw, WorkerPc.atList, true_or, iff_true]
        exact h.notifyHeld.mpr ⟨w, atList_of_popping hw⟩
      · exact fun _ => .inl (atList_of_popping hw)
      · simp [hw]
      · simp
      · -- nobody else is at the list
        intro w' hw'
        by_cases hne : w' = w
        · subst hne
          simp [Server.goto, WorkerPc.expects] at hw'
        · simp only [Server.goto, Function.update_of_ne hne] at hw'
          exact absurd (h.alone w' w (atList_of_expects hw')
            (atList_of_popping hw)) hne

theorem poolSound_finished (h : PoolSound s) {w : Fin n} {sockFd : Nat}
    (hw : s.worker w = .handling sockFd) (opened : Finset Nat) :
    PoolSound { s.goto w .finished with opened := opened } := by
  refine h.thread rfl Iff.rfl ?_ ?_ ?_ ?_ ?_ (h.expected_of rfl rfl ?_)
  all_goals simp [Server.goto, hw, WorkerPc.active, WorkerPc.atList,
    WorkerPc.expects]

theorem poolSound_handle {env : Env} {clock : Nat → Times} {db : State}
    (h : PoolSound s) {w : Fin n} {sockFd : Nat}
    (hw : s.worker w = .handling sockFd)
    (hhandle : Server.handleStep w sockFd s
      (round env clock { s.conn w with db := db }) = some s') :
    PoolSound s' := by
  unfold Server.handleStep at hhandle
  split at hhandle
  · cases hhandle
    exact ⟨h.counted, h.notifyHeld, h.alone, h.listHeld, h.apart, h.expected⟩
  · cases hhandle
    exact poolSound_finished h hw s.opened
  · cases hhandle
    exact poolSound_finished h hw _
  · contradiction

theorem poolSound_step {env : Env} {a : Action n} {u : Unit} (h : PoolSound s)
    (hstep : Server.step env listenSd a s = .ok (u, s')) : PoolSound s' := by
  cases a with
  | copy =>
      obtain ⟨hpc, rfl⟩ := Effect.guarded_eq_ok.mp hstep
      exact h.main rfl rfl rfl rfl rfl (by simp [hpc]) (by simp)
  | select ready =>
      obtain ⟨⟨hpc, -⟩, rfl⟩ := Effect.guarded_eq_ok.mp hstep
      exact h.main rfl rfl rfl rfl rfl (by simp [hpc]) (by simp)
  | selectFails =>
      obtain ⟨hpc, rfl⟩ := Effect.guarded_eq_ok.mp hstep
      exact h.main rfl rfl rfl rfl rfl (by simp [hpc]) (by simp)
  | scan =>
      obtain ⟨hpc, rfl⟩ := Effect.guarded_eq_ok.mp hstep
      have hpc' : s.pc ≠ .pushing := by simp [hpc]
      unfold Server.scanStep
      split
      · split
        · exact h.main rfl rfl rfl rfl rfl hpc' (by dsimp only; split <;> simp)
        · exact h.main rfl rfl rfl rfl rfl hpc' hpc'
      · exact h.main rfl rfl rfl rfl rfl hpc' (by dsimp only; split <;> simp)
  | accept newSd =>
      obtain ⟨⟨hpc, -⟩, rfl⟩ := Effect.guarded_eq_ok.mp hstep
      have hpc' : s.pc ≠ .pushing := by simp [hpc]
      unfold Server.acceptStep
      split
      · exact h
      · exact h.main rfl rfl rfl rfl rfl hpc' hpc'
  | acceptFails wouldBlock =>
      obtain ⟨hpc, rfl⟩ := Effect.guarded_eq_ok.mp hstep
      exact h.main rfl rfl rfl rfl rfl (by simp [hpc]) (by simp)
  | lockList =>
      obtain ⟨⟨-, hfree⟩, rfl⟩ := Effect.guarded_eq_ok.mp hstep
      exact poolSound_lockList h hfree
  | push =>
      obtain ⟨hpc, rfl⟩ := Effect.guarded_eq_ok.mp hstep
      exact poolSound_push h hpc
  | clear =>
      simp only [Server.step] at hstep
      split at hstep
      · obtain ⟨hpc, rfl⟩ := Effect.guarded_eq_ok.mp hstep
        exact h.main rfl rfl rfl rfl rfl (by simp [hpc])
          (by simp [Server.clearStep])
      · contradiction
  | notify woken =>
      cases woken with
      | none =>
          obtain ⟨⟨hpc, -⟩, rfl⟩ := Effect.guarded_eq_ok.mp hstep
          exact h.main rfl rfl rfl rfl rfl (by simp [hpc]) (by simp)
      | some w =>
          obtain ⟨⟨hpc, hw⟩, rfl⟩ := Effect.guarded_eq_ok.mp hstep
          refine h.thread rfl (by simp [hpc]) ?_ ?_ ?_ ?_ ?_
            (h.expected_of rfl rfl ?_)
          all_goals simp [Server.goto, hw, WorkerPc.active, WorkerPc.atList,
            WorkerPc.expects]
  | cleanUp =>
      obtain ⟨hpc, rfl⟩ := Effect.guarded_eq_ok.mp hstep
      exact h.main rfl rfl rfl rfl rfl (by simp [hpc]) (by simp)
  | lock w =>
      obtain ⟨⟨hw, hfree⟩, rfl⟩ := Effect.guarded_eq_ok.mp hstep
      refine h.thread rfl Iff.rfl ?_ ?_ ?_ ?_ ?_ (h.expected_of rfl rfl ?_)
      all_goals simp [Server.goto, hw, hfree, WorkerPc.active, WorkerPc.atList,
        WorkerPc.expects]
  | check w =>
      obtain ⟨hw, rfl⟩ := Effect.guarded_eq_ok.mp hstep
      have hheld := h.notifyHeld.mpr ⟨w, by rw [hw]; rfl⟩
      split
      · refine h.thread rfl Iff.rfl ?_ ?_ ?_ ?_ ?_ (h.expected_of rfl rfl ?_)
        all_goals simp [Server.goto, hw, hheld, WorkerPc.active,
          WorkerPc.atList, WorkerPc.expects]
      · refine h.thread rfl Iff.rfl ?_ ?_ ?_ ?_ ?_
          (h.expected_of rfl rfl fun _ => ‹_›)
        all_goals simp [Server.goto, hw, hheld, WorkerPc.active,
          WorkerPc.atList]
  | sleep w =>
      obtain ⟨hw, rfl⟩ := Effect.guarded_eq_ok.mp hstep
      refine h.thread rfl Iff.rfl ?_ ?_ ?_ ?_ ?_ (h.expected_of rfl rfl ?_)
      all_goals simp [Server.goto, hw, WorkerPc.active, WorkerPc.atList,
        WorkerPc.expects]
  | lockListBy w =>
      obtain ⟨⟨hw, hfree⟩, rfl⟩ := Effect.guarded_eq_ok.mp hstep
      have hheld := h.notifyHeld.mpr ⟨w, by rw [hw]; rfl⟩
      refine h.thread rfl Iff.rfl ?_ ?_ ?_ ?_ ?_ (h.expected_of rfl rfl
        fun _ => h.expected w (by rw [hw]; rfl))
      all_goals simp [Server.goto, hw, hheld, hfree, WorkerPc.active,
        WorkerPc.atList]
  | pop w chunks last =>
      obtain ⟨⟨hw, -⟩, rfl⟩ := Effect.guarded_eq_ok.mp hstep
      exact poolSound_pop h hw _
  | unlock w sockFd =>
      obtain ⟨hw, rfl⟩ := Effect.guarded_eq_ok.mp hstep
      refine h.thread rfl Iff.rfl ?_ ?_ ?_ ?_ ?_ (h.expected_of rfl rfl ?_)
      all_goals simp [Server.goto, hw, WorkerPc.active, WorkerPc.atList,
        WorkerPc.expects]
  | count w sockFd =>
      obtain ⟨hw, rfl⟩ := Effect.guarded_eq_ok.mp hstep
      refine h.thread rfl Iff.rfl ?_ ?_ ?_ ?_ ?_ (h.expected_of rfl rfl ?_)
      all_goals simp [Server.goto, hw, WorkerPc.active, WorkerPc.atList,
        WorkerPc.expects]
  | handle w sockFd clock db =>
      simp only [Server.step] at hstep
      split at hstep
      · rename_i s'' hhandle
        obtain ⟨hw, rfl⟩ := Effect.guarded_eq_ok.mp hstep
        exact poolSound_handle h hw hhandle
      · contradiction
  | finish w =>
      obtain ⟨hw, rfl⟩ := Effect.guarded_eq_ok.mp hstep
      have hpos : 0 < s.numberActiveThreads := by
        rw [h.counted]
        refine Finset.card_pos.mpr ⟨w, ?_⟩
        rw [Finset.mem_filter, hw]
        exact ⟨Finset.mem_univ w, rfl⟩
      refine h.thread rfl Iff.rfl ?_ ?_ ?_ ?_ ?_ (h.expected_of rfl rfl ?_)
      · simp only [hw, WorkerPc.active, Bool.toNat_true, Bool.toNat_false]
        omega
      all_goals simp [Server.goto, hw, WorkerPc.atList, WorkerPc.expects]

end Steps

/-! ## Every run -/

section Runs

variable {env : Env} {n listenSd : Nat} {ok : Server n → Action n → Prop}
  {s : Server n}

theorem Reached.poolSound
    (h : Reached (Server.step env listenSd) ok (Server.init n listenSd) s) :
    PoolSound s :=
  h.invariant poolSound_init fun _ _ _ _ hs _ hstep => poolSound_step hs hstep

theorem Reached.listens
    (h : Reached (Server.step env listenSd) ok (Server.init n listenSd) s) :
    ∃ p, Sound listenSd s.selectVars p := by
  obtain ⟨p, hreached⟩ := exists_pass h
  refine ⟨p, hreached.invariant
    (P := fun t => Sound listenSd t.1.selectVars t.2) sound_init ?_⟩
  rintro ⟨s, p⟩ a u ⟨s', p'⟩ ht - hstep
  exact sound_step ht hstep

end Runs

def Server.queues {n : Nat} (s : Server n) : Action n → List Nat
  | .push => [s.i]
  | _ => []

def Server.takes {n : Nat} (s : Server n) : Action n → List (Fin n × Nat)
  | .pop w _ _ => s.sockDescServiceList.head?.toList.map (w, ·)
  | _ => []

section FirstIn

variable {env : Env} {n listenSd : Nat} {s s' : Server n}

def along {α : Type} (env : Env) (listenSd : Nat)
    (note : Server n → Action n → List α) : List (Action n) → Server n → List α
  | [], _ => []
  | a :: as, s =>
      note s a ++ match Server.step env listenSd a s with
        | .ok (_, s') => along env listenSd note as s'
        | .error _ => []

theorem list_of_step {a : Action n} {u : Unit}
    (hstep : Server.step env listenSd a s = .ok (u, s')) :
    s.sockDescServiceList ++ s.queues a =
      (s.takes a).map Prod.snd ++ s'.sockDescServiceList := by
  cases a with
  | push =>
      obtain ⟨-, rfl⟩ := Effect.guarded_eq_ok.mp hstep
      rfl
  | pop w chunks last =>
      obtain ⟨-, rfl⟩ := Effect.guarded_eq_ok.mp hstep
      cases hlist : s.sockDescServiceList with
      | nil =>
          simp [Server.queues, Server.takes, Server.popStep, Server.goto, hlist]
      | cons sockFd rest =>
          simp [Server.queues, Server.takes, Server.popStep, hlist]
  | clear =>
      simp only [Server.step] at hstep
      split at hstep
      · obtain ⟨-, rfl⟩ := Effect.guarded_eq_ok.mp hstep
        exact List.append_nil _
      · contradiction
  | notify woken =>
      cases woken <;>
      · obtain ⟨-, rfl⟩ := Effect.guarded_eq_ok.mp hstep
        exact List.append_nil _
  | scan =>
      obtain ⟨-, rfl⟩ := Effect.guarded_eq_ok.mp hstep
      unfold Server.scanStep
      split
      · split <;> exact List.append_nil _
      · exact List.append_nil _
  | accept newSd =>
      obtain ⟨-, rfl⟩ := Effect.guarded_eq_ok.mp hstep
      unfold Server.acceptStep
      split <;> exact List.append_nil _
  | handle w sockFd clock db =>
      simp only [Server.step] at hstep
      split at hstep
      · rename_i s'' hhandle
        obtain ⟨-, rfl⟩ := Effect.guarded_eq_ok.mp hstep
        unfold Server.handleStep at hhandle
        split at hhandle <;> cases hhandle <;> exact List.append_nil _
      · contradiction
  | _ =>
      obtain ⟨-, rfl⟩ := Effect.guarded_eq_ok.mp hstep
      exact List.append_nil _

theorem list_of_replay {ok : Server n → Action n → Prop}
    [∀ s a, Decidable (ok s a)] {as : List (Action n)}
    (hrun : replay (Server.step env listenSd) ok as s = some s') :
    s.sockDescServiceList ++ along env listenSd Server.queues as s =
      (along env listenSd Server.takes as s).map Prod.snd ++
        s'.sockDescServiceList := by
  induction as generalizing s with
  | nil =>
      obtain rfl := Option.some.inj hrun
      simp [along]
  | cons a as ih =>
      simp only [replay] at hrun
      split at hrun
      · split at hrun
        · rename_i u t hstep
          simp only [along, hstep, List.map_append]
          rw [← List.append_assoc, list_of_step hstep, List.append_assoc,
            ih hrun, List.append_assoc]
        · contradiction
      · contradiction

def LastTaken (taken : List (Fin n × Nat)) (s : Server n) : Prop :=
  ∀ w fd, s.Handles w fd →
    (taken.filter fun wfd => wfd.1 = w).getLast? = some (w, fd)

theorem LastTaken.goto {taken : List (Fin n × Nat)} (h : LastTaken taken s)
    (w : Fin n) (pc : WorkerPc)
    (hworker : s'.worker = Function.update s.worker w pc)
    (hpc : ∀ fd ∈ pc.sockFd?, s.Handles w fd) : LastTaken taken s' := by
  intro w' fd hw'
  refine h w' fd ?_
  by_cases hw : w' = w
  · subst hw
    refine hpc fd ?_
    simpa [Server.Handles, hworker] using hw'
  · simpa [Server.Handles, hworker, Function.update_of_ne hw] using hw'

theorem LastTaken.same {taken : List (Fin n × Nat)} (h : LastTaken taken s)
    (hworker : s'.worker = s.worker) : LastTaken taken s' := by
  intro w fd hw
  refine h w fd ?_
  rwa [Server.Handles, hworker] at hw

theorem LastTaken.pop {taken : List (Fin n × Nat)} (h : LastTaken taken s)
    {w : Fin n} {sockFd : Nat}
    (hworker : s'.worker = Function.update s.worker w (.popped sockFd)) :
    LastTaken (taken ++ [(w, sockFd)]) s' := by
  intro w' fd hw'
  by_cases hw : w' = w
  · subst hw
    have hfd : sockFd = fd := by
      simpa [Server.Handles, hworker, WorkerPc.sockFd?] using hw'
    simp [hfd]
  · have hother : s.Handles w' fd := by
      simpa [Server.Handles, hworker, Function.update_of_ne hw] using hw'
    simpa [Ne.symm hw] using h w' fd hother

theorem lastTaken_step {taken : List (Fin n × Nat)} {a : Action n} {u : Unit}
    (h : LastTaken taken s)
    (hstep : Server.step env listenSd a s = .ok (u, s')) :
    LastTaken (taken ++ s.takes a) s' := by
  cases a with
  | pop w chunks last =>
      obtain ⟨⟨hw, -⟩, rfl⟩ := Effect.guarded_eq_ok.mp hstep
      cases hlist : s.sockDescServiceList with
      | nil =>
          simp only [Server.popStep, Server.takes, hlist]
          simpa using h.goto w .checking rfl
            (by simp [WorkerPc.sockFd?])
      | cons sockFd rest =>
          simp only [Server.popStep, Server.takes, hlist]
          exact h.pop rfl
  | handle w sockFd clock db =>
      simp only [Server.step] at hstep
      split at hstep
      · rename_i s'' hhandle
        obtain ⟨-, rfl⟩ := Effect.guarded_eq_ok.mp hstep
        simp only [Server.takes, List.append_nil]
        unfold Server.handleStep at hhandle
        split at hhandle <;> cases hhandle
        · exact h.same rfl
        · exact h.goto w .finished rfl
            (by simp [WorkerPc.sockFd?])
        · exact h.goto w .finished rfl
            (by simp [WorkerPc.sockFd?])
      · contradiction
  | clear =>
      simp only [Server.step] at hstep
      split at hstep
      · obtain ⟨-, rfl⟩ := Effect.guarded_eq_ok.mp hstep
        simp only [Server.takes, List.append_nil]
        exact h.same rfl
      · contradiction
  | notify woken =>
      simp only [Server.takes, List.append_nil]
      cases woken with
      | none =>
          obtain ⟨-, rfl⟩ := Effect.guarded_eq_ok.mp hstep
          exact h.same rfl
      | some w =>
          obtain ⟨-, rfl⟩ := Effect.guarded_eq_ok.mp hstep
          exact h.goto w .locking rfl
            (by simp [WorkerPc.sockFd?])
  | scan =>
      obtain ⟨-, rfl⟩ := Effect.guarded_eq_ok.mp hstep
      simp only [Server.takes, List.append_nil]
      refine h.same ?_
      unfold Server.scanStep
      split
      · split <;> rfl
      · rfl
  | accept newSd =>
      obtain ⟨-, rfl⟩ := Effect.guarded_eq_ok.mp hstep
      simp only [Server.takes, List.append_nil]
      refine h.same ?_
      unfold Server.acceptStep
      split <;> rfl
  | check w =>
      obtain ⟨hw, rfl⟩ := Effect.guarded_eq_ok.mp hstep
      simp only [Server.takes, List.append_nil]
      refine h.goto w _ rfl ?_
      split <;> simp [WorkerPc.sockFd?]
  | unlock w sockFd =>
      obtain ⟨hw, rfl⟩ := Effect.guarded_eq_ok.mp hstep
      simp only [Server.takes, List.append_nil]
      exact h.goto w (.counting sockFd) rfl
        (by simp [WorkerPc.sockFd?, Server.Handles, hw])
  | count w sockFd =>
      obtain ⟨hw, rfl⟩ := Effect.guarded_eq_ok.mp hstep
      simp only [Server.takes, List.append_nil]
      exact h.goto w (.handling sockFd) rfl
        (by simp [WorkerPc.sockFd?, Server.Handles, hw])
  | lock w =>
      obtain ⟨-, rfl⟩ := Effect.guarded_eq_ok.mp hstep
      simp only [Server.takes, List.append_nil]
      exact h.goto w .checking rfl (by simp [WorkerPc.sockFd?])
  | sleep w =>
      obtain ⟨-, rfl⟩ := Effect.guarded_eq_ok.mp hstep
      simp only [Server.takes, List.append_nil]
      exact h.goto w .asleep rfl (by simp [WorkerPc.sockFd?])
  | lockListBy w =>
      obtain ⟨-, rfl⟩ := Effect.guarded_eq_ok.mp hstep
      simp only [Server.takes, List.append_nil]
      exact h.goto w .popping rfl (by simp [WorkerPc.sockFd?])
  | finish w =>
      obtain ⟨-, rfl⟩ := Effect.guarded_eq_ok.mp hstep
      simp only [Server.takes, List.append_nil]
      exact h.goto w .locking rfl (by simp [WorkerPc.sockFd?])
  | _ =>
      obtain ⟨-, rfl⟩ := Effect.guarded_eq_ok.mp hstep
      simp only [Server.takes, List.append_nil]
      exact h.same rfl

theorem lastTaken_replay {taken : List (Fin n × Nat)}
    {ok : Server n → Action n → Prop} [∀ s a, Decidable (ok s a)]
    {as : List (Action n)} (h : LastTaken taken s)
    (hrun : replay (Server.step env listenSd) ok as s = some s') :
    LastTaken (taken ++ along env listenSd Server.takes as s) s' := by
  induction as generalizing s taken with
  | nil =>
      obtain rfl := Option.some.inj hrun
      rwa [along, List.append_nil]
  | cons a as ih =>
      simp only [replay] at hrun
      split at hrun
      · split at hrun
        · rename_i u t hstep
          rw [along, hstep, ← List.append_assoc]
          exact ih (lastTaken_step h hstep) hrun
        · contradiction
      · contradiction

/-- However the steps of `socketMain` and of the threads alternate, every
descriptor that is queued goes to one thread, in the order of queueing, or is
still in the list, and a thread serves the descriptor that it took last. -/
theorem first_in_first_out (env : Env) (n listenSd : Nat)
    {as : List (Action n)} {s : Server n}
    (hrun : replay (Server.step env listenSd) (fun _ _ => True) as
      (Server.init n listenSd) = some s) :
    along env listenSd Server.queues as (Server.init n listenSd) =
        (along env listenSd Server.takes as (Server.init n listenSd)).map
          Prod.snd ++ s.sockDescServiceList ∧
      LastTaken (along env listenSd Server.takes as (Server.init n listenSd))
        s := by
  constructor
  · exact list_of_replay hrun
  · have hinit : LastTaken [] (Server.init n listenSd) := by
      intro w fd hw
      simp [Server.Handles, Server.init, WorkerPc.sockFd?] at hw
    exact lastTaken_replay hinit hrun

end FirstIn

theorem first_in_first_out_oneClient :
    ∃ s : Server 1,
      along Env.x86 3 Server.takes (oneClient [] .eof) (Server.init 1 3) =
        [(0, 4)] ∧
      along Env.x86 3 Server.queues (oneClient [] .eof) (Server.init 1 3) =
        (along Env.x86 3 Server.takes (oneClient [] .eof)
          (Server.init 1 3)).map Prod.snd ++ s.sockDescServiceList ∧
      LastTaken (along Env.x86 3 Server.takes (oneClient [] .eof)
        (Server.init 1 3)) s := by
  obtain ⟨s, hrun⟩ := Option.isSome_iff_exists.mp
    (show (replay (Server.step Env.x86 3) (fun _ _ => True) (oneClient [] .eof)
      (Server.init 1 3)).isSome = true by decide +kernel)
  exact ⟨s, by decide +kernel, first_in_first_out Env.x86 1 3 hrun⟩

/-! ## A queued descriptor is on its way -/

def Action.onTheWay {n : Nat} : Action n → Bool
  | .push => true
  | .clear => true
  | .notify (some _) => true
  | .lock _ => true
  | .check _ => true
  | .sleep _ => true
  | .lockListBy _ => true
  | .pop _ _ _ => true
  | .unlock _ _ => true
  | .finish _ => true
  | _ => false

/-- How many of these steps a thread can take by itself, and some more. -/
def WorkerPc.work : WorkerPc → Nat
  | .finished => 6
  | .locking => 5
  | .checking => 4
  | .found => 3
  | .popping => 2
  | .checked => 1
  | .popped _ => 1
  | _ => 0

def MainPc.work : MainPc → Nat
  | .pushing => 8
  | .clearing => 7
  | .notifying => 6
  | _ => 0

def Server.work {n : Nat} (s : Server n) : Nat :=
  s.pc.work + ∑ w, (s.worker w).work

section OnTheWay

variable {env : Env} {n listenSd : Nat} {s s' : Server n}

def Moves (env : Env) (listenSd : Nat) (s : Server n) : Prop :=
  ∃ a s', a.onTheWay = true ∧ Server.step env listenSd a s = .ok ((), s')

theorem moves_of_guarded {a : Action n} {p : Prop} [Decidable p] {s' : Server n}
    (ha : a.onTheWay = true) (hp : p)
    (hstep : Server.step env listenSd a s = Effect.guarded p s') :
    Moves env listenSd s :=
  ⟨a, s', ha, by rw [hstep, Effect.guarded, if_pos hp]⟩

theorem moves_of_atList (h : PoolSound s) {w : Fin n}
    (hw : (s.worker w).atList = true) : Moves env listenSd s := by
  cases hpc : s.worker w with
  | checking => exact moves_of_guarded (a := .check w) rfl hpc rfl
  | checked => exact moves_of_guarded (a := .sleep w) rfl hpc rfl
  | found =>
      cases hheld : s.sockDescMutex with
      | false =>
          exact moves_of_guarded (a := .lockListBy w) rfl ⟨hpc, hheld⟩ rfl
      | true =>
          rcases h.listHeld.mp hheld with hpushing | ⟨w', hw'⟩
          · exact moves_of_guarded (a := .push) rfl hpushing rfl
          · exact moves_of_guarded (a := .pop w' [] .eof) rfl
              ⟨hw', by simp⟩ rfl
  | popping =>
      exact moves_of_guarded (a := .pop w [] .eof) rfl ⟨hpc, by simp⟩ rfl
  | popped sockFd => exact moves_of_guarded (a := .unlock w sockFd) rfl hpc rfl
  | _ =>
      rw [hpc] at hw
      contradiction

theorem moves_of_awake (h : PoolSound s) {w : Fin n}
    (hfree : ∀ fd, ¬ s.Handles w fd) (hawake : s.worker w ≠ .asleep) :
    Moves env listenSd s := by
  have hserves : ∀ fd, (s.worker w).sockFd? ≠ some fd := hfree
  cases hpc : s.worker w with
  | locking =>
      cases hheld : s.threadNotifyMutex with
      | false => exact moves_of_guarded (a := .lock w) rfl ⟨hpc, hheld⟩ rfl
      | true =>
          obtain ⟨w', hw'⟩ := h.notifyHeld.mp hheld
          exact moves_of_atList h hw'
  | finished => exact moves_of_guarded (a := .finish w) rfl hpc rfl
  | asleep => exact absurd hpc hawake
  | popped sockFd => exact absurd (by rw [hpc]; rfl) (hserves sockFd)
  | counting sockFd => exact absurd (by rw [hpc]; rfl) (hserves sockFd)
  | handling sockFd => exact absurd (by rw [hpc]; rfl) (hserves sockFd)
  | _ => exact moves_of_atList h (w := w) (by rw [hpc]; rfl)

theorem busy_or_moves
    (h : Reached (Server.step env listenSd) NotifiesInTime
      (Server.init n listenSd) s) (hqueued : s.sockDescServiceList ≠ []) :
    (∀ w, ∃ fd, s.Handles w fd) ∨ Moves env listenSd s := by
  have hpool := Reached.poolSound h
  have hanswered : Answered s :=
    h.invariant answered_init fun _ _ _ _ hs hintime hstep =>
      answered_step hs hintime hstep
  by_cases hbusy : ∀ w, ∃ fd, s.Handles w fd
  · exact .inl hbusy
  refine .inr ?_
  push Not at hbusy
  obtain ⟨w, hw⟩ := hbusy
  by_cases hawake : ∃ w, (∀ fd, ¬ s.Handles w fd) ∧ s.worker w ≠ .asleep
  · obtain ⟨w', hfree, hw'⟩ := hawake
    exact moves_of_awake hpool hfree hw'
  · -- all threads without a connection sleep: the wakeup is still to come
    push Not at hawake
    have hnotifies : s.Notifies := by
      by_contra hnot
      exact hanswered.notLost
        ⟨hqueued, fun hn => absurd hn hnot, hawake, ⟨w, hawake w hw⟩⟩
    rcases hnotifies with hpc | hpc
    · obtain ⟨p, hsound⟩ := Reached.listens h
      have hpass := hsound.pass
      simp only [Server.selectVars, hpc, PassAt] at hpass
      obtain ⟨maxSd, hmax, -⟩ := clearedMaxSd_eq hsound.listens hpass.2.2.2
      refine ⟨.clear, Server.clearStep maxSd s, rfl, ?_⟩
      simp only [Server.step, hmax, Effect.guarded, if_pos hpc]
    · exact moves_of_guarded (a := .notify (some w)) rfl ⟨hpc, hawake w hw⟩ rfl

/-! ### The steps come to an end -/

theorem Server.work_goto (s : Server n) (w : Fin n) (pc : WorkerPc) :
    (∑ w', ((s.goto w pc).worker w').work) + (s.worker w).work =
      (∑ w', (s.worker w').work) + pc.work := by
  have hupdate : (fun w' => ((s.goto w pc).worker w').work) =
      Function.update (fun w' => (s.worker w').work) w pc.work :=
    Function.comp_update WorkerPc.work s.worker w pc
  have hold : (s.worker w).work +
      ∑ w' ∈ Finset.univ.erase w, (s.worker w').work =
        ∑ w', (s.worker w').work :=
    Finset.add_sum_erase _ (fun w' => (s.worker w').work) (Finset.mem_univ w)
  rw [hupdate, Finset.sum_update_of_mem (Finset.mem_univ w),
    Finset.sdiff_singleton_eq_erase]
  omega

theorem work_of_thread {w : Fin n} {pc : WorkerPc}
    (hworker : s'.worker = Function.update s.worker w pc) (hmain : s'.pc = s.pc)
    (hless : pc.work < (s.worker w).work) : s'.work < s.work := by
  have hwork := s.work_goto w pc
  rw [Server.work, Server.work, hmain, hworker]
  simp only [Server.goto] at hwork
  omega

theorem work_of_main (hworker : s'.worker = s.worker)
    (hless : s'.pc.work < s.pc.work) : s'.work < s.work := by
  rw [Server.work, Server.work, hworker]
  omega

theorem work_of_step {a : Action n} {u : Unit} (ha : a.onTheWay = true)
    (h : PoolSound s) (hstep : Server.step env listenSd a s = .ok (u, s')) :
    s'.work < s.work := by
  cases a with
  | push =>
      obtain ⟨hpc, rfl⟩ := Effect.guarded_eq_ok.mp hstep
      exact work_of_main rfl (by simp [hpc, MainPc.work])
  | clear =>
      simp only [Server.step] at hstep
      split at hstep
      · obtain ⟨hpc, rfl⟩ := Effect.guarded_eq_ok.mp hstep
        exact work_of_main rfl (by simp [hpc, Server.clearStep, MainPc.work])
      · contradiction
  | notify woken =>
      cases woken with
      | none => contradiction
      | some w =>
          obtain ⟨⟨hpc, hw⟩, rfl⟩ := Effect.guarded_eq_ok.mp hstep
          have hwork := s.work_goto w .locking
          simp only [Server.work, hpc, hw, WorkerPc.work, MainPc.work]
            at hwork ⊢
          omega
  | lock w =>
      obtain ⟨⟨hw, -⟩, rfl⟩ := Effect.guarded_eq_ok.mp hstep
      exact work_of_thread (w := w) rfl rfl (by simp [hw, WorkerPc.work])
  | check w =>
      obtain ⟨hw, rfl⟩ := Effect.guarded_eq_ok.mp hstep
      refine work_of_thread (w := w) rfl rfl ?_
      split <;> simp [hw, WorkerPc.work]
  | sleep w =>
      obtain ⟨hw, rfl⟩ := Effect.guarded_eq_ok.mp hstep
      exact work_of_thread (w := w) rfl rfl (by simp [hw, WorkerPc.work])
  | lockListBy w =>
      obtain ⟨⟨hw, -⟩, rfl⟩ := Effect.guarded_eq_ok.mp hstep
      exact work_of_thread (w := w) rfl rfl (by simp [hw, WorkerPc.work])
  | pop w chunks last =>
      obtain ⟨⟨hw, -⟩, rfl⟩ := Effect.guarded_eq_ok.mp hstep
      cases hlist : s.sockDescServiceList with
      | nil => exact absurd hlist (h.expected w (by rw [hw]; rfl))
      | cons sockFd rest =>
          simp only [Server.popStep, hlist]
          exact work_of_thread (w := w) rfl rfl (by simp [hw, WorkerPc.work])
  | unlock w sockFd =>
      obtain ⟨hw, rfl⟩ := Effect.guarded_eq_ok.mp hstep
      exact work_of_thread (w := w) rfl rfl (by simp [hw, WorkerPc.work])
  | finish w =>
      obtain ⟨hw, rfl⟩ := Effect.guarded_eq_ok.mp hstep
      exact work_of_thread (w := w) rfl rfl (by simp [hw, WorkerPc.work])
  | _ => contradiction

theorem work_le (s : Server n) : s.work ≤ 6 * n + 8 := by
  have hmain : s.pc.work ≤ 8 := by cases s.pc <;> simp [MainPc.work]
  have hthreads : ∑ w, (s.worker w).work ≤ ∑ _w : Fin n, 6 :=
    Finset.sum_le_sum fun w _ => by
      cases s.worker w <;> simp [WorkerPc.work]
  simp only [Finset.sum_const, Finset.card_univ, Fintype.card_fin, smul_eq_mul]
    at hthreads
  rw [Server.work]
  omega

theorem work_of_replay {as : List (Action n)}
    (hway : ∀ a ∈ as, a.onTheWay = true) (h : PoolSound s)
    (hrun : replay (Server.step env listenSd) NotifiesInTime as s = some s') :
    s'.work + as.length ≤ s.work := by
  induction as generalizing s with
  | nil =>
      obtain rfl := Option.some.inj hrun
      simp
  | cons a as ih =>
      simp only [replay] at hrun
      split at hrun
      · split at hrun
        · rename_i u t hstep
          have hless := work_of_step (hway a List.mem_cons_self) h hstep
          have hrest := ih (fun a ha => hway a (List.mem_cons_of_mem _ ha))
            (poolSound_step h hstep) hrun
          rw [List.length_cons]
          omega
        · contradiction
      · contradiction

/-- From every state of every run: however the threads take steps that bring
queued descriptors on their way, they take at most `6 * n + 8` of them, and they
stop only when the list is empty or every thread has a connection. -/
theorem queued_are_served (env : Env) (n listenSd : Nat) {s s' : Server n}
    (h : Reached (Server.step env listenSd) NotifiesInTime
      (Server.init n listenSd) s)
    {as : List (Action n)} (hway : ∀ a ∈ as, a.onTheWay = true)
    (hrun : replay (Server.step env listenSd) NotifiesInTime as s = some s') :
    as.length ≤ 6 * n + 8 ∧
      ((∀ a t, a.onTheWay = true →
          Server.step env listenSd a s' ≠ .ok ((), t)) →
        s'.sockDescServiceList = [] ∨ ∀ w, ∃ fd, s'.Handles w fd) := by
  constructor
  · have hsteps := work_of_replay hway (Reached.poolSound h) hrun
    have hbound := work_le s
    omega
  · intro hstop
    by_cases hlist : s'.sockDescServiceList = []
    · exact .inl hlist
    · rcases busy_or_moves (h.replay hrun) hlist with hbusy | ⟨a, t, ha, hstep⟩
      · exact .inr hbusy
      · exact absurd hstep (hstop a t ha)

end OnTheWay

def takeClient {n : Nat} (w : Fin n) : List (Action n) :=
  [.lock w, .check w, .lockListBy w, .pop w [] .eof, .unlock w 4]

theorem queued_are_served_oneClient :
    ∃ s s' : Server 1,
      Reached (Server.step Env.x86 3) NotifiesInTime (Server.init 1 3) s ∧
      s.sockDescServiceList = [4] ∧
      replay (Server.step Env.x86 3) NotifiesInTime (takeClient 0) s = some s' ∧
      s'.sockDescServiceList = [] ∧ (takeClient (0 : Fin 1)).length ≤ 6 * 1 + 8 ∧
      ((∀ a t, a.onTheWay = true →
          Server.step Env.x86 3 a s' ≠ .ok ((), t)) →
        s'.sockDescServiceList = [] ∨ ∀ w, ∃ fd, s'.Handles w fd) := by
  let step := Server.step (n := 1) Env.x86 3
  let queue := replay step NotifiesInTime (queueClient ++ [.notify none])
    (Server.init 1 3)
  obtain ⟨s, hqueue, hs⟩ := Option.map_eq_some_iff.mp
    (show queue.map (·.sockDescServiceList) = some [4] by decide +kernel)
  have htake : (replay step NotifiesInTime (takeClient 0) s).map
      (·.sockDescServiceList) = some [] := by
    have hboth : (queue.bind (replay step NotifiesInTime (takeClient 0))).map
        (·.sockDescServiceList) = some [] := by decide +kernel
    rwa [hqueue] at hboth
  obtain ⟨s', hrun, hs'⟩ := Option.map_eq_some_iff.mp htake
  have hreached := Reached.start.replay hqueue
  have hserved := queued_are_served Env.x86 1 3 hreached
    (by decide) hrun
  exact ⟨s, s', hreached, hs, hrun, hs', hserved⟩

end Memstashed.Ssock
