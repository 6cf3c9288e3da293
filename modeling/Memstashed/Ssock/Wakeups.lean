import Memstashed.Ssock.Service
import Mathlib.Algebra.BigOperators.Group.Finset.Piecewise

/-!
# Who wakes up for a queued descriptor

`socketMain` notifies once for each descriptor that it queues.  As long as some
thread sleeps, or is about to, at least as many threads are on their way to the
list as there are descriptors in it, the last of which may still be to be
notified.
-/

namespace Memstashed.Ssock

open Memstashed.Foundation
open Memstashed.Dblru
open Memstashed.Scmd

/-- The threads that are going to look at the list: they have not found it
empty, or have been woken since. -/
def WorkerPc.awake : WorkerPc → Nat
  | .locking => 1
  | .checking => 1
  | .found => 1
  | .popping => 1
  | .finished => 1
  | _ => 0

def WorkerPc.Resting (pc : WorkerPc) : Prop := pc = .asleep ∨ pc = .checked

instance (pc : WorkerPc) : Decidable pc.Resting :=
  inferInstanceAs (Decidable (_ ∨ _))

namespace Server

variable {n : Nat}

def awake (s : Server n) : Nat := ∑ w, (s.worker w).awake

def Notifies (s : Server n) : Prop := s.pc = .clearing ∨ s.pc = .notifying

instance (s : Server n) : Decidable s.Notifies :=
  inferInstanceAs (Decidable (_ ∨ _))

/-- Every descriptor in the list has been notified, and still every thread
without a connection sleeps. -/
structure LostWakeup (s : Server n) : Prop where
  queued : s.sockDescServiceList ≠ []
  notified : s.Notifies → s.i ∉ s.sockDescServiceList
  asleep : ∀ w, (∀ fd, ¬ s.Handles w fd) → s.worker w = .asleep
  sleeper : ∃ w, s.worker w = .asleep

end Server

/-- When a thread is between its look at the list and its sleep and nobody
sleeps, `socketMain` does not notify, unless there is a thread on its way for every
descriptor in the list. -/
def NotifiesInTime {n : Nat} (s : Server n) : Action n → Prop
  | .notify none =>
      (∃ w, s.worker w = .checked) → s.sockDescServiceList.length ≤ s.awake
  | _ => True

instance {n : Nat} (s : Server n) (a : Action n) :
    Decidable (NotifiesInTime s a) :=
  match a with
  | .notify none => inferInstanceAs (Decidable (_ → _))
  | .notify (some _) | .copy | .select _ | .selectFails | .scan | .accept _
  | .acceptFails _ | .lockList | .push | .clear | .cleanUp | .lock _ | .check _
  | .sleep _ | .lockListBy _ | .pop _ _ _ | .unlock _ _ | .count _ _
  | .handle _ _ _ _ | .finish _ => isTrue trivial

structure Answered {n : Nat} (s : Server n) : Prop where
  enough : (∃ w, (s.worker w).Resting) →
    s.sockDescServiceList.length ≤ s.awake + if s.Notifies then 1 else 0
  last : s.Notifies → ∀ fd ∈ s.sockDescServiceList.getLast?, fd = s.i

section Steps

variable {n listenSd : Nat} {s s' : Server n}

theorem awake_goto (s : Server n) (w : Fin n) (pc : WorkerPc) :
    (s.goto w pc).awake + (s.worker w).awake = s.awake + pc.awake := by
  have hupdate : (fun w' => ((s.goto w pc).worker w').awake) =
      Function.update (fun w' => (s.worker w').awake) w pc.awake :=
    Function.comp_update WorkerPc.awake s.worker w pc
  have hnew : (s.goto w pc).awake =
      pc.awake + ∑ w' ∈ Finset.univ.erase w, (s.worker w').awake := by
    rw [Server.awake, hupdate, Finset.sum_update_of_mem (Finset.mem_univ w),
      Finset.sdiff_singleton_eq_erase]
  have hold : (s.worker w).awake +
      ∑ w' ∈ Finset.univ.erase w, (s.worker w').awake = s.awake :=
    Finset.add_sum_erase _ (fun w' => (s.worker w').awake) (Finset.mem_univ w)
  omega

theorem resting_of_goto {w : Fin n} {pc : WorkerPc}
    (hpc : pc.Resting → (s.worker w).Resting)
    (hresting : ∃ w', ((s.goto w pc).worker w').Resting) :
    ∃ w', (s.worker w').Resting := by
  obtain ⟨w', hw'⟩ := hresting
  by_cases hw : w' = w
  · subst hw
    simp only [Server.goto, Function.update_self] at hw'
    exact ⟨w', hpc hw'⟩
  · simp only [Server.goto, Function.update_of_ne hw] at hw'
    exact ⟨w', hw'⟩

theorem answered_init : Answered (Server.init n listenSd) where
  enough := by simp [Server.init]
  last := by simp [Server.init]

theorem Answered.goto (h : Answered s) {w : Fin n} {pc : WorkerPc}
    (hawake : (s.worker w).awake ≤ pc.awake)
    (hpc : pc.Resting → (s.worker w).Resting) : Answered (s.goto w pc) where
  enough hresting := by
    have henough := h.enough (resting_of_goto hpc hresting)
    have hsum := awake_goto s w pc
    change s.sockDescServiceList.length ≤
      (s.goto w pc).awake + if s.Notifies then 1 else 0
    omega
  last := h.last

theorem Answered.main (h : Answered s) (hworker : s'.worker = s.worker)
    (hlist : s'.sockDescServiceList = s.sockDescServiceList)
    (hpc : ¬ s.Notifies) (hpc' : ¬ s'.Notifies) : Answered s' where
  enough hresting := by
    rw [hworker] at hresting
    have henough := h.enough hresting
    rw [if_neg hpc] at henough
    rw [if_neg hpc', hlist, Server.awake, hworker]
    exact henough
  last hnotifies := absurd hnotifies hpc'

theorem answered_push (h : Answered s) (hpc : s.pc = .pushing) :
    Answered
      { s with
        pc := .clearing
        sockDescServiceList := s.sockDescServiceList ++ [s.i]
        sockDescMutex := false } where
  enough hresting := by
    have henough := h.enough hresting
    rw [if_neg (by simp [Server.Notifies, hpc])] at henough
    rw [if_pos (.inl rfl), List.length_append, List.length_singleton]
    exact Nat.succ_le_succ henough
  last := by simp

theorem answered_clear (h : Answered s) (hpc : s.pc = .clearing) (maxSd : Nat) :
    Answered (s.clearStep maxSd) where
  enough hresting := by
    have henough := h.enough hresting
    rw [if_pos (.inl hpc)] at henough
    rw [if_pos (.inr rfl)]
    exact henough
  last _ := h.last (.inl hpc)

theorem answered_notify (h : Answered s) {w : Fin n} (hw : s.worker w = .asleep)
    (hpc : s.pc = .notifying) :
    Answered { s.goto w .locking with pc := .scanning, i := s.i + 1 } where
  enough hresting := by
    have henough := h.enough ⟨w, .inl hw⟩
    rw [if_pos (.inr hpc)] at henough
    have hsum := awake_goto s w .locking
    rw [hw] at hsum
    -- the thread that has been woken stands in for the notification
    rw [if_neg (by simp [Server.Notifies])]
    change _ ≤ (s.goto w .locking).awake + 0
    simp only [WorkerPc.awake] at hsum
    exact hsum ▸ henough
  last := by simp [Server.Notifies]

/-- The slip of the notification: it has no effect while nobody sleeps, and the
thread that is about to does not look again. -/
theorem answered_notify_none (hpc : ∀ w, s.worker w ≠ .asleep)
    (hintime : (∃ w, s.worker w = .checked) →
      s.sockDescServiceList.length ≤ s.awake) :
    Answered { s with pc := .scanning, i := s.i + 1 } where
  enough hresting := by
    obtain ⟨w, hasleep | hchecked⟩ := hresting
    · exact absurd hasleep (hpc w)
    · rw [if_neg (by simp [Server.Notifies])]
      exact hintime ⟨w, hchecked⟩
  last := by simp [Server.Notifies]

theorem answered_check (h : Answered s) {w : Fin n}
    (hw : s.worker w = .checking) :
    Answered (s.goto w
      (if s.sockDescServiceList = [] then .checked else .found)) := by
  split
  · rename_i hlist
    constructor
    · intro _
      change s.sockDescServiceList.length ≤ _
      simp [hlist]
    · exact h.last
  · exact h.goto (by simp [hw, WorkerPc.awake]) (by simp [WorkerPc.Resting])

theorem answered_pop (h : Answered s) {w : Fin n} (hw : s.worker w = .popping)
    (c : Conn) : Answered (s.popStep w c) := by
  unfold Server.popStep
  cases hlist : s.sockDescServiceList with
  | nil =>
      exact h.goto (by simp [hw, WorkerPc.awake]) (by simp [WorkerPc.Resting])
  | cons sockFd rest =>
      constructor
      · intro hresting
        have henough := h.enough
          (resting_of_goto (by simp [WorkerPc.Resting]) hresting)
        have hsum := awake_goto s w (.popped sockFd)
        simp only [hw, WorkerPc.awake] at hsum
        rw [hlist, List.length_cons] at henough
        change rest.length ≤ (s.goto w (.popped sockFd)).awake +
          if s.Notifies then 1 else 0
        omega
      · intro hnotifies fd hfd
        refine h.last hnotifies fd ?_
        rw [hlist, Option.mem_def, List.getLast?_cons, Option.mem_def.mp hfd]
        rfl

theorem answered_handle (h : Answered s) {w : Fin n} {sockFd : Nat}
    (hw : s.worker w = .handling sockFd) {r : Except Ending Conn}
    (hhandle : s.handleStep w sockFd r = some s') : Answered s' := by
  have hfinished : Answered (s.goto w .finished) :=
    h.goto (by simp [hw, WorkerPc.awake]) (by simp [WorkerPc.Resting])
  cases r with
  | ok c =>
      cases hhandle
      exact { h with }
  | error ending =>
      cases ending with
      | mk sent outcome =>
          cases outcome with
          | waiting db =>
              cases hhandle
              exact hfinished
          | closed db =>
              cases hhandle
              exact { hfinished with }
          | terminated e => contradiction

theorem answered_step {env : Env} {a : Action n} {u : Unit} (h : Answered s)
    (hintime : NotifiesInTime s a)
    (hstep : Server.step env listenSd a s = .ok (u, s')) : Answered s' := by
  cases a with
  | copy =>
      obtain ⟨hpc, rfl⟩ := Effect.guarded_eq_ok.mp hstep
      exact h.main rfl rfl (by simp [Server.Notifies, hpc])
        (by simp [Server.Notifies])
  | select ready =>
      obtain ⟨⟨hpc, -⟩, rfl⟩ := Effect.guarded_eq_ok.mp hstep
      exact h.main rfl rfl (by simp [Server.Notifies, hpc])
        (by simp [Server.Notifies])
  | selectFails =>
      obtain ⟨hpc, rfl⟩ := Effect.guarded_eq_ok.mp hstep
      exact h.main rfl rfl (by simp [Server.Notifies, hpc])
        (by simp [Server.Notifies])
  | scan =>
      obtain ⟨hpc, rfl⟩ := Effect.guarded_eq_ok.mp hstep
      have hpc' : ¬ s.Notifies := by simp [Server.Notifies, hpc]
      unfold Server.scanStep
      split
      · split
        · exact h.main rfl rfl hpc' (by simp only [Server.Notifies]; grind)
        · exact h.main rfl rfl hpc' hpc'
      · exact h.main rfl rfl hpc' (by simp only [Server.Notifies]; grind)
  | accept newSd =>
      obtain ⟨⟨hpc, -⟩, rfl⟩ := Effect.guarded_eq_ok.mp hstep
      have hpc' : ¬ s.Notifies := by simp [Server.Notifies, hpc]
      unfold Server.acceptStep
      split
      · exact h
      · exact h.main rfl rfl hpc' hpc'
  | acceptFails wouldBlock =>
      obtain ⟨hpc, rfl⟩ := Effect.guarded_eq_ok.mp hstep
      exact h.main rfl rfl (by simp [Server.Notifies, hpc])
        (by simp [Server.Notifies])
  | lockList =>
      obtain ⟨⟨hpc, -⟩, rfl⟩ := Effect.guarded_eq_ok.mp hstep
      exact h.main rfl rfl (by simp [Server.Notifies, hpc])
        (by simp [Server.Notifies])
  | push =>
      obtain ⟨hpc, rfl⟩ := Effect.guarded_eq_ok.mp hstep
      exact answered_push h hpc
  | clear =>
      simp only [Server.step] at hstep
      split at hstep
      · obtain ⟨hpc, rfl⟩ := Effect.guarded_eq_ok.mp hstep
        exact answered_clear h hpc _
      · contradiction
  | notify woken =>
      cases woken with
      | none =>
          obtain ⟨⟨-, hnobody⟩, rfl⟩ := Effect.guarded_eq_ok.mp hstep
          exact answered_notify_none hnobody hintime
      | some w =>
          obtain ⟨⟨hpc, hw⟩, rfl⟩ := Effect.guarded_eq_ok.mp hstep
          exact answered_notify h hw hpc
  | cleanUp =>
      obtain ⟨hpc, rfl⟩ := Effect.guarded_eq_ok.mp hstep
      exact h.main rfl rfl (by simp [Server.Notifies, hpc])
        (by simp [Server.Notifies])
  | lock w =>
      obtain ⟨⟨hw, -⟩, rfl⟩ := Effect.guarded_eq_ok.mp hstep
      have hgoto : Answered (s.goto w .checking) :=
        h.goto (by simp [hw, WorkerPc.awake]) (by simp [WorkerPc.Resting])
      exact { hgoto with }
  | check w =>
      obtain ⟨hw, rfl⟩ := Effect.guarded_eq_ok.mp hstep
      exact answered_check h hw
  | sleep w =>
      obtain ⟨hw, rfl⟩ := Effect.guarded_eq_ok.mp hstep
      have hgoto : Answered (s.goto w .asleep) :=
        h.goto (by simp [hw, WorkerPc.awake]) (by simp [hw, WorkerPc.Resting])
      exact { hgoto with }
  | lockListBy w =>
      obtain ⟨⟨hw, -⟩, rfl⟩ := Effect.guarded_eq_ok.mp hstep
      have hgoto : Answered (s.goto w .popping) :=
        h.goto (by simp [hw, WorkerPc.awake]) (by simp [WorkerPc.Resting])
      exact { hgoto with }
  | pop w chunks last =>
      obtain ⟨⟨hw, -⟩, rfl⟩ := Effect.guarded_eq_ok.mp hstep
      exact answered_pop h hw _
  | unlock w sockFd =>
      obtain ⟨hw, rfl⟩ := Effect.guarded_eq_ok.mp hstep
      have hgoto : Answered (s.goto w (.counting sockFd)) :=
        h.goto (by simp [hw, WorkerPc.awake]) (by simp [WorkerPc.Resting])
      exact { hgoto with }
  | count w sockFd =>
      obtain ⟨hw, rfl⟩ := Effect.guarded_eq_ok.mp hstep
      have hgoto : Answered (s.goto w (.handling sockFd)) :=
        h.goto (by simp [hw, WorkerPc.awake]) (by simp [WorkerPc.Resting])
      exact { hgoto with }
  | handle w sockFd clock db =>
      simp only [Server.step] at hstep
      split at hstep
      · rename_i s'' hhandle
        obtain ⟨hw, rfl⟩ := Effect.guarded_eq_ok.mp hstep
        exact answered_handle h hw hhandle
      · contradiction
  | finish w =>
      obtain ⟨hw, rfl⟩ := Effect.guarded_eq_ok.mp hstep
      have hgoto : Answered (s.goto w .locking) :=
        h.goto (by simp [hw, WorkerPc.awake]) (by simp [WorkerPc.Resting])
      exact { hgoto with }

/-! ## Every run -/

theorem awake_eq_zero
    (hasleep : ∀ w, (∀ fd, ¬ s.Handles w fd) → s.worker w = .asleep) :
    s.awake = 0 := by
  refine Finset.sum_eq_zero fun w _ => ?_
  cases hfd : (s.worker w).sockFd? with
  | none =>
      rw [hasleep w (by simp [Server.Handles, hfd])]
      rfl
  | some fd => cases hpc : s.worker w <;> simp_all [WorkerPc.sockFd?, WorkerPc.awake]

theorem Answered.notLost (h : Answered s) : ¬ s.LostWakeup := by
  intro hlost
  obtain ⟨w, hw⟩ := hlost.sleeper
  have henough := h.enough ⟨w, .inl hw⟩
  rw [awake_eq_zero hlost.asleep, Nat.zero_add] at henough
  have hqueued : 0 < s.sockDescServiceList.length :=
    List.length_pos_iff.mpr hlost.queued
  by_cases hnotifies : s.Notifies
  · -- the last descriptor has not been notified yet
    obtain ⟨fd, hfd⟩ := Option.isSome_iff_exists.mp
      (List.getLast?_isSome.mpr hlost.queued)
    have hi : fd = s.i := h.last hnotifies fd hfd
    exact hlost.notified hnotifies (hi ▸ List.mem_of_getLast? hfd)
  · rw [if_neg hnotifies] at henough
    omega

end Steps

theorem no_lost_wakeup (env : Env) (n listenSd : Nat) {s : Server n}
    (h : Reached (Server.step env listenSd) NotifiesInTime
      (Server.init n listenSd) s) :
    ¬ s.LostWakeup := by
  have hanswered : Answered s :=
    h.invariant answered_init fun _ _ _ _ hs hintime hstep =>
      answered_step hs hintime hstep
  exact hanswered.notLost

theorem no_lost_wakeup_oneClient :
    ∃ s : Server 1,
      Reached (Server.step Env.x86 3) NotifiesInTime (Server.init 1 3) s ∧
      (s.sockDescServiceList, s.worker 0) = ([4], .locking) ∧
      ¬ s.LostWakeup := by
  obtain ⟨s, hreached, hobserve⟩ := exists_reached_of_replay
    (Server.step Env.x86 3) NotifiesInTime (Server.init 1 3)
    ([.lock 0, .check 0, .sleep 0] ++ queueClient ++ [.notify (some 0)])
    (fun s => (s.sockDescServiceList, s.worker 0)) ([4], .locking)
    (by decide +kernel)
  exact ⟨s, hreached, hobserve, no_lost_wakeup Env.x86 1 3 hreached⟩

/-- The thread looks at the empty list, the descriptor is queued and notified,
and the thread goes to sleep. -/
theorem wakeup_lost_before_sleep :
    ∃ s : Server 1,
      Reached (Server.step Env.x86 3) (fun _ _ => True) (Server.init 1 3) s ∧
      s.LostWakeup := by
  obtain ⟨s, hreached, hobserve⟩ := exists_reached_of_replay
    (Server.step Env.x86 3) (fun _ _ => True) (Server.init 1 3)
    ([.lock 0, .check 0] ++ queueClient ++ [.notify none, .sleep 0])
    (fun s => (s.sockDescServiceList, s.pc, s.worker 0))
    ([4], .scanning, .asleep) (by decide +kernel)
  simp only [Prod.mk.injEq] at hobserve
  obtain ⟨hlist, hpc, hworker⟩ := hobserve
  refine ⟨s, hreached, ?_⟩
  constructor
  · simp [hlist]
  · simp [Server.Notifies, hpc]
  · intro w _
    obtain rfl : w = 0 := Subsingleton.elim _ _
    exact hworker
  · exact ⟨0, hworker⟩

end Memstashed.Ssock
