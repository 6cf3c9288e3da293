import Memstashed.Ssock.Server
import Mathlib.Data.Finset.Max
import Mathlib.Order.Bounds.Basic

/-!
# The bookkeeping of `select`

`max_sd` bounds the `for` loop over the descriptors while the loop lowers and
raises it.  The loop finds every descriptor all the same, since those still to
be found are in `master_set`, whose greatest member `max_sd` is at every time.
Here `accept` may return any descriptor at all.
-/

namespace Memstashed.Ssock

open Memstashed.Foundation

/-! ## Runs with what was done in a pass -/

/-- What has happened since `select` last returned: the descriptors it has found
ready, what was appended to `sockDescServiceList`, what has left `master_set`,
and what `accept` has returned since it left. -/
structure Pass where
  ready : Finset Nat
  queued : List Nat
  cleared : Finset Nat
  accepted : Finset Nat

def Pass.none : Pass := ⟨∅, [], ∅, ∅⟩

def Pass.after {n : Nat} (p : Pass) : Action n → Pass
  | .select ready => ⟨ready, [], ∅, ∅⟩
  | .accept newSd => { p with accepted := insert newSd p.accepted }
  | _ => p

/-- With what the step has done, which is read off the state before it and the
state after it. -/
def Pass.note {n : Nat} (p : Pass) (s s' : Server n) (a : Action n) : Pass :=
  { ready := (p.after a).ready
    queued := (p.after a).queued ++
      s'.sockDescServiceList.drop s.sockDescServiceList.length
    cleared := (p.after a).cleared ∪ (s.masterSet \ s'.masterSet)
    accepted := (p.after a).accepted \ (s.masterSet \ s'.masterSet) }

/-- The steps of the server, where nothing is known of what `accept`
returns. -/
def selectStep (env : Dblru.Env) {n : Nat} (listenSd : Nat) (a : Action n) :
    Effect (Server n × Pass) Unit Unit := fun t =>
  match a with
  | .accept newSd =>
      Effect.guarded (t.1.pc = .accepting)
        (Server.acceptStep newSd t.1,
          t.2.note t.1 (Server.acceptStep newSd t.1) a)
  | _ =>
      match Server.step env listenSd a t.1 with
      | .ok (_, s') => .ok ((), (s', t.2.note t.1 s' a))
      | .error e => .error e

theorem selectStep_of_step {env : Dblru.Env} {n listenSd : Nat} {a : Action n}
    {s s' : Server n} {u : Unit} (p : Pass)
    (h : Server.step env listenSd a s = .ok (u, s')) :
    selectStep env listenSd a (s, p) = .ok ((), (s', p.note s s' a)) := by
  cases a with
  | accept newSd =>
      obtain ⟨⟨hpc, -, -⟩, rfl⟩ := Effect.guarded_eq_ok.mp h
      exact Effect.guarded_eq_ok.mpr ⟨hpc, rfl⟩
  | _ => simp only [selectStep, h]

theorem exists_pass {env : Dblru.Env} {n listenSd : Nat}
    {ok : Server n → Action n → Prop} {s : Server n}
    (h : Reached (Server.step env listenSd) ok (Server.init n listenSd) s) :
    ∃ p, Reached (selectStep env listenSd) (fun _ _ => True)
      (Server.init n listenSd, Pass.none) (s, p) := by
  induction h with
  | start => exact ⟨Pass.none, .start⟩
  | next _ _ hstep ih =>
      obtain ⟨p, hreached⟩ := ih
      exact ⟨_, hreached.next trivial (selectStep_of_step p hstep)⟩

theorem Pass.note_of_subset {n : Nat} (p : Pass) {s s' : Server n}
    (a : Action n) (hmaster : s.masterSet ⊆ s'.masterSet)
    (hlist : s'.sockDescServiceList.length ≤ s.sockDescServiceList.length) :
    p.note s s' a = p.after a := by
  simp only [Pass.note, Finset.sdiff_eq_empty_iff_subset.mpr hmaster,
    List.drop_of_length_le hlist, Finset.union_empty, Finset.sdiff_empty,
    List.append_nil]

def Action.thread {n : Nat} : Action n → Bool
  | .lock _ => true
  | .check _ => true
  | .sleep _ => true
  | .lockListBy _ => true
  | .pop _ _ _ => true
  | .unlock _ _ => true
  | .count _ _ => true
  | .handle _ _ _ _ => true
  | .finish _ => true
  | _ => false

/-! ## The variables of the loop -/

structure SelectVars where
  masterSet : Finset Nat
  maxSd : Nat
  pc : MainPc
  workingSet : Finset Nat
  i : Nat
  descReady : Nat

def Server.selectVars {n : Nat} (s : Server n) : SelectVars :=
  ⟨s.masterSet, s.maxSd, s.pc, s.workingSet, s.i, s.descReady⟩

def countFrom (ready : Finset Nat) (k : Nat) : Nat :=
  (ready.filter fun fd => k ≤ fd).card

/-- In the `for` loop: the descriptors below `seen` have been looked up in
`working_set`, of those that are ready the ones below `queuedTo` are queued and
the ones below `clearedTo` have been taken out of `master_set`. -/
structure Progress (listenSd : Nat) (v : SelectVars) (p : Pass)
    (seen queuedTo clearedTo : Nat) : Prop where
  working : v.workingSet = p.ready
  remaining : v.descReady = countFrom p.ready seen
  ahead : ∀ fd ∈ p.ready, clearedTo ≤ fd → fd ∈ v.masterSet
  queued : ∀ fd, fd ∈ p.queued ↔
    fd ∈ p.ready ∧ fd ≠ listenSd ∧ fd < queuedTo
  once : p.queued.Nodup
  gone : ∀ fd ∈ p.cleared, fd ∈ v.masterSet → fd ∈ p.accepted

/-- The pass is over: what `select` has found ready was appended to the list
once, and has left `master_set`, where it is again only if it was accepted
afterwards. -/
structure Pass.Complete (listenSd : Nat) (masterSet : Finset Nat)
    (p : Pass) : Prop where
  queued : ∀ fd, fd ∈ p.queued ↔ fd ∈ p.ready ∧ fd ≠ listenSd
  once : p.queued.Nodup
  cleared : p.cleared = p.queued.toFinset
  gone : ∀ fd ∈ p.cleared, fd ∈ masterSet → fd ∈ p.accepted

/-- How far the pass has come, by the step that `socketMain` is to take. -/
def PassAt (listenSd : Nat) (v : SelectVars) (p : Pass) : MainPc → Prop
  | .selecting => p.Complete listenSd v.masterSet ∧ v.workingSet = v.masterSet
  | .scanning =>
      Progress listenSd v p v.i v.i v.i ∧ p.cleared = p.queued.toFinset
  | .accepting =>
      Progress listenSd v p (v.i + 1) v.i v.i ∧
        p.cleared = p.queued.toFinset ∧ v.i = listenSd
  | .queueing =>
      Progress listenSd v p (v.i + 1) v.i v.i ∧
        p.cleared = p.queued.toFinset ∧ v.i ∈ p.ready ∧ v.i ≠ listenSd
  | .pushing =>
      Progress listenSd v p (v.i + 1) v.i v.i ∧
        p.cleared = p.queued.toFinset ∧ v.i ∈ p.ready ∧ v.i ≠ listenSd
  | .clearing =>
      Progress listenSd v p (v.i + 1) (v.i + 1) v.i ∧
        insert v.i p.cleared = p.queued.toFinset ∧ v.i ∈ p.ready ∧
          v.i ≠ listenSd
  | .notifying =>
      Progress listenSd v p (v.i + 1) (v.i + 1) (v.i + 1) ∧
        p.cleared = p.queued.toFinset
  | _ => p.Complete listenSd v.masterSet

structure Listens (listenSd : Nat) (masterSet : Finset Nat)
    (maxSd : Nat) : Prop where
  listening : listenSd ∈ masterSet
  greatest : IsGreatest (masterSet : Set Nat) maxSd

structure Sound (listenSd : Nat) (v : SelectVars) (p : Pass) : Prop where
  listens : Listens listenSd v.masterSet v.maxSd
  pass : PassAt listenSd v p v.pc

section Loop

variable {listenSd : Nat} {v : SelectVars} {p : Pass}

theorem lowerMaxSd_eq {masterSet : Finset Nat} {sd : Nat} (top : Nat)
    (hmem : sd ∈ masterSet) (hle : sd ≤ top) :
    ∃ maxSd, lowerMaxSd masterSet top = some maxSd ∧ maxSd ∈ masterSet ∧
      ∀ fd ∈ masterSet, fd ≤ top → fd ≤ maxSd := by
  induction top with
  | zero =>
      have hzero : sd = 0 := by omega
      subst hzero
      exact ⟨0, if_pos hmem, hmem, fun fd _ hfd => hfd⟩
  | succ top ih =>
      by_cases htop : top + 1 ∈ masterSet
      · exact ⟨top + 1, if_pos htop, htop, fun fd _ hfd => hfd⟩
      · have hne : sd ≠ top + 1 := by
          rintro rfl
          exact htop hmem
        obtain ⟨maxSd, hlower, hmax, hbound⟩ := ih (by omega)
        refine ⟨maxSd, (if_neg htop).trans hlower, hmax, ?_⟩
        intro fd hfd hle
        have hfdne : fd ≠ top + 1 := by
          rintro rfl
          exact htop hfd
        exact hbound fd hfd (by omega)

theorem countFrom_succ (ready : Finset Nat) (k : Nat) :
    countFrom ready k =
      countFrom ready (k + 1) + if k ∈ ready then 1 else 0 := by
  have hsplit : (ready.filter fun fd => k ≤ fd) =
      (ready.filter fun fd => k + 1 ≤ fd) ∪ ready.filter fun fd => fd = k := by
    ext fd
    simp only [Finset.mem_union, Finset.mem_filter]
    constructor
    · rintro ⟨hfd, hle⟩
      rcases Nat.lt_or_eq_of_le hle with hlt | heq
      · exact .inl ⟨hfd, hlt⟩
      · exact .inr ⟨hfd, heq.symm⟩
    · rintro (⟨hfd, hlt⟩ | ⟨hfd, rfl⟩)
      · exact ⟨hfd, by omega⟩
      · exact ⟨hfd, le_rfl⟩
  have hdisjoint : Disjoint (ready.filter fun fd => k + 1 ≤ fd)
      (ready.filter fun fd => fd = k) := by
    apply Finset.disjoint_filter.mpr
    intro fd _ hlt
    omega
  rw [countFrom, countFrom, hsplit, Finset.card_union_of_disjoint hdisjoint,
    Finset.filter_eq']
  split
  · rw [Finset.card_singleton]
  · rw [Finset.card_empty]

theorem countFrom_eq_zero {ready : Finset Nat} {k : Nat}
    (hzero : countFrom ready k = 0) : ∀ fd ∈ ready, fd < k := by
  intro fd hfd
  by_contra hle
  have hmem : fd ∈ ready.filter fun fd => k ≤ fd := by
    rw [Finset.mem_filter]
    exact ⟨hfd, Nat.not_lt.mp hle⟩
  rw [countFrom, Finset.card_eq_zero] at hzero
  simp [hzero] at hmem

/-! ## One step -/

theorem sound_copy (h : Sound listenSd v p) (hpc : v.pc = .copying) :
    Sound listenSd
      { v with pc := .selecting, workingSet := v.masterSet } p := by
  have hpass := h.pass
  rw [hpc] at hpass
  exact ⟨h.listens, hpass, rfl⟩

theorem sound_select (h : Sound listenSd v p) (hpc : v.pc = .selecting)
    {ready : Finset Nat} (hready : ready ⊆ v.workingSet) :
    Sound listenSd
      { v with
        pc := .scanning
        workingSet := ready
        i := 0
        descReady := ready.card } ⟨ready, [], ∅, ∅⟩ := by
  have hpass := h.pass
  rw [hpc] at hpass
  refine ⟨h.listens, ?_, rfl⟩
  exact {
    working := rfl
    remaining := by simp [countFrom]
    ahead := fun fd hfd _ => by
      rw [← hpass.2]
      exact hready hfd
    queued := by simp
    once := List.nodup_nil
    gone := by simp }

theorem Progress.complete (h : Progress listenSd v p v.i v.i v.i)
    (hlistens : Listens listenSd v.masterSet v.maxSd)
    (hcleared : p.cleared = p.queued.toFinset)
    (hexit : ¬ (v.i ≤ v.maxSd ∧ 0 < v.descReady)) :
    p.Complete listenSd v.masterSet where
  queued fd := by
    have hbelow : ∀ fd ∈ p.ready, fd < v.i := by
      by_cases hzero : v.descReady = 0
      · rw [h.remaining] at hzero
        exact countFrom_eq_zero hzero
      · intro fd hfd
        by_contra hle
        have hmaster := h.ahead fd hfd (Nat.not_lt.mp hle)
        have hmax : fd ≤ v.maxSd := hlistens.greatest.2 hmaster
        omega
    rw [h.queued fd]
    constructor
    · rintro ⟨hready, hne, -⟩
      exact ⟨hready, hne⟩
    · rintro ⟨hready, hne⟩
      exact ⟨hready, hne, hbelow fd hready⟩
  once := h.once
  cleared := hcleared
  gone := h.gone

theorem Progress.pass {seen : Nat} (h : Progress listenSd v p seen v.i v.i)
    (hskip : v.i ∈ p.ready → v.i = listenSd) :
    Progress listenSd v p seen (v.i + 1) (v.i + 1) where
  working := h.working
  remaining := h.remaining
  ahead fd hfd hle := h.ahead fd hfd (by omega)
  queued fd := by
    rw [h.queued fd]
    constructor
    · rintro ⟨hready, hne, hlt⟩
      exact ⟨hready, hne, by omega⟩
    · rintro ⟨hready, hne, hlt⟩
      have hpast : fd ≠ v.i := by
        rintro rfl
        exact hne (hskip hready)
      exact ⟨hready, hne, by omega⟩
  once := h.once
  gone := h.gone

theorem Progress.look (h : Progress listenSd v p v.i v.i v.i) {descReady : Nat}
    (hcount : v.descReady = descReady + if v.i ∈ p.ready then 1 else 0)
    (pc : MainPc) :
    Progress listenSd { v with descReady := descReady, pc := pc } p (v.i + 1)
      v.i v.i where
  working := h.working
  remaining := by
    have hcard := countFrom_succ p.ready v.i
    rw [← h.remaining, hcount] at hcard
    exact Nat.add_right_cancel hcard
  ahead := h.ahead
  queued := h.queued
  once := h.once
  gone := h.gone

theorem Progress.push (h : Progress listenSd v p (v.i + 1) v.i v.i)
    (hready : v.i ∈ p.ready) (hne : v.i ≠ listenSd) :
    Progress listenSd v { p with queued := p.queued ++ [v.i] } (v.i + 1)
      (v.i + 1) v.i where
  working := h.working
  remaining := h.remaining
  ahead := h.ahead
  queued fd := by
    rw [List.mem_append, List.mem_singleton, h.queued fd]
    constructor
    · rintro (⟨hfd, hfdne, hlt⟩ | rfl)
      · exact ⟨hfd, hfdne, by omega⟩
      · exact ⟨hready, hne, by omega⟩
    · rintro ⟨hfd, hfdne, hlt⟩
      rcases Nat.lt_succ_iff_lt_or_eq.mp hlt with hbelow | heq
      · exact .inl ⟨hfd, hfdne, hbelow⟩
      · exact .inr heq
  once := by
    apply List.Nodup.append h.once (List.nodup_singleton _)
    rw [List.disjoint_singleton]
    intro hmem
    have hlt := ((h.queued v.i).mp hmem).2.2
    exact lt_irrefl _ hlt
  gone := h.gone

theorem Progress.clear (h : Progress listenSd v p (v.i + 1) (v.i + 1) v.i)
    (maxSd : Nat) :
    Progress listenSd
      { v with
        masterSet := v.masterSet.erase v.i
        maxSd := maxSd
        pc := .notifying }
      { p with
        cleared := insert v.i p.cleared
        accepted := p.accepted.erase v.i } (v.i + 1) (v.i + 1) (v.i + 1) where
  working := h.working
  remaining := h.remaining
  ahead fd hfd hle := by
    apply Finset.mem_erase_of_ne_of_mem
    · omega
    · exact h.ahead fd hfd (by omega)
  queued := h.queued
  once := h.once
  gone fd hfd hmaster := by
    obtain ⟨hne, hmem⟩ := Finset.mem_erase.mp hmaster
    rcases Finset.mem_insert.mp hfd with hlast | hbefore
    · exact absurd hlast hne
    · exact Finset.mem_erase_of_ne_of_mem hne (h.gone fd hbefore hmem)

theorem Progress.accept {seen queuedTo clearedTo : Nat}
    (h : Progress listenSd v p seen queuedTo clearedTo) (newSd maxSd : Nat) :
    Progress listenSd
      { v with masterSet := insert newSd v.masterSet, maxSd := maxSd }
      { p with accepted := insert newSd p.accepted } seen queuedTo
      clearedTo where
  working := h.working
  remaining := h.remaining
  ahead fd hfd hle := Finset.mem_insert_of_mem (h.ahead fd hfd hle)
  queued := h.queued
  once := h.once
  gone fd hfd hmaster := by
    rcases Finset.mem_insert.mp hmaster with rfl | hold
    · exact Finset.mem_insert_self _ _
    · exact Finset.mem_insert_of_mem (h.gone fd hfd hold)

theorem Progress.refuse {seen queuedTo clearedTo : Nat}
    (h : Progress listenSd v p seen queuedTo clearedTo) (newSd : Nat) :
    Progress listenSd v { p with accepted := insert newSd p.accepted } seen
      queuedTo clearedTo where
  working := h.working
  remaining := h.remaining
  ahead := h.ahead
  queued := h.queued
  once := h.once
  gone fd hfd hmaster := Finset.mem_insert_of_mem (h.gone fd hfd hmaster)

theorem Listens.accept {masterSet : Finset Nat} {maxSd : Nat}
    (h : Listens listenSd masterSet maxSd) (newSd : Nat) :
    Listens listenSd (insert newSd masterSet) (max maxSd newSd) where
  listening := Finset.mem_insert_of_mem h.listening
  greatest := by
    rw [Finset.coe_insert, max_comm]
    exact h.greatest.insert newSd

theorem clearedMaxSd_eq {n : Nat} {s : Server n}
    (h : Listens listenSd s.masterSet s.maxSd) (hne : s.i ≠ listenSd) :
    ∃ maxSd, s.clearedMaxSd = some maxSd ∧
      Listens listenSd (s.masterSet.erase s.i) maxSd := by
  have hlisten : listenSd ∈ s.masterSet.erase s.i :=
    Finset.mem_erase_of_ne_of_mem (Ne.symm hne) h.listening
  unfold Server.clearedMaxSd
  split
  · rename_i htop
    obtain ⟨maxSd, hlower, hmem, hbound⟩ :=
      lowerMaxSd_eq s.maxSd hlisten (h.greatest.2 h.listening)
    refine ⟨maxSd, hlower, hlisten, hmem, ?_⟩
    intro fd hfd
    exact hbound fd hfd (h.greatest.2 (Finset.mem_of_mem_erase hfd))
  · rename_i htop
    refine ⟨s.maxSd, rfl, hlisten, ?_, ?_⟩
    · exact Finset.mem_erase_of_ne_of_mem (Ne.symm htop) h.greatest.1
    · intro fd hfd
      exact h.greatest.2 (Finset.mem_of_mem_erase hfd)

end Loop

/-! ## Every step -/

section Steps

variable {n listenSd : Nat} {s s' : Server n} {p p' : Pass}

theorem sound_init :
    Sound listenSd (Server.init n listenSd).selectVars Pass.none where
  listens := {
    listening := Finset.mem_singleton_self listenSd
    greatest := by
      simp only [Server.init, Server.selectVars, Finset.coe_singleton]
      exact isGreatest_singleton }
  pass := {
    queued := by simp [Pass.none]
    once := List.nodup_nil
    cleared := rfl
    gone := by simp [Pass.none] }

theorem sound_scan (h : Sound listenSd s.selectVars p)
    (hpc : s.pc = .scanning) :
    Sound listenSd (s.scanStep listenSd).selectVars p := by
  have hpass := h.pass
  simp only [Server.selectVars, hpc, PassAt] at hpass
  obtain ⟨hprogress, hcleared⟩ := hpass
  unfold Server.scanStep
  split
  · rename_i hloop
    have hworking : s.workingSet = p.ready := hprogress.working
    split
    · rename_i hmem
      have hready : s.i ∈ p.ready := hworking ▸ hmem
      have hcount : s.descReady =
          s.descReady - 1 + if s.i ∈ p.ready then 1 else 0 := by
        rw [if_pos hready]
        omega
      by_cases hlisten : s.i = listenSd
      · simp only [if_pos hlisten]
        exact ⟨h.listens, hprogress.look hcount .accepting, hcleared, hlisten⟩
      · simp only [if_neg hlisten]
        exact ⟨h.listens, hprogress.look hcount .queueing, hcleared, hready,
          hlisten⟩
    · rename_i hmem
      have hready : s.i ∉ p.ready := hworking ▸ hmem
      have hcount : s.descReady =
          s.descReady + if s.i ∈ p.ready then 1 else 0 := by
        rw [if_neg hready, Nat.add_zero]
      have hnext := (hprogress.look hcount .scanning).pass
        fun hmem => absurd hmem hready
      refine ⟨h.listens, ?_⟩
      simp only [Server.selectVars, hpc, PassAt]
      exact ⟨{ hnext with }, hcleared⟩
  · rename_i hexit
    have hcomplete := hprogress.complete h.listens hcleared hexit
    refine ⟨h.listens, ?_⟩
    cases s.endServer with
    | true => exact hcomplete
    | false => exact hcomplete

theorem Sound.noted {a : Action n}
    (h : Sound listenSd s'.selectVars (p.after a))
    (hmaster : s.masterSet ⊆ s'.masterSet)
    (hlist : s'.sockDescServiceList.length ≤ s.sockDescServiceList.length) :
    Sound listenSd s'.selectVars (p.note s s' a) := by
  rw [p.note_of_subset a hmaster hlist]
  exact h

theorem scanStep_masterSet (s : Server n) :
    (s.scanStep listenSd).masterSet = s.masterSet := by
  unfold Server.scanStep
  split
  · split
    · rfl
    · rfl
  · rfl

theorem scanStep_list (s : Server n) :
    (s.scanStep listenSd).sockDescServiceList = s.sockDescServiceList := by
  unfold Server.scanStep
  split
  · split
    · rfl
    · rfl
  · rfl

theorem sound_accept (h : Sound listenSd s.selectVars p)
    (hpc : s.pc = .accepting) (newSd : Nat) :
    Sound listenSd (s.acceptStep newSd).selectVars
      (p.note s (s.acceptStep newSd) (.accept newSd)) := by
  have hpass := h.pass
  simp only [Server.selectVars, hpc, PassAt] at hpass
  unfold Server.acceptStep
  split
  · refine .noted ⟨h.listens, ?_⟩ (Finset.Subset.refl _) le_rfl
    simp only [Server.selectVars, hpc, PassAt]
    exact ⟨hpass.1.refuse newSd, hpass.2⟩
  · refine .noted ⟨h.listens.accept newSd, ?_⟩ (Finset.subset_insert _ _) le_rfl
    simp only [Server.selectVars, hpc, PassAt]
    exact ⟨hpass.1.accept newSd _, hpass.2⟩

theorem selectVars_of_thread {env : Dblru.Env} {a : Action n} {u : Unit}
    (hstep : Server.step env listenSd a s = .ok (u, s'))
    (hthread : a.thread = true) :
    s'.selectVars = s.selectVars ∧
      s'.sockDescServiceList.length ≤ s.sockDescServiceList.length := by
  cases a with
  | lock w =>
      obtain ⟨-, rfl⟩ := Effect.guarded_eq_ok.mp hstep
      exact ⟨rfl, le_rfl⟩
  | check w =>
      obtain ⟨-, rfl⟩ := Effect.guarded_eq_ok.mp hstep
      exact ⟨rfl, le_rfl⟩
  | sleep w =>
      obtain ⟨-, rfl⟩ := Effect.guarded_eq_ok.mp hstep
      exact ⟨rfl, le_rfl⟩
  | lockListBy w =>
      obtain ⟨-, rfl⟩ := Effect.guarded_eq_ok.mp hstep
      exact ⟨rfl, le_rfl⟩
  | pop w chunks last =>
      obtain ⟨-, rfl⟩ := Effect.guarded_eq_ok.mp hstep
      unfold Server.popStep
      split
      · exact ⟨rfl, le_rfl⟩
      · rename_i hlist
        exact ⟨rfl, by simp [hlist]⟩
  | unlock w sockFd =>
      obtain ⟨-, rfl⟩ := Effect.guarded_eq_ok.mp hstep
      exact ⟨rfl, le_rfl⟩
  | count w sockFd =>
      obtain ⟨-, rfl⟩ := Effect.guarded_eq_ok.mp hstep
      exact ⟨rfl, le_rfl⟩
  | handle w sockFd clock db =>
      simp only [Server.step] at hstep
      split at hstep
      · rename_i s'' hhandle
        obtain ⟨-, rfl⟩ := Effect.guarded_eq_ok.mp hstep
        unfold Server.handleStep at hhandle
        split at hhandle
        · cases hhandle
          exact ⟨rfl, le_rfl⟩
        · cases hhandle
          exact ⟨rfl, le_rfl⟩
        · cases hhandle
          exact ⟨rfl, le_rfl⟩
        · contradiction
      · contradiction
  | finish w =>
      obtain ⟨-, rfl⟩ := Effect.guarded_eq_ok.mp hstep
      exact ⟨rfl, le_rfl⟩
  | _ => contradiction

theorem sound_server_step {env : Dblru.Env} {a : Action n} {u : Unit}
    (h : Sound listenSd s.selectVars p)
    (hstep : Server.step env listenSd a s = .ok (u, s')) :
    Sound listenSd s'.selectVars (p.note s s' a) := by
  have hpass := h.pass
  cases a with
  | copy =>
      obtain ⟨hpc, rfl⟩ := Effect.guarded_eq_ok.mp hstep
      exact (sound_copy h hpc).noted (Finset.Subset.refl _) le_rfl
  | select ready =>
      obtain ⟨⟨hpc, hready⟩, rfl⟩ := Effect.guarded_eq_ok.mp hstep
      exact (sound_select h hpc hready).noted (Finset.Subset.refl _) le_rfl
  | selectFails =>
      obtain ⟨hpc, rfl⟩ := Effect.guarded_eq_ok.mp hstep
      simp only [Server.selectVars, hpc, PassAt] at hpass
      exact .noted ⟨h.listens, hpass.1⟩ (Finset.Subset.refl _) le_rfl
  | scan =>
      obtain ⟨hpc, rfl⟩ := Effect.guarded_eq_ok.mp hstep
      exact (sound_scan h hpc).noted (scanStep_masterSet s).ge
        (congrArg List.length (scanStep_list s)).le
  | accept newSd =>
      obtain ⟨⟨hpc, -⟩, rfl⟩ := Effect.guarded_eq_ok.mp hstep
      exact sound_accept h hpc newSd
  | acceptFails wouldBlock =>
      obtain ⟨hpc, rfl⟩ := Effect.guarded_eq_ok.mp hstep
      simp only [Server.selectVars, hpc, PassAt] at hpass
      obtain ⟨hprogress, hcleared, hlisten⟩ := hpass
      exact .noted ⟨h.listens, { hprogress.pass fun _ => hlisten with },
        hcleared⟩ (Finset.Subset.refl _) le_rfl
  | lockList =>
      obtain ⟨⟨hpc, -⟩, rfl⟩ := Effect.guarded_eq_ok.mp hstep
      simp only [Server.selectVars, hpc, PassAt] at hpass
      exact .noted ⟨h.listens, { hpass.1 with }, hpass.2⟩ (Finset.Subset.refl _)
        le_rfl
  | push =>
      obtain ⟨hpc, rfl⟩ := Effect.guarded_eq_ok.mp hstep
      simp only [Server.selectVars, hpc, PassAt] at hpass
      obtain ⟨hprogress, hcleared, hready, hne⟩ := hpass
      have hnote : p.note s { s with
          pc := .clearing
          sockDescServiceList := s.sockDescServiceList ++ [s.i]
          sockDescMutex := false } .push =
          { p with queued := p.queued ++ [s.i] } := by
        simp [Pass.note, Pass.after]
      rw [hnote]
      exact ⟨h.listens, { hprogress.push hready hne with },
        by simp [Server.selectVars, hcleared], hready, hne⟩
  | clear =>
      simp only [Server.step] at hstep
      split at hstep
      · rename_i maxSd hmax
        obtain ⟨hpc, rfl⟩ := Effect.guarded_eq_ok.mp hstep
        simp only [Server.selectVars, hpc, PassAt] at hpass
        obtain ⟨hprogress, hcleared, hready, hne⟩ := hpass
        obtain ⟨maxSd', hmax', hlistens⟩ := clearedMaxSd_eq h.listens hne
        rw [hmax] at hmax'
        cases hmax'
        have hmem : s.i ∈ s.masterSet := hprogress.ahead s.i hready le_rfl
        have hnote : p.note s (s.clearStep maxSd) .clear =
            { p with
              cleared := insert s.i p.cleared
              accepted := p.accepted.erase s.i } := by
          simp [Pass.note, Pass.after, Server.clearStep,
            Finset.sdiff_erase_self hmem, Finset.sdiff_singleton_eq_erase]
        rw [hnote]
        exact ⟨hlistens, hprogress.clear maxSd, hcleared⟩
      · contradiction
  | notify woken =>
      have hnext : s.pc = .notifying → Sound listenSd
          { s.selectVars with pc := .scanning, i := s.i + 1 } p := by
        intro hpc
        simp only [Server.selectVars, hpc, PassAt] at hpass
        exact ⟨h.listens, { hpass.1 with }, hpass.2⟩
      cases woken with
      | none =>
          obtain ⟨⟨hpc, -⟩, rfl⟩ := Effect.guarded_eq_ok.mp hstep
          exact (hnext hpc).noted (Finset.Subset.refl _) le_rfl
      | some w =>
          obtain ⟨⟨hpc, -⟩, rfl⟩ := Effect.guarded_eq_ok.mp hstep
          exact (hnext hpc).noted (Finset.Subset.refl _) le_rfl
  | cleanUp =>
      obtain ⟨hpc, rfl⟩ := Effect.guarded_eq_ok.mp hstep
      simp only [Server.selectVars, hpc, PassAt] at hpass
      exact .noted ⟨h.listens, hpass⟩ (Finset.Subset.refl _) le_rfl
  | _ =>
      obtain ⟨hvars, hlist⟩ := selectVars_of_thread hstep rfl
      have hmaster : s'.masterSet = s.masterSet :=
        congrArg SelectVars.masterSet hvars
      refine .noted ?_ hmaster.ge hlist
      rw [hvars]
      exact h

theorem sound_step {env : Dblru.Env} {a : Action n} {u : Unit}
    (h : Sound listenSd s.selectVars p)
    (hstep : selectStep env listenSd a (s, p) = .ok (u, (s', p'))) :
    Sound listenSd s'.selectVars p' := by
  cases a with
  | accept newSd =>
      obtain ⟨hpc, heq⟩ := Effect.guarded_eq_ok.mp hstep
      cases heq
      exact sound_accept h hpc newSd
  | _ =>
      simp only [selectStep] at hstep
      split at hstep
      · rename_i hstep'
        cases hstep
        exact sound_server_step h hstep'
      · contradiction

end Steps

def MainPc.BetweenPasses : MainPc → Prop
  | .copying => True
  | .selecting => True
  | .cleaning => True
  | .ended => True
  | _ => False

/-- Whatever `select` and `accept` return: the listening socket is in
`master_set`, `max_sd` is its greatest member, the loop that lowers `max_sd` ends
at a member that is not below the listening socket, and at the end of a pass each
descriptor that was ready, the listening socket apart, was appended to
`sockDescServiceList` once and has left `master_set`. -/
theorem select_bookkeeping (env : Dblru.Env) (n listenSd : Nat)
    {s : Server n} {p : Pass}
    (h : Reached (selectStep env listenSd) (fun _ _ => True)
      (Server.init n listenSd, Pass.none) (s, p)) :
    (listenSd ∈ s.masterSet ∧ IsGreatest (s.masterSet : Set Nat) s.maxSd) ∧
      (s.pc = .clearing → ∃ maxSd, s.clearedMaxSd = some maxSd ∧
        listenSd ≤ maxSd ∧ maxSd ∈ s.masterSet) ∧
      (s.pc.BetweenPasses → p.Complete listenSd s.masterSet) := by
  have hsound : Sound listenSd s.selectVars p := by
    refine h.invariant (P := fun t => Sound listenSd t.1.selectVars t.2)
      sound_init ?_
    rintro ⟨s, p⟩ a u ⟨s', p'⟩ ht - hstep
    exact sound_step ht hstep
  have hpass := hsound.pass
  refine ⟨⟨hsound.listens.listening, hsound.listens.greatest⟩, ?_, ?_⟩
  · intro hpc
    simp only [Server.selectVars, hpc, PassAt] at hpass
    obtain ⟨maxSd, hmax, hlistens⟩ := clearedMaxSd_eq hsound.listens hpass.2.2.2
    exact ⟨maxSd, hmax, hlistens.greatest.2 hlistens.listening,
      Finset.mem_of_mem_erase hlistens.greatest.1⟩
  · intro hbetween
    cases hpc : s.pc with
    | copying =>
        simp only [Server.selectVars, hpc, PassAt] at hpass
        exact hpass
    | selecting =>
        simp only [Server.selectVars, hpc, PassAt] at hpass
        exact hpass.1
    | cleaning =>
        simp only [Server.selectVars, hpc, PassAt] at hpass
        exact hpass
    | ended =>
        simp only [Server.selectVars, hpc, PassAt] at hpass
        exact hpass
    | _ =>
        rw [hpc] at hbetween
        exact hbetween.elim

/-- A connection comes in and is queued: `max_sd` goes up to 4 and down to 3. -/
theorem select_bookkeeping_queued :
    ∃ s p, Reached (selectStep Dblru.Env.x86 3) (fun _ _ => True)
        (Server.init 1 3, Pass.none) (s, p) ∧
      (s.pc, p.queued) = (.copying, [4]) ∧
      (3 ∈ s.masterSet ∧ IsGreatest (s.masterSet : Set Nat) s.maxSd) ∧
      (s.pc = .clearing → ∃ maxSd, s.clearedMaxSd = some maxSd ∧
        3 ≤ maxSd ∧ maxSd ∈ s.masterSet) ∧
      (s.pc.BetweenPasses → p.Complete 3 s.masterSet) := by
  obtain ⟨⟨s, p⟩, hreached, hobserve⟩ := exists_reached_of_replay
    (selectStep Dblru.Env.x86 3) (fun _ _ => True)
    (Server.init 1 3, Pass.none)
    [.copy, .select {3}, .scan, .scan, .scan, .scan, .accept 4,
      .acceptFails true, .scan, .copy, .select {4}, .scan, .scan, .scan, .scan,
      .scan, .lockList, .push, .clear, .notify none, .scan]
    (fun t => (t.1.pc, t.2.queued)) (.copying, [4]) (by decide +kernel)
  exact ⟨s, p, hreached, hobserve,
    select_bookkeeping Dblru.Env.x86 1 3 hreached⟩

end Memstashed.Ssock
