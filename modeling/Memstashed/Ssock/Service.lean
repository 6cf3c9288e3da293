import Memstashed.Ssock.Server

/-!
# Who looks after a connection

An open connection is watched by `select`, or it is in the list of descriptors
to be served, or a thread handles it.  The ledger says which of the three; the
steps of the server move a descriptor from one to the next, and a thread that
gives up a connection without closing it is the only one to lose track of it.
-/

namespace Memstashed.Ssock

open Memstashed.Foundation
open Memstashed.Dblru
open Memstashed.Scmd

inductive Owner (n : Nat) where
  | watched
  | queued
  | served (w : Fin n)
  deriving DecidableEq, Repr

def WorkerPc.sockFd? : WorkerPc → Option Nat
  | .popped sockFd => some sockFd
  | .counting sockFd => some sockFd
  | .handling sockFd => some sockFd
  | _ => none

namespace Server

variable {n : Nat}

def Handles (s : Server n) (w : Fin n) (fd : Nat) : Prop :=
  (s.worker w).sockFd? = some fd

/-- The `for` loop has not come past the descriptor. -/
def Ahead (s : Server n) (fd : Nat) : Prop :=
  match s.pc with
  | .selecting => True
  | .scanning => s.i ≤ fd
  | .queueing => s.i ≤ fd
  | .pushing => s.i ≤ fd
  | .accepting => s.i < fd
  | .clearing => s.i < fd
  | .notifying => s.i < fd
  | _ => False

def Selected (s : Server n) (fd : Nat) : Prop :=
  fd ∈ s.workingSet ∧ s.Ahead fd

/-- Every connection that has been accepted and not been closed is looked after
at one place. -/
structure InService (s : Server n) : Prop where
  served : ∀ fd ∈ s.opened, fd ∈ s.masterSet ∨ fd ∈ s.sockDescServiceList ∨
    ∃ w, s.Handles w fd
  once : s.sockDescServiceList.Nodup
  notQueued : ∀ w fd, s.Handles w fd → fd ∉ s.sockDescServiceList
  notSelected : ∀ w fd, s.Handles w fd → ¬ s.Selected fd
  queuedOnce : ∀ fd ∈ s.sockDescServiceList, ¬ s.Selected fd
  alone : ∀ w w' fd, s.Handles w fd → s.Handles w' fd → w = w'

end Server

def Conn.WouldBlock (c : Conn) : Prop :=
  c.persistentData = [] ∧ c.chunks = [] ∧ c.last = .wouldBlock

instance (c : Conn) : Decidable c.WouldBlock :=
  inferInstanceAs (Decidable (_ ∧ _))

def Action.reader? {n : Nat} : Action n → Option (Fin n)
  | .handle w _ _ _ => some w
  | _ => none

/-- A step in which no `recv` is answered `EWOULDBLOCK`. -/
def ReadsOn {n : Nat} (s : Server n) (a : Action n) : Prop :=
  ∀ w ∈ a.reader?, ¬ (s.conn w).WouldBlock

instance {n : Nat} (s : Server n) (a : Action n) : Decidable (ReadsOn s a) :=
  inferInstanceAs (Decidable (∀ w ∈ a.reader?, ¬ (s.conn w).WouldBlock))

theorem wouldBlock_of_waiting {env : Env} {clock : Nat → Times} {c : Conn}
    {sent : Bytes} {db : State}
    (h : round env clock c = .error ⟨sent, .waiting db⟩) : c.WouldBlock := by
  have hrespond : ∀ (c : Conn) r, respond c r ≠ .error ⟨sent, .waiting db⟩ := by
    intro c r
    unfold respond
    split
    · simp
    · split
      · simp
      · split <;> simp
  have hprocess : ∀ c, process env clock c ≠ .error ⟨sent, .waiting db⟩ := by
    intro c
    unfold process
    split
    · simp
    · split
      · exact hrespond c _
      · simp
  unfold round at h
  cases hreceive : receive c with
  | ok c' =>
      cases hcut : cutLine c' with
      | mk found c'' =>
          simp only [hreceive, hcut, bind, Except.bind] at h
          cases found with
          | true => exact absurd h (hprocess c'')
          | false => contradiction
  | error ending =>
      rw [hreceive] at h
      cases h
      unfold receive at hreceive
      split at hreceive
      · contradiction
      · rename_i hpersistent
        split at hreceive
        · rename_i hchunks
          refine ⟨not_not.mp hpersistent, hchunks, ?_⟩
          cases hlast : c.last with
          | wouldBlock => rfl
          | failed => simp [hlast, NoData.outcome] at hreceive
          | eof => simp [hlast, NoData.outcome] at hreceive
        · contradiction

/-! ## The ledger -/

/-- The ledger says who looks after which connection.  A descriptor that has just
been queued is still in `master_set`. -/
structure Keeps {n : Nat} (listenSd : Nat) (ledger : Nat → Option (Owner n))
    (s : Server n) : Prop where
  opened : ∀ fd, fd ∈ s.opened ↔ ledger fd ≠ none
  listen : ledger listenSd = none
  watched : ∀ fd, ledger fd = some .watched → fd ∈ s.masterSet
  master : s.pc ≠ .ended → ∀ fd ∈ s.masterSet, fd = listenSd ∨
    ledger fd = some .watched ∨ (s.pc = .clearing ∧ fd = s.i)
  queued : ∀ fd, fd ∈ s.sockDescServiceList ↔ ledger fd = some .queued
  once : s.sockDescServiceList.Nodup
  served : ∀ w fd, s.Handles w fd ↔ ledger fd = some (.served w)
  selected : ∀ fd, s.Selected fd → fd = listenSd ∨ ledger fd = some .watched
  current : s.pc = .queueing ∨ s.pc = .pushing →
    s.Selected s.i ∧ s.i ≠ listenSd
  pushed : s.pc = .clearing → ledger s.i ≠ some .watched

section Ledger

variable {n listenSd : Nat} {ledger : Nat → Option (Owner n)} {s s' : Server n}

theorem keeps_init : Keeps listenSd (fun _ => none) (Server.init n listenSd) where
  opened := by simp [Server.init]
  listen := rfl
  watched := by simp
  master := by simp [Server.init]
  queued := by simp [Server.init]
  once := List.nodup_nil
  served := by simp [Server.init, Server.Handles, WorkerPc.sockFd?]
  selected := by simp [Server.init, Server.Selected]
  current := by simp [Server.init]
  pushed := by simp [Server.init]

theorem Keeps.inService (h : Keeps listenSd ledger s) : s.InService where
  served fd hopen := by
    cases howner : ledger fd with
    | none => exact absurd howner ((h.opened fd).mp hopen)
    | some owner =>
        cases owner with
        | watched => exact .inl (h.watched fd howner)
        | queued => exact .inr (.inl ((h.queued fd).mpr howner))
        | served w => exact .inr (.inr ⟨w, (h.served w fd).mpr howner⟩)
  once := h.once
  notQueued w fd hw hqueued := by
    have howner := (h.served w fd).mp hw
    simp [(h.queued fd).mp hqueued] at howner
  notSelected w fd hw hselected := by
    have howner := (h.served w fd).mp hw
    rcases h.selected fd hselected with rfl | hwatched
    · simp [h.listen] at howner
    · simp [hwatched] at howner
  queuedOnce fd hqueued hselected := by
    have howner := (h.queued fd).mp hqueued
    rcases h.selected fd hselected with rfl | hwatched
    · simp [h.listen] at howner
    · simp [hwatched] at howner
  alone w w' fd hw hw' := by
    have howner := (h.served w fd).mp hw
    rw [(h.served w' fd).mp hw'] at howner
    cases howner
    rfl

theorem Keeps.goto (h : Keeps listenSd ledger s) {w : Fin n} {pc : WorkerPc}
    (hpc : pc.sockFd? = (s.worker w).sockFd?) :
    Keeps listenSd ledger (s.goto w pc) := by
  refine { h with served := fun w' fd => ?_ }
  rw [← h.served w' fd]
  by_cases hw : w' = w
  · subst hw
    simp [Server.Handles, Server.goto, hpc]
  · simp [Server.Handles, Server.goto, Function.update_of_ne hw]

/-! ### The loop of `socketMain` -/

theorem keeps_copy (h : Keeps listenSd ledger s) (hpc : s.pc = .copying) :
    Keeps listenSd ledger
      { s with pc := .selecting, workingSet := s.masterSet } := by
  have hmaster : ∀ fd ∈ s.masterSet, fd = listenSd ∨
      ledger fd = some .watched := by
    intro fd hfd
    rcases h.master (by simp [hpc]) fd hfd with hlisten | hwatched | ⟨hclear, -⟩
    · exact .inl hlisten
    · exact .inr hwatched
    · simp [hpc] at hclear
  refine { h with
    master := fun _ fd hfd => ?_
    selected := ?_
    current := ?_
    pushed := ?_ }
  · rcases hmaster fd hfd with hlisten | hwatched
    · exact .inl hlisten
    · exact .inr (.inl hwatched)
  · exact fun fd hselected => hmaster fd hselected.1
  · simp
  · simp

theorem keeps_select (h : Keeps listenSd ledger s) (hpc : s.pc = .selecting)
    {ready : Finset Nat} (hready : ready ⊆ s.workingSet) :
    Keeps listenSd ledger
      { s with
        pc := .scanning
        workingSet := ready
        i := 0
        descReady := ready.card } := by
  refine { h with
    master := fun _ fd hfd => ?_
    selected := ?_
    current := ?_
    pushed := ?_ }
  · rcases h.master (by simp [hpc]) fd hfd with hlisten | hwatched | ⟨hclear, -⟩
    · exact .inl hlisten
    · exact .inr (.inl hwatched)
    · simp [hpc] at hclear
  · intro fd hselected
    exact h.selected fd ⟨hready hselected.1, by simp [Server.Ahead, hpc]⟩
  · simp
  · simp

theorem Keeps.advance (h : Keeps listenSd ledger s) {pc : MainPc} {i : Nat}
    {descReady : Nat} {endServer : Bool} (hended : s.pc ≠ .ended)
    (hclearing : s.pc ≠ .clearing)
    (hahead : ∀ fd, ({ s with pc := pc, i := i } : Server n).Ahead fd →
      s.Ahead fd)
    (hcurrent : pc = .queueing ∨ pc = .pushing →
      i ∈ s.workingSet ∧ i ≠ listenSd ∧
        ({ s with pc := pc, i := i } : Server n).Ahead i)
    (hpc : pc ≠ .clearing) :
    Keeps listenSd ledger
      { s with
        pc := pc
        i := i
        descReady := descReady
        endServer := endServer } := by
  refine { h with
    master := fun _ fd hfd => ?_
    selected := ?_
    current := ?_
    pushed := fun hpc' => absurd hpc' hpc }
  · rcases h.master hended fd hfd with hlisten | hwatched | ⟨hclear, -⟩
    · exact .inl hlisten
    · exact .inr (.inl hwatched)
    · exact absurd hclear hclearing
  · exact fun fd hselected => h.selected fd ⟨hselected.1, hahead fd hselected.2⟩
  · intro hpc'
    obtain ⟨hmem, hne, hi⟩ := hcurrent hpc'
    exact ⟨⟨hmem, hi⟩, hne⟩

theorem keeps_scan (h : Keeps listenSd ledger s) (hpc : s.pc = .scanning) :
    Keeps listenSd ledger (s.scanStep listenSd) := by
  have hended : s.pc ≠ .ended := by simp [hpc]
  have hclearing : s.pc ≠ .clearing := by simp [hpc]
  unfold Server.scanStep
  split
  · split
    · rename_i hready
      split
      · refine h.advance hended hclearing (fun fd hfd => ?_) (by simp) (by simp)
        simp only [Server.Ahead, hpc] at hfd ⊢
        omega
      · rename_i hne
        refine h.advance hended hclearing (fun fd hfd => ?_)
          (fun _ => ⟨hready, hne, ?_⟩) (by simp)
        · simpa only [Server.Ahead, hpc] using hfd
        · simp [Server.Ahead]
    · refine h.advance hended hclearing (fun fd hfd => ?_) (by simp [hpc])
        (by simp [hpc])
      simp only [Server.Ahead, hpc] at hfd ⊢
      omega
  · split
    · exact h.advance hended hclearing (fun fd hfd => hfd.elim) (by simp)
        (by simp)
    · exact h.advance hended hclearing (fun fd hfd => hfd.elim) (by simp)
        (by simp)

theorem keeps_accept (h : Keeps listenSd ledger s) (hpc : s.pc = .accepting)
    {newSd : Nat} (hnew : newSd ∉ s.opened) (hlisten : newSd ≠ listenSd) :
    ∃ ledger', Keeps listenSd ledger' (s.acceptStep newSd) := by
  unfold Server.acceptStep
  split
  · exact ⟨ledger, h⟩
  · have hnone : ledger newSd = none := by
      by_contra howned
      exact hnew ((h.opened newSd).mpr howned)
    refine ⟨Function.update ledger newSd (some .watched), ?_⟩
    constructor
    · intro fd
      by_cases hfd : fd = newSd
      · simp [hfd]
      · simp [hfd, h.opened fd]
    · rw [Function.update_of_ne (Ne.symm hlisten)]
      exact h.listen
    · intro fd howner
      by_cases hfd : fd = newSd
      · simp [hfd]
      · rw [Function.update_of_ne hfd] at howner
        exact Finset.mem_insert_of_mem (h.watched fd howner)
    · intro _ fd hmem
      by_cases hfd : fd = newSd
      · simp [hfd]
      · rw [Function.update_of_ne hfd]
        exact h.master (by simp [hpc]) fd (Finset.mem_of_mem_insert_of_ne hmem hfd)
    · intro fd
      by_cases hfd : fd = newSd
      · simp [hfd, h.queued newSd, hnone]
      · rw [Function.update_of_ne hfd]
        exact h.queued fd
    · exact h.once
    · intro w fd
      by_cases hfd : fd = newSd
      · subst hfd
        have hidle := h.served w fd
        simp only [hnone, reduceCtorEq, iff_false] at hidle
        simp only [Function.update_self, Option.some.injEq, reduceCtorEq,
          iff_false]
        exact hidle
      · rw [Function.update_of_ne hfd]
        exact h.served w fd
    · intro fd hselected
      by_cases hfd : fd = newSd
      · simp [hfd]
      · rw [Function.update_of_ne hfd]
        exact h.selected fd hselected
    · simp [hpc]
    · simp [hpc]

theorem keeps_push (h : Keeps listenSd ledger s) (hpc : s.pc = .pushing) :
    Keeps listenSd (Function.update ledger s.i (some .queued))
      { s with
        pc := .clearing
        sockDescServiceList := s.sockDescServiceList ++ [s.i]
        sockDescMutex := false } := by
  obtain ⟨hselected, hlisten⟩ := h.current (.inr hpc)
  have howner : ledger s.i = some .watched :=
    (h.selected s.i hselected).resolve_left hlisten
  constructor
  · intro fd
    by_cases hfd : fd = s.i
    · simp [hfd, h.opened s.i, howner]
    · simp [hfd, h.opened fd]
  · rw [Function.update_of_ne (Ne.symm hlisten)]
    exact h.listen
  · intro fd hwatched
    by_cases hfd : fd = s.i
    · simp [hfd] at hwatched
    · rw [Function.update_of_ne hfd] at hwatched
      exact h.watched fd hwatched
  · intro _ fd hmem
    by_cases hfd : fd = s.i
    · exact .inr (.inr ⟨rfl, hfd⟩)
    · rw [Function.update_of_ne hfd]
      rcases h.master (by simp [hpc]) fd hmem with hl | hwatched | ⟨-, hi⟩
      · exact .inl hl
      · exact .inr (.inl hwatched)
      · exact absurd hi hfd
  · intro fd
    by_cases hfd : fd = s.i
    · simp [hfd]
    · simp [hfd, h.queued fd]
  · have hnew : s.i ∉ s.sockDescServiceList := by
      rw [h.queued, howner]
      simp
    exact List.nodup_append.mpr ⟨h.once, List.nodup_singleton _,
      fun fd hfd fd' hfd' heq => hnew (by simp_all)⟩
  · intro w fd
    by_cases hfd : fd = s.i
    · subst hfd
      have hidle := h.served w s.i
      simp only [howner, Option.some.injEq, reduceCtorEq, iff_false] at hidle
      simp only [Function.update_self, Option.some.injEq, reduceCtorEq,
        iff_false]
      exact hidle
    · rw [Function.update_of_ne hfd]
      exact h.served w fd
  · intro fd hahead
    have hne : fd ≠ s.i := ne_of_gt hahead.2
    rw [Function.update_of_ne hne]
    refine h.selected fd ⟨hahead.1, ?_⟩
    simp only [Server.Ahead, hpc]
    exact le_of_lt hahead.2
  · simp
  · simp

theorem keeps_clear (h : Keeps listenSd ledger s) (hpc : s.pc = .clearing)
    (maxSd : Nat) : Keeps listenSd ledger (s.clearStep maxSd) := by
  refine { h with
    watched := fun fd hwatched => ?_
    master := fun _ fd hfd => ?_
    selected := fun fd hselected => ?_
    current := ?_
    pushed := ?_ }
  · have hne : fd ≠ s.i := by
      rintro rfl
      exact h.pushed hpc hwatched
    exact Finset.mem_erase.mpr ⟨hne, h.watched fd hwatched⟩
  · obtain ⟨hne, hmem⟩ := Finset.mem_erase.mp hfd
    rcases h.master (by simp [hpc]) fd hmem with hlisten | hwatched | ⟨-, hi⟩
    · exact .inl hlisten
    · exact .inr (.inl hwatched)
    · exact absurd hi hne
  · refine h.selected fd ⟨hselected.1, ?_⟩
    simp only [Server.Ahead, hpc]
    exact hselected.2
  · simp [Server.clearStep]
  · simp [Server.clearStep]

theorem keeps_cleanUp (h : Keeps listenSd ledger s) (hpc : s.pc = .cleaning) :
    ∃ ledger', Keeps listenSd ledger'
      { s with
        pc := .ended
        opened := s.opened.filter fun fd =>
          ¬ (fd ∈ s.masterSet ∧ fd ≤ s.maxSd) } := by
  refine ⟨fun fd => if fd ∈ s.masterSet ∧ fd ≤ s.maxSd then none
    else ledger fd, ?_⟩
  -- only descriptors that are watched are closed
  have hclosed : ∀ fd owner, ledger fd = some owner → owner ≠ .watched →
      ¬ (fd ∈ s.masterSet ∧ fd ≤ s.maxSd) := by
    rintro fd owner howner hne ⟨hmem, -⟩
    rcases h.master (by simp [hpc]) fd hmem with rfl | hwatched | ⟨hclear, -⟩
    · simp [h.listen] at howner
    · rw [howner] at hwatched
      exact hne (Option.some.inj hwatched)
    · simp [hpc] at hclear
  constructor
  · intro fd
    by_cases hfd : fd ∈ s.masterSet ∧ fd ≤ s.maxSd
    · simp [hfd]
    · simp only [Finset.mem_filter, hfd, not_false_eq_true, and_true, if_false]
      exact h.opened fd
  · simp [h.listen]
  · intro fd hwatched
    simp only [ite_eq_iff, reduceCtorEq, and_false, false_or] at hwatched
    exact h.watched fd hwatched.2
  · simp
  · intro fd
    by_cases hfd : fd ∈ s.masterSet ∧ fd ≤ s.maxSd
    · simp only [hfd, and_self, if_true, reduceCtorEq, iff_false, h.queued fd]
      exact fun howner => hclosed fd _ howner (by simp) hfd
    · simp only [hfd, if_false]
      exact h.queued fd
  · exact h.once
  · intro w fd
    by_cases hfd : fd ∈ s.masterSet ∧ fd ≤ s.maxSd
    · simp only [hfd, and_self, if_true, reduceCtorEq, iff_false]
      exact fun hw => hclosed fd _ ((h.served w fd).mp hw) (by simp) hfd
    · simp only [hfd, if_false]
      exact h.served w fd
  · exact fun fd hselected => hselected.2.elim
  · simp
  · simp

/-! ### The threads -/

theorem keeps_pop (h : Keeps listenSd ledger s) {w : Fin n}
    (hw : s.worker w = .popping) (c : Conn) :
    ∃ ledger', Keeps listenSd ledger' (s.popStep w c) := by
  unfold Server.popStep
  cases hlist : s.sockDescServiceList with
  | nil => exact ⟨ledger, h.goto (by simp [hw, WorkerPc.sockFd?])⟩
  | cons sockFd rest =>
      have hmem : ∀ fd, fd = sockFd ∨ fd ∈ rest ↔ ledger fd = some .queued := by
        intro fd
        rw [← h.queued fd, hlist, List.mem_cons]
      have howner : ledger sockFd = some .queued := (hmem sockFd).mp (.inl rfl)
      obtain ⟨hnotMem, hrest⟩ : sockFd ∉ rest ∧ rest.Nodup := by
        simpa [hlist] using h.once
      refine ⟨Function.update ledger sockFd (some (.served w)), ?_⟩
      constructor
      · intro fd
        by_cases hfd : fd = sockFd
        · simp [hfd, Server.goto, h.opened sockFd, howner]
        · simp [hfd, Server.goto, h.opened fd]
      · have hne : listenSd ≠ sockFd := by
          rintro rfl
          simp [h.listen] at howner
        rw [Function.update_of_ne hne]
        exact h.listen
      · intro fd hwatched
        by_cases hfd : fd = sockFd
        · simp [hfd] at hwatched
        · rw [Function.update_of_ne hfd] at hwatched
          exact h.watched fd hwatched
      · intro hended fd hfd
        rcases h.master hended fd hfd with hlisten | hwatched | hclear
        · exact .inl hlisten
        · have hne : fd ≠ sockFd := by
            rintro rfl
            simp [howner] at hwatched
          rw [Function.update_of_ne hne]
          exact .inr (.inl hwatched)
        · exact .inr (.inr hclear)
      · intro fd
        by_cases hfd : fd = sockFd
        · simp [hfd, hnotMem]
        · simp [hfd, ← hmem fd]
      · exact hrest
      · intro w' fd
        by_cases hw' : w' = w
        · subst hw'
          by_cases hfd : fd = sockFd
          · simp [hfd, Server.Handles, Server.goto, WorkerPc.sockFd?]
          · have hidle : ledger fd ≠ some (.served w') := by
              rw [ne_eq, ← h.served w' fd]
              simp [Server.Handles, hw, WorkerPc.sockFd?]
            simp [hfd, hidle, Server.Handles, Server.goto, WorkerPc.sockFd?,
              Ne.symm hfd]
        · by_cases hfd : fd = sockFd
          · subst hfd
            have hidle : ¬ s.Handles w' fd := by
              rw [h.served w' fd, howner]
              simp
            simpa [Server.Handles, Server.goto, hw', Ne.symm hw'] using hidle
          · rw [Function.update_of_ne hfd, ← h.served w' fd]
            simp [Server.Handles, Server.goto, hw']
      · intro fd hselected
        rcases h.selected fd hselected with hlisten | hwatched
        · exact .inl hlisten
        · have hne : fd ≠ sockFd := by
            rintro rfl
            simp [howner] at hwatched
          rw [Function.update_of_ne hne]
          exact .inr hwatched
      · exact h.current
      · intro hclear
        by_cases hi : s.i = sockFd
        · simp [Server.goto, hi]
        · simp only [Server.goto]
          rw [Function.update_of_ne hi]
          exact h.pushed hclear

theorem keeps_close (h : Keeps listenSd ledger s) {w : Fin n} {sockFd : Nat}
    (hw : s.worker w = .handling sockFd) :
    Keeps listenSd (Function.update ledger sockFd none)
      { s.goto w .finished with opened := s.opened.erase sockFd } := by
  have howner : ledger sockFd = some (.served w) :=
    (h.served w sockFd).mp (by simp [Server.Handles, hw, WorkerPc.sockFd?])
  constructor
  · intro fd
    by_cases hfd : fd = sockFd
    · simp [hfd]
    · simp [hfd, h.opened fd]
  · rw [Function.update_apply, h.listen, ite_self]
  · intro fd hwatched
    by_cases hfd : fd = sockFd
    · simp [hfd] at hwatched
    · rw [Function.update_of_ne hfd] at hwatched
      exact h.watched fd hwatched
  · intro hended fd hfd
    rcases h.master hended fd hfd with hlisten | hwatched | hclear
    · exact .inl hlisten
    · have hne : fd ≠ sockFd := by
        rintro rfl
        simp [howner] at hwatched
      rw [Function.update_of_ne hne]
      exact .inr (.inl hwatched)
    · exact .inr (.inr hclear)
  · intro fd
    by_cases hfd : fd = sockFd
    · simp [hfd, Server.goto, h.queued sockFd, howner]
    · rw [Function.update_of_ne hfd]
      exact h.queued fd
  · exact h.once
  · intro w' fd
    by_cases hw' : w' = w
    · subst hw'
      have hown : ledger fd = some (.served w') ↔ sockFd = fd := by
        rw [← h.served w' fd]
        simp [Server.Handles, hw, WorkerPc.sockFd?]
      by_cases hfd : fd = sockFd
      · simp [hfd, Server.Handles, Server.goto, WorkerPc.sockFd?]
      · simp [hfd, hown, Server.Handles, Server.goto, WorkerPc.sockFd?,
          Ne.symm hfd]
    · by_cases hfd : fd = sockFd
      · subst hfd
        have hidle : ¬ s.Handles w' fd := by
          rw [h.served w' fd, howner]
          simp [Ne.symm hw']
        simpa [Server.Handles, Server.goto, hw'] using hidle
      · rw [Function.update_of_ne hfd, ← h.served w' fd]
        simp [Server.Handles, Server.goto, hw']
  · intro fd hselected
    rcases h.selected fd hselected with hlisten | hwatched
    · exact .inl hlisten
    · have hne : fd ≠ sockFd := by
        rintro rfl
        simp [howner] at hwatched
      rw [Function.update_of_ne hne]
      exact .inr hwatched
  · exact h.current
  · intro hclear
    by_cases hi : s.i = sockFd
    · simp [Server.goto, hi]
    · simp only [Server.goto]
      rw [Function.update_of_ne hi]
      exact h.pushed hclear

theorem keeps_handle (h : Keeps listenSd ledger s) {w : Fin n} {sockFd : Nat}
    (hw : s.worker w = .handling sockFd) {env : Env} {clock : Nat → Times}
    {db : State} (hreads : ¬ (s.conn w).WouldBlock)
    (hhandle : s.handleStep w sockFd (round env clock { s.conn w with db := db }) =
      some s') :
    ∃ ledger', Keeps listenSd ledger' s' := by
  cases hround : round env clock { s.conn w with db := db } with
  | ok c =>
      rw [hround] at hhandle
      cases hhandle
      exact ⟨ledger, { h with }⟩
  | error ending =>
      rw [hround] at hhandle
      cases ending with
      | mk sent outcome =>
          cases outcome with
          | waiting db' => exact absurd (wouldBlock_of_waiting hround) hreads
          | closed db' =>
              cases hhandle
              exact ⟨_, keeps_close h hw⟩
          | terminated e => contradiction

/-! ## Every step -/

theorem keeps_step {env : Env} {a : Action n} {u : Unit}
    (h : Keeps listenSd ledger s) (hreads : ReadsOn s a)
    (hstep : Server.step env listenSd a s = .ok (u, s')) :
    ∃ ledger', Keeps listenSd ledger' s' := by
  cases a with
  | copy =>
      obtain ⟨hpc, rfl⟩ := Effect.guarded_eq_ok.mp hstep
      exact ⟨ledger, keeps_copy h hpc⟩
  | select ready =>
      obtain ⟨⟨hpc, hready⟩, rfl⟩ := Effect.guarded_eq_ok.mp hstep
      exact ⟨ledger, keeps_select h hpc hready⟩
  | selectFails =>
      obtain ⟨hpc, rfl⟩ := Effect.guarded_eq_ok.mp hstep
      exact ⟨ledger, h.advance (by simp [hpc]) (by simp [hpc])
        (fun fd hfd => hfd.elim) (by simp) (by simp)⟩
  | scan =>
      obtain ⟨hpc, rfl⟩ := Effect.guarded_eq_ok.mp hstep
      exact ⟨ledger, keeps_scan h hpc⟩
  | accept newSd =>
      obtain ⟨⟨hpc, hnew, hlisten⟩, rfl⟩ := Effect.guarded_eq_ok.mp hstep
      exact keeps_accept h hpc hnew hlisten
  | acceptFails wouldBlock =>
      obtain ⟨hpc, rfl⟩ := Effect.guarded_eq_ok.mp hstep
      refine ⟨ledger, h.advance (by simp [hpc]) (by simp [hpc])
        (fun fd hfd => ?_) (by simp) (by simp)⟩
      simp only [Server.Ahead, hpc] at hfd ⊢
      omega
  | lockList =>
      obtain ⟨⟨hpc, -⟩, rfl⟩ := Effect.guarded_eq_ok.mp hstep
      obtain ⟨⟨hmem, -⟩, hne⟩ := h.current (.inl hpc)
      have hadvance : Keeps listenSd ledger { s with pc := .pushing } := by
        refine h.advance (by simp [hpc]) (by simp [hpc]) (fun fd hfd => ?_)
          (fun _ => ⟨hmem, hne, by simp [Server.Ahead]⟩) (by simp)
        simpa only [Server.Ahead, hpc] using hfd
      exact ⟨ledger, { hadvance with }⟩
  | push =>
      obtain ⟨hpc, rfl⟩ := Effect.guarded_eq_ok.mp hstep
      exact ⟨_, keeps_push h hpc⟩
  | clear =>
      simp only [Server.step] at hstep
      split at hstep
      · obtain ⟨hpc, rfl⟩ := Effect.guarded_eq_ok.mp hstep
        exact ⟨ledger, keeps_clear h hpc _⟩
      · contradiction
  | notify woken =>
      have hadvance : s.pc = .notifying →
          Keeps listenSd ledger { s with pc := .scanning, i := s.i + 1 } := by
        intro hpc
        refine h.advance (by simp [hpc]) (by simp [hpc]) (fun fd hfd => ?_)
          (by simp) (by simp)
        simp only [Server.Ahead, hpc] at hfd ⊢
        omega
      cases woken with
      | none =>
          obtain ⟨⟨hpc, -⟩, rfl⟩ := Effect.guarded_eq_ok.mp hstep
          exact ⟨ledger, hadvance hpc⟩
      | some w =>
          obtain ⟨⟨hpc, hw⟩, rfl⟩ := Effect.guarded_eq_ok.mp hstep
          exact ⟨ledger, (hadvance hpc).goto (by simp [hw, WorkerPc.sockFd?])⟩
  | cleanUp =>
      obtain ⟨hpc, rfl⟩ := Effect.guarded_eq_ok.mp hstep
      exact keeps_cleanUp h hpc
  | lock w =>
      obtain ⟨⟨hw, -⟩, rfl⟩ := Effect.guarded_eq_ok.mp hstep
      have hgoto : Keeps listenSd ledger (s.goto w .checking) :=
        h.goto (by simp [hw, WorkerPc.sockFd?])
      exact ⟨ledger, { hgoto with }⟩
  | check w =>
      obtain ⟨hw, rfl⟩ := Effect.guarded_eq_ok.mp hstep
      refine ⟨ledger, h.goto ?_⟩
      split <;> simp [hw, WorkerPc.sockFd?]
  | sleep w =>
      obtain ⟨hw, rfl⟩ := Effect.guarded_eq_ok.mp hstep
      have hgoto : Keeps listenSd ledger (s.goto w .asleep) :=
        h.goto (by simp [hw, WorkerPc.sockFd?])
      exact ⟨ledger, { hgoto with }⟩
  | lockListBy w =>
      obtain ⟨⟨hw, -⟩, rfl⟩ := Effect.guarded_eq_ok.mp hstep
      have hgoto : Keeps listenSd ledger (s.goto w .popping) :=
        h.goto (by simp [hw, WorkerPc.sockFd?])
      exact ⟨ledger, { hgoto with }⟩
  | pop w chunks last =>
      obtain ⟨⟨hw, -⟩, rfl⟩ := Effect.guarded_eq_ok.mp hstep
      exact keeps_pop h hw _
  | unlock w sockFd =>
      obtain ⟨hw, rfl⟩ := Effect.guarded_eq_ok.mp hstep
      have hgoto : Keeps listenSd ledger (s.goto w (.counting sockFd)) :=
        h.goto (by simp [hw, WorkerPc.sockFd?])
      exact ⟨ledger, { hgoto with }⟩
  | count w sockFd =>
      obtain ⟨hw, rfl⟩ := Effect.guarded_eq_ok.mp hstep
      have hgoto : Keeps listenSd ledger (s.goto w (.handling sockFd)) :=
        h.goto (by simp [hw, WorkerPc.sockFd?])
      exact ⟨ledger, { hgoto with }⟩
  | handle w sockFd clock db =>
      simp only [Server.step] at hstep
      split at hstep
      · rename_i s'' hhandle
        obtain ⟨hw, rfl⟩ := Effect.guarded_eq_ok.mp hstep
        exact keeps_handle h hw (hreads w rfl) hhandle
      · contradiction
  | finish w =>
      obtain ⟨hw, rfl⟩ := Effect.guarded_eq_ok.mp hstep
      have hgoto : Keeps listenSd ledger (s.goto w .locking) :=
        h.goto (by simp [hw, WorkerPc.sockFd?])
      exact ⟨ledger, { hgoto with }⟩

end Ledger

/-! ## Every run -/

/-- The slip of the loop that reads from a connection: when there is nothing more
to read, the descriptor is neither closed nor given back to `select`. -/
theorem connections_in_service (env : Env) (n listenSd : Nat) {s : Server n}
    (h : Reached (Server.step env listenSd) ReadsOn (Server.init n listenSd) s) :
    s.InService := by
  have hkeeps : ∃ ledger, Keeps listenSd ledger s := by
    refine h.invariant (P := fun s => ∃ ledger, Keeps listenSd ledger s)
      ⟨fun _ => none, keeps_init⟩ ?_
    rintro s a u s' ⟨ledger, hledger⟩ hreads hstep
    exact keeps_step hledger hreads hstep
  obtain ⟨ledger, hledger⟩ := hkeeps
  exact hledger.inService

def queueClient : List (Action 1) :=
  [.copy, .select {3}, .scan, .scan, .scan, .scan, .accept 4, .acceptFails true,
    .scan, .copy, .select {4}, .scan, .scan, .scan, .scan, .scan, .lockList,
    .push, .clear]

def oneClient (chunks : List Bytes) (last : NoData) : List (Action 1) :=
  queueClient ++ [.notify none, .lock 0, .check 0, .lockListBy 0,
    .pop 0 chunks last, .unlock 0 4, .count 0 4]

theorem connections_in_service_oneClient :
    ∃ s : Server 1,
      Reached (Server.step Env.x86 3) ReadsOn (Server.init 1 3) s ∧
      (decide (4 ∈ s.opened), s.worker 0) = (true, .handling 4) ∧
      s.InService := by
  obtain ⟨s, hreached, hobserve⟩ := exists_reached_of_replay
    (Server.step Env.x86 3) ReadsOn (Server.init 1 3)
    (oneClient [ascii "ge"] .eof ++
      [.handle 0 4 (fun _ => .const 1000) State.init])
    (fun s => (decide (4 ∈ s.opened), s.worker 0)) (true, .handling 4)
    (by decide +kernel)
  exact ⟨s, hreached, hobserve, connections_in_service Env.x86 1 3 hreached⟩

/-- The client has sent nothing more, and its connection is left open outside
`master_set` and outside the list, with no thread that handles it. -/
theorem connection_lost_on_wouldBlock :
    ∃ s : Server 1,
      Reached (Server.step Env.x86 3) (fun _ _ => True) (Server.init 1 3) s ∧
      ¬ s.InService := by
  obtain ⟨s, hreached, hobserve⟩ := exists_reached_of_replay
    (Server.step Env.x86 3) (fun _ _ => True) (Server.init 1 3)
    (oneClient [] .wouldBlock ++
      [.handle 0 4 (fun _ => .const 1000) State.init])
    (fun s => (decide (4 ∈ s.opened), decide (4 ∈ s.masterSet),
      s.sockDescServiceList, s.worker 0)) (true, false, [], .finished)
    (by decide +kernel)
  simp only [Prod.mk.injEq, decide_eq_true_eq, decide_eq_false_iff_not]
    at hobserve
  obtain ⟨hopened, hmaster, hlist, hworker⟩ := hobserve
  refine ⟨s, hreached, fun h => ?_⟩
  rcases h.served 4 hopened with hwatched | hqueued | ⟨w, hw⟩
  · exact hmaster hwatched
  · simp [hlist] at hqueued
  · obtain rfl : w = 0 := Subsingleton.elim _ _
    simp [Server.Handles, hworker, WorkerPc.sockFd?] at hw

end Memstashed.Ssock
