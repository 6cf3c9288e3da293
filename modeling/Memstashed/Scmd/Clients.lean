import Memstashed.Dblru.Protocol
import Memstashed.Scmd.Flushing

/-!
# Commands of several clients, one section at a time

Each client sends one request, and `cmdProcessCommand` serves it while the other
requests are being served.  A call of `dblru.cpp` is the sequence of its
sections; what a client keeps between them decides what it does next.
-/

namespace Memstashed.Scmd

open Memstashed.Foundation
open Memstashed.Dblru

def opSections (env : Env) (fuel : Nat) : (op : Op) → Sections op.Answer
  | .insert clock key flags casUniq value expiry =>
      Sections.dbInsertElement env fuel clock key flags casUniq value expiry
  | .add clock key flags casUniq value expiry =>
      Sections.dbAddElement env fuel clock key flags casUniq value expiry
  | .get now key => Sections.dbGetElement now key
  | .delete now key expiry => Sections.dbDeleteElement now key expiry
  | .setFlushAll now expiry => Sections.dbSetFlushAll now expiry
  | .handleFlushAll now => Sections.dbHandleFlushAll now

theorem run_opSections (env : Env) (op : Op) (t : State) :
    (opSections env (evictionFuel t.store) op).run (Section.exec env) t =
      Op.exec env op t := by
  cases op with
  | insert clock key flags casUniq value expiry =>
      exact Sections.run_dbInsertElement clock key flags casUniq value expiry t
  | add clock key flags casUniq value expiry =>
      exact Sections.run_dbAddElement clock key flags casUniq value expiry t
  | get now key => exact congrFun (Sections.run_dbGetElement now key) t
  | delete now key expiry =>
      exact congrFun (Sections.run_dbDeleteElement now key expiry) t
  | setFlushAll now expiry =>
      exact congrFun (Sections.run_dbSetFlushAll now expiry) t
  | handleFlushAll now =>
      exact congrFun (Sections.run_dbHandleFlushAll now) t

def Request.sections (env : Env) (fuel : Nat) (q : Request) :
    Sections Response :=
  (cmdProcessCommand q.times q.input).refine (opSections env fuel)

def Request.flushTime? (q : Request) : Option Nat :=
  match q.word, flushAllRequest q.input with
  | some .flushAll, .ok (expTime, _) => some (q.times.write.now + expTime)
  | _, _ => none

/-! ## How far a command has come with the flush -/

/-- A command looks whether a flush is due and carries it out; then it is
`handled`, and a `flush_all` raises the flag and sets the time. -/
inductive FlushPhase where
  | unlooked
  | seen
  | due
  | bumped (timestamp : TimestampType)
  | published (timestamp : TimestampType)
  | handled
  | raised
  | accepted
  deriving DecidableEq, Repr

def FlushPhase.bumped? : FlushPhase → Option TimestampType
  | .bumped timestamp => some timestamp
  | _ => none

def FlushPhase.published? : FlushPhase → Option TimestampType
  | .published timestamp => some timestamp
  | _ => none

/-- `drawn` is the last timestamp the client has drawn for an operation. -/
structure Stage where
  request : Request
  phase : FlushPhase
  drawn : Option TimestampType

namespace Stage

def start (q : Request) : Stage := ⟨q, .unlooked, none⟩

def Allows (g : Stage) : Section → Prop
  | .isFlushAllSet => g.phase = .unlooked
  | .flushAllTime => g.phase = .seen
  | .bumpTimestamp => g.phase = .due
  | .setFlushAllTimestamp timestamp => g.phase = .bumped timestamp
  | .setIsFlushAllSet false => ∃ timestamp, g.phase = .published timestamp
  | .setIsFlushAllSet true =>
      g.phase = .handled ∧ g.request.flushTime?.isSome = true
  | .setFlushAllTime time =>
      g.phase = .raised ∧ ∃ t, g.request.flushTime? = some t ∧ time = toWord t
  | .getSection _ _ timestamp =>
      g.phase = .handled ∧ g.drawn = some timestamp
  | .insertSection _ _ _ _ _ timestamp =>
      g.phase = .handled ∧ g.drawn = some timestamp
  | .addSection _ _ _ _ timestamp =>
      g.phase = .handled ∧ g.drawn = some timestamp
  | _ => g.phase = .handled

def learn (g : Stage) : (i : Section) → i.Answer → Stage
  | .isFlushAllSet, set =>
      { g with phase := if set = true then .seen else .handled }
  | .flushAllTime, time =>
      { g with phase := if time ≤ g.request.times.flush then .due else .handled }
  | .bumpTimestamp, timestamp => { g with phase := .bumped timestamp }
  | .setFlushAllTimestamp timestamp, _ =>
      { g with phase := .published timestamp }
  | .setIsFlushAllSet value, _ =>
      { g with phase := if value = true then .raised else .handled }
  | .setFlushAllTime _, _ => { g with phase := .accepted }
  | .nextTimestamp, timestamp => { g with drawn := some timestamp }
  | _, _ => g

@[simp] theorem learn_request (g : Stage) (i : Section) (r : i.Answer) :
    (g.learn i r).request = g.request := by
  cases i <;> rfl

def Home (q : Request) (g : Stage) : Prop := g.phase = .handled ∧ g.request = q

end Stage

abbrev Stays {α : Type} (q : Request) (g : Stage) (p : Sections α) : Prop :=
  Prog.Obeys Stage.Allows Stage.learn
    (fun g' (_ : Option α) => Stage.Home q g') g p

section Stays

variable {α : Type} {q : Request} {g : Stage}

theorem stays_step {i : Section} {next : i.Answer → Sections α}
    (hallows : g.Allows i) (hnext : ∀ r, Stays q (g.learn i r) (next r)) :
    Stays q g (Sections.step i >>= next) :=
  .call hallows hnext

theorem stays_return {a : α} (h : Stage.Home q g) : Stays q g (Prog.done a) :=
  .done h

theorem stays_loop {p : Sections Bool} {next : Bool → Sections α}
    (hloop : Prog.Calls LoopStep p) (h : Stage.Home q g)
    (hnext : ∀ room, Stays q g (next room)) : Stays q g (p >>= next) := by
  have hobeys : Prog.Obeys Stage.Allows Stage.learn
      (fun g' (_ : Option Bool) => g' = g) g p := by
    refine Prog.Calls.obeys hloop (fun i hi => ?_) fun i hi r => ?_
    · cases i with
      | storedSize => exact h.1
      | setIsEmpty b => exact h.1
      | removeLRUElement now b => exact h.1
      | _ => exact absurd hi not_false
    · cases i with
      | storedSize => rfl
      | setIsEmpty b => rfl
      | removeLRUElement now b => rfl
      | _ => exact absurd hi not_false
  refine hobeys.bind (fun g' hsame => hsame ▸ h) fun g' room hsame => ?_
  rw [hsame]
  exact hnext room

theorem stays_insert (env : Env) (fuel : Nat) (clock : Clock)
    (key flags casUniq value : Bytes) (expiry : Nat) (h : Stage.Home q g) :
    Stays q g (Sections.dbInsertElement env fuel clock key flags casUniq value
      expiry) := by
  refine stays_step h.1 fun timestamp => ?_
  have hdrawn : Stage.Home q { g with drawn := some timestamp } := h
  refine stays_step hdrawn.1 fun token => ?_
  refine stays_loop (calls_insertMakeRoom ..) hdrawn fun room => ?_
  cases room with
  | false => exact stays_return hdrawn
  | true =>
      refine stays_step ⟨hdrawn.1, rfl⟩ fun outcome => ?_
      cases outcome with
      | exist => exact stays_return hdrawn
      | notExist => exact stays_return hdrawn
      | overwritten old sizeDiff =>
          exact stays_step hdrawn.1 fun _ => stays_step hdrawn.1 fun _ =>
            stays_step hdrawn.1 fun _ => stays_return hdrawn
      | created =>
          exact stays_step hdrawn.1 fun _ => stays_step hdrawn.1 fun _ =>
            stays_return hdrawn

theorem stays_add (env : Env) (fuel : Nat) (clock : Clock)
    (key flags casUniq value : Bytes) (expiry : Nat) (h : Stage.Home q g) :
    Stays q g (Sections.dbAddElement env fuel clock key flags casUniq value
      expiry) := by
  refine stays_step h.1 fun timestamp => ?_
  have hdrawn : Stage.Home q { g with drawn := some timestamp } := h
  refine stays_loop (calls_addMakeRoom ..) hdrawn fun room => ?_
  cases room with
  | false => exact stays_return hdrawn
  | true =>
      refine stays_step ⟨hdrawn.1, rfl⟩ fun outcome => ?_
      cases outcome with
      | exist => exact stays_return hdrawn
      | revived old => exact stays_step hdrawn.1 fun _ => stays_return hdrawn
      | created =>
          exact stays_step hdrawn.1 fun _ => stays_step hdrawn.1 fun _ =>
            stays_return hdrawn

theorem stays_get (now : Nat) (key : KeyType) (h : Stage.Home q g) :
    Stays q g (Sections.dbGetElement now key) := by
  refine stays_step h.1 fun timestamp => ?_
  have hdrawn : Stage.Home q { g with drawn := some timestamp } := h
  refine stays_step ⟨hdrawn.1, rfl⟩ fun found => ?_
  cases found with
  | none => exact stays_return hdrawn
  | some result => exact stays_step hdrawn.1 fun _ => stays_return hdrawn

theorem stays_handleFlushAll (q : Request) :
    Stays q (.start q) (Sections.dbHandleFlushAll q.times.flush) := by
  refine stays_step rfl fun set => ?_
  cases set with
  | false => exact stays_return ⟨rfl, rfl⟩
  | true =>
      refine stays_step rfl fun time => ?_
      by_cases hdue : time ≤ q.times.flush
      · have hphase : (Stage.learn ⟨q, .seen, none⟩ .flushAllTime time).phase =
            .due := if_pos hdue
        simp only [hdue, if_true]
        refine stays_step hphase fun timestamp => stays_step rfl fun _ =>
          stays_step ⟨timestamp, rfl⟩ fun _ => stays_return ⟨rfl, rfl⟩
      · have hphase : (Stage.learn ⟨q, .seen, none⟩ .flushAllTime time).phase =
            .handled := if_neg hdue
        simp only [hdue, if_false]
        exact stays_return ⟨hphase, rfl⟩

theorem stays_handlerCall (env : Env) (fuel : Nat) {op : Op}
    (hcall : HandlerCall q.times op) (h : Stage.Home q g) :
    Stays q g (opSections env fuel op) := by
  cases hcall with
  | get now key => exact stays_get now key h
  | delete key =>
      exact stays_step h.1 fun ret => stays_return h
  | insert key flags casUniq value expiry =>
      exact stays_insert env fuel _ key flags casUniq value expiry h
  | add key flags casUniq value expiry =>
      exact stays_add env fuel _ key flags casUniq value expiry h

end Stays

theorem obeys_sections (env : Env) (fuel : Nat) (q : Request) :
    Prog.Obeys Stage.Allows Stage.learn (fun _ _ => True) (.start q)
      (q.sections env fuel) := by
  refine (stays_handleFlushAll q).bind (fun _ _ => trivial) fun g _ h => ?_
  unfold dispatch
  split
  · rename_i w hword
    by_cases hw : w = .flushAll
    · subst hw
      change Prog.Obeys _ _ _ _ ((cmdProcessFlushAll q.times q.input).refine _)
      unfold cmdProcessFlushAll parsed
      split
      · exact .done trivial
      · exact .fail trivial
      · rename_i fields hparse
        obtain ⟨expTime, noreply⟩ := fields
        have htime : g.request.flushTime? =
            some (q.times.write.now + expTime) := by
          rw [h.2, Request.flushTime?, Request.word, hword, hparse]
        exact .call ⟨h.1, by rw [htime]; rfl⟩ fun _ =>
          .call ⟨rfl, _, htime, rfl⟩ fun _ => .done trivial
    · exact (Prog.Calls.refine_obeys (calls_process q.times q.input hw)
        (fun op hop g' hg' => stays_handlerCall env fuel hop hg') h).mono
          fun _ _ _ => trivial
  · exact .done trivial

end Memstashed.Scmd
