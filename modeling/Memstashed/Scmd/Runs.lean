import Memstashed.Dblru.Flush
import Memstashed.Scmd.Events

/-!
# Sequential runs of commands

A served request is the list of its calls, carried out from one state with free
mutexes to another.  What the calls keep, the command keeps, and what the
commands keep, the run keeps.
-/

namespace Memstashed.Scmd

open Memstashed.Foundation
open Memstashed.Dblru

structure Request where
  times : Times
  input : Bytes

def Serves (env : Env) (q : Request) (es : List Event) (s s' : Store) : Prop :=
  ∃ resp, Prog.Path (cmdProcessCommand q.times q.input) es resp ∧
    Prog.Performs (Op.exec env) es ⟨s, Locks.free⟩ ⟨s', Locks.free⟩

/-- The requests served one after another from `s` on, each of which meets `ok`
with its calls in the state it finds. -/
inductive Run (env : Env) (ok : Store → Request → List Event → Prop)
    (s : Store) : Store → Prop
  | start : Run env ok s s
  | next {s' s'' : Store} {q : Request} {es : List Event} :
      Run env ok s s' → ok s' q es → Serves env q es s' s'' →
      Run env ok s s''

/-! ## Runs with a condition on the calls -/

def Request.serve (env : Env) (q : Request) : Db Response :=
  (cmdProcessCommand q.times q.input).run env

def Request.Along (env : Env)
    (Q : Store → (op : Op) → Except Fault (op.Answer × State) → Prop)
    (t : State) (q : Request) : Prop :=
  Prog.Along (Op.exec env) (fun op t r => Q t.store op r)
    (cmdProcessCommand q.times q.input) t

instance (env : Env)
    (Q : Store → (op : Op) → Except Fault (op.Answer × State) → Prop)
    [∀ s op r, Decidable (Q s op r)] (t : State) (q : Request) :
    Decidable (q.Along env Q t) :=
  inferInstanceAs (Decidable (Prog.Along _ _ _ _))

section Served

variable {env : Env}
  {Q : Store → (op : Op) → Except Fault (op.Answer × State) → Prop}
  {P : Store → Prop}

private theorem keeps_free
    (hstep : ∀ s op r s', P s → Q s op (op.exec env ⟨s, Locks.free⟩) →
      StoreStep env s op r s' → P s') (op : Op) (t : State) (a : op.Answer)
    (t' : State) (ht : t.locks = Locks.free ∧ P t.store)
    (hQ : Q t.store op (op.exec env t)) (hexec : op.exec env t = .ok (a, t')) :
    t'.locks = Locks.free ∧ P t'.store := by
  obtain ⟨s, locks⟩ := t
  obtain ⟨hlocks, hP⟩ := ht
  simp only at hlocks hP
  subst hlocks
  obtain ⟨hfree, hstore⟩ := Op.exec_cases hexec
  exact ⟨hfree, hstep s op _ t'.store hP hQ hstore⟩

theorem served_invariant (hinit : P Store.init)
    (hstep : ∀ s op r s', P s → Q s op (op.exec env ⟨s, Locks.free⟩) →
      StoreStep env s op r s' → P s')
    {t : State}
    (h : Reached (Request.serve env) (fun t q => q.Along env Q t)
      State.init t) : t.locks = Locks.free ∧ P t.store := by
  refine Reached.invariant (P := fun t => t.locks = Locks.free ∧ P t.store)
    ⟨rfl, hinit⟩ ?_ h
  intro t q resp t' ht hok hrun
  exact hok.run_invariant _ (keeps_free hstep) ht hrun

theorem served_along
    {Q' : Store → (op : Op) → Except Fault (op.Answer × State) → Prop}
    (hinit : P Store.init)
    (hstep : ∀ s op r s', P s → Q s op (op.exec env ⟨s, Locks.free⟩) →
      StoreStep env s op r s' → P s')
    (hcall : ∀ s op, P s → Q s op (op.exec env ⟨s, Locks.free⟩) →
      Q' s op (op.exec env ⟨s, Locks.free⟩))
    {t : State}
    (h : Reached (Request.serve env) (fun t q => q.Along env Q t)
      State.init t) {q : Request} (hq : q.Along env Q t) :
    q.Along env Q' t := by
  refine hq.mono _ (keeps_free hstep) ?_ (served_invariant hinit hstep h)
  rintro op ⟨s, locks⟩ ⟨hlocks, hP⟩ hQ
  simp only at hlocks hP
  subst hlocks
  exact hcall s op hP hQ

end Served

/-! ## What calls keep -/

section Calls

variable {env : Env} {s : Store} {t : State}

theorem performs_keeps {I : Nat → Store → Prop} {Q : Event → Prop}
    (hkeep : ∀ n s op (a : op.Answer) s', I (n + 1) s → Q ⟨op, a⟩ →
      StoreStep env s op (op.status a) s' → I n s')
    {es : List Event}
    (h : Prog.Performs (Op.exec env) es ⟨s, Locks.free⟩ t)
    (hQ : ∀ e ∈ es, Q e) (hI : I es.length s) :
    t.locks = Locks.free ∧ I 0 t.store := by
  induction es generalizing s with
  | nil =>
      cases h
      exact ⟨rfl, hI⟩
  | cons e es ih =>
      cases h with
      | @cons op a _ _ s' _ hexec hrest =>
          obtain ⟨s', locks⟩ := s'
          obtain rfl : locks = Locks.free := (Op.exec_cases hexec).1
          refine ih hrest (fun e he => hQ e (List.mem_cons_of_mem _ he)) ?_
          exact hkeep es.length s op a s' hI
            (hQ ⟨op, a⟩ List.mem_cons_self) (Op.exec_cases hexec).2

end Calls

/-! ## The calls of a handler -/

section Handlers

variable {P : Op → Prop}

theorem calls_parsed_of {α : Type} {request : Parse α}
    {act : α → Command Response}
    (h : ∀ fields, request = .ok fields → Prog.Calls P (act fields)) :
    Prog.Calls P (parsed request act) := by
  cases request with
  | ok fields => exact h fields rfl
  | error stop =>
      cases stop with
      | reply output => exact .done _
      | exception e => exact .fail _

theorem calls_parsed {α : Type} {request : Parse α}
    {act : α → Command Response} (h : ∀ fields, Prog.Calls P (act fields)) :
    Prog.Calls P (parsed request act) :=
  calls_parsed_of fun fields _ => h fields

theorem calls_storage_of {request : Parse (Int × StorageStruct)}
    {act : StorageStruct → Command Response}
    (h : ∀ ret store, request = .ok (ret, store) → Prog.Calls P (act store)) :
    Prog.Calls P (storage request act) := by
  apply calls_parsed_of
  intro ⟨ret, store⟩ hrequest
  simp only
  split
  · exact .done _
  · exact h ret store hrequest

theorem calls_storage {request : Parse (Int × StorageStruct)}
    {act : StorageStruct → Command Response}
    (h : ∀ store, Prog.Calls P (act store)) :
    Prog.Calls P (storage request act) :=
  calls_storage_of fun _ store _ => h store

theorem calls_ite {c : Prop} [Decidable c] {p q : Command Response}
    (hp : Prog.Calls P p) (hq : Prog.Calls P q) :
    Prog.Calls P (if c then p else q) := by
  split
  · exact hp
  · exact hq

variable (times : Times)

theorem calls_insertAndAnswer {key flags value : Bytes} {expiry : Nat}
    {noreply : Bool} {output : Bytes}
    (h : P (.insert times.write key flags [] value expiry)) :
    Prog.Calls P
      (insertAndAnswer times key flags value expiry noreply output) :=
  .call h fun _ => calls_ite (.done _) (.done _)

theorem calls_getLoop (withCas : Bool) (keys : List Bytes) :
    ∀ (clock : Nat → Nat) (output : Bytes),
      (∀ i key, P (.get (clock i) key)) →
      Prog.Calls P (getLoop withCas clock keys output) := by
  induction keys with
  | nil =>
      intro clock output h
      exact .done output
  | cons key keys ih =>
      intro clock output h
      refine .call (h 0 key) fun found => ?_
      cases found with
      | none => exact ih _ output fun i => h (i + 1)
      | some element => exact ih _ _ fun i => h (i + 1)

theorem calls_getWith (withCas : Bool) (input : Bytes)
    (h : ∀ i key, P (.get (times.get i) key)) :
    Prog.Calls P (cmdProcessGetWith withCas times input) := by
  apply calls_parsed
  intro keys
  refine Prog.Calls.bind ?_ fun _ => .done _
  exact calls_getLoop withCas keys _ _ h

theorem calls_uncaughtStoul {text : Bytes} {next : Nat → Command Response}
    (h : ∀ n, Prog.Calls P (next n)) :
    Prog.Calls P (uncaughtStoul text >>= next) := by
  refine Prog.Calls.bind ?_ h
  unfold uncaughtStoul
  split
  · exact .done _
  · exact .fail _

end Handlers

inductive HandlerCall (times : Times) : Op → Prop
  | get (now : Nat) (key : KeyType) : HandlerCall times (.get now key)
  | delete (key : KeyType) : HandlerCall times (.delete times.write.now key 0)
  | insert (key flags casUniq value : Bytes) (expiry : Nat) :
      HandlerCall times (.insert times.write key flags casUniq value expiry)
  | add (key flags casUniq value : Bytes) (expiry : Nat) :
      HandlerCall times (.add times.write key flags casUniq value expiry)

theorem HandlerCall.flushes {times : Times} {op : Op}
    (h : HandlerCall times op) : op.flushes = false := by
  cases h <;> rfl

theorem HandlerCall.clock {times : Times} {op : Op} {w : Write}
    (h : HandlerCall times op) (hw : op.write? = some w) :
    w.clock = times.write := by
  cases h with
  | insert key flags casUniq value expiry =>
      cases hw
      rfl
  | add key flags casUniq value expiry =>
      cases hw
      rfl
  | get now key => contradiction
  | delete key => contradiction

/-- What holds of every call the handlers can make with the readings of the
clock they are given. -/
structure Allows (times : Times) (P : Op → Prop) : Prop where
  get : ∀ i key, P (.get (times.get i) key)
  delete : ∀ key, P (.delete times.write.now key 0)
  insert : ∀ key flags casUniq value expiry,
    P (.insert times.write key flags casUniq value expiry)
  add : ∀ key flags casUniq value expiry,
    P (.add times.write key flags casUniq value expiry)

section Commands

variable {times : Times} {P : Op → Prop} (hP : Allows times P) (input : Bytes)

include hP

theorem calls_extend (join : Bytes → Bytes → Bytes) :
    Prog.Calls P (cmdProcessExtend join times input) := by
  apply calls_storage
  intro store
  refine .call (hP.get 0 _) fun found => ?_
  cases found with
  | none => exact .done _
  | some element => exact calls_insertAndAnswer times (hP.insert _ _ _ _ _)

theorem calls_counter (combine : Nat → Nat → Nat) :
    Prog.Calls P (cmdProcessCounter combine times input) := by
  apply calls_parsed
  intro ⟨key, value, noreply⟩
  refine .call (hP.get 0 _) fun found => ?_
  cases found with
  | none => exact .done _
  | some element =>
      apply calls_uncaughtStoul
      intro inputValue
      apply calls_uncaughtStoul
      intro oldValue
      exact calls_ite (.done _)
        (calls_insertAndAnswer times (hP.insert _ _ _ _ _))

theorem calls_process_of {w : Word} (hw : w ≠ .flushAll) :
    Prog.Calls P (w.process times input) := by
  cases w with
  | set =>
      rw [Word.process, cmdProcessSet]
      refine calls_storage fun store => ?_
      exact calls_insertAndAnswer times (hP.insert _ _ _ _ _)
  | add =>
      rw [Word.process, cmdProcessAdd]
      refine calls_storage fun store => ?_
      exact .call (hP.add _ _ _ _ _) fun r =>
        calls_ite (.done _) (calls_ite (.done _) (.done _))
  | cas =>
      rw [Word.process, cmdProcessCas]
      refine calls_storage fun store => ?_
      exact .call (hP.insert _ _ _ _ _) fun r => calls_ite (.done _)
        (calls_ite (.done _) (calls_ite (.done _) (.done _)))
  | replace =>
      rw [Word.process, cmdProcessReplace]
      refine calls_storage fun store => ?_
      refine .call (hP.get 0 _) fun found => ?_
      cases found with
      | none => exact .done _
      | some element =>
          exact calls_insertAndAnswer times (hP.insert _ _ _ _ _)
  | append => exact calls_extend hP input fun value data => value ++ data
  | prepend => exact calls_extend hP input fun value data => data ++ value
  | get => exact calls_getWith times false input hP.get
  | gets => exact calls_getWith times true input hP.get
  | delete =>
      refine calls_parsed fun fields => ?_
      exact .call (hP.delete _) fun r => calls_ite (.done _) (.done _)
  | incr =>
      unfold Word.process cmdProcessIncr
      exact calls_counter hP input _
  | decr =>
      unfold Word.process cmdProcessDecr
      exact calls_counter hP input _
  | touch =>
      refine calls_parsed fun fields => ?_
      refine .call (hP.get 0 _) fun found => ?_
      cases found with
      | none => exact .done _
      | some element =>
          exact .call (hP.insert _ _ _ _ _) fun r =>
            calls_ite (.done _) (.done _)
  | verbosity => exact calls_parsed fun noreply => .done _
  | flushAll => contradiction
  | stats => exact .done _
  | version => exact .done _
  | quit => exact .done _

end Commands

theorem calls_process (times : Times) (input : Bytes) {w : Word}
    (hw : w ≠ .flushAll) :
    Prog.Calls (HandlerCall times) (w.process times input) :=
  calls_process_of ⟨fun _ _ => .get _ _, .delete, .insert, .add⟩ input hw

end Memstashed.Scmd
