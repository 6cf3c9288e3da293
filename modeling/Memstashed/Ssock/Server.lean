import Memstashed.Ssock.Connection
import Mathlib.Data.Finset.Card
import Mathlib.Data.Fintype.Basic

/-!
# The select loop and the worker pool

`socketMain` and any number of threads in `socketThread`, one access to the
shared variables at a time.  The two mutexes of the queue are flags, and a
thread that waits for `threadNotify` sleeps until it is notified.  `masterMutex`
is taken by `socketMain` alone, so its sections are single steps.
-/

namespace Memstashed.Ssock

open Memstashed.Foundation
open Memstashed.Dblru
open Memstashed.Scmd

inductive MainPc where
  | copying
  | selecting
  | scanning
  | accepting
  | queueing
  | pushing
  | clearing
  | notifying
  | cleaning
  | ended
  deriving DecidableEq, Repr

inductive WorkerPc where
  | locking
  | checking
  | checked
  | asleep
  | found
  | popping
  | popped (sockFd : Nat)
  | counting (sockFd : Nat)
  | handling (sockFd : Nat)
  | finished
  deriving DecidableEq, Repr

/-- The shared variables, the variables of `socketMain` (`i` is that of the
`for` loop), the threads with the variables of the connections they handle, and
the connections that have been accepted and not yet closed. -/
structure Server (n : Nat) where
  masterSet : Finset Nat
  maxSd : Nat
  sockDescServiceList : List Nat
  numberActiveThreads : Nat
  sockDescMutex : Bool
  threadNotifyMutex : Bool
  pc : MainPc
  workingSet : Finset Nat
  i : Nat
  descReady : Nat
  endServer : Bool
  worker : Fin n → WorkerPc
  conn : Fin n → Conn
  opened : Finset Nat

def Server.init (n listenSd : Nat) : Server n where
  masterSet := {listenSd}
  maxSd := listenSd
  sockDescServiceList := []
  numberActiveThreads := 0
  sockDescMutex := false
  threadNotifyMutex := false
  pc := .copying
  workingSet := ∅
  i := 0
  descReady := 0
  endServer := false
  worker := fun _ => .locking
  conn := fun _ => { chunks := [], last := .eof, db := State.init }
  opened := ∅

def lowerMaxSd (masterSet : Finset Nat) : Nat → Option Nat
  | 0 => if 0 ∈ masterSet then some 0 else none
  | sd + 1 => if sd + 1 ∈ masterSet then some (sd + 1) else lowerMaxSd masterSet sd

/--
The steps, with what they learn from outside: the descriptors that `select`
finds ready, what `accept` returns, who is woken, what `recv` is going to deliver
on a connection, and the store that a command finds.
-/
inductive Action (n : Nat) where
  | copy
  | select (ready : Finset Nat)
  | selectFails
  | scan
  | accept (newSd : Nat)
  | acceptFails (wouldBlock : Bool)
  | lockList
  | push
  | clear
  | notify (woken : Option (Fin n))
  | cleanUp
  | lock (w : Fin n)
  | check (w : Fin n)
  | sleep (w : Fin n)
  | lockListBy (w : Fin n)
  | pop (w : Fin n) (chunks : List Bytes) (last : NoData)
  | unlock (w : Fin n) (sockFd : Nat)
  | count (w : Fin n) (sockFd : Nat)
  | handle (w : Fin n) (sockFd : Nat) (clock : Nat → Times) (db : State)
  | finish (w : Fin n)

namespace Server

variable {n : Nat}

def goto (s : Server n) (w : Fin n) (pc : WorkerPc) : Server n :=
  { s with worker := Function.update s.worker w pc }

def scanStep (listenSd : Nat) (s : Server n) : Server n :=
  if s.i ≤ s.maxSd ∧ 0 < s.descReady then
    if s.i ∈ s.workingSet then
      { s with
        descReady := s.descReady - 1
        pc := if s.i = listenSd then .accepting else .queueing }
    else { s with i := s.i + 1 }
  else { s with pc := if s.endServer then .cleaning else .copying }

/-- A new connection, closed at once when all threads are busy.  The loop goes on
until `accept` fails. -/
def acceptStep (newSd : Nat) (s : Server n) : Server n :=
  if n ≤ s.numberActiveThreads then s
  else
    { s with
      masterSet := insert newSd s.masterSet
      maxSd := max s.maxSd newSd
      opened := insert newSd s.opened }

def clearStep (maxSd : Nat) (s : Server n) : Server n :=
  { s with
    masterSet := s.masterSet.erase s.i
    maxSd := maxSd
    pc := .notifying }

def clearedMaxSd (s : Server n) : Option Nat :=
  if s.i = s.maxSd then lowerMaxSd (s.masterSet.erase s.i) s.maxSd
  else some s.maxSd

/-- The head of the list goes to the thread.  The branch for an empty list
leaves `sockDescMutex` locked. -/
def popStep (w : Fin n) (c : Conn) (s : Server n) : Server n :=
  match s.sockDescServiceList with
  | [] => s.goto w .checking
  | sockFd :: rest =>
      { s.goto w (.popped sockFd) with
        sockDescServiceList := rest
        sockDescMutex := false
        conn := Function.update s.conn w c }

/-- A round of `sockHandleIncomingConn`, or its end: the descriptor is closed, or
left as it is when there was nothing more to read.  No step follows an exception
that ends the process or a thread that waits for itself. -/
def handleStep (w : Fin n) (sockFd : Nat) (s : Server n) :
    Except Ending Conn → Option (Server n)
  | .ok c => some { s with conn := Function.update s.conn w c }
  | .error ⟨_, .waiting _⟩ => some (s.goto w .finished)
  | .error ⟨_, .closed _⟩ =>
      some { s.goto w .finished with opened := s.opened.erase sockFd }
  | .error ⟨_, .terminated _⟩ => none

open Effect in
def step (env : Env) (listenSd : Nat) (a : Action n) :
    Effect (Server n) Unit Unit := fun s =>
  match a with
  | .copy =>
      guarded (s.pc = .copying)
        { s with pc := .selecting, workingSet := s.masterSet }
  | .select ready =>
      guarded (s.pc = .selecting ∧ ready ⊆ s.workingSet)
        { s with
          pc := .scanning
          workingSet := ready
          i := 0
          descReady := ready.card }
  | .selectFails => guarded (s.pc = .selecting) { s with pc := .cleaning }
  | .scan => guarded (s.pc = .scanning) (scanStep listenSd s)
  | .accept newSd =>
      guarded (s.pc = .accepting ∧ newSd ∉ s.opened ∧ newSd ≠ listenSd)
        (acceptStep newSd s)
  | .acceptFails wouldBlock =>
      guarded (s.pc = .accepting)
        { s with
          pc := .scanning
          i := s.i + 1
          endServer := s.endServer || !wouldBlock }
  | .lockList =>
      guarded (s.pc = .queueing ∧ s.sockDescMutex = false)
        { s with pc := .pushing, sockDescMutex := true }
  | .push =>
      guarded (s.pc = .pushing)
        { s with
          pc := .clearing
          sockDescServiceList := s.sockDescServiceList ++ [s.i]
          sockDescMutex := false }
  | .clear =>
      match s.clearedMaxSd with
      | some maxSd => guarded (s.pc = .clearing) (clearStep maxSd s)
      | none => .error ()
  | .notify (some w) =>
      guarded (s.pc = .notifying ∧ s.worker w = .asleep)
        { s.goto w .locking with pc := .scanning, i := s.i + 1 }
  | .notify none =>
      guarded (s.pc = .notifying ∧ ∀ w, s.worker w ≠ .asleep)
        { s with pc := .scanning, i := s.i + 1 }
  | .cleanUp =>
      guarded (s.pc = .cleaning)
        { s with
          pc := .ended
          opened := s.opened.filter fun fd =>
            ¬ (fd ∈ s.masterSet ∧ fd ≤ s.maxSd) }
  | .lock w =>
      guarded (s.worker w = .locking ∧ s.threadNotifyMutex = false)
        { s.goto w .checking with threadNotifyMutex := true }
  | .check w =>
      guarded (s.worker w = .checking)
        (s.goto w (if s.sockDescServiceList = [] then .checked else .found))
  | .sleep w =>
      guarded (s.worker w = .checked)
        { s.goto w .asleep with threadNotifyMutex := false }
  | .lockListBy w =>
      guarded (s.worker w = .found ∧ s.sockDescMutex = false)
        { s.goto w .popping with sockDescMutex := true }
  | .pop w chunks last =>
      guarded (s.worker w = .popping ∧
          ∀ chunk ∈ chunks, chunk ≠ [] ∧ chunk.length ≤ 80)
        (popStep w { chunks := chunks, last := last, db := State.init } s)
  | .unlock w sockFd =>
      guarded (s.worker w = .popped sockFd)
        { s.goto w (.counting sockFd) with threadNotifyMutex := false }
  | .count w sockFd =>
      guarded (s.worker w = .counting sockFd)
        { s.goto w (.handling sockFd) with
          numberActiveThreads := s.numberActiveThreads + 1 }
  | .handle w sockFd clock db =>
      match handleStep w sockFd s (round env clock { s.conn w with db := db }) with
      | some s' => guarded (s.worker w = .handling sockFd) s'
      | none => .error ()
  | .finish w =>
      guarded (s.worker w = .finished)
        { s.goto w .locking with
          numberActiveThreads := s.numberActiveThreads - 1 }

end Server

end Memstashed.Ssock
