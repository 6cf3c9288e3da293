import Memstashed.Foundation.Loop
import Memstashed.Scmd.Commands

/-!
# The loop of `sockHandleIncomingConn`

One connection from the point of view of its worker.  What `recv` is going to
deliver is given in advance: a list of chunks, and what comes after them.
-/

namespace Memstashed.Ssock

open Memstashed.Foundation
open Memstashed.Dblru
open Memstashed.Scmd

def toInt (n : Int) : Int := n.bmod 4294967296

/-- A call of `recv` that delivers no data: nothing there yet (`EWOULDBLOCK`),
any other error, or the end of the stream. -/
inductive NoData where
  | wouldBlock
  | failed
  | eof
  deriving DecidableEq, Repr

/-- The variables of the loop, with the chunks still to come and what `recv`
says after them, the calls of `cmdProcessCommand` made so far, what has been
sent, and the store. -/
structure Conn where
  data : Bytes := []
  persistentData : Bytes := []
  persistFlag : Bool := false
  pos : Nat := 0
  readMore : Int := 0
  chunks : List Bytes
  last : NoData
  calls : Nat := 0
  sent : Bytes := []
  db : State

inductive Outcome where
  | waiting (db : State)
  | closed (db : State)
  | terminated (e : Fault)

structure Ending where
  sent : Bytes
  outcome : Outcome

def NoData.outcome (db : State) : NoData → Outcome
  | .wouldBlock => .waiting db
  | .failed => .closed db
  | .eof => .closed db

/-- What is left over from the last line comes before anything new. -/
def receive (c : Conn) : Except Ending Conn :=
  if c.persistentData ≠ [] then
    .ok { c with
      persistFlag := true
      data := c.data ++ c.persistentData
      persistentData := [] }
  else
    match c.chunks with
    | [] => .error ⟨c.sent, c.last.outcome c.db⟩
    | chunk :: chunks =>
        .ok { c with
          data := c.data ++ chunk
          readMore := toInt (c.readMore - chunk.length)
          chunks := chunks }

/-- Cut the data behind the next CRLF; without one, the position stays. -/
def cutLine (c : Conn) : Bool × Conn :=
  let oldPos := toWord (c.pos + 2)
  let pos := find c.data crlf oldPos
  if pos = npos then (false, { c with pos := wordSub oldPos 2 })
  else (true, { c with
    pos := pos
    persistentData := c.data.drop (toWord (pos + 2))
    data := c.data.take (toWord (pos + 2))
    readMore :=
      if c.persistFlag then
        toInt (c.readMore - (toWord (wordSub pos oldPos + 2) : Nat))
      else c.readMore
    persistFlag := false })

/-- What becomes of the answer of `cmdProcessCommand`: wait for more data, close
the connection, or send the reply and start over. -/
def respond (c : Conn) : Except Fault (Response × State) → Except Ending Conn
  | .error e => .error ⟨c.sent, .terminated e⟩
  | .ok (resp, db) =>
      if resp.ret > 0 then
        .ok { c with readMore := resp.ret, calls := c.calls + 1, db := db }
      else if resp.ret < 0 then .error ⟨c.sent, .closed db⟩
      else
        .ok { c with
          data := []
          sent := c.sent ++ resp.output
          pos := 0
          readMore := 0
          calls := c.calls + 1
          db := db }

section Loop

variable (env : Env) (clock : Nat → Times)

def process (c : Conn) : Except Ending Conn :=
  if c.readMore > 0 then .ok c
  else if crlf.isSuffixOf c.data then
    respond c (Command.run env (cmdProcessCommand (clock c.calls) c.data) c.db)
  else .ok c

def round (c : Conn) : Except Ending Conn := do
  let c ← receive c
  match cutLine c with
  | (true, c) => process env clock c
  | (false, c) => .ok c

def sockHandleIncomingConn (fuel : Nat) (chunks : List Bytes) (last : NoData)
    (db : State) : Option Ending :=
  loopFor (round env clock) fuel { chunks := chunks, last := last, db := db }

end Loop

/-! ## What is seen of the loop -/

/-- A `recv` that delivers data, and a call of `cmdProcessCommand` with the clock
readings made for it and the store it finds. -/
inductive Event where
  | recv (chunk : Bytes)
  | call (times : Times) (input : Bytes) (db : State)

def recvEvents (c : Conn) : List Event :=
  if c.persistentData ≠ [] then []
  else
    match c.chunks with
    | [] => []
    | chunk :: _ => [.recv chunk]

def callEvents (clock : Nat → Times) (c : Conn) : List Event :=
  if c.readMore > 0 then []
  else if crlf.isSuffixOf c.data then [.call (clock c.calls) c.data c.db]
  else []

def roundEvents (clock : Nat → Times) (c : Conn) : List Event :=
  recvEvents c ++
    match receive c with
    | .error _ => []
    | .ok c =>
        match cutLine c with
        | (true, c) => callEvents clock c
        | (false, _) => []

def roundsOf (env : Env) (clock : Nat → Times) (rounds : Nat) (c : Conn) :
    List Event × Except Ending Conn :=
  observe (round env clock) (roundEvents clock) rounds c

def received : List Event → Nat
  | [] => 0
  | .recv chunk :: events => chunk.length + received events
  | .call _ _ _ :: events => received events

def Timely (limit : Nat) : Nat → List Event → Prop
  | _, [] => True
  | n, .recv chunk :: events =>
      n < limit ∧ Timely limit (n + chunk.length) events
  | n, .call _ _ _ :: events => Timely limit n events

theorem received_append (events events' : List Event) :
    received (events ++ events') = received events + received events' := by
  induction events with
  | nil => simp [received]
  | cons e events ih =>
      cases e with
      | recv chunk =>
          simp only [List.cons_append, received, ih]
          omega
      | call times input db => exact ih

theorem timely_append {limit n : Nat} {events events' : List Event} :
    Timely limit n (events ++ events') ↔
      Timely limit n events ∧ Timely limit (n + received events) events' := by
  induction events generalizing n with
  | nil => simp [Timely, received]
  | cons e events ih =>
      cases e with
      | recv chunk =>
          simp only [List.cons_append, Timely, received, ih, and_assoc,
            Nat.add_assoc]
      | call times input db => exact ih

theorem Timely.mono {limit limit' n : Nat} {events : List Event}
    (h : Timely limit n events) (hle : limit ≤ limit') :
    Timely limit' n events := by
  induction events generalizing n with
  | nil => trivial
  | cons e events ih =>
      cases e with
      | recv chunk => exact ⟨h.1.trans_le hle, ih h.2⟩
      | call times input db => exact ih h

end Memstashed.Ssock
