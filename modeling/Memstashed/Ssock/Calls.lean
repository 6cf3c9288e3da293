import Memstashed.Ssock.Connection

/-!
# A connection as a program

The loop of `sockHandleIncomingConn` once more, as the tree of the calls of
`dblru.cpp` that its commands make.  Between two of its calls other threads may
make theirs.  Run alone, the program does what the loop does.
-/

namespace Memstashed.Ssock

open Memstashed.Foundation
open Memstashed.Dblru
open Memstashed.Scmd

structure Parting where
  sent : Bytes
  waits : Bool
  deriving DecidableEq, Repr

def Ending.parting : Ending → Parting
  | ⟨sent, .waiting _⟩ => ⟨sent, true⟩
  | ⟨sent, .closed _⟩ => ⟨sent, false⟩
  | ⟨sent, .terminated _⟩ => ⟨sent, false⟩

section Loop

variable (clock : Nat → Times)

/-- The store is that of all threads; the one in `c` stays as it is. -/
def processCalls (c : Conn) : Command (Except Ending Conn) :=
  if c.readMore > 0 then .done (.ok c)
  else if crlf.isSuffixOf c.data then do
    let resp ← cmdProcessCommand (clock c.calls) c.data
    return respond c (.ok (resp, c.db))
  else .done (.ok c)

def roundCalls (c : Conn) : Command (Except Ending Conn) :=
  match receive c with
  | .error ending => .done (.error ending)
  | .ok c =>
      match cutLine c with
      | (true, c) => processCalls clock c
      | (false, c) => .done (.ok c)

def goOn (next : Conn → Command (Option Parting)) :
    Except Ending Conn → Command (Option Parting)
  | .error ending => .done (some ending.parting)
  | .ok c => next c

def loopCalls : Nat → Conn → Command (Option Parting)
  | 0, _ => .done none
  | fuel + 1, c => roundCalls clock c >>= goOn (loopCalls fuel)

def connCalls (fuel : Nat) (chunks : List Bytes) (last : NoData) :
    Command (Option Parting) :=
  loopCalls clock fuel { chunks := chunks, last := last, db := State.init }

end Loop

/-! ## Reading -/

def Conn.set (c : Conn) (sent : Bytes) (db : State) : Conn :=
  { c with sent := sent, db := db }

section Reading

variable {c c₁ : Conn}

theorem cutLine_set (c : Conn) (sent : Bytes) (t : State) :
    cutLine (c.set sent t) = ((cutLine c).1, (cutLine c).2.set sent t) := by
  by_cases hpos : find c.data crlf (toWord (c.pos + 2)) = npos
  · simp only [cutLine, Conn.set, hpos, if_true]
  · cases hflag : c.persistFlag with
    | true => simp only [cutLine, Conn.set, hpos, hflag, if_false, if_true]
    | false =>
        simp only [cutLine, Conn.set, hpos, hflag, if_false, Bool.false_eq_true]

theorem cutLine_sent (c : Conn) : (cutLine c).2.sent = c.sent := by
  by_cases hpos : find c.data crlf (toWord (c.pos + 2)) = npos
  · simp only [cutLine, hpos, if_true]
  · simp only [cutLine, hpos, if_false]

theorem receive_set (h : receive c = .ok c₁) (sent : Bytes) (t : State) :
    receive (c.set sent t) = .ok (c₁.set sent t) := by
  unfold receive at h ⊢
  by_cases hkept : c.persistentData = []
  · simp only [hkept, ne_eq, not_true_eq_false, if_false] at h
    cases hchunks : c.chunks with
    | nil =>
        rw [hchunks] at h
        contradiction
    | cons chunk chunks =>
        rw [hchunks] at h
        cases h
        simp only [Conn.set, hkept, hchunks, ne_eq, not_true_eq_false, if_false]
  · rw [if_pos hkept] at h
    cases h
    exact if_pos hkept

theorem receive_sent (h : receive c = .ok c₁) : c₁.sent = c.sent := by
  have hset := receive_set h c.sent c.db
  have hsame : receive (c.set c.sent c.db) = .ok c₁ := h
  rw [hset] at hsame
  exact (congrArg Conn.sent (Except.ok.inj hsame)).symm

theorem receive_set_error {ending : Ending} (h : receive c = .error ending)
    (sent : Bytes) (t : State) :
    ending = ⟨c.sent, c.last.outcome c.db⟩ ∧
      receive (c.set sent t) = .error ⟨sent, c.last.outcome t⟩ := by
  unfold receive at h ⊢
  by_cases hkept : c.persistentData = []
  · simp only [hkept, ne_eq, not_true_eq_false, if_false] at h
    cases hchunks : c.chunks with
    | nil =>
        rw [hchunks] at h
        cases h
        simp only [Conn.set, hkept, hchunks, ne_eq, not_true_eq_false, if_false,
          true_and]
    | cons chunk chunks =>
        rw [hchunks] at h
        contradiction
  · rw [if_pos hkept] at h
    contradiction

end Reading

/-! ## Run alone -/

inductive SameRound :
    Except Ending Conn → Except Fault (Except Ending Conn × State) → Prop
  | goesOn (c : Conn) (t : State) :
      SameRound (.ok (c.set c.sent t)) (.ok (.ok c, t))
  | waits (sent : Bytes) (t t' : State) :
      SameRound (.error ⟨sent, .waiting t⟩)
        (.ok (.error ⟨sent, .waiting t'⟩, t))
  | closes (sent : Bytes) (t t' : State) :
      SameRound (.error ⟨sent, .closed t⟩) (.ok (.error ⟨sent, .closed t'⟩, t))
  | terminates (sent : Bytes) (e : Fault) :
      SameRound (.error ⟨sent, .terminated e⟩) (.error e)

def Ending.result : Ending → Except Fault (Option Parting × State)
  | ⟨sent, .waiting t⟩ => .ok (some ⟨sent, true⟩, t)
  | ⟨sent, .closed t⟩ => .ok (some ⟨sent, false⟩, t)
  | ⟨_, .terminated e⟩ => .error e

section Alone

variable {env : Env} {clock : Nat → Times}

theorem sameRound_respond (c : Conn) (resp : Response) (t t' : State) :
    SameRound (respond (c.set c.sent t) (.ok (resp, t')))
      (.ok (respond c (.ok (resp, c.db)), t')) := by
  unfold respond
  by_cases hmore : resp.ret > 0
  · simp only [hmore, if_true]
    exact .goesOn { c with readMore := resp.ret, calls := c.calls + 1 } t'
  · by_cases hclosed : resp.ret < 0
    · simp only [hmore, hclosed, if_true, if_false]
      exact .closes c.sent t' c.db
    · simp only [hmore, hclosed, if_false]
      exact .goesOn { c with
        data := []
        sent := c.sent ++ resp.output
        pos := 0
        readMore := 0
        calls := c.calls + 1 } t'

theorem sameRound_process (c : Conn) (t : State) :
    SameRound (process env clock (c.set c.sent t))
      (Command.run env (processCalls clock c) t) := by
  unfold process processCalls
  by_cases hmore : c.readMore > 0
  · have hset : (c.set c.sent t).readMore > 0 := hmore
    rw [if_pos hmore, if_pos hset]
    exact .goesOn c t
  · have hset : ¬ (c.set c.sent t).readMore > 0 := hmore
    rw [if_neg hmore, if_neg hset]
    by_cases hline : crlf.isSuffixOf c.data = true
    · have hset : crlf.isSuffixOf (c.set c.sent t).data = true := hline
      rw [if_pos hline, if_pos hset]
      change SameRound (respond (c.set c.sent t) (Command.run env
        (cmdProcessCommand (clock c.calls) c.data) t)) _
      unfold Command.run
      rw [Prog.run_bind, Effect.bind_apply]
      cases Prog.run (Op.exec env) (cmdProcessCommand (clock c.calls) c.data) t
        with
      | error e => exact .terminates c.sent e
      | ok result => exact sameRound_respond c result.1 t result.2
    · have hset : ¬ crlf.isSuffixOf (c.set c.sent t).data = true := hline
      rw [if_neg hline, if_neg hset]
      exact .goesOn c t

theorem sameRound_round (c : Conn) (t : State) :
    SameRound (round env clock (c.set c.sent t))
      (Command.run env (roundCalls clock c) t) := by
  cases hreceive : receive c with
  | error ending =>
      obtain ⟨rfl, hset⟩ := receive_set_error hreceive c.sent t
      simp only [round, roundCalls, hreceive, hset, bind, Except.bind]
      cases c.last with
      | wouldBlock => exact .waits c.sent t c.db
      | failed => exact .closes c.sent t c.db
      | eof => exact .closes c.sent t c.db
  | ok c₁ =>
      have hset := receive_set hreceive c₁.sent t
      rw [receive_sent hreceive] at hset
      have hcutset := cutLine_set c₁ c.sent t
      have hsent := (cutLine_sent c₁).trans (receive_sent hreceive)
      simp only [round, roundCalls, hreceive, hset, hcutset, bind, Except.bind]
      cases hcut : cutLine c₁ with
      | mk found c₂ =>
          rw [hcut] at hsent
          simp only at hsent
          rw [← hsent]
          cases found with
          | true => exact sameRound_process c₂ t
          | false => exact .goesOn c₂ t

theorem run_loopCalls {fuel : Nat} {ending : Ending} :
    ∀ {c : Conn} {t : State},
      loopFor (round env clock) fuel (c.set c.sent t) = some ending →
      Command.run env (loopCalls clock fuel c) t = ending.result := by
  induction fuel with
  | zero =>
      intro c t h
      contradiction
  | succ fuel ih =>
      intro c t h
      unfold loopFor at h
      have hround : SameRound (round env clock (c.set c.sent t)) _ :=
        sameRound_round c t
      rw [loopCalls, Command.run, Prog.run_bind, Effect.bind_apply]
      unfold Command.run at hround
      generalize round env clock (c.set c.sent t) = left at h hround
      generalize Prog.run (Op.exec env) (roundCalls clock c) t = right at hround
      cases hround with
      | goesOn c' t' => exact ih h
      | waits sent t' t'' =>
          cases h
          rfl
      | closes sent t' t'' =>
          cases h
          rfl
      | terminates sent e =>
          cases h
          rfl

theorem run_connCalls {fuel : Nat} {chunks : List Bytes} {last : NoData}
    {t : State} {ending : Ending}
    (h : sockHandleIncomingConn env clock fuel chunks last t = some ending) :
    Command.run env (connCalls clock fuel chunks last) t = ending.result :=
  run_loopCalls h

end Alone

end Memstashed.Ssock
