import Memstashed.Scmd.Keys
import Memstashed.Scmd.Served
import Memstashed.Ssock.Framed

/-!
# Connections served at the same time

The worker threads serve their connections at the same time, and a command of
one connection may find the store changed by another one between two of its
calls.  Whatever the interleaving of the accesses, each client gets the replies
to its own requests in their order, as the shared map answers them.  A client
whose keys nobody else puts anything under cannot tell that it is not alone.
-/

namespace Memstashed.Ssock

open Memstashed.Foundation
open Memstashed.Dblru
open Memstashed.Scmd

/-- A client that sends well-formed requests, as `recv` cuts its stream.  A block
that is empty or ends in CRLF, and so may run into what follows, comes last. -/
structure Peer where
  messages : List Message
  chunks : List Bytes
  last : NoData
  wellFormed : ∀ m ∈ messages, m.WellFormed
  small : ∀ m ∈ messages, m.bytes.length + 100 < 1073741824
  distinct : ∀ m ∈ messages.dropLast, ¬ m.Blurred
  read : ∀ chunk ∈ chunks, chunk ≠ [] ∧ chunk.length ≤ 80
  stream : chunks.flatten = (messages.map Message.bytes).flatten

def Peer.inputs (p : Peer) : List Bytes :=
  p.messages.map Message.bytes

abbrev SharesMap {κ α : Type} [DecidableEq κ] (p : κ → Command α)
    (c₀ : Contents) (turns : List κ) (pool : κ → Command α) (c : Contents) :
    Prop :=
  Prog.Atomic Forgets (fun op a c c' => Contents.Does c op a c') p c₀ turns
    pool c

/-! ## The connections -/

section Connections

variable {κ : Type} [DecidableEq κ] {env : Env} {fuel : Nat}
  {clock : κ → Nat → Times} {rounds : κ → Nat} {peers : κ → Peer}
  {t₀ : State} {history : AccessTurns κ}
  {pool : κ → Accesses (Option Parting)} {s : Locked Mutex Store}

/-- The worker threads run, one connection each, and a due flush is published
while nobody holds both mutexes of a bucket. -/
abbrev ServesPeers (env : Env) (fuel : Nat) (clock : κ → Nat → Times)
    (rounds : κ → Nat) (peers : κ → Peer) (t₀ : State)
    (history : AccessTurns κ) (pool : κ → Accesses (Option Parting))
    (s : Locked Mutex Store) : Prop :=
  Prog.Concurrent (Access.exec env) FlushesApart
    (fun k => accessesOf env fuel
      (connCalls (clock k) (rounds k) (peers k).chunks (peers k).last))
    ⟨t₀.store, t₀.locks.held⟩ history pool s

def Peer.requests (p : Peer) (clock : Nat → Times) (calls : List Nat) :
    List (Times × Bytes) :=
  (calls.map clock).zip p.inputs

theorem polls_keeps {op : Op} {a : op.Answer} {c c' : Contents}
    (hpolls : Polls op) (h : Contents.Does c op a c') : c' = c := by
  cases h with
  | handleFlushAll => rfl
  | _ => contradiction

theorem Peer.trails (p : Peer) (clock : Nat → Times) :
    ∃ calls : List Nat, calls.length = p.messages.length ∧
      calls.Pairwise (· < ·) ∧ ∀ rounds,
        Prog.Trails Polls EndsAs (connCalls clock rounds p.chunks p.last)
          (requestsCalls p.last (p.requests clock calls) []) := by
  have hstart : Boundary p.inputs.flatten
      { chunks := p.chunks, last := p.last, db := State.init } :=
    ⟨rfl, rfl, rfl, rfl, p.stream, p.read, by simp⟩
  obtain ⟨calls, hlength, hpairwise, -, hcarries⟩ :=
    Boundary.carries_all clock p.messages p.wellFormed p.small p.distinct hstart
  exact ⟨calls, hlength, hpairwise, hcarries [] State.init [] rfl⟩

theorem sharesMap_of_serves
    (h : ServesPeers env fuel clock rounds peers t₀ history pool s) :
    ∃ turns pool' c,
      SharesMap (fun k => connCalls (clock k) (rounds k) (peers k).chunks
        (peers k).last) t₀.store.contents turns pool' c ∧
      turns.Sublist (history.map Prog.Event.client) ∧
      (∀ k a, pool k = .done a → pool' k = .done a) ∧
      ((∀ k g next, pool k ≠ .call g next) → c = s.data.contents) := by
  obtain ⟨turns, pool', c, hruns, hturns, hdone, hrest⟩ :=
    runsCalls_of_accesses h
  refine ⟨turns, pool', Cache.contents c, ?_, hturns, hdone, fun hstop => ?_⟩
  · exact hruns.map Cache.contents (fun _ _ hloses => forgets_of_loses hloses)
      fun _ _ _ _ hdoes => does_contents hdoes
  · rw [hrest hstop]
    rfl

/-- What is behind a run of the connections: a run of the requests on a map that
the clients share, from which the replies are. -/
structure Explains (clock : κ → Nat → Times) (peers : κ → Peer) (c₀ : Contents)
    (history : AccessTurns κ) (pool : κ → Accesses (Option Parting))
    (calls : κ → List Nat) (turns : List κ)
    (pool' : κ → Command (List Bytes × Bool)) (c : Contents) : Prop where
  answered : ∀ k, (calls k).length = (peers k).messages.length
  ordered : ∀ k, (calls k).Pairwise (· < ·)
  shares : SharesMap (fun k => requestsCalls (peers k).last
    ((peers k).requests (clock k) (calls k)) []) c₀ turns pool' c
  turns : turns.Sublist (history.map Prog.Event.client)
  parted : ∀ k parting, pool k = .done (some parting) →
    ∃ replies, pool' k = .done (replies, parting.waits) ∧
      parting.sent = replies.flatten

theorem exists_explains {turns : List κ}
    {pool' : κ → Command (Option Parting)} {c₀ c : Contents}
    (h : SharesMap (fun k => connCalls (clock k) (rounds k) (peers k).chunks
      (peers k).last) c₀ turns pool' c)
    (hturns : turns.Sublist (history.map Prog.Event.client))
    (hdone : ∀ k a, pool k = .done a → pool' k = .done a) :
    ∃ calls turns pool', Explains clock peers c₀ history pool calls turns pool'
      c := by
  choose calls hlength hpairwise htrails using
    fun k => (peers k).trails (clock k)
  obtain ⟨turns', pool'', hshares, hturns', hpool⟩ := h.trails
    (fun _ _ _ _ hpolls hdoes => polls_keeps hpolls hdoes)
    fun k => htrails k (rounds k)
  refine ⟨calls, turns', pool'', hlength, hpairwise, hshares,
    hturns'.trans hturns, fun k parting hk => ?_⟩
  have hends := hpool k
  rw [hdone k _ hk] at hends
  cases hends with
  | done hends => exact hends

/-- However the accesses of the connections are interleaved, each client that
has been served to the end has got the replies to its requests in their order,
as a map answers them that the clients share and that may lose entries. -/
theorem connections_served
    (h : ServesPeers env fuel clock rounds peers t₀ history pool s) :
    ∃ calls turns pool' c, Explains clock peers t₀.store.contents history pool
        calls turns pool' c ∧
      ((∀ k g next, pool k ≠ .call g next) → c = s.data.contents) := by
  obtain ⟨turns, pool', c, hshares, hturns, hdone, hrest⟩ :=
    sharesMap_of_serves h
  obtain ⟨calls, turns', pool'', hexplains⟩ :=
    exists_explains hshares hturns hdone
  exact ⟨calls, turns', pool'', c, hexplains, hrest⟩

end Connections

/-! ### A block is deleted before it is looked up -/

theorem deleteLine_wellFormed :
    (Message.line (ascii "delete k")).WellFormed := by
  refine ⟨by decide, by decide, fun w hw => ?_⟩
  have hdelete : Word.ofBytes (commandWord (ascii "delete k" ++ crlf)) =
      some .delete := by decide
  rw [hdelete] at hw
  cases hw
  rfl

def storingPeer : Peer where
  messages := storeThenGet [] (setHeader "5") (ascii "a\r\nbc") [] []
  chunks := [ascii "set k 0 0 5\r\na\r", ascii "\nbc\r\nget k\r\n"]
  last := .wouldBlock
  wellFormed := by
    intro m hm
    simp only [storeThenGet, List.nil_append, List.mem_cons, List.not_mem_nil,
      or_false] at hm
    rcases hm with rfl | rfl
    · exact setHeader_wellFormed (by decide) (by decide) (by decide)
    · exact getLine_wellFormed
  small := by decide
  distinct := by
    intro m hm
    simp only [storeThenGet, List.nil_append, List.dropLast_cons_cons,
      List.dropLast_singleton, List.mem_singleton] at hm
    subst hm
    unfold Message.Blurred
    decide
  read := by decide
  stream := by decide

def deletingPeer : Peer where
  messages := [.line (ascii "delete k")]
  chunks := [ascii "delete k\r\n"]
  last := .wouldBlock
  wellFormed := by
    intro m hm
    obtain rfl := List.mem_singleton.mp hm
    exact deleteLine_wellFormed
  small := by decide
  distinct := by
    intro m hm
    contradiction
  read := by decide
  stream := by decide

def storeAndDelete : Bool → Peer
  | false => storingPeer
  | true => deletingPeer

theorem exists_storeAndDelete :
    ∃ (history : AccessTurns Bool) (pool : Bool → Accesses (Option Parting))
      (s : Locked Mutex Store),
      ServesPeers Env.x86 12 (fun _ _ => .const 1000) (fun _ => 8)
        storeAndDelete State.init history pool s ∧
      pool false = .done (some ⟨ascii "STORED\r\nEND\r\n", true⟩) ∧
      pool true = .done (some ⟨ascii "DELETED\r\n", true⟩) := by
  obtain ⟨history, pool, s, h, hstored, hdeleted⟩ :=
    Prog.exists_concurrent_of_turns (Access.exec Env.x86) FlushesApart
    (fun k => accessesOf Env.x86 12 (connCalls (fun _ => .const 1000) 8
      (storeAndDelete k).chunks (storeAndDelete k).last))
    ⟨State.init.store, State.init.locks.held⟩
    (List.replicate 9 false ++ List.replicate 6 true ++ List.replicate 9 false)
    (fun _ pool _ =>
      (pool false).result? =
        some (some ⟨ascii "STORED\r\nEND\r\n", true⟩) ∧
      (pool true).result? = some (some ⟨ascii "DELETED\r\n", true⟩))
    (by decide +kernel)
  exact ⟨history, pool, s, h, Prog.eq_done_of_result? hstored,
    Prog.eq_done_of_result? hdeleted⟩

theorem connections_served_deleted :
    ∃ (history : AccessTurns Bool) (pool : Bool → Accesses (Option Parting))
      (s : Locked Mutex Store) (calls : Bool → List Nat) (turns : List Bool)
      (pool' : Bool → Command (List Bytes × Bool)) (c : Contents),
      pool false = .done (some ⟨ascii "STORED\r\nEND\r\n", true⟩) ∧
      pool true = .done (some ⟨ascii "DELETED\r\n", true⟩) ∧
      Explains (fun _ _ => .const 1000) storeAndDelete
        State.init.store.contents history pool calls turns pool' c ∧
      ((∀ k g next, pool k ≠ .call g next) → c = s.data.contents) := by
  obtain ⟨history, pool, s, h, hstored, hdeleted⟩ := exists_storeAndDelete
  obtain ⟨calls, turns, pool', c, hexplains, hrest⟩ := connections_served h
  exact ⟨history, pool, s, calls, turns, pool', c, hstored, hdeleted,
    hexplains, hrest⟩

/-! ## One client among the others -/

def Peer.Names (p : Peer) (key : KeyType) : Prop :=
  ∃ input ∈ p.inputs, Scmd.Names input key

def Peer.Puts (p : Peer) (key : KeyType) : Prop :=
  ∃ input ∈ p.inputs, Scmd.Puts input key

section Alone

variable {last : NoData} {requests : List (Times × Bytes)}
  {replies : List Bytes} {c c' : Contents}

theorem concerns_requests {names puts : KeyType → Prop}
    (hrequests : ∀ input ∈ requests.map Prod.snd, ∀ key,
      (Scmd.Names input key → names key) ∧ (Scmd.Puts input key → puts key)) :
    Prog.Calls (Concerns names puts) (requestsCalls last requests replies) := by
  induction requests generalizing replies with
  | nil => exact .done _
  | cons request requests ih =>
      obtain ⟨times, input⟩ := request
      rw [List.map_cons, List.forall_mem_cons] at hrequests
      obtain ⟨hhead, htail⟩ := hrequests
      refine Prog.Calls.bind ?_ fun resp => ?_
      · refine (concerns_command times input).mono fun op hop => ?_
        exact ⟨fun key hkey => (hhead key).1 (hop.1 key hkey),
          fun w hw => (hhead w.key).2 (hop.2 w hw)⟩
      · by_cases hret : resp.ret < 0
        · rw [if_pos hret]
          exact .done _
        · rw [if_neg hret]
          exact ih htail

/-- The requests of a client one after another, as the part of the map with
these keys shows them. -/
inductive ServedOn (keys : KeyType → Prop) (last : NoData) :
    List Bytes → Contents → List Bytes → Bool → Contents → Prop
  | nil (c : Contents) : ServedOn keys last [] c [] last.waits c
  | closed {times : Times} {input : Bytes} {inputs : List Bytes}
      {resp : Response} {c c' : Contents} :
      AnswersOn keys times input c resp c' → resp.ret < 0 →
      ServedOn keys last (input :: inputs) c [] false c'
  | cons {times : Times} {input : Bytes} {inputs replies : List Bytes}
      {resp : Response} {waits : Bool} {c c' c'' : Contents} :
      AnswersOn keys times input c resp c' →
      ServedOn keys last inputs c' replies waits c'' →
      ServedOn keys last (input :: inputs) c (resp.output :: replies) waits c''

theorem servedOn_of_over {keys : KeyType → Prop} {result : List Bytes × Bool}
    (h : Prog.Over (Contents.StepsOn keys) (requestsCalls last requests replies)
      c result c') :
    ∃ more, result.1 = replies ++ more ∧
      ServedOn keys last (requests.map Prod.snd) c more result.2 c' := by
  induction requests generalizing replies c with
  | nil =>
      obtain ⟨rfl, rfl⟩ := h.of_done
      exact ⟨[], (List.append_nil _).symm, .nil _⟩
  | cons request requests ih =>
      obtain ⟨times, input⟩ := request
      obtain ⟨resp, y, hcommand, hrest⟩ := h.of_bind
      have hanswers := answersOn_of_over hcommand
      by_cases hret : resp.ret < 0
      · rw [if_pos hret] at hrest
        obtain ⟨rfl, rfl⟩ := hrest.of_done
        exact ⟨[], (List.append_nil _).symm, .closed hanswers hret⟩
      · rw [if_neg hret] at hrest
        obtain ⟨more, hmore, hserved⟩ := ih hrest
        refine ⟨resp.output :: more, ?_, .cons hanswers hserved⟩
        rw [hmore, List.append_assoc, List.singleton_append]

variable {κ : Type} [DecidableEq κ] {clock : κ → Nat → Times}
  {peers : κ → Peer} {history : AccessTurns κ}
  {pool : κ → Accesses (Option Parting)} {calls : κ → List Nat}
  {turns : List κ} {pool' : κ → Command (List Bytes × Bool)}

theorem Peer.requests_inputs (p : Peer) (clock : Nat → Times)
    {calls : List Nat} (hlength : calls.length = p.messages.length) :
    (p.requests clock calls).map Prod.snd = p.inputs :=
  List.map_snd_zip (by simp [Peer.inputs, hlength])

theorem Peer.concerns (p : Peer) (clock : Nat → Times) {calls : List Nat}
    (hlength : calls.length = p.messages.length) :
    Prog.Calls (Concerns p.Names p.Puts)
      (requestsCalls p.last (p.requests clock calls) []) := by
  refine concerns_requests fun input hinput key => ?_
  rw [p.requests_inputs clock hlength] at hinput
  exact ⟨fun hkey => ⟨input, hinput, hkey⟩, fun hkey => ⟨input, hinput, hkey⟩⟩

theorem Explains.servedOn
    (h : Explains clock peers c history pool calls turns pool' c') {k : κ}
    {keys : KeyType → Prop}
    (hothers : ∀ j, j ≠ k → ∀ key, (peers j).Puts key → ¬ keys key)
    {waits : Bool} (hdone : pool' k = .done (replies, waits)) :
    ∃ y, ServedOn keys (peers k).last (peers k).inputs (c.only keys) replies
        waits y ∧
      Forgets y (c'.only keys) := by
  have hconcerns j := (peers j).concerns (clock j) (h.answered j)
  have hrest : ∀ j, j ≠ k → Prog.Calls
      (fun op => ∀ w, op.write? = some w → ¬ keys w.key)
      (requestsCalls (peers j).last
        ((peers j).requests (clock j) (calls j)) []) :=
    fun j hj => (hconcerns j).mono fun op hop w hw =>
      hothers j hj w.key (hop.2 w hw)
  obtain ⟨y, hover, hforgets⟩ := h.shares.over
    (fun x => Contents.only x keys) k Forgets.refl
    (fun _ _ _ => Forgets.trans) Contents.stepsOn_of_forgets
    (fun _ _ => Contents.forgets_only)
    (fun _ _ _ _ _ hdoes => hdoes.stepsOn)
    (fun _ _ _ _ hop hdoes => hdoes.forgets_only hop) (hconcerns k) hrest hdone
  obtain ⟨more, hmore, hserved⟩ := servedOn_of_over hover
  rw [(peers k).requests_inputs (clock k) (h.answered k)] at hserved
  obtain rfl : replies = more := hmore
  exact ⟨y, hserved, hforgets⟩

end Alone

/-! ## Reading what was written -/

section Reading

variable {keys : KeyType → Prop} {key : KeyType} {last : NoData}
  {inputs replies : List Bytes} {input reply : Bytes} {waits : Bool}
  {c c' : Contents} {h : Header} {data : Bytes}

theorem ServedOn.of_cons
    (hserved : ServedOn keys last (input :: inputs) c (reply :: replies) waits
      c') :
    ∃ times resp x, AnswersOn keys times input c resp x ∧
      resp.output = reply ∧ ServedOn keys last inputs x replies waits c' := by
  cases hserved with
  | cons hanswers hrest => exact ⟨_, _, _, hanswers, rfl, hrest⟩

theorem kept_of_answersOn {times : Times} {resp : Response}
    (hanswers : AnswersOn (· = key) times input c resp c')
    (hwrites : ¬ Writes input key) : Kept c c' key := by
  by_cases hputs : Scmd.Puts input key
  · exact kept_of_amounts
      (hanswers.1 fun other hother => names_of_touch hputs hwrites hother)
      hwrites
  · refine kept_of_forgets (hanswers.2 fun other hother hsame => ?_)
    exact hputs (hsame ▸ hother)

theorem ServedOn.of_append {front back rs rest : List Bytes}
    (hserved : ServedOn (· = key) last (front ++ back) c (rs ++ rest) waits c')
    (hlength : rs.length = front.length) :
    ∃ x, ServedOn (· = key) last back x rest waits c' ∧
      ((∀ input ∈ front, ¬ Writes input key) → Kept c x key) := by
  induction front generalizing rs c with
  | nil =>
      obtain rfl := List.eq_nil_of_length_eq_zero hlength
      exact ⟨c, hserved, fun _ => kept_of_forgets (.refl c)⟩
  | cons input front ih =>
      cases rs with
      | nil => contradiction
      | cons reply rs =>
          obtain ⟨times, resp, y, hanswers, -, hrest⟩ := hserved.of_cons
          obtain ⟨x, hback, hkept⟩ := ih hrest (Nat.succ.inj hlength)
          refine ⟨x, hback, fun hwrites => ?_⟩
          rw [List.forall_mem_cons] at hwrites
          exact (kept_of_answersOn hanswers hwrites.1).trans (hkept hwrites.2)

end Reading

section Clients

variable {κ : Type} [DecidableEq κ] {env : Env} {fuel : Nat}
  {clock : κ → Nat → Times} {rounds : κ → Nat} {peers : κ → Peer}
  {t₀ : State} {history : AccessTurns κ}
  {pool : κ → Accesses (Option Parting)} {s : Locked Mutex Store}

/-- Under keys where the other clients put nothing, a client finds what it has
put there itself, as far as it has not been lost. -/
theorem served_on_own_keys
    (h : ServesPeers env fuel clock rounds peers t₀ history pool s) {k : κ}
    {keys : KeyType → Prop}
    (hothers : ∀ j, j ≠ k → ∀ key, (peers j).Puts key → ¬ keys key)
    {parting : Parting} (hdone : pool k = .done (some parting)) :
    ∃ calls turns pool' c, Explains clock peers t₀.store.contents history pool
        calls turns pool' c ∧
      ∃ replies y, pool' k = .done (replies, parting.waits) ∧
        ServedOn keys (peers k).last (peers k).inputs
          (Contents.only t₀.store.contents keys) replies parting.waits y ∧
        Forgets y (c.only keys) := by
  obtain ⟨turns, pool', c, hshares, hturns, hresults, -⟩ :=
    sharesMap_of_serves h
  obtain ⟨calls, turns', pool'', hexplains⟩ :=
    exists_explains hshares hturns hresults
  obtain ⟨replies, hreplies, -⟩ := hexplains.parted k parting hdone
  obtain ⟨y, hserved, hforgets⟩ := hexplains.servedOn hothers hreplies
  exact ⟨calls, turns', pool'', c, hexplains, replies, y, hreplies, hserved,
    hforgets⟩

theorem not_puts_deletingPeer (key : KeyType) : ¬ deletingPeer.Puts key := by
  rintro ⟨input, hinput, w, hw, hkey⟩
  obtain rfl := List.mem_singleton.mp hinput
  have hdelete : Word.ofBytes (commandWord (ascii "delete k" ++ crlf)) =
      some .delete := by decide
  rw [Message.bytes, hdelete] at hw
  cases hw
  exact absurd hkey.1 (by decide)

/-- The key is private to the client that stores the block: the other one only
deletes it. -/
theorem served_on_own_keys_deleted :
    ∃ (history : AccessTurns Bool) (pool : Bool → Accesses (Option Parting))
      (calls : Bool → List Nat) (turns : List Bool)
      (pool' : Bool → Command (List Bytes × Bool)) (c : Contents),
      Explains (fun _ _ => .const 1000) storeAndDelete
        State.init.store.contents history pool calls turns pool' c ∧
      ∃ replies y, pool' false = .done (replies, true) ∧
        ServedOn (· = ascii "k") .wouldBlock storingPeer.inputs
          (Contents.only State.init.store.contents (· = ascii "k")) replies
          true y ∧
        Forgets y (c.only (· = ascii "k")) := by
  obtain ⟨history, pool, s, h, hstored, -⟩ := exists_storeAndDelete
  have hothers : ∀ j, j ≠ false → ∀ key, (storeAndDelete j).Puts key →
      ¬ key = ascii "k" := by
    intro j hj key hputs
    obtain rfl : j = true := eq_true_of_ne_false hj
    exact absurd hputs (not_puts_deletingPeer key)
  obtain ⟨calls, turns, pool', c, hexplains, hserved⟩ :=
    served_on_own_keys h hothers hstored
  exact ⟨history, pool, calls, turns, pool', c, hexplains, hserved⟩

end Clients

end Memstashed.Ssock
