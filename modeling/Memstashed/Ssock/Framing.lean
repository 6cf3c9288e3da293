import Memstashed.Scmd.Headers
import Memstashed.Ssock.Reading

/-!
# Requests on a connection

The requests of a client arrive as one stream of bytes, cut into chunks as
`recv` likes.  The loop answers as if the requests had been handed to
`cmdProcessCommand` one by one, unless the data block of one of them is empty or
ends in CRLF: then the CRLF behind it may be left over for the next request.
-/

namespace Memstashed.Ssock

open Memstashed.Foundation
open Memstashed.Dblru
open Memstashed.Scmd

inductive Message where
  | line (text : Bytes)
  | storage (header : Header) (data : Bytes)

def Message.bytes : Message → Bytes
  | .line text => text ++ crlf
  | .storage header data => header.line ++ (crlf ++ (data ++ crlf))

/-- A line is a request of its own if its command takes no data. -/
def Message.WellFormed : Message → Prop
  | .line text => 2 ≤ text.length ∧ ¬ crlf <:+: text ∧
      ∀ w, Word.ofBytes (commandWord (text ++ crlf)) = some w →
        w.stores = false
  | .storage header data => header.WellFormed data.length

/-- The block is empty or ends in CRLF. -/
def Message.Blurred : Message → Prop
  | .line _ => False
  | .storage _ data => data = [] ∨ crlf <:+ data

def oneByOne (env : Env) (last : NoData) :
    List (Times × Bytes) → State → Ending
  | [], db => ⟨[], last.outcome db⟩
  | (times, input) :: rest, db =>
      match Command.run env (cmdProcessCommand times input) db with
      | .error e => ⟨[], .terminated e⟩
      | .ok (resp, db) =>
          if resp.ret < 0 then ⟨[], .closed db⟩
          else
            let ending := oneByOne env last rest db
            ⟨resp.output ++ ending.sent, ending.outcome⟩

structure Boundary (stream : Bytes) (c : Conn) : Prop where
  data : c.data = []
  pos : c.pos = 0
  readMore : c.readMore = 0
  flag : c.persistFlag = false
  stream : c.persistentData ++ c.chunks.flatten = stream
  chunks : ∀ chunk ∈ c.chunks, chunk ≠ [] ∧ chunk.length ≤ 80
  kept : c.persistentData.length ≤ 80

section Rounds

variable {env : Env} {clock : Nat → Times} {stream : Bytes} {limit p : Nat}
  {c : Conn}

theorem Boundary.holds (h : Boundary stream c) : Holds stream 2 c := by
  refine ⟨?_, h.chunks, h.kept, ?_, ?_, ?_⟩
  · rw [h.data]
    exact h.stream
  · simp [h.readMore, h.pos]
  · simp [h.readMore, h.data]
  · simp only [h.readMore, h.data, h.pos, List.length_nil]
    omega

theorem Boundary.clean (h : Boundary stream c) : Clean c := by
  simp [Clean, h.data, find?, crlf]

theorem take_crlf {s : Bytes} (h : crlf <+: s.drop p) :
    s.take (p + 2) = s.take p ++ crlf := by
  obtain ⟨rest, hrest⟩ := h
  rw [List.take_add, ← hrest]
  rfl

theorem AtLine.rest (h : AtLine stream limit p c) :
    c.persistentData ++ c.chunks.flatten = stream.drop (p + 2) := by
  have hstream := h.holds.stream
  rw [h.data] at hstream
  nth_rewrite 2 [← List.take_append_drop (p + 2) stream] at hstream
  exact List.append_cancel_left hstream

theorem AtLine.clean (h : AtLine stream limit p c) : Clean c := by
  have hempty : c.data.drop (c.pos + 2) = [] := by
    rw [h.data, h.pos]
    exact List.drop_take_self
  simp [Clean, hempty, find?, crlf]

theorem AtLine.process_wait (hmore : 0 < c.readMore) :
    process env clock c = .ok c := by
  simp [process, hmore]

variable (env clock) in
theorem AtLine.process_eq (h : AtLine stream limit p c)
    (hcrlf : crlf <+: stream.drop p) (hmore : c.readMore ≤ 0) :
    process env clock c = respond c (Command.run env
      (cmdProcessCommand (clock c.calls) (stream.take (p + 2))) c.db) := by
  have hsuffix : crlf.isSuffixOf c.data = true := by
    rw [List.isSuffixOf_iff_suffix, h.data, take_crlf hcrlf]
    exact List.suffix_append _ _
  unfold process
  rw [if_neg (by omega), if_pos hsuffix, h.data]

theorem AtLine.respond_reply (h : AtLine stream limit p c) {resp : Response}
    (db : State) (hret : resp.ret = 0) :
    ∃ c', respond c (.ok (resp, db)) = .ok c' ∧
      Boundary (stream.drop (p + 2)) c' ∧ c'.sent = c.sent ++ resp.output ∧
      c'.db = db ∧ c'.calls = c.calls + 1 ∧ c'.last = c.last := by
  refine ⟨{ c with
    data := []
    sent := c.sent ++ resp.output
    pos := 0
    readMore := 0
    calls := c.calls + 1
    db := db }, ?_,
    ⟨rfl, rfl, rfl, h.flag, h.rest, h.holds.chunks, h.holds.kept⟩, rfl, rfl,
    rfl, rfl⟩
  simp only [respond, hret, gt_iff_lt, lt_irrefl, if_false]

theorem AtLine.respond_more (h : AtLine stream limit p c) {more : Nat}
    (hmore : 0 < more) (db : State) :
    ∃ c', respond c (.ok (⟨more, []⟩, db)) = .ok c' ∧
      Holds stream (p + 2 + more) c' ∧ Clean c' ∧ c'.pos = p ∧
      c'.sent = c.sent ∧ c'.db = db ∧ c'.calls = c.calls + 1 ∧
      c'.last = c.last ∧ c'.readMore = more ∧ c'.data = c.data ∧
      c'.persistentData = c.persistentData ∧ c'.persistFlag = false := by
  have hlength : c.data.length ≤ p + 2 := by
    rw [h.data, List.length_take]
    omega
  have hpositive : (more : Int) > 0 := by omega
  have hpos := h.pos
  refine ⟨{ c with readMore := more, calls := c.calls + 1, db := db },
    by simp only [respond, hpositive, if_true],
    ⟨h.holds.stream, h.holds.chunks, h.holds.kept, ?_, ?_, ?_⟩, h.clean, hpos,
    rfl, rfl, rfl, rfl, rfl, rfl, rfl, h.flag⟩
  · simp only
    omega
  · intro _
    simp only
    omega
  · simp only
    omega

end Rounds

/-! ## One request -/

/-- The request is served as from `start` with the clock readings of call `i`,
and the loop comes to the next one, perhaps with a CRLF left over. -/
inductive Served (env : Env) (clock : Nat → Times) (m : Message) (rest : Bytes)
    (start : State) (c : Conn) (i : Nat) : Prop
  | terminated {e : Fault} :
      Command.run env (cmdProcessCommand (clock i) m.bytes) start = .error e →
      Ends (round env clock) c ⟨c.sent, .terminated e⟩ →
      Served env clock m rest start c i
  | closed {resp : Response} {db : State} :
      Command.run env (cmdProcessCommand (clock i) m.bytes) start =
        .ok (resp, db) → resp.ret < 0 →
      Ends (round env clock) c ⟨c.sent, .closed db⟩ →
      Served env clock m rest start c i
  | answered {resp : Response} {c' : Conn} {left : Bytes} :
      Command.run env (cmdProcessCommand (clock i) m.bytes) start =
        .ok (resp, c'.db) → resp.ret = 0 → Boundary (left ++ rest) c' →
      c'.sent = c.sent ++ resp.output → c'.calls = i + 1 →
      c'.last = c.last →
      (left = [] ∨ left = crlf ∧ m.Blurred) →
      (∀ ending, Ends (round env clock) c' ending →
        Ends (round env clock) c ending) →
      Served env clock m rest start c i

section Requests

variable {env : Env} {clock : Nat → Times} {stream rest : Bytes} {c : Conn}

variable (env clock) in
theorem Boundary.first_line {line : Bytes}
    (h : Boundary (line ++ (crlf ++ rest)) c) (hlong : 2 ≤ line.length)
    (hline : ¬ crlf <:+: line) (hsmall : line.length + 100 < 1073741824) :
    ∃ c', Arrives env clock c c' ∧
      AtLine (line ++ (crlf ++ rest)) 2 line.length c' ∧ SameWorld c c' ∧
      process env clock c' = respond c' (Command.run env
        (cmdProcessCommand (clock c.calls) (line ++ crlf)) c.db) := by
  have hfind := find?_crlf hline rest
  have hfrom := find?_drop hfind hlong
  have hpos : c.pos + 2 + (line.length - 2) = line.length := by
    rw [h.pos]
    omega
  have hline' := h.holds.next_line env clock h.clean (i := line.length - 2)
    (by rwa [h.pos]) (by decide) (by rw [hpos]; unfold intLimit; omega)
  rw [hpos] at hline'
  obtain ⟨c', harrives, hat, hworld⟩ := hline'
  refine ⟨c', harrives, hat, hworld, ?_⟩
  have hupper := hat.holds.upper
  rw [hat.process_eq env clock (find?_isPrefixOf hfind) (by omega),
    hworld.calls, hworld.db]
  congr 4
  rw [take_crlf (find?_isPrefixOf hfind), List.take_left]

theorem run_command (times : Times) (input : Bytes) (s : Store) :
    Command.run env (cmdProcessCommand times input) ⟨s, Locks.free⟩ =
      Command.run env (dispatch times input)
        ⟨handleFlush times.flush s, Locks.free⟩ := rfl

theorem served_line {text : Bytes} (hwell : (Message.line text).WellFormed)
    (hsmall : text.length + 100 < 1073741824) {s : Store}
    (hdb : c.db = ⟨s, Locks.free⟩)
    (h : Boundary ((Message.line text).bytes ++ rest) c) :
    Served env clock (.line text) rest c.db c c.calls := by
  obtain ⟨hlong, hline, hword⟩ := hwell
  rw [Message.bytes, List.append_assoc] at h
  obtain ⟨c', harrives, hat, hworld, hprocess⟩ :=
    h.first_line env clock hlong hline hsmall
  cases hrun : Command.run env
      (cmdProcessCommand (clock c.calls) (text ++ crlf)) c.db with
  | error e =>
      refine .terminated hrun (harrives _ ?_)
      rw [hprocess, hrun, ← hworld.sent]
      rfl
  | ok result =>
      obtain ⟨resp, db⟩ := result
      have hret : resp.ret ≤ 0 := by
        rw [hdb, run_command] at hrun
        exact (dispatch_oneLine hword (clock c.calls)).run _ hrun
      by_cases hclosed : resp.ret < 0
      · refine .closed hrun hclosed (harrives _ ?_)
        rw [hprocess, hrun, ← hworld.sent]
        simp only [respond, hclosed, if_true, gt_iff_lt, not_lt.mpr hret,
          if_false]
        rfl
      · have hzero : resp.ret = 0 := by omega
        obtain ⟨c₁, hrespond, hboundary, hsent, rfl, hcalls, hlast⟩ :=
          hat.respond_reply db hzero
        have hrest : (text ++ (crlf ++ rest)).drop (text.length + 2) = rest := by
          rw [← List.append_assoc]
          exact List.drop_left' (by simp [crlf])
        rw [hrest, ← List.nil_append rest] at hboundary
        refine .answered hrun hzero hboundary ?_ ?_ ?_ (.inl rfl)
          fun ending hending => harrives _ ?_
        · rw [hsent, hworld.sent]
        · rw [hcalls, hworld.calls]
        · rw [hlast, hworld.last]
        · rw [hprocess, hrun, hrespond]
          exact hending

end Requests

/-! ## Collecting a block of data -/

section Storage

variable {env : Env} {clock : Nat → Times} {h : Header} {data rest : Bytes}
  {c : Conn} {s₀ : Store}

/-- A store in which a flush that is due has perhaps been carried out. -/
def Caught (clock : Nat → Times) (s₀ : Store) (c : Conn) : Prop :=
  ∃ s, c.db = ⟨s, Locks.free⟩ ∧ ∀ i, c.calls ≤ i →
    handleFlush (clock i).flush s = handleFlush (clock i).flush s₀

theorem handleFlush_twice {now later : Nat} (hle : now ≤ later) (s : Store) :
    handleFlush later (handleFlush now s) = handleFlush later s := by
  by_cases hdue : s.gIsFlushAllSet = true ∧ s.gFlushAllTime ≤ now
  · have hlater : s.gIsFlushAllSet = true ∧ s.gFlushAllTime ≤ later :=
      ⟨hdue.1, hdue.2.trans hle⟩
    simp [handleFlush, hdue, hlater]
  · have hsame : handleFlush now s = s := if_neg hdue
    rw [hsame]

section Runs

variable (wf : h.WellFormed data.length)
  (hsmall : (Message.storage h data).bytes.length + 100 < 1073741824)
include wf hsmall

theorem run_partial {d : Bytes} (hshort : d.length < data.length)
    (times : Times) (s : Store) :
    Command.run env (cmdProcessCommand times (h.line ++ (crlf ++ d)))
        ⟨s, Locks.free⟩ =
      .ok (⟨(data.length + 2 - d.length : Nat), []⟩,
        ⟨handleFlush times.flush s, Locks.free⟩) := by
  simp only [Message.bytes, crlf, List.length_append, List.length_cons,
    List.length_nil] at hsmall
  obtain ⟨act, -, hdispatch⟩ := dispatch_storage wf (by omega) times
  have hd := hdispatch d (by
    simp only [crlf, List.length_append, List.length_cons, List.length_nil]
    unfold wordSize
    omega)
  rw [run_command, hd, if_pos hshort]
  have hcast : ((data.length + 2 - d.length : Nat) : Int) =
      data.length + 2 - d.length := by omega
  rw [hcast]
  rfl

variable (env) in
theorem run_complete {d : Bytes} (htake : d.take data.length = data)
    (hlength : d.length ≤ data.length + 2) {times : Times} {s : Store}
    (hflush : handleFlush times.flush s = handleFlush times.flush s₀) :
    Command.run env (cmdProcessCommand times (h.line ++ (crlf ++ d)))
        ⟨s, Locks.free⟩ =
      Command.run env
        (cmdProcessCommand times (Message.storage h data).bytes)
        ⟨s₀, Locks.free⟩ ∧
    ∀ resp db, Command.run env
        (cmdProcessCommand times (Message.storage h data).bytes)
        ⟨s₀, Locks.free⟩ = .ok (resp, db) → resp.ret = 0 := by
  simp only [Message.bytes, crlf, List.length_append, List.length_cons,
    List.length_nil] at hsmall
  obtain ⟨act, hyields, hdispatch⟩ := dispatch_storage wf (by omega) times
  have hlong : ¬ d.length < data.length := by
    have hle := congrArg List.length htake
    rw [List.length_take] at hle
    omega
  have hd := hdispatch d (by
    simp only [crlf, List.length_append, List.length_cons, List.length_nil]
    unfold wordSize
    omega)
  have hfull := hdispatch (data ++ crlf) (by
    simp only [crlf, List.length_append, List.length_cons, List.length_nil]
    unfold wordSize
    omega)
  rw [if_neg hlong, htake] at hd
  rw [if_neg (by simp), List.take_left] at hfull
  constructor
  · rw [run_command, run_command, hd, Message.bytes, hfull, hflush]
  · intro resp db hrun
    rw [run_command, Message.bytes, hfull] at hrun
    exact (hyields data).run _ hrun

end Runs

def storageStream (h : Header) (data rest : Bytes) : Bytes :=
  h.line ++ (crlf ++ (data ++ (crlf ++ rest)))

theorem bytes_append_rest (h : Header) (data rest : Bytes) :
    (Message.storage h data).bytes ++ rest = storageStream h data rest := by
  simp [Message.bytes, storageStream]

def blockEnd (h : Header) (data : Bytes) : Nat := h.line.length + 2 + data.length

theorem storageStream_take {m : Nat} (hm : m ≤ data.length) :
    (storageStream h data rest).take (h.line.length + m + 2) =
      h.line ++ (crlf ++ data.take m) := by
  have hsum : h.line.length + m + 2 = h.line.length + (2 + m) := by omega
  rw [storageStream, hsum, List.take_length_add_append,
    show 2 + m = crlf.length + m from rfl, List.take_length_add_append,
    List.take_append_of_le_length hm]

theorem storageStream_drop_block :
    (storageStream h data rest).drop (blockEnd h data) = crlf ++ rest := by
  have hsum : blockEnd h data =
      (h.line ++ (crlf ++ data)).length := by
    simp only [blockEnd, crlf, List.length_append, List.length_cons,
      List.length_nil]
    omega
  have hassoc : storageStream h data rest =
      (h.line ++ (crlf ++ data)) ++ (crlf ++ rest) := by
    simp [storageStream]
  rw [hsum, hassoc, List.drop_left]

theorem storageStream_drop_all :
    (storageStream h data rest).drop (blockEnd h data + 2) = rest := by
  rw [← List.drop_drop, storageStream_drop_block]
  rfl

theorem storageStream_take_all :
    (storageStream h data rest).take (blockEnd h data + 2) =
      (Message.storage h data).bytes := by
  rw [← bytes_append_rest]
  refine List.take_left' ?_
  simp only [Message.bytes, blockEnd, crlf, List.length_append,
    List.length_cons, List.length_nil]
  omega

/-- The next CRLF is the one behind the block, or lies in the block and ends
there. -/
theorem storageStream_next_crlf (rest : Bytes) {pos : Nat}
    (hpos : pos + 2 ≤ blockEnd h data) :
    ∃ i, find? crlf ((storageStream h data rest).drop (pos + 2)) = some i ∧
      (pos + 2 + i = blockEnd h data ∨ pos + 2 + i + 2 ≤ blockEnd h data) := by
  have hblock : (storageStream h data rest).drop (blockEnd h data) =
      crlf ++ rest := storageStream_drop_block
  generalize hstream : storageStream h data rest = stream at hblock ⊢
  have hsplit : stream.drop (blockEnd h data) =
      (stream.drop (pos + 2)).drop (blockEnd h data - (pos + 2)) := by
    rw [List.drop_drop]
    congr 1
    omega
  have hinside : crlf <:+: stream.drop (pos + 2) := by
    refine List.IsInfix.trans ?_ (List.drop_suffix
      (blockEnd h data - (pos + 2)) (stream.drop (pos + 2))).isInfix
    rw [← hsplit, hblock]
    exact (List.prefix_append crlf rest).isInfix
  obtain ⟨i, hi⟩ := exists_find?_of_isInfix hinside
  refine ⟨i, hi, ?_⟩
  obtain ⟨-, hstarts, hfirst⟩ := find?_eq_some_iff.mp hi
  have hle : pos + 2 + i ≤ blockEnd h data := by
    by_contra hlate
    refine hfirst (blockEnd h data - (pos + 2)) (by omega) ?_
    rw [← hsplit, hblock]
    exact List.prefix_append crlf rest
  -- a CRLF one byte before the end would need a line feed where a carriage
  -- return stands
  have hne : pos + 2 + i + 1 ≠ blockEnd h data := by
    intro heq
    obtain ⟨more, hmore⟩ := hstarts
    rw [List.drop_drop] at hmore
    have hnext : stream.drop (blockEnd h data) = 10 :: more := by
      rw [← heq, ← List.drop_drop, ← hmore]
      rfl
    rw [hblock] at hnext
    simp [crlf] at hnext
  omega

structure Collecting (clock : Nat → Times) (h : Header) (data rest : Bytes)
    (s₀ : Store) (c : Conn) : Prop where
  holds : Holds (storageStream h data rest) (blockEnd h data + 2) c
  clean : Clean c
  started : h.line.length ≤ c.pos
  inside : c.pos + 2 ≤ blockEnd h data
  caught : Caught clock s₀ c

theorem Served.of_later {m : Message} {start : State} {c' : Conn} {i : Nat}
    (hserved : Served env clock m rest start c' i)
    (hends : ∀ ending, Ends (round env clock) c' ending →
      Ends (round env clock) c ending)
    (hsent : c'.sent = c.sent) (hlast : c'.last = c.last) :
    Served env clock m rest start c i := by
  cases hserved with
  | terminated hrun hend =>
      refine .terminated hrun (hends _ ?_)
      rwa [← hsent]
  | closed hrun hret hend =>
      refine .closed hrun hret (hends _ ?_)
      rwa [← hsent]
  | answered hrun hret hboundary hsent' hcalls hlast' hleft hend =>
      exact .answered hrun hret hboundary (by rw [hsent', hsent]) hcalls
        (hlast'.trans hlast) hleft fun ending hending => hends _ (hend _ hending)

theorem AtLine.served_storage {stream : Bytes} {limit p i : Nat}
    {m : Message} {start : State} {left : Bytes}
    (hat : AtLine stream limit p c)
    (hprocess : process env clock c = respond c
      (Command.run env (cmdProcessCommand (clock i) m.bytes) start))
    (hret : ∀ resp db, Command.run env (cmdProcessCommand (clock i) m.bytes)
      start = .ok (resp, db) → resp.ret = 0)
    (hcalls : c.calls = i) (hrest : stream.drop (p + 2) = left ++ rest)
    (hleft : left = [] ∨ left = crlf ∧ m.Blurred) {c₀ : Conn}
    (harrives : Arrives env clock c₀ c) (hworld : SameWorld c₀ c) :
    Served env clock m rest start c₀ i := by
  cases hrun : Command.run env (cmdProcessCommand (clock i) m.bytes) start with
  | error e =>
      refine .terminated hrun (harrives _ ?_)
      rw [hprocess, hrun, ← hworld.sent]
      rfl
  | ok result =>
      obtain ⟨resp, db⟩ := result
      have hzero := hret resp db hrun
      obtain ⟨c₁, hrespond, hboundary, hsent, rfl, hcalls', hlast⟩ :=
        hat.respond_reply db hzero
      rw [hrest] at hboundary
      refine .answered hrun hzero hboundary ?_ ?_ ?_ hleft
        fun ending hending => harrives _ ?_
      · rw [hsent, hworld.sent]
      · rw [hcalls', hcalls]
      · rw [hlast, hworld.last]
      · rw [hprocess, hrun, hrespond]
        exact hending

theorem Caught.handleFlush (hclock : ∀ i j, i ≤ j → (clock i).flush ≤ (clock j).flush)
    {s : Store} {n : Nat}
    (hflush : ∀ i, n ≤ i → handleFlush (clock i).flush s =
      handleFlush (clock i).flush s₀) {c' : Conn}
    (hdb : c'.db = ⟨Dblru.handleFlush (clock n).flush s, Locks.free⟩)
    (hcalls : c'.calls = n + 1) : Caught clock s₀ c' := by
  refine ⟨_, hdb, fun i hi => ?_⟩
  rw [handleFlush_twice (hclock n i (by omega)), hflush i (by omega)]

section Steps

variable {c' : Conn} {limit p : Nat}
  (wf : h.WellFormed data.length)
  (hsmall : (Message.storage h data).bytes.length + 100 < 1073741824)
  (hclock : ∀ i j, i ≤ j → (clock i).flush ≤ (clock j).flush)
  (hcaught : Caught clock s₀ c) (harrives : Arrives env clock c c')
  (hat : AtLine (storageStream h data rest) limit p c')
  (hworld : SameWorld c c')
  (hcrlf : crlf <+: (storageStream h data rest).drop p)
  (hready : c'.readMore ≤ 0)
include wf hsmall hcaught harrives hat hworld hcrlf hready

theorem served_of_complete {d left : Bytes}
    (htake : (storageStream h data rest).take (p + 2) =
      h.line ++ (crlf ++ d))
    (hdrop : (storageStream h data rest).drop (p + 2) = left ++ rest)
    (hd : d.take data.length = data) (hlength : d.length ≤ data.length + 2)
    (hleft : left = [] ∨ left = crlf ∧ (Message.storage h data).Blurred) :
    Served env clock (.storage h data) rest ⟨s₀, Locks.free⟩ c c.calls := by
  obtain ⟨s, hdb, hflush⟩ := hcaught
  obtain ⟨hrun, hret⟩ :=
    run_complete env wf hsmall hd hlength (hflush c.calls le_rfl)
  refine hat.served_storage ?_ hret hworld.calls hdrop hleft harrives hworld
  rw [hat.process_eq env clock hcrlf hready, hworld.calls, hworld.db, hdb, htake, hrun]

include hclock in
theorem collecting_of_partial {m : Nat} (hp : p = h.line.length + m)
    (hm : m < data.length) (hinside : p + 2 ≤ blockEnd h data) :
    ∃ c₁, Collecting clock h data rest s₀ c₁ ∧ c₁.pos = p ∧
      c₁.sent = c.sent ∧ c₁.last = c.last ∧ c₁.calls = c.calls + 1 ∧
      ∀ ending, Ends (round env clock) c₁ ending →
        Ends (round env clock) c ending := by
  subst hp
  obtain ⟨s, hdb, hflush⟩ := hcaught
  have hlen : (data.take m).length = m := List.length_take_of_le hm.le
  have hprocess := hat.process_eq env clock hcrlf hready
  rw [storageStream_take hm.le, hworld.calls, hworld.db, hdb,
    run_partial wf hsmall (by omega), hlen] at hprocess
  obtain ⟨c₁, hrespond, hholds, hclean, hpos, hsent, hdb₁, hcalls, hlast, -⟩ :=
    hat.respond_more (Nat.sub_pos_of_lt (by omega : m < data.length + 2))
      ⟨handleFlush (clock c.calls).flush s, Locks.free⟩
  rw [hworld.calls] at hcalls
  have hlimit : h.line.length + m + 2 + (data.length + 2 - m) =
      blockEnd h data + 2 := by
    unfold blockEnd
    omega
  rw [hlimit] at hholds
  refine ⟨c₁, ⟨hholds, hclean, by omega, by omega, ?_⟩, hpos,
    hsent.trans hworld.sent, hlast.trans hworld.last, hcalls, ?_⟩
  · exact Caught.handleFlush hclock hflush hdb₁ hcalls
  · intro ending hending
    refine harrives ending ?_
    rw [hprocess, hrespond]
    exact hending

end Steps

theorem suffix_of_crlf (hcrlf : crlf <+:
    (storageStream h data rest).drop (h.line.length + data.length))
    (hlong : 2 ≤ data.length) : crlf <:+ data := by
  have htake := take_crlf hcrlf
  rw [storageStream_take le_rfl, List.take_length] at htake
  have hsuffix : crlf <:+ h.line ++ (crlf ++ data) := by
    rw [htake]
    exact List.suffix_append _ _
  have hdata : data <:+ h.line ++ (crlf ++ data) :=
    ⟨h.line ++ crlf, by simp⟩
  exact List.suffix_of_suffix_length_le hsuffix hdata hlong

theorem Collecting.served (wf : h.WellFormed data.length)
    (hsmall : (Message.storage h data).bytes.length + 100 < 1073741824)
    (hclock : ∀ i j, i ≤ j → (clock i).flush ≤ (clock j).flush)
    (hc : Collecting clock h data rest s₀ c) :
    ∃ i, c.calls ≤ i ∧
      Served env clock (.storage h data) rest ⟨s₀, Locks.free⟩ c i := by
  -- the position moves towards the end of the block
  induction hleft : blockEnd h data - c.pos using Nat.strong_induction_on
      generalizing c with
  | _ left ih =>
      have hlength : (Message.storage h data).bytes.length =
          blockEnd h data + 2 := by
        simp only [Message.bytes, blockEnd, crlf, List.length_append,
          List.length_cons, List.length_nil]
        omega
      have hstarted := hc.started
      have hcaught := hc.caught
      obtain ⟨i, hfind, hwhere⟩ := storageStream_next_crlf rest hc.inside
      obtain ⟨c', harrives, hat, hworld⟩ := hc.holds.next_line env clock
        hc.clean hfind (by unfold intLimit; omega) (by unfold intLimit; omega)
      have hcrlf := find?_isPrefixOf hfind
      rw [List.drop_drop] at hcrlf
      generalize hp : c.pos + 2 + i = p at hat hcrlf hwhere
      have hpos := hat.pos
      have hupper := hat.holds.upper
      rcases hwhere with rfl | hinside
      · refine ⟨c.calls, le_rfl, ?_⟩
        have htake : (storageStream h data rest).take (blockEnd h data + 2) =
            h.line ++ (crlf ++ (data ++ crlf)) := storageStream_take_all
        exact served_of_complete wf hsmall hcaught harrives hat hworld hcrlf
          (by omega) htake storageStream_drop_all List.take_left (by simp [crlf])
          (.inl rfl)
      by_cases hmore : 0 < c'.readMore
      · have hnext : Collecting clock h data rest s₀ c' := by
          refine ⟨hat.holds, hat.clean, by omega, by omega, ?_⟩
          obtain ⟨s, hdb, hflush⟩ := hcaught
          exact ⟨s, hworld.db.trans hdb, by rwa [hworld.calls]⟩
        obtain ⟨j, hj, hserved⟩ := ih _ (by omega) hnext rfl
        rw [hworld.calls] at hj
        refine ⟨j, hj, hserved.of_later ?_ hworld.sent hworld.last⟩
        intro ending hending
        refine harrives ending ?_
        rw [AtLine.process_wait hmore]
        exact hending
      obtain ⟨m, rfl⟩ : ∃ m, p = h.line.length + m :=
        ⟨p - h.line.length, by omega⟩
      have hm : m ≤ data.length := by
        unfold blockEnd at hinside
        omega
      rcases hm.lt_or_eq with hshort | rfl
      · obtain ⟨c₁, hnext, hpos₁, hsent, hlast, hcalls, hends⟩ :=
          collecting_of_partial wf hsmall hclock hcaught harrives hat hworld
            hcrlf (by omega) rfl hshort hinside
        obtain ⟨j, hj, hserved⟩ := ih _ (by omega) hnext rfl
        exact ⟨j, by omega, hserved.of_later hends hsent hlast⟩
      · -- the block ends in CRLF, which is taken for the one behind it
        refine ⟨c.calls, le_rfl, ?_⟩
        have htake : (storageStream h data rest).take
            (h.line.length + data.length + 2) = _ := storageStream_take hm
        rw [List.take_length] at htake
        have hblock : h.line.length + data.length + 2 = blockEnd h data := by
          unfold blockEnd
          omega
        have hdrop : (storageStream h data rest).drop
            (h.line.length + data.length + 2) = crlf ++ rest := by
          rw [hblock, storageStream_drop_block]
        exact served_of_complete wf hsmall hcaught harrives hat hworld hcrlf
          (by omega) htake hdrop List.take_length (by omega)
          (.inr ⟨rfl, .inr (suffix_of_crlf hcrlf (by omega))⟩)

theorem two_le_line_length (h : Header) : 2 ≤ h.line.length := by
  have hword : 2 ≤ (ascii h.word.text).length := by
    cases h.word <;> decide
  rw [Header.line, List.length_append]
  omega

theorem served_storage (wf : h.WellFormed data.length)
    (hsmall : (Message.storage h data).bytes.length + 100 < 1073741824)
    (hclock : ∀ i j, i ≤ j → (clock i).flush ≤ (clock j).flush)
    (hdb : c.db = ⟨s₀, Locks.free⟩)
    (hc : Boundary ((Message.storage h data).bytes ++ rest) c) :
    ∃ i, c.calls ≤ i ∧
      Served env clock (.storage h data) rest c.db c i := by
  have hlength : (Message.storage h data).bytes.length =
      blockEnd h data + 2 := by
    simp only [Message.bytes, blockEnd, crlf, List.length_append,
      List.length_cons, List.length_nil]
    omega
  have hblock : blockEnd h data = h.line.length + 2 + data.length := rfl
  rw [bytes_append_rest] at hc
  obtain ⟨c', harrives, hat, hworld, -⟩ := hc.first_line env clock
    (two_le_line_length h) wf.oneLine (by omega)
  have hcaught : Caught clock s₀ c := ⟨s₀, hdb, fun _ _ => rfl⟩
  have hcrlf := find?_isPrefixOf
    (find?_crlf wf.oneLine (data ++ (crlf ++ rest)))
  have hupper := hat.holds.upper
  rw [hdb]
  rcases Nat.eq_zero_or_pos data.length with hempty | hpositive
  · obtain rfl : data = [] := List.eq_nil_of_length_eq_zero hempty
    have htake : (storageStream h [] rest).take (h.line.length + 0 + 2) = _ :=
      storageStream_take (Nat.zero_le _)
    have hdrop : (storageStream h [] rest).drop (blockEnd h []) =
        crlf ++ rest := storageStream_drop_block
    exact ⟨c.calls, le_rfl, served_of_complete wf hsmall hcaught harrives hat
      hworld hcrlf (by omega) htake hdrop rfl (by simp)
      (.inr ⟨rfl, .inl rfl⟩)⟩
  · obtain ⟨c₁, hnext, -, hsent, hlast, hcalls, hends⟩ :=
      collecting_of_partial wf hsmall hclock hcaught harrives hat hworld hcrlf
        (by omega) (Nat.add_zero _).symm hpositive (by omega)
    obtain ⟨i, hi, hserved⟩ := hnext.served wf hsmall hclock
    exact ⟨i, by omega, hserved.of_later hends hsent hlast⟩

end Storage

/-! ## All requests -/

section Messages

variable {env : Env} {clock : Nat → Times} {c : Conn}

theorem Boundary.waits {left : Bytes} (h : Boundary left c)
    (hleft : left = [] ∨ left = crlf) :
    Ends (round env clock) c ⟨c.sent, c.last.outcome c.db⟩ := by
  have hshort : left.length ≤ 2 := by
    rcases hleft with rfl | rfl <;> decide
  have hnone : find? crlf (left.drop (c.pos + 2)) = none := by
    rw [h.pos, List.drop_eq_nil_of_le hshort]
    rfl
  refine h.holds.no_line env clock h.clean hnone (by decide) ?_
  rw [h.pos]
  unfold intLimit
  omega

variable (env) in
theorem Boundary.served {m : Message} {rest : Bytes} (hwell : m.WellFormed)
    (hsmall : m.bytes.length + 100 < 1073741824)
    (hclock : ∀ i j, i ≤ j → (clock i).flush ≤ (clock j).flush) {s : Store}
    (hdb : c.db = ⟨s, Locks.free⟩) (h : Boundary (m.bytes ++ rest) c) :
    ∃ i, c.calls ≤ i ∧ Served env clock m rest c.db c i := by
  cases m with
  | line text =>
      refine ⟨c.calls, le_rfl, served_line hwell ?_ hdb h⟩
      rw [Message.bytes, List.length_append] at hsmall
      omega
  | storage header data => exact served_storage hwell hsmall hclock hdb h

theorem run_free {α : Type} {p : Command α} {s : Store} {a : α} {t : State}
    (h : Command.run env p ⟨s, Locks.free⟩ = .ok (a, t)) :
    t = ⟨t.store, Locks.free⟩ := by
  have hfree : t.locks = Locks.free := by
    refine Prog.run_invariant (Op.exec env) (fun t => t.locks = Locks.free) ?_
      rfl h
    rintro op ⟨s, locks⟩ r t' rfl hexec
    exact (Op.exec_cases hexec).1
  rw [← hfree]

theorem Boundary.served_all (last : NoData)
    (hclock : ∀ i j, i ≤ j → (clock i).flush ≤ (clock j).flush)
    (messages : List Message) :
    ∀ {c : Conn} {s : Store}, (∀ m ∈ messages, m.WellFormed) →
      (∀ m ∈ messages, m.bytes.length + 100 < 1073741824) →
      (∀ m ∈ messages.dropLast, ¬ m.Blurred) →
      Boundary (messages.map Message.bytes).flatten c →
      c.db = ⟨s, Locks.free⟩ → c.last = last →
      ∃ calls : List Nat, calls.length = messages.length ∧
        calls.Pairwise (· < ·) ∧ (∀ i ∈ calls, c.calls ≤ i) ∧
        let ending := oneByOne env last
          ((calls.map clock).zip (messages.map Message.bytes)) c.db
        Ends (round env clock) c ⟨c.sent ++ ending.sent, ending.outcome⟩ := by
  induction messages with
  | nil =>
      intro c s _ _ _ h _ hlast
      refine ⟨[], rfl, .nil, by simp, ?_⟩
      simp only [List.map_nil, List.zip_nil_right, oneByOne, List.append_nil,
        ← hlast]
      exact h.waits (.inl rfl)
  | cons m messages ih =>
      intro c s hwell hsmall hdistinct h hdb hlast
      rw [List.map_cons, List.flatten_cons] at h
      obtain ⟨i, hi, hserved⟩ := h.served env (hwell m (by simp))
        (hsmall m (by simp)) hclock hdb
      have hlater : ∀ j ∈ List.range' i (messages.length + 1), c.calls ≤ j := by
        intro j hj
        have hij := (List.mem_range'_1.mp hj).1
        omega
      cases hserved with
      | terminated hrun hend =>
          refine ⟨List.range' i (messages.length + 1), by simp,
            List.pairwise_lt_range', hlater, ?_⟩
          simp only [List.range'_succ, List.map_cons, List.zip_cons_cons,
            oneByOne, hrun, List.append_nil]
          exact hend
      | closed hrun hret hend =>
          refine ⟨List.range' i (messages.length + 1), by simp,
            List.pairwise_lt_range', hlater, ?_⟩
          simp only [List.range'_succ, List.map_cons, List.zip_cons_cons,
            oneByOne, hrun, hret, if_true, List.append_nil]
          exact hend
      | @answered resp c' left hrun hret hboundary hsent hcalls hlast' hleft
          hends =>
          have hgoes : ¬ resp.ret < 0 := by omega
          have hnext : ∃ calls : List Nat, calls.length = messages.length ∧
              calls.Pairwise (· < ·) ∧ (∀ j ∈ calls, c'.calls ≤ j) ∧
              let ending := oneByOne env last
                ((calls.map clock).zip (messages.map Message.bytes)) c'.db
              Ends (round env clock) c'
                ⟨c'.sent ++ ending.sent, ending.outcome⟩ := by
            cases messages with
            | nil =>
                refine ⟨[], rfl, .nil, by simp, ?_⟩
                rw [List.map_nil, List.flatten_nil, List.append_nil]
                  at hboundary
                simp only [List.map_nil, List.zip_nil_right, oneByOne,
                  List.append_nil, ← hlast, ← hlast']
                exact hboundary.waits (hleft.imp_right And.left)
            | cons m' messages =>
                have hnot : ¬ m.Blurred := hdistinct m (by simp)
                obtain rfl : left = [] :=
                  hleft.resolve_right fun hblurred => hnot hblurred.2
                rw [hdb] at hrun
                exact ih (fun m hm => hwell m (by simp [hm]))
                  (fun m hm => hsmall m (by simp [hm]))
                  (fun m hm => hdistinct m (by
                    rw [List.dropLast_cons_cons]
                    exact List.mem_cons_of_mem _ hm))
                  hboundary (run_free hrun) (hlast'.trans hlast)
          obtain ⟨calls, hlength, hpairwise, hfrom, hending⟩ := hnext
          refine ⟨i :: calls, by simp [hlength], ?_, ?_, ?_⟩
          · refine List.pairwise_cons.mpr ⟨fun j hj => ?_, hpairwise⟩
            have hij := hfrom j hj
            omega
          · rintro j (_ | ⟨_, hj⟩)
            · exact hi
            · have hij := hfrom j hj
              omega
          · simp only [List.map_cons, List.zip_cons_cons, oneByOne, hrun, hgoes,
              if_false]
            rw [← List.append_assoc, ← hsent]
            exact hends _ hending

/-- The replies and the store are those of the requests handed over one by one,
however `recv` cuts the stream. -/
theorem sockHandleIncomingConn_oneByOne (env : Env) (clock : Nat → Times)
    (hclock : ∀ i j, i ≤ j → (clock i).flush ≤ (clock j).flush)
    (messages : List Message) (hwell : ∀ m ∈ messages, m.WellFormed)
    (hsmall : ∀ m ∈ messages, m.bytes.length + 100 < 1073741824)
    (hdistinct : ∀ m ∈ messages.dropLast, ¬ m.Blurred)
    (chunks : List Bytes)
    (hchunks : ∀ chunk ∈ chunks, chunk ≠ [] ∧ chunk.length ≤ 80)
    (hstream : chunks.flatten = (messages.map Message.bytes).flatten)
    (last : NoData) (s : Store) :
    ∃ calls : List Nat, calls.length = messages.length ∧
      calls.Pairwise (· < ·) ∧
      ∃ fuel, sockHandleIncomingConn env clock fuel chunks last
          ⟨s, Locks.free⟩ =
        some (oneByOne env last
          ((calls.map clock).zip (messages.map Message.bytes))
          ⟨s, Locks.free⟩) := by
  have hstart : Boundary (messages.map Message.bytes).flatten
      { chunks := chunks, last := last, db := ⟨s, Locks.free⟩ } :=
    ⟨rfl, rfl, rfl, rfl, hstream, hchunks, by simp⟩
  obtain ⟨calls, hlength, hpairwise, -, hends⟩ :=
    Boundary.served_all last hclock messages hwell hsmall hdistinct hstart rfl
      rfl
  exact ⟨calls, hlength, hpairwise, hends.exists_loopFor⟩

end Messages

/-! ## Two connections -/

def setHeader (bytes : String) : Header :=
  { word := .set, key := ascii "k", flags := ascii "0", expTime := ascii "0",
    bytes := ascii bytes }

theorem setHeader_wellFormed {bytes : String} {n : Nat}
    (hspace : space ∉ ascii bytes) (hcount : stoul (ascii bytes) = .ok n)
    (hline : ¬ crlf <:+: (setHeader bytes).line) :
    (setHeader bytes).WellFormed n :=
  ⟨rfl, show space ∉ ascii "k" by decide, show space ∉ ascii "0" by decide,
    show space ∉ ascii "0" by decide, hspace, List.not_mem_nil,
    ⟨0, show stoul (ascii "0") = .ok 0 by decide⟩, hcount, hline⟩

theorem getLine_wellFormed : (Message.line (ascii "get k")).WellFormed := by
  refine ⟨by decide, by decide, fun w hw => ?_⟩
  have hget : Word.ofBytes (commandWord (ascii "get k" ++ crlf)) =
      some .get := by decide
  rw [hget] at hw
  cases hw
  rfl

/-- A block with a CRLF in it, cut in the middle of both. -/
theorem sockHandleIncomingConn_setGet :
    let messages := [Message.storage (setHeader "5") (ascii "a\r\nbc"),
      .line (ascii "get k")]
    let chunks := [ascii "set k 0 0 5\r\na\r", ascii "\nbc\r\nge",
      ascii "t k\r\n"]
    chunks.flatten = (messages.map Message.bytes).flatten ∧
    ∃ calls : List Nat, calls.length = messages.length ∧
      calls.Pairwise (· < ·) ∧
      ∃ fuel, sockHandleIncomingConn Env.x86 (fun _ => .const 1000) fuel chunks
          .wouldBlock State.init =
        some (oneByOne Env.x86 .wouldBlock
          ((calls.map fun _ => .const 1000).zip (messages.map Message.bytes))
          State.init) := by
  intro messages chunks
  have hstream : chunks.flatten = (messages.map Message.bytes).flatten := by
    decide
  refine ⟨hstream, ?_⟩
  refine sockHandleIncomingConn_oneByOne Env.x86 (fun _ => .const 1000)
    (fun _ _ _ => le_rfl) messages ?_ ?_ ?_ chunks (by decide) hstream
    .wouldBlock Store.init
  · intro m hm
    simp only [messages, List.mem_cons, List.not_mem_nil, or_false] at hm
    rcases hm with rfl | rfl
    · exact setHeader_wellFormed (by decide) (by decide) (by decide)
    · exact getLine_wellFormed
  · decide
  · intro m hm
    simp only [messages, List.dropLast_cons_cons, List.dropLast_singleton,
      List.mem_singleton] at hm
    subst hm
    unfold Message.Blurred
    decide

/-- The CRLF behind an empty block is taken for the beginning of the next
request. -/
theorem emptyBlock_leaves_crlf :
    ¬ ∀ (env : Env) (clock : Nat → Times) (messages : List Message)
        (chunks : List Bytes) (last : NoData) (s : Store),
      (∀ i j, i ≤ j → (clock i).flush ≤ (clock j).flush) →
      (∀ m ∈ messages, m.WellFormed) →
      (∀ m ∈ messages, m.bytes.length + 100 < 1073741824) →
      (∀ chunk ∈ chunks, chunk ≠ [] ∧ chunk.length ≤ 80) →
      chunks.flatten = (messages.map Message.bytes).flatten →
      ∃ calls : List Nat, calls.length = messages.length ∧
        calls.Pairwise (· < ·) ∧
        ∃ fuel, sockHandleIncomingConn env clock fuel chunks last
            ⟨s, Locks.free⟩ =
          some (oneByOne env last
            ((calls.map clock).zip (messages.map Message.bytes))
            ⟨s, Locks.free⟩) := by
  intro hall
  obtain ⟨calls, hlength, -, fuel, hfuel⟩ := hall Env.x86
    (fun _ => .const 1000)
    [.storage (setHeader "0") [], .line (ascii "get k")]
    [ascii "set k 0 0 0\r\n\r\nget k\r\n"] .wouldBlock Store.init
    (fun _ _ _ => le_rfl) (by
      intro m hm
      simp only [List.mem_cons, List.not_mem_nil, or_false] at hm
      rcases hm with rfl | rfl
      · exact setHeader_wellFormed (by decide) (by decide) (by decide)
      · exact getLine_wellFormed)
    (by decide) (by decide) (by decide)
  obtain ⟨i, j, rfl⟩ := List.length_eq_two.mp hlength
  have hsent : (sockHandleIncomingConn Env.x86 (fun _ => .const 1000) 5
      [ascii "set k 0 0 0\r\n\r\nget k\r\n"] .wouldBlock State.init).map
        Ending.sent = some (ascii "STORED\r\nERROR\r\n") := by
    decide +kernel
  obtain ⟨ending, hending, hreplies⟩ := Option.map_eq_some_iff.mp hsent
  have hsame := (ends_of_loopFor hending).unique (ends_of_loopFor hfuel)
  have hwrong : (oneByOne Env.x86 .wouldBlock
      (([i, j].map fun _ => Times.const 1000).zip
        ([.storage (setHeader "0") [], .line (ascii "get k")].map
          Message.bytes)) State.init).sent ≠
        ascii "STORED\r\nERROR\r\n" := by
    simp only [List.map_cons, List.map_nil, List.zip_cons_cons, List.zip_nil_right]
    decide +kernel
  rw [hsame] at hreplies
  exact hwrong hreplies

end Memstashed.Ssock
